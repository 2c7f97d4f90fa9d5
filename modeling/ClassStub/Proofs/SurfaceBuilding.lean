import ClassStub.Proofs.Description

/-! # Building surfaces

A builder that has its header takes every other event, and what it collects of the description of a
class is the surface of the description. -/

namespace ClassStub

namespace SurfaceBuilder

variable {builder : SurfaceBuilder} {header : ClassHeader} {name : String}

@[simp] theorem header_keep (name : String) (builder : SurfaceBuilder) (event : ClassEvent) :
    (keep name builder event).header = builder.header := by
  cases event with
  | nested link =>
    dsimp only [keep]
    split <;> rfl
  | field field =>
    dsimp only [keep]
    split <;> rfl
  | method method =>
    dsimp only [keep]
    split <;> rfl
  | _ => rfl

/-- Behind the header every event but another header is accepted. -/
theorem visit_ok (hheader : builder.header = some header) {event : ClassEvent}
    (hevent : event.kind ≠ .header) :
    visit event builder = .ok () (keep header.name builder event) := by
  cases builder
  cases hheader
  cases event with
  | header _ => exact absurd rfl hevent
  | _ => rfl

/-- A run behind the header keeps event after event. -/
theorem forM_visit_ok (hheader : builder.header = some header) {events : List ClassEvent}
    (hevents : ∀ event ∈ events, event.kind ≠ .header) :
    events.forM visit builder = .ok () (events.foldl (keep header.name) builder) := by
  induction events generalizing builder with
  | nil => rfl
  | cons event events ih =>
    obtain ⟨hevent, hrest⟩ := List.forall_mem_cons.1 hevents
    refine Run.forM_cons_ok.2 ⟨_, visit_ok hheader hevent, ih ?_ hrest⟩
    rw [header_keep, hheader]

theorem foldl_keep_enclosing (enclosing : Option EnclosingLink) :
    (enclosing.toList.map .enclosing).foldl (keep name) builder =
      { builder with enclosing := enclosing.or builder.enclosing } := by
  cases enclosing <;> rfl

theorem foldl_keep_annotated (items : List Annotation) :
    (items.map .annotated).foldl (keep name) builder =
      { builder with annotations := items.reverse ++ builder.annotations } := by
  induction items generalizing builder with
  | nil => rfl
  | cons item items ih =>
    rw [List.map_cons, List.foldl_cons, ih, List.reverse_cons, List.append_assoc]
    rfl

theorem foldl_keep_typeAnnotated (items : List TypeAnnotation) :
    (items.map .typeAnnotated).foldl (keep name) builder =
      { builder with typeAnnotations := items.reverse ++ builder.typeAnnotations } := by
  induction items generalizing builder with
  | nil => rfl
  | cons item items ih =>
    rw [List.map_cons, List.foldl_cons, ih, List.reverse_cons, List.append_assoc]
    rfl

/-- The part of some items that belongs to the surface. -/
def retained {α : Type} (membership : α → Membership) (items : List α) : List α :=
  items.filter fun item => membership item = .retain

theorem foldl_keep_nested (links : List NestedLink) :
    (links.map .nested).foldl (keep name) builder =
      { builder with
        nested := (retained (·.membership name) links).reverse ++ builder.nested } := by
  induction links generalizing builder with
  | nil => rfl
  | cons link links ih =>
    rw [List.map_cons, List.foldl_cons, ih, retained, retained, List.filter_cons]
    by_cases hretain : link.membership name = .retain
    · simp [keep, hretain]
    · simp [keep, hretain]

theorem foldl_keep_field (fields : List Field) :
    (fields.map .field).foldl (keep name) builder =
      { builder with fields := (retained Field.membership fields).reverse ++ builder.fields } := by
  induction fields generalizing builder with
  | nil => rfl
  | cons field fields ih =>
    rw [List.map_cons, List.foldl_cons, ih, retained, retained, List.filter_cons]
    by_cases hretain : field.membership = .retain
    · simp [keep, hretain]
    · simp [keep, hretain]

theorem foldl_keep_method (methods : List Method) :
    (methods.map .method).foldl (keep name) builder =
      { builder with
        methods := (retained Method.membership methods).reverse ++ builder.methods } := by
  induction methods generalizing builder with
  | nil => rfl
  | cons method methods ih =>
    rw [List.map_cons, List.foldl_cons, ih, retained, retained, List.filter_cons]
    by_cases hretain : method.membership = .retain
    · simp [keep, hretain]
    · simp [keep, hretain]

end SurfaceBuilder

open SurfaceBuilder (retained)

namespace ClassDescription

/-- The surface of a described class. -/
def surface (description : ClassDescription) : Surface where
  header := description.header
  enclosing := description.enclosing
  nested := .ofList (retained (·.membership description.header.name) description.nested)
  annotations := .ofList description.annotations
  typeAnnotations := .ofList description.typeAnnotations
  fields := .ofList (retained Field.membership description.fields)
  methods := .ofList (retained Method.membership description.methods)

/-- The events behind the header. -/
def body (description : ClassDescription) : List ClassEvent :=
  (description.enclosing.toList.map .enclosing
    ++ description.annotations.map .annotated
    ++ description.typeAnnotations.map .typeAnnotated
    ++ description.nested.map .nested)
    ++ (description.fields.map .field ++ (description.methods.map .method ++ [.finish]))

theorem events_eq (description : ClassDescription) :
    description.events = .header description.header :: description.body :=
  rfl

theorem kind_of_mem_body {description : ClassDescription} {event : ClassEvent}
    (h : event ∈ description.body) : event.kind ≠ .header := by
  unfold body at h
  simp only [List.append_assoc, List.mem_append, List.mem_map, List.mem_singleton] at h
  rcases h with ⟨_, _, rfl⟩ | ⟨_, _, rfl⟩ | ⟨_, _, rfl⟩ | ⟨_, _, rfl⟩ | ⟨_, _, rfl⟩ | ⟨_, _, rfl⟩
    | rfl
  all_goals exact nofun

theorem foldl_keep_body (description : ClassDescription) (name : String) :
    description.body.foldl (SurfaceBuilder.keep name) { header := some description.header } =
      { header := some description.header
        enclosing := description.enclosing
        nested := (retained (·.membership name) description.nested).reverse
        annotations := description.annotations.reverse
        typeAnnotations := description.typeAnnotations.reverse
        fields := (retained Field.membership description.fields).reverse
        methods := (retained Method.membership description.methods).reverse } := by
  unfold body
  simp only [List.foldl_append, SurfaceBuilder.foldl_keep_enclosing,
    SurfaceBuilder.foldl_keep_annotated, SurfaceBuilder.foldl_keep_typeAnnotated,
    SurfaceBuilder.foldl_keep_nested, SurfaceBuilder.foldl_keep_field,
    SurfaceBuilder.foldl_keep_method, Option.or_none, List.append_nil]
  rfl

/-- The events of a description build its surface. -/
theorem forM_visit_events (description : ClassDescription) :
    ∃ builder, description.events.forM SurfaceBuilder.visit {} = .ok () builder
      ∧ builder.finish = .ok description.surface := by
  have hfirst : SurfaceBuilder.visit (.header description.header) {} =
      .ok () { header := some description.header } := rfl
  have hbody : description.body.forM SurfaceBuilder.visit { header := some description.header } =
      .ok () _ :=
    SurfaceBuilder.forM_visit_ok rfl fun _ => kind_of_mem_body
  rw [foldl_keep_body] at hbody
  refine ⟨_, Run.forM_cons_ok.2 ⟨_, hfirst, hbody⟩, ?_⟩
  simp only [SurfaceBuilder.finish, SurfaceBuilder.nestedSet, List.reverse_reverse]
  rfl

end ClassDescription

/-- The surface of a class file is that of its description. -/
theorem ClassFile.surface_ok {file : ClassFile} {surface : Surface} :
    file.surface = .ok surface ↔
      ∃ description, file.Describes description ∧ description.surface = surface := by
  unfold ClassFile.surface
  constructor
  · intro h
    cases houtcome : (file.replay SurfaceBuilder.visit).outcome {} with
    | mk result builder =>
      rw [houtcome] at h
      obtain ⟨_, hresult, hfinish⟩ := bind_eq_ok.1 h
      rw [hresult] at houtcome
      obtain ⟨description, hdescribes, hevents⟩ := ClassFile.replay_ok.1 (Run.outcome_ok.1 houtcome)
      obtain ⟨builder', hevents', hfinish'⟩ := description.forM_visit_events
      rw [hevents] at hevents'
      cases hevents'
      rw [hfinish] at hfinish'
      exact ⟨description, hdescribes, (Except.ok.inj hfinish').symm⟩
  · rintro ⟨description, hdescribes, rfl⟩
    obtain ⟨builder, hevents, hfinish⟩ := description.forM_visit_events
    have houtcome := Run.outcome_ok.2 (ClassFile.replay_ok.2 ⟨description, hdescribes, hevents⟩)
    rw [houtcome]
    exact bind_eq_ok.2 ⟨(), rfl, hfinish⟩

end ClassStub
