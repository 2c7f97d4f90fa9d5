import ClassStub.Proofs.Attempts
import ClassStub.Proofs.HiddenParts

/-! # Surfaces of arbitrary runs

What a builder collects of events in any order, of which it refuses some. It refuses what comes
before the header and every further header, and these leave no trace. Of the rest it keeps the last
enclosing link and, in canonical order, the first exposed part with each key. -/

namespace ClassStub

attribute [local instance] lexOrd

/-! ## The first of each key -/

/-- The items that are the first delivered with their key, in strictly increasing order of the
keys. -/
structure FirstOfEach {α κ : Type} [Ord κ] [DecidableEq κ] (key : α → κ)
    (delivered items : List α) : Prop where
  increasing : items.Pairwise fun a b => compare (key a) (key b) = .lt
  mem_iff : ∀ item, item ∈ items ↔ delivered.find? (fun other => key other = key item) = some item

/-- A canonical set that is built from a list holds the first item of each key. -/
theorem CanonicalSet.firstOfEach_ofList {α κ : Type} [Keyed α] [Ord κ] [DecidableEq κ]
    (key : α → κ) (hcompare : ∀ a b : α, Keyed.compare a b = compare (key a) (key b))
    (hkey : ∀ a b : α, Keyed.key a = Keyed.key b ↔ key a = key b) (items : List α) :
    FirstOfEach key items (ofList items).toList where
  increasing := (ofList items).increasing.imp fun h => hcompare _ _ ▸ h
  mem_iff item := by
    have hagree : agree item = fun other => decide (key other = key item) := by
      funext other
      rw [Bool.eq_iff_iff, agree_iff, hkey, decide_eq_true_eq, eq_comm]
    rw [mem_ofList_iff, hagree]

/-- A surface holds what belongs to it of all that was told of a class: the last enclosing link,
and of the parts that are not hidden the first with each key. -/
structure Surface.Collects (surface : Surface) (told : ClassDescription) : Prop where
  header : surface.header = told.header
  enclosing : surface.enclosing = told.enclosing
  fields : FirstOfEach (fun field : Field => (field.name, field.descriptor))
    (exposed Field.IsHidden told.fields) surface.fields.toList
  methods : FirstOfEach (fun method : Method => (method.name, method.descriptor))
    (exposed Method.IsHidden told.methods) surface.methods.toList
  nested : FirstOfEach
    (fun link : NestedLink => (link.name, link.outerName.getD "", link.simpleName.getD ""))
    (exposed (NestedLink.IsHidden told.header.name) told.nested) surface.nested.toList
  annotations : FirstOfEach Annotation.canonicalKey told.annotations surface.annotations.toList
  typeAnnotations : FirstOfEach
    (fun item : TypeAnnotation => (item.siteBytes, item.content.canonicalKey))
    told.typeAnnotations surface.typeAnnotations.toList

theorem ClassDescription.collects_surface (told : ClassDescription) :
    told.surface.Collects told where
  header := rfl
  enclosing := rfl
  fields := by
    rw [← retained_eq_exposed Field.membership_eq_retain]
    exact CanonicalSet.firstOfEach_ofList (fun field : Field => (field.name, field.descriptor))
      (fun _ _ => rfl) (fun _ _ => Iff.rfl) _
  methods := by
    rw [← retained_eq_exposed Method.membership_eq_retain]
    exact CanonicalSet.firstOfEach_ofList (fun method : Method => (method.name, method.descriptor))
      (fun _ _ => rfl) (fun _ _ => Iff.rfl) _
  nested := by
    rw [← retained_eq_exposed (NestedLink.membership_eq_retain told.header.name)]
    exact CanonicalSet.firstOfEach_ofList
      (fun link : NestedLink => (link.name, link.outerName.getD "", link.simpleName.getD ""))
      (fun _ _ => rfl) (fun _ _ => Iff.rfl) _
  annotations := CanonicalSet.firstOfEach_ofList Annotation.canonicalKey
    (fun _ _ => rfl) (fun _ _ => Iff.rfl) _
  typeAnnotations := CanonicalSet.firstOfEach_ofList
    (fun item : TypeAnnotation => (item.siteBytes, item.content.canonicalKey))
    (fun _ _ => rfl) (fun _ _ => Iff.rfl) _

namespace SurfaceBuilder

variable {builder next : SurfaceBuilder} {header : ClassHeader} {event : ClassEvent}

/-! ## One event -/

/-- Before the header every other event is refused. -/
theorem visit_of_none (hheader : builder.header = none) (hevent : event.kind ≠ .header) :
    visit event builder = .error (.protocol (.headerRequired event.kind)) builder := by
  cases builder
  cases hheader
  cases event with
  | header _ => exact absurd rfl hevent
  | _ => rfl

/-- The first header is taken. -/
theorem visit_header_of_none (hheader : builder.header = none) (header : ClassHeader) :
    visit (.header header) builder = .ok () { builder with header := some header } := by
  cases builder
  cases hheader
  rfl

/-- Every further header is refused. -/
theorem visit_header_of_some {existing : ClassHeader} (hheader : builder.header = some existing)
    (header : ClassHeader) : visit (.header header) builder =
      .error (.protocol (.headerAlreadySet header.name existing.name)) builder := by
  cases builder
  cases hheader
  rfl

/-- A builder that refuses an event is as it was. -/
theorem eq_of_visit_error {error : StubError} (h : visit event builder = .error error next) :
    next = builder := by
  cases hheader : builder.header with
  | none =>
    by_cases hevent : event.kind = .header
    · cases event
      case header header =>
        rw [visit_header_of_none hheader] at h
        cases h
      all_goals cases hevent
    · rw [visit_of_none hheader hevent] at h
      cases h
      rfl
  | some existing =>
    by_cases hevent : event.kind = .header
    · cases event
      case header header =>
        rw [visit_header_of_some hheader] at h
        cases h
        rfl
      all_goals cases hevent
    · rw [visit_ok hheader hevent] at h
      cases h

theorem after_of_none (hheader : builder.header = none) (hevent : event.kind ≠ .header) :
    visit.after builder event = builder :=
  Consumer.after_of_error (visit_of_none hheader hevent)

/-- Behind the header every event is kept if it belongs to the surface, and leaves no trace if it
is refused. -/
theorem after_eq_keep (hheader : builder.header = some header) (event : ClassEvent) :
    visit.after builder event = keep header.name builder event := by
  by_cases hevent : event.kind = .header
  · cases event
    case header other => exact Consumer.after_of_error (visit_header_of_some hheader other)
    all_goals cases hevent
  · exact Consumer.after_of_ok (visit_ok hheader hevent)

/-! ## Runs -/

/-- Without a header a builder stays empty. -/
theorem attempt_of_none {events : List ClassEvent} (hheader : builder.header = none)
    (hevents : ∀ event ∈ events, event.kind ≠ .header) :
    visit.attempt builder events = builder := by
  induction events with
  | nil => rfl
  | cons event events ih =>
    obtain ⟨hevent, hrest⟩ := List.forall_mem_cons.1 hevents
    rw [Consumer.attempt_cons, after_of_none hheader hevent, ih hrest]

/-- The builder that was told of a class. -/
def ofTold (told : ClassDescription) : SurfaceBuilder where
  header := some told.header
  enclosing := told.enclosing
  nested := (retained (·.membership told.header.name) told.nested).reverse
  annotations := told.annotations.reverse
  typeAnnotations := told.typeAnnotations.reverse
  fields := (retained Field.membership told.fields).reverse
  methods := (retained Method.membership told.methods).reverse

theorem reverse_retained_concat {α : Type} (membership : α → Membership) (items : List α)
    (item : α) : (retained membership (items ++ [item])).reverse =
      if membership item = .retain then item :: (retained membership items).reverse
      else (retained membership items).reverse := by
  by_cases hretain : membership item = .retain
  · simp [retained, hretain]
  · simp [retained, hretain]

/-- One more event is told. -/
theorem keep_ofTold (told : ClassDescription) (event : ClassEvent) :
    keep told.header.name (ofTold told) event = ofTold (told.add event) := by
  cases event with
  | nested link =>
    simp only [keep, ofTold, ClassDescription.add, reverse_retained_concat]
    split <;> rfl
  | field field =>
    simp only [keep, ofTold, ClassDescription.add, reverse_retained_concat]
    split <;> rfl
  | method method =>
    simp only [keep, ofTold, ClassDescription.add, reverse_retained_concat]
    split <;> rfl
  | _ => simp [keep, ofTold, ClassDescription.add]

/-- Behind the header a builder is told of everything, event after event. -/
theorem attempt_ofTold (told : ClassDescription) (events : List ClassEvent) :
    visit.attempt (ofTold told) events = ofTold (events.foldl ClassDescription.add told) := by
  induction events generalizing told with
  | nil => rfl
  | cons event events ih =>
    have hkeep : visit.after (ofTold told) event = ofTold (told.add event) := by
      have hheader : (ofTold told).header = some told.header := rfl
      rw [after_eq_keep hheader, keep_ofTold]
    rw [Consumer.attempt_cons, hkeep, ih, List.foldl_cons]

/-- A builder is told of what stands behind the first header. -/
theorem attempt_header {before : List ClassEvent} (hbefore : ∀ event ∈ before, event.kind ≠ .header)
    (header : ClassHeader) (later : List ClassEvent) :
    visit.attempt {} (before ++ .header header :: later) = ofTold (.ofEvents header later) := by
  have hfirst : visit.after {} (.header header) = ofTold (.ofEvents header []) :=
    Consumer.after_of_ok (visit_header_of_none rfl header)
  rw [Consumer.attempt_append, attempt_of_none rfl hbefore, Consumer.attempt_cons, hfirst,
    attempt_ofTold, ClassDescription.foldl_add_ofEvents, List.nil_append]

theorem finish_ofTold (told : ClassDescription) : (ofTold told).finish = .ok told.surface := by
  simp [finish, ofTold, nestedSet, ClassDescription.surface]

/-- Events hold a first header, or none. -/
theorem exists_first_header {events : List ClassEvent}
    (h : ∃ event ∈ events, event.kind = .header) :
    ∃ before header later, events = before ++ .header header :: later
      ∧ ∀ event ∈ before, event.kind ≠ .header := by
  cases hfirst : events.find? fun event => decide (event.kind = .header) with
  | none =>
    obtain ⟨event, hevent, hkind⟩ := h
    have hnone := List.find?_eq_none.1 hfirst event hevent
    exact absurd (decide_eq_true hkind) hnone
  | some first =>
    obtain ⟨hkind, before, later, rfl, hbefore⟩ := List.find?_eq_some_iff_append.1 hfirst
    cases first with
    | header header => exact ⟨before, header, later, rfl, by simpa using hbefore⟩
    | _ => cases hkind

/-- A builder that is tried with events in any order is as it was after those it refuses, has a
surface exactly if there was a header, and then collects what the events behind the first header
tell. -/
theorem finish_attempt (events : List ClassEvent) :
    (∀ builder event error next, visit event builder = .error error next → next = builder)
      ∧ ((∃ error, (visit.attempt {} events).finish = .error error) ↔
        ∀ event ∈ events, event.kind ≠ .header)
      ∧ ∀ before header later, events = before ++ .header header :: later →
        (∀ event ∈ before, event.kind ≠ .header) →
          ∃ surface, (visit.attempt {} events).finish = .ok surface
            ∧ surface.Collects (.ofEvents header later) := by
  have hsurface : ∀ before header later, events = before ++ .header header :: later →
      (∀ event ∈ before, event.kind ≠ .header) →
        ∃ surface, (visit.attempt {} events).finish = .ok surface
          ∧ surface.Collects (.ofEvents header later) := by
    rintro before header later rfl hbefore
    refine ⟨_, ?_, ClassDescription.collects_surface _⟩
    rw [attempt_header hbefore, finish_ofTold]
  refine ⟨fun _ _ _ _ => eq_of_visit_error, ?_, hsurface⟩
  constructor
  · rintro ⟨error, herror⟩
    by_contra hheader
    push Not at hheader
    obtain ⟨before, header, later, hevents, hbefore⟩ := exists_first_header hheader
    obtain ⟨surface, hfinish, -⟩ := hsurface before header later hevents hbefore
    rw [herror] at hfinish
    cases hfinish
  · intro hevents
    rw [attempt_of_none rfl hevents]
    exact ⟨_, rfl⟩

/-- A field is told before the header, then a private one, a public one and a static one of the same
name and descriptor, and between them the header once more. -/
theorem finish_attempt_repeatedField :
    ∃ surface, (visit.attempt {} [.field (.plain 0x0001 "x" "J"),
        .header Assembly.headerOfClassA, .field (.plain 0x0002 "x" "I"),
        .field (.plain 0x0001 "x" "I"), .header Assembly.headerOfClassA,
        .field (.plain 0x0009 "x" "I"), .finish]).finish = .ok surface
      ∧ surface.header = Assembly.headerOfClassA
      ∧ .plain 0x0001 "x" "I" ∈ surface.fields.toList
      ∧ .plain 0x0009 "x" "I" ∉ surface.fields.toList
      ∧ .plain 0x0001 "x" "J" ∉ surface.fields.toList := by
  obtain ⟨surface, hfinish, hcollects⟩ := (finish_attempt _).2.2
    [.field (.plain 0x0001 "x" "J")] Assembly.headerOfClassA
    [.field (.plain 0x0002 "x" "I"), .field (.plain 0x0001 "x" "I"),
      .header Assembly.headerOfClassA, .field (.plain 0x0009 "x" "I"), .finish] rfl
    (by simp [ClassEvent.kind])
  refine ⟨surface, hfinish, hcollects.header, (hcollects.fields.mem_iff _).2 rfl, ?_, ?_⟩
  · intro hmem
    have hfirst := (hcollects.fields.mem_iff _).1 hmem
    cases hfirst
  · intro hmem
    have hfirst := (hcollects.fields.mem_iff _).1 hmem
    cases hfirst

end SurfaceBuilder

end ClassStub
