import ClassStub.Proofs.Attempts
import ClassStub.Proofs.ReadBack
import ClassStub.Proofs.WrittenClasses

/-! # What refused events leave behind

An assembly may be told on after it refused an event. Of a refused event it keeps constants in the
pool, which its class file need not name, and nothing else, with one exception: a header that runs
out of space behind some of its interfaces leaves these listed, and they stay in front of those of
the header that is accepted later. -/

namespace ClassStub

/-- A pool that was filled by adding constants, and can be counted. -/
structure Pool.InBounds (pool : Pool) : Prop where
  sound : pool.Sound anyText
  slots : pool.slots.size ≤ Pool.maxSlots

theorem Pool.InBounds.grow {pool next : Pool} (h : pool.InBounds)
    (hgrown : pool.Grown anyText next) : next.InBounds where
  sound := hgrown.sound
  slots := Nat.le_trans hgrown.size_le (Nat.max_le.2 ⟨h.slots, Nat.le_refl _⟩)

/-- The error for a pool without space. -/
abbrev StubError.outOfSpace : StubError :=
  .generation (.pool .outOfSpace)

namespace Assembly

/-! ## Additions to the pool -/

/-- Only the pool of an assembly was added to. -/
def ExtendsTo (assembly next : Assembly) : Prop :=
  ∃ pool : Pool, next = { assembly with pool } ∧ pool.InBounds ∧ assembly.pool ≤ pool

variable {assembly next : Assembly} {style : BodyStyle} {left : List String}

/-- Run on behind an addition to the pool, which fails only for lack of space. -/
theorem ensures_interning_bind {α β : Type} {action : PoolM α} {meaning : Pool → α → Prop}
    {next : α → Run Assembly β} {done : β → Assembly → Prop} {failed : StubError → Assembly → Prop}
    (hpool : assembly.pool.InBounds) (haction : Interns anyText action meaning)
    (hnext : ∀ value reached, assembly.ExtendsTo reached →
      (∀ later, reached.pool ≤ later → meaning later value) →
      (next value).Ensures reached done failed)
    (hfailed : ∀ reached, assembly.ExtendsTo reached → failed .outOfSpace reached) :
    (interning action >>= next).Ensures assembly done failed := by
  have hrun := haction assembly.pool hpool.sound
  have hfirst : (interning action).Ensures assembly
      (fun value reached => assembly.ExtendsTo reached
        ∧ ∀ later, reached.pool ≤ later → meaning later value) failed := by
    unfold Run.Ensures interning
    dsimp only
    cases haction : action assembly.pool with
    | ok value pool =>
      rw [haction] at hrun
      exact ⟨⟨pool, rfl, hpool.grow hrun.1, hrun.1.le⟩, hrun.2⟩
    | error cause pool =>
      rw [haction] at hrun
      obtain ⟨hgrown, rfl⟩ := hrun
      exact hfailed _ ⟨pool, rfl, hpool.grow hgrown, hgrown.le⟩
  apply hfirst.bind
  intro value reached hreached
  exact hnext value reached hreached.1 hreached.2

/-- Run on in an assembly that is open, and leave one that is not open as it is. -/
theorem ensures_requireOpen_bind {β : Type} {kind : EventKind} {next : Unit → Run Assembly β}
    {done : β → Assembly → Prop} {failed : StubError → Assembly → Prop}
    (hnext : assembly.header.isSome → assembly.finished = false →
      (next ()).Ensures assembly done failed)
    (hfailed : ∀ cause, failed (.protocol cause) assembly) :
    (requireOpen kind >>= next).Ensures assembly done failed := by
  have hfirst : (requireOpen kind).Ensures assembly
      (fun _ reached => reached = assembly ∧ assembly.header.isSome ∧ assembly.finished = false)
      failed := by
    unfold requireOpen
    apply Run.ensures_get_bind
    by_cases hheader : assembly.header.isNone
    · rw [if_pos hheader]
      exact hfailed _
    · rw [if_neg hheader]
      by_cases hfinished : assembly.finished
      · rw [if_pos hfinished]
        exact hfailed _
      · rw [if_neg hfinished]
        exact ⟨rfl, by simpa [Option.isSome_iff_ne_none] using hheader, by simpa using hfinished⟩
  apply hfirst.bind
  rintro ⟨⟩ reached ⟨rfl, hheader, hfinished⟩
  exact hnext hheader hfinished

/-! ## Stages -/

/-- An assembly that accepted nothing, but may have listed interfaces. -/
structure Waiting (style : BodyStyle) (left : List String) (assembly : Assembly) : Prop where
  pool : assembly.pool.InBounds
  bodies : assembly.bodies = style
  header : assembly.header = none
  fields : assembly.fields = #[]
  methods : assembly.methods = #[]
  enclosing : assembly.enclosing = none
  annotations : assembly.annotations = #[]
  typeAnnotations : assembly.typeAnnotations = #[]
  nested : assembly.nested = #[]
  finished : assembly.finished = false
  interfaces : List.Forall₂ (fun name index => assembly.pool.getClassName index = .ok name)
    left assembly.interfaces.toList

/-- An assembly that accepted what there is to tell of a class. -/
structure Told (style : BodyStyle) (left : List String) (description : ClassDescription)
    (assembly : Assembly) : Prop where
  pool : assembly.pool.InBounds
  bodies : assembly.bodies = style
  header : assembly.header = some description.header
  enclosing : assembly.enclosing = description.enclosing
  annotations : assembly.annotations.toList = description.annotations
  typeAnnotations : assembly.typeAnnotations.toList = description.typeAnnotations
  nested : assembly.nested.toList = description.nested
  begun : ((description.layout style).behind left).IsBegunAs assembly.build

/-- An assembly that may be told of more. -/
structure Opened (style : BodyStyle) (left : List String) (description : ClassDescription)
    (assembly : Assembly) : Prop extends Told style left description assembly where
  finished : assembly.finished = false

/-- The events that an assembly accepted are a header, then others, and then the closing event. -/
inductive Stage (style : BodyStyle) (left : List String) : List ClassEvent → Assembly → Prop where
  | waiting {assembly : Assembly} (hwaiting : assembly.Waiting style left) :
      Stage style left [] assembly
  | opened {header : ClassHeader} {middle : List ClassEvent} {assembly : Assembly}
      (hmiddle : ∀ event ∈ middle, event.kind ≠ .header ∧ event.kind ≠ .finish)
      (hopened : assembly.Opened style left (.ofEvents header middle)) :
      Stage style left (.header header :: middle) assembly
  | closed {header : ClassHeader} {middle : List ClassEvent} {assembly : Assembly}
      (hmiddle : ∀ event ∈ middle, event.kind ≠ .header ∧ event.kind ≠ .finish)
      (htold : assembly.Told style left (.ofEvents header middle))
      (hfinished : assembly.finished = true)
      (hattributes : List.Forall₂ (AttributeLayout.IsWrittenAs assembly.pool)
        (ClassDescription.ofEvents header middle).attributeLayouts assembly.attributes) :
      Stage style left (.header header :: (middle ++ [.finish])) assembly

/-- The interfaces that an event added to the list before it was refused. -/
def leftBehind (before : Assembly) (event : ClassEvent) (after : Assembly) : List String :=
  match event with
  | .header header => header.interfaces.take (after.interfaces.size - before.interfaces.size)
  | _ => []

/-- A refused event leaves an assembly at its stage. It may have added interfaces to the list, if it
ran out of space. -/
structure Keeps (style : BodyStyle) (left : List String) (seen : List ClassEvent)
    (before : Assembly) (event : ClassEvent) (error : StubError) (after : Assembly) : Prop where
  stage : Stage style (left ++ leftBehind before event after) seen after
  error : leftBehind before event after ≠ [] → error = .outOfSpace

variable {seen : List ClassEvent} {event : ClassEvent}

theorem Stage.keeps (h : Stage style left seen next) (error : StubError)
    (hnothing : leftBehind assembly event next = []) :
    Keeps style left seen assembly event error next := by
  refine ⟨?_, fun hleft => absurd hnothing hleft⟩
  rwa [hnothing, List.append_nil]

theorem leftBehind_of_kind (hkind : event.kind ≠ .header) (before after : Assembly) :
    leftBehind before event after = [] := by
  cases event with
  | header header => exact absurd rfl hkind
  | _ => rfl

theorem leftBehind_of_size_eq (h : next.interfaces.size = assembly.interfaces.size) :
    leftBehind assembly event next = [] := by
  cases event with
  | header header => simp [leftBehind, h]
  | _ => rfl

theorem Waiting.extend (h : assembly.Waiting style left) (hnext : assembly.ExtendsTo next) :
    next.Waiting style left := by
  obtain ⟨pool, rfl, hpool, hle⟩ := hnext
  exact { h with
    pool := hpool
    interfaces := h.interfaces.imp fun _ _ => Pool.getClassName_mono hle }

theorem Waiting.size_interfaces (h : assembly.Waiting style left) :
    assembly.interfaces.size = left.length := by
  rw [h.interfaces.length_eq, Array.length_toList]

/-- A header that is refused leaves those interfaces that are listed behind the ones before. -/
theorem Waiting.leftBehind_eq {header : ClassHeader} {part : List String}
    (h : assembly.Waiting style left) (hnext : next.Waiting style (left ++ part))
    (hpart : part <+: header.interfaces) : leftBehind assembly (.header header) next = part := by
  have hsize : next.interfaces.size - assembly.interfaces.size = part.length := by
    rw [h.size_interfaces, hnext.size_interfaces, List.length_append, Nat.add_sub_cancel_left]
  rw [leftBehind, hsize]
  exact (List.prefix_iff_eq_take.1 hpart).symm

/-- One more interface is listed. -/
theorem Waiting.list (h : assembly.Waiting style left) {name : String} {index : UInt16}
    (hindex : assembly.pool.getClassName index = .ok name) :
    Waiting style (left ++ [name])
      { assembly with interfaces := assembly.interfaces.push index } :=
  { h with
    interfaces := by
      rw [Array.toList_push]
      exact List.rel_append h.interfaces (.cons hindex .nil) }

theorem Told.extend {description : ClassDescription} (h : assembly.Told style left description)
    (hnext : assembly.ExtendsTo next) : next.Told style left description := by
  obtain ⟨pool, rfl, hpool, hle⟩ := hnext
  exact { h with
    pool := hpool
    begun := h.begun.mono hle }

theorem Opened.extend {description : ClassDescription} (h : assembly.Opened style left description)
    (hnext : assembly.ExtendsTo next) : next.Opened style left description where
  toTold := h.toTold.extend hnext
  finished := by
    obtain ⟨pool, rfl, -⟩ := hnext
    exact h.finished

/-! ## The header -/

/-- All that is asked of a name in a class file is that it is found there. -/
theorem interns_addClass (name : String) :
    Interns anyText (Pool.addClass name) fun later index => later.getClassName index = .ok name :=
  (Pool.interns_addClass trivial).mono fun _ _ hindex => hindex.2

/-- Interfaces are listed up to the one for which there is no space. -/
theorem Waiting.ensures_list (h : assembly.Waiting style left) (names : List String) :
    (names.forM fun name => do
        let index ← interning (Pool.addClass name)
        modify fun assembly => { assembly with interfaces := assembly.interfaces.push index }
      : Run Assembly PUnit).Ensures assembly
      (fun _ next => next.Waiting style (left ++ names) ∧ ∃ pool interfaces,
        next = { assembly with pool, interfaces } ∧ assembly.pool ≤ pool)
      (fun error next => error = .outOfSpace
        ∧ ∃ part, part <+: names ∧ next.Waiting style (left ++ part)) := by
  induction names generalizing assembly left with
  | nil =>
    rw [List.append_nil]
    exact ⟨h, assembly.pool, assembly.interfaces, rfl, Pool.le_refl _⟩
  | cons name names ih =>
    rw [List.forM, bind_assoc]
    apply ensures_interning_bind h.pool (interns_addClass name)
    · intro index reached hreached hindex
      apply Run.ensures_modify_bind
      have hlisted : Waiting style (left ++ [name])
          { reached with interfaces := reached.interfaces.push index } :=
        (h.extend hreached).list (hindex _ (Pool.le_refl _))
      apply (ih hlisted).imp
      · intro _ next hnext
        rw [List.append_assoc] at hnext
        obtain ⟨pool, rfl, -, hle⟩ := hreached
        obtain ⟨hwaiting, later, interfaces, rfl, hlater⟩ := hnext
        exact ⟨hwaiting, later, interfaces, rfl, Pool.le_trans hle hlater⟩
      · intro error next hnext
        obtain ⟨herror, part, hpart, hwaiting⟩ := hnext
        rw [List.append_assoc] at hwaiting
        exact ⟨herror, name :: part, (List.prefix_cons_inj name).2 hpart, hwaiting⟩
    · intro reached hreached
      refine ⟨rfl, [], List.nil_prefix, ?_⟩
      rw [List.append_nil]
      exact h.extend hreached

/-- The header is accepted once all of it is in place. -/
theorem Waiting.accept {header : ClassHeader}
    (h : assembly.Waiting style (left ++ header.interfaces))
    (hversion : assembly.version = header.version) (haccess : assembly.access = header.access)
    (hname : assembly.pool.getClassName assembly.thisClass = .ok header.name)
    (hsuper : assembly.pool.getOptionalClassName assembly.superClass = .ok header.superName) :
    Opened style left (.ofEvents header []) { assembly with header := some header } where
  pool := h.pool
  bodies := h.bodies
  header := rfl
  enclosing := h.enclosing
  annotations := congrArg Array.toList h.annotations
  typeAnnotations := congrArg Array.toList h.typeAnnotations
  nested := congrArg Array.toList h.nested
  begun :=
    { magic := rfl
      version := hversion
      access := haccess
      name := hname
      superName := hsuper
      interfaces := h.interfaces
      fields := by
        unfold build
        rw [h.fields]
        exact .nil
      methods := by
        unfold build
        rw [h.methods]
        exact .nil }
  finished := h.finished

/-- A header is accepted as a whole, or else leaves the interfaces that it had listed. -/
theorem Waiting.ensures_visitHeader (h : assembly.Waiting style left) (header : ClassHeader) :
    (visitHeader header).Ensures assembly
      (fun _ next => next.Opened style left (.ofEvents header []))
      (fun error next => Keeps style left [] assembly (.header header) error next) := by
  have hfresh : ¬assembly.header.isSome = true := by
    rw [h.header]
    exact Bool.false_ne_true
  have hkeeps : ∀ part reached, part <+: header.interfaces →
      reached.Waiting style (left ++ part) →
      Keeps style left [] assembly (.header header) .outOfSpace reached := by
    intro part reached hpart hwaiting
    have hleft := h.leftBehind_eq hwaiting hpart
    exact ⟨.waiting (hleft ▸ hwaiting), fun _ => rfl⟩
  have hfailed : ∀ reached : Assembly, reached.Waiting style left →
      Keeps style left [] assembly (.header header) .outOfSpace reached := by
    intro reached hwaiting
    apply hkeeps [] reached List.nil_prefix
    rwa [List.append_nil]
  unfold visitHeader
  apply Run.ensures_get_bind
  rw [if_neg hfresh]
  apply Run.ensures_modify_bind
  have h : Waiting style left
      { assembly with version := header.version, access := header.access } := { h with }
  apply ensures_interning_bind h.pool (interns_addClass header.name) ?_ fun reached hreached =>
    hfailed reached (h.extend hreached)
  intro thisClass reached hreached hthis
  apply Run.ensures_modify_bind
  have h : Waiting style left { reached with thisClass } := { h.extend hreached with }
  obtain ⟨first, rfl, -⟩ := hreached
  apply ensures_interning_bind h.pool (Pool.interns_addOptionalClass fun _ _ => trivial) ?_
    fun reached hreached => hfailed reached (h.extend hreached)
  intro superClass reached hreached hsuper
  apply Run.ensures_modify_bind
  have h : Waiting style left { reached with superClass } := { h.extend hreached with }
  obtain ⟨second, rfl, -, hsecond⟩ := hreached
  apply ((h.ensures_list header.interfaces).imp (fun _ _ hnext => hnext) ?_).bind
  · intro _ next hnext
    obtain ⟨hlisted, pool, interfaces, rfl, hle⟩ := hnext
    have hname := hthis pool (Pool.le_trans hsecond hle)
    have hsuper := hsuper pool hle
    exact hlisted.accept rfl rfl hname hsuper
  · intro error next hnext
    obtain ⟨rfl, part, hpart, hwaiting⟩ := hnext
    exact hkeeps part next hpart hwaiting

/-! ## Events -/

variable {description : ClassDescription} {failed : StubError → Assembly → Prop}

/-- Run on behind an addition to the pool of an open assembly, which stays open if it fails. -/
theorem Opened.ensures_bind {α β : Type} {action : PoolM α} {meaning : Pool → α → Prop}
    {next : α → Run Assembly β} {done : β → Assembly → Prop}
    (h : assembly.Opened style left description) (haction : Interns anyText action meaning)
    (hnext : ∀ value reached, reached.Opened style left description →
      assembly.pool ≤ reached.pool → (∀ later, reached.pool ≤ later → meaning later value) →
      (next value).Ensures reached done failed)
    (hfailed : ∀ error reached, reached.Opened style left description → failed error reached) :
    (interning action >>= next).Ensures assembly done failed := by
  apply ensures_interning_bind h.pool haction
  · intro value reached hreached hmeaning
    have hopened := h.extend hreached
    obtain ⟨pool, rfl, -, hle⟩ := hreached
    exact hnext value _ hopened hle hmeaning
  · intro reached hreached
    exact hfailed _ reached (h.extend hreached)

/-- A list of members grows by the member that was written last. -/
theorem forall₂_map_push {α : Type} {relation : MemberLayout → Member → Prop}
    {layout : α → MemberLayout} {items : List α} {members : Array Member} {item : α}
    {member : Member} (h : List.Forall₂ relation (items.map layout) members.toList)
    (hmember : relation (layout item) member) :
    List.Forall₂ relation ((items ++ [item]).map layout) (members.push member).toList := by
  rw [Array.toList_push, List.map_append]
  exact List.rel_append h (.cons hmember .nil)

section Steps

variable (h : assembly.Opened style left description)
  (hfailed : ∀ error reached, reached.Opened style left description → failed error reached)

include h hfailed

theorem Opened.ensures_visitField (field : Field) :
    (visitField field).Ensures assembly
      (fun _ next => next.Opened style left (description.add (.field field))) failed := by
  unfold visitField
  rw [field.encode_eq_write]
  apply h.ensures_bind field.layout.interns_write ?_ hfailed
  intro member reached hreached _ hmember
  have hfields := forall₂_map_push hreached.begun.fields (hmember _ (Pool.le_refl _))
  exact { hreached with begun := { hreached.begun with fields := hfields } }

theorem Opened.ensures_visitMethod (method : Method) :
    (visitMethod method).Ensures assembly
      (fun _ next => next.Opened style left (description.add (.method method))) failed := by
  unfold visitMethod
  apply Run.ensures_get_bind
  rw [h.bodies, method.encode_eq_write]
  apply h.ensures_bind (method.layout style).interns_write ?_ hfailed
  intro member reached hreached _ hmember
  have hmethods := forall₂_map_push hreached.begun.methods (hmember _ (Pool.le_refl _))
  exact { hreached with begun := { hreached.begun with methods := hmethods } }

/-- The nested links are counted before they are written. -/
theorem Opened.ensures_nestedAttribute_bind {β : Type} {links : List NestedLink}
    {next : List Attribute → Run Assembly β} {done : β → Assembly → Prop}
    (hnext : ∀ attributes reached, reached.Opened style left description →
      assembly.pool ≤ reached.pool →
      (∀ later, reached.pool ≤ later → List.Forall₂ (AttributeLayout.IsWrittenAs later)
        (Attribute.nestedLayouts links) attributes) →
      (next attributes).Ensures reached done failed) :
    (nestedAttribute links >>= next).Ensures assembly done failed := by
  unfold nestedAttribute checkCount
  by_cases hcount : links.length > 65535
  · rw [if_pos hcount]
    exact hfailed _ assembly h
  · rw [if_neg hcount, Attribute.nested_eq_writeAll]
    exact h.ensures_bind (Attribute.interns_writeAll _) hnext hfailed

/-- The attributes of the class are written in five groups. -/
theorem Opened.ensures_visitFinish :
    visitFinish.Ensures assembly
      (fun _ next => next.Told style left description ∧ next.finished = true
        ∧ List.Forall₂ (AttributeLayout.IsWrittenAs next.pool) description.attributeLayouts
          next.attributes) failed := by
  unfold visitFinish
  apply Run.ensures_get_bind
  rw [h.header, commonAttributes, Attribute.common_eq_writeAll]
  apply h.ensures_bind (Attribute.interns_writeAll _) ?_ hfailed
  intro common first h _ hcommon
  apply Run.ensures_get_bind
  rw [h.enclosing, Attribute.enclosing_eq_writeAll]
  apply h.ensures_bind (Attribute.interns_writeAll _) ?_ hfailed
  intro enclosing second h hsecond henclosing
  apply Run.ensures_get_bind
  rw [h.nested]
  apply h.ensures_nestedAttribute_bind hfailed
  intro nested third h hthird hnested
  apply Run.ensures_get_bind
  rw [h.annotations, Attribute.annotations_eq_writeAll]
  apply h.ensures_bind (Attribute.interns_writeAll _) ?_ hfailed
  intro annotations fourth h hfourth hannotations
  apply Run.ensures_get_bind
  rw [h.typeAnnotations, Attribute.typeAnnotations_eq_writeAll]
  apply h.ensures_bind (Attribute.interns_writeAll _) ?_ hfailed
  intro types last h hlast htypes
  -- Each group is in order from the pool of its time on, and the last pool is the latest.
  have hfromThird := Pool.le_trans hfourth hlast
  have hfromSecond := Pool.le_trans hthird hfromThird
  have hfromFirst := Pool.le_trans hsecond hfromSecond
  have hall := List.rel_append (List.rel_append (List.rel_append (List.rel_append
    (hcommon _ hfromFirst) (henclosing _ hfromSecond)) (hnested _ hfromThird))
    (hannotations _ hlast)) (htypes _ (Pool.le_refl _))
  exact ⟨{ h.toTold with begun := { h.begun with } }, rfl, hall⟩

end Steps

/-! ## Attempts -/

/-- Only a header that was accepted makes way for other events. -/
theorem Stage.exists_opened (h : Stage style left seen assembly) (hheader : assembly.header.isSome)
    (hfinished : assembly.finished = false) :
    ∃ header middle, seen = .header header :: middle
      ∧ (∀ event ∈ middle, event.kind ≠ .header ∧ event.kind ≠ .finish)
      ∧ assembly.Opened style left (.ofEvents header middle) := by
  cases h with
  | waiting hwaiting =>
    rw [hwaiting.header] at hheader
    cases hheader
  | opened hmiddle hopened => exact ⟨_, _, rfl, hmiddle, hopened⟩
  | closed hmiddle htold hclosed hattributes =>
    rw [hclosed] at hfinished
    cases hfinished

/-- A second header is refused, and nothing is kept of it. -/
theorem ensures_visitHeader_of_isSome {header : ClassHeader} {done : Unit → Assembly → Prop}
    (hheader : assembly.header.isSome) (hfailed : ∀ error, failed error assembly) :
    (visitHeader header).Ensures assembly done failed := by
  unfold visitHeader
  apply Run.ensures_get_bind
  rw [if_pos hheader]
  exact hfailed _

theorem Stage.ensures_visitHeader (h : Stage style left seen assembly) (header : ClassHeader) :
    (visitHeader header).Ensures assembly
      (fun _ next => Stage style left (seen ++ [.header header]) next)
      (fun error next => Keeps style left seen assembly (.header header) error next) := by
  have hkeeps : ∀ error, Keeps style left seen assembly (.header header) error assembly :=
    fun error => h.keeps error (leftBehind_of_size_eq rfl)
  cases h with
  | waiting hwaiting =>
    apply (hwaiting.ensures_visitHeader header).mono
    intro _ next hnext
    exact .opened (List.forall_mem_nil _) hnext
  | opened hmiddle hopened =>
    have hheader : assembly.header.isSome := by simp [hopened.header]
    exact ensures_visitHeader_of_isSome hheader hkeeps
  | closed hmiddle htold hclosed hattributes =>
    have hheader : assembly.header.isSome := by simp [htold.header]
    exact ensures_visitHeader_of_isSome hheader hkeeps

/-- An open assembly that took one more event is still open. -/
theorem Stage.opened_concat {header : ClassHeader} {middle : List ClassEvent}
    (hmiddle : ∀ event ∈ middle, event.kind ≠ .header ∧ event.kind ≠ .finish)
    (hkind : event.kind ≠ .header ∧ event.kind ≠ .finish)
    (h : next.Opened style left ((ClassDescription.ofEvents header middle).add event)) :
    Stage style left (.header header :: middle ++ [event]) next := by
  rw [← ClassDescription.ofEvents_concat] at h
  exact .opened (List.forall_mem_append.2 ⟨hmiddle, List.forall_mem_singleton.2 hkind⟩) h

/-- Whatever an assembly is tried with next, it takes it over as a whole or keeps to its stage. -/
theorem Stage.ensures_visit (h : Stage style left seen assembly) (event : ClassEvent) :
    (visit event).Ensures assembly (fun _ next => Stage style left (seen ++ [event]) next)
      (fun error next => Keeps style left seen assembly event error next) := by
  cases event
  case header header => exact h.ensures_visitHeader header
  all_goals
    refine ensures_requireOpen_bind (fun hheader hfinished => ?_) fun cause =>
      h.keeps _ rfl
    obtain ⟨header, middle, rfl, hmiddle, hopened⟩ := h.exists_opened hheader hfinished
    have hkeeps : ∀ {event}, event.kind ≠ .header → ∀ error reached,
        reached.Opened style left (.ofEvents header middle) →
        Keeps style left (.header header :: middle) assembly event error reached :=
      fun hkind error _ hreached =>
        (Stage.opened hmiddle hreached).keeps error (leftBehind_of_kind hkind assembly _)
  case enclosing link =>
    exact .opened_concat hmiddle (by simp [ClassEvent.kind])
      { hopened with enclosing := rfl, begun := { hopened.begun with } }
  case annotated item =>
    exact .opened_concat hmiddle (by simp [ClassEvent.kind])
      { hopened with
        annotations := by rw [Array.toList_push, hopened.annotations]; rfl
        begun := { hopened.begun with } }
  case typeAnnotated item =>
    exact .opened_concat hmiddle (by simp [ClassEvent.kind])
      { hopened with
        typeAnnotations := by rw [Array.toList_push, hopened.typeAnnotations]; rfl
        begun := { hopened.begun with } }
  case nested link =>
    exact .opened_concat hmiddle (by simp [ClassEvent.kind])
      { hopened with
        nested := by rw [Array.toList_push, hopened.nested]; rfl
        begun := { hopened.begun with } }
  case field field =>
    apply (hopened.ensures_visitField (hkeeps (by simp [ClassEvent.kind])) field).mono
    intro _ next hnext
    exact .opened_concat hmiddle (by simp [ClassEvent.kind]) hnext
  case method method =>
    apply (hopened.ensures_visitMethod (hkeeps (by simp [ClassEvent.kind])) method).mono
    intro _ next hnext
    exact .opened_concat hmiddle (by simp [ClassEvent.kind]) hnext
  case finish =>
    apply (hopened.ensures_visitFinish (hkeeps (by simp [ClassEvent.kind]))).mono
    intro _ next hnext
    obtain ⟨htold, hclosed, hattributes⟩ := hnext
    exact .closed hmiddle htold hclosed hattributes

/-- The interfaces that the refused events of an attempt added to the list. -/
def allLeftBehind (refusals : List (Consumer.Refusal Assembly)) : List String :=
  refusals.flatMap fun refusal => leftBehind refusal.before refusal.event refusal.after

/-- An assembly is at the stage that belongs to the events it accepted, and lists no interfaces
besides but those that refused headers left when they ran out of space. -/
structure Reached (style : BodyStyle) (assembly : Assembly) (seen : List ClassEvent)
    (refusals : List (Consumer.Refusal Assembly)) : Prop where
  stage : Stage style (allLeftBehind refusals) seen assembly
  errors : ∀ refusal ∈ refusals,
    leftBehind refusal.before refusal.event refusal.after ≠ [] → refusal.error = .outOfSpace

theorem Reached.ensures_visit {refusals : List (Consumer.Refusal Assembly)}
    (h : assembly.Reached style seen refusals) (event : ClassEvent) :
    (visit event).Ensures assembly
      (fun _ next => next.Reached style (seen ++ [event]) refusals)
      (fun error next =>
        next.Reached style seen (refusals ++ [⟨assembly, event, error, next⟩])) := by
  apply (h.stage.ensures_visit event).imp
  · intro _ next hnext
    exact ⟨hnext, h.errors⟩
  · intro error next hkeeps
    constructor
    · simpa [allLeftBehind] using hkeeps.stage
    · exact List.forall_mem_append.2 ⟨h.errors, List.forall_mem_singleton.2 hkeeps.error⟩

theorem reached_start (style : BodyStyle) : (start style).Reached style [] [] where
  stage := .waiting
    ⟨⟨Pool.sound_empty, Nat.zero_le _⟩, rfl, rfl, rfl, rfl, rfl, rfl, rfl, rfl, rfl, .nil⟩
  errors := List.forall_mem_nil _

theorem reached_attempt (style : BodyStyle) (events : List ClassEvent) :
    (Assembly.visit.attempt (start style) events).Reached style
      (Assembly.visit.accepted (start style) events)
      (Assembly.visit.refused (start style) events) :=
  Consumer.attempt_induction_refused (fun assembly => Reached style assembly)
    (fun _ _ _ event h => h.ensures_visit event) (reached_start style)

/-- Only an assembly that accepted the closing event has a class file. Its nested links are counted
once more. -/
theorem finished_of_toClassFile {file : ClassFile} (h : assembly.toClassFile = .ok file) :
    assembly.finished = true ∧ assembly.nested.size ≤ 65535 := by
  unfold toClassFile at h
  by_cases hheader : assembly.header.isNone
  · rw [if_pos hheader] at h
    cases h
  · rw [if_neg hheader] at h
    by_cases hfinished : assembly.finished
    · rw [hfinished, if_neg (by decide)] at h
      obtain ⟨_, hcounts, -⟩ := bind_eq_ok.1 h
      obtain ⟨_, -, hcounts⟩ := bind_eq_ok.1 (mapError_eq_ok.1 hcounts)
      obtain ⟨_, -, hcounts⟩ := bind_eq_ok.1 hcounts
      obtain ⟨_, -, hcounts⟩ := bind_eq_ok.1 hcounts
      exact ⟨hfinished, checkCount_ok hcounts⟩
    · rw [Bool.not_eq_true] at hfinished
      rw [hfinished] at h
      cases h

/-- A class file is written from the layout of the class that the accepted events tell of, behind
the interfaces that are listed besides. -/
theorem Stage.exists_isWrittenAs (h : Stage style left seen assembly) {file : ClassFile}
    (hfile : assembly.toClassFile = .ok file) :
    ∃ header middle, seen = .header header :: (middle ++ [.finish])
      ∧ (∀ event ∈ middle, event.kind ≠ .header ∧ event.kind ≠ .finish)
      ∧ assembly.Told style left (.ofEvents header middle)
      ∧ (((ClassDescription.ofEvents header middle).layout style).behind
        left).IsWrittenAs file := by
  have hfinished := (finished_of_toClassFile hfile).1
  obtain ⟨rfl, -⟩ := toClassFile_ok hfile
  cases h with
  | waiting hwaiting =>
    rw [hwaiting.finished] at hfinished
    cases hfinished
  | opened hmiddle hopened =>
    rw [hopened.finished] at hfinished
    cases hfinished
  | closed hmiddle htold hclosed hattributes =>
    exact ⟨_, _, rfl, hmiddle, htold, { htold.begun with attributes := hattributes }⟩

/-- The layout of the class file of an attempt that accepts a header and then other events: that of
the class they tell of, behind the interfaces that refused events left. -/
def attemptLayout (style : BodyStyle) (events : List ClassEvent) (header : ClassHeader)
    (middle : List ClassEvent) : ClassLayout :=
  ((ClassDescription.ofEvents header middle).layout style).behind
    (allLeftBehind (Assembly.visit.refused (start style) events))

/-- Whatever events an assembly is tried with, and whichever of them it refuses, its class file is
written from the layout of the class that the accepted events tell of, unless a refused header ran
out of space behind one of its interfaces: such interfaces stand in front of those of the class. -/
theorem isWrittenAs_attempt {style : BodyStyle} {events : List ClassEvent} {file : ClassFile}
    (hfile : (Assembly.visit.attempt (start style) events).toClassFile = .ok file) :
    ∃ header middle,
      Assembly.visit.accepted (start style) events = .header header :: (middle ++ [.finish])
      ∧ (∀ event ∈ middle, event.kind ≠ .header ∧ event.kind ≠ .finish)
      ∧ (attemptLayout style events header middle).IsWrittenAs file
      ∧ (((ClassDescription.ofEvents header middle).layout style).IsWrittenAs file ↔
          allLeftBehind (Assembly.visit.refused (start style) events) = [])
      ∧ ∀ refusal ∈ Assembly.visit.refused (start style) events,
        leftBehind refusal.before refusal.event refusal.after ≠ [] →
          refusal.error = .outOfSpace := by
  have hreached := reached_attempt style events
  obtain ⟨header, middle, hseen, hmiddle, -, hwritten⟩ := hreached.stage.exists_isWrittenAs hfile
  exact ⟨header, middle, hseen, hmiddle, hwritten, ClassLayout.isWrittenAs_iff_of_behind hwritten,
    hreached.errors⟩

/-- Events of a class `A` that is enclosed in itself. An enclosing link that comes too early, a
second header, and an enclosing link that comes too late are refused. -/
def interruptedEvents : List ClassEvent :=
  [.enclosing { owner := "B" }, .header headerOfClassA, .header headerOfClassA,
    .enclosing { owner := "A" }, .finish, .enclosing { owner := "C" }]

/-- The class is enclosed in `A`, and neither in `B` nor in `C`. -/
theorem isWrittenAs_attempt_interrupted :
    (Assembly.visit.attempt (start .omit) interruptedEvents).toClassFile =
        .ok (selfEnclosed .omit).build
      ∧ ((ClassDescription.ofEvents headerOfClassA [.enclosing { owner := "A" }]).layout
          .omit).IsWrittenAs (selfEnclosed .omit).build := by
  have hearly : Assembly.visit (.enclosing { owner := "B" }) (start .omit) =
      .error (.protocol (.beforeHeader .enclosing)) (start .omit) := rfl
  have hheader := visit_header_ofClassA .omit
  have hsecond : Assembly.visit (.header headerOfClassA) (ofClassA .omit) =
      .error (.protocol (.secondHeader "A")) (ofClassA .omit) := rfl
  have hlink : Assembly.visit (.enclosing { owner := "A" }) (ofClassA .omit) =
      .ok () { ofClassA .omit with enclosing := some { owner := "A" } } := rfl
  have hfinish := visit_finish_ofClassA .omit
  have hlate : Assembly.visit (.enclosing { owner := "C" }) (selfEnclosed .omit) =
      .error (.protocol (.afterFinish .enclosing)) (selfEnclosed .omit) := rfl
  have hfile : (Assembly.visit.attempt (start .omit) interruptedEvents).toClassFile =
      .ok (selfEnclosed .omit).build := by
    rw [interruptedEvents, Consumer.attempt_cons_of_error hearly,
      Consumer.attempt_cons_of_ok hheader, Consumer.attempt_cons_of_error hsecond,
      Consumer.attempt_cons_of_ok hlink, Consumer.attempt_cons_of_ok hfinish,
      Consumer.attempt_cons_of_error hlate, Consumer.attempt_nil]
    rfl
  have haccepted : Assembly.visit.accepted (start .omit) interruptedEvents =
      .header headerOfClassA :: ([.enclosing { owner := "A" }] ++ [.finish]) := by
    rw [interruptedEvents, Consumer.accepted_cons_of_error hearly,
      Consumer.accepted_cons_of_ok hheader, Consumer.accepted_cons_of_error hsecond,
      Consumer.accepted_cons_of_ok hlink, Consumer.accepted_cons_of_ok hfinish,
      Consumer.accepted_cons_of_error hlate, Consumer.accepted]
    rfl
  have hleft : allLeftBehind (Assembly.visit.refused (start .omit) interruptedEvents) = [] := by
    rw [interruptedEvents, Consumer.refused_cons_of_error hearly,
      Consumer.refused_cons_of_ok hheader, Consumer.refused_cons_of_error hsecond,
      Consumer.refused_cons_of_ok hlink, Consumer.refused_cons_of_ok hfinish,
      Consumer.refused_cons_of_error hlate, Consumer.refused]
    rfl
  obtain ⟨header, middle, hseen, -, -, hwritten, -⟩ := isWrittenAs_attempt hfile
  rw [haccepted, List.cons.injEq, ClassEvent.header.injEq] at hseen
  obtain ⟨rfl, hmiddle⟩ := hseen
  obtain rfl := List.append_cancel_right hmiddle
  exact ⟨hfile, hwritten.2 hleft⟩

end Assembly

end ClassStub
