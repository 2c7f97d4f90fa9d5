import ClassStub.Proofs.AssembledClasses
import ClassStub.Proofs.Restubbing

/-! # How assembling a surface fails

A surface is told to an assembly in an order that the assembly asks for, so no event is refused. As
long as its parts can be counted in 16 bits, all that can go wrong is that the pool runs out of
space. The class file that is assembled has no fault but those that the class had already. -/

namespace ClassStub

/-- The error of an assembly whose pool has no space left. -/
def ForSpace (error : StubError) (_ : Assembly) : Prop :=
  error = .generation (.pool .outOfSpace)

namespace Assembly

variable {assembly : Assembly} {told : ClassDescription}

/-- An open assembly with a closed pool has as many parts as the class that it was told of. -/
structure Tallies (told : ClassDescription) (assembly : Assembly) : Prop where
  closed : assembly.pool.Closed
  header : assembly.header = some told.header
  unfinished : assembly.finished = false
  interfaces : assembly.interfaces.size = told.header.interfaces.length
  fields : assembly.fields.size = told.fields.length
  methods : assembly.methods.size = told.methods.length
  nested : assembly.nested.size = told.nested.length

theorem ensures_interning {α : Type} {action : PoolM α} {meaning : Pool → α → Prop}
    (hclosed : assembly.pool.Closed) (haction : Links (fun _ => True) action meaning) :
    (interning action).Ensures assembly
      (fun _ next => ∃ pool, pool.Closed ∧ next = { assembly with pool }) ForSpace := by
  have hrun := haction assembly.pool hclosed fun _ _ => trivial
  unfold Run.Ensures interning
  dsimp only
  cases haction : action assembly.pool with
  | ok value pool =>
    rw [haction] at hrun
    exact ⟨pool, hrun.1, rfl⟩
  | error cause pool =>
    rw [haction] at hrun
    exact congrArg (fun cause => StubError.generation (.pool cause)) hrun.2.2

namespace Tallies

/-- An open assembly takes events. -/
theorem requireOpen (h : assembly.Tallies told) (kind : EventKind) :
    (requireOpen kind).Ensures assembly (fun _ next => next = assembly) ForSpace := by
  have hrun : Assembly.requireOpen kind assembly = .ok () assembly := by
    unfold Assembly.requireOpen
    refine Run.bind_ok.2 ⟨_, _, rfl, ?_⟩
    rw [h.header, h.unfinished]
    rfl
  unfold Run.Ensures
  rw [hrun]

theorem visitField (h : assembly.Tallies told) (field : Field) :
    (visitField field).Ensures assembly
      (fun _ next => next.Tallies (told.add (.field field))) ForSpace := by
  refine (ensures_interning h.closed field.links_encode).bind ?_
  rintro member _ ⟨pool, hpool, rfl⟩
  exact { h with closed := hpool, fields := by simp [ClassDescription.add, h.fields] }

theorem visitMethod (h : assembly.Tallies told) (method : Method) :
    (visitMethod method).Ensures assembly
      (fun _ next => next.Tallies (told.add (.method method))) ForSpace := by
  refine Run.ensures_get_bind ?_
  refine (ensures_interning h.closed (method.links_encode assembly.bodies)).bind ?_
  rintro member _ ⟨pool, hpool, rfl⟩
  exact { h with closed := hpool, methods := by simp [ClassDescription.add, h.methods] }

/-- An open assembly takes every event but a second header, unless there is no space. -/
theorem step (h : assembly.Tallies told) {event : ClassEvent} (hheader : event.kind ≠ .header)
    (hfinish : event.kind ≠ .finish) :
    (visit event).Ensures assembly (fun _ next => next.Tallies (told.add event)) ForSpace := by
  cases event
  case header => exact absurd rfl hheader
  case finish => exact absurd rfl hfinish
  all_goals
    refine (h.requireOpen _).bind ?_
    rintro ⟨⟩ next rfl
  case enclosing link => exact { h with }
  case annotated item => exact { h with }
  case typeAnnotated item => exact { h with }
  case nested link => exact { h with nested := by simp [ClassDescription.add, h.nested] }
  case field field => exact h.visitField field
  case method method => exact h.visitMethod method

theorem run {events : List ClassEvent} (h : assembly.Tallies told)
    (hevents : ∀ event ∈ events, event.kind ≠ .header ∧ event.kind ≠ .finish) :
    Run.Ensures (events.forM visit) assembly
      (fun _ next => next.Tallies (events.foldl ClassDescription.add told)) ForSpace := by
  induction events generalizing assembly told with
  | nil => exact h
  | cons event events ih =>
    obtain ⟨⟨hheader, hfinish⟩, hrest⟩ := List.forall_mem_cons.1 hevents
    exact (h.step hheader hfinish).bind fun _ _ hnext => ih hnext hrest

end Tallies

/-! ## The header -/

theorem ensures_interfaces {names : List String} (hclosed : assembly.pool.Closed) :
    Run.Ensures
      (names.forM fun name => do
        let index ← interning (Pool.addClass name)
        modify fun assembly : Assembly =>
          { assembly with interfaces := assembly.interfaces.push index })
      assembly
      (fun _ next => ∃ pool interfaces, pool.Closed
        ∧ interfaces.size = assembly.interfaces.size + names.length
        ∧ next = { assembly with pool, interfaces })
      ForSpace := by
  induction names generalizing assembly with
  | nil => exact ⟨assembly.pool, assembly.interfaces, hclosed, rfl, rfl⟩
  | cons name names ih =>
    have hstep : Run.Ensures
        (do
          let index ← interning (Pool.addClass name)
          modify fun assembly : Assembly =>
            { assembly with interfaces := assembly.interfaces.push index })
        assembly
        (fun _ next => ∃ pool index, pool.Closed
          ∧ next = { assembly with pool, interfaces := assembly.interfaces.push index })
        ForSpace := by
      refine (ensures_interning hclosed (Pool.links_addClass name)).bind ?_
      rintro index _ ⟨pool, hpool, rfl⟩
      exact ⟨pool, index, hpool, rfl⟩
    refine hstep.bind ?_
    rintro _ _ ⟨pool, index, hpool, rfl⟩
    refine (ih hpool).mono ?_
    rintro _ _ ⟨last, interfaces, hlast, hsize, rfl⟩
    refine ⟨last, interfaces, hlast, ?_, rfl⟩
    rw [hsize, Array.size_push, List.length_cons]
    omega

theorem tallies_of_header (style : BodyStyle) (header : ClassHeader) :
    (visit (.header header)).Ensures (start style)
      (fun _ next => next.Tallies (.ofEvents header [])) ForSpace := by
  have hfresh : ¬ (start style).header.isSome = true := Bool.false_ne_true
  refine Run.ensures_get_bind ?_
  rw [if_neg hfresh]
  refine Run.ensures_modify_bind ?_
  refine (ensures_interning Pool.closed_empty (Pool.links_addClass header.name)).bind ?_
  rintro thisClass _ ⟨first, hfirst, rfl⟩
  refine Run.ensures_modify_bind ?_
  refine (ensures_interning hfirst (Pool.links_addOptionalClass header.superName)).bind ?_
  rintro superClass _ ⟨second, hsecond, rfl⟩
  refine Run.ensures_modify_bind ((ensures_interfaces hsecond).bind ?_)
  rintro _ _ ⟨pool, interfaces, hpool, hsize, rfl⟩
  exact {
    closed := hpool
    header := rfl
    unfinished := rfl
    interfaces := hsize.trans (Nat.zero_add _)
    fields := rfl
    methods := rfl
    nested := rfl }

/-! ## The closing event -/

namespace Tallies

theorem nestedAttribute {pool : Pool} (hclosed : pool.Closed) {links : List NestedLink}
    (hcount : links.length ≤ 65535) :
    (nestedAttribute links).Ensures { assembly with pool }
      (fun _ next => ∃ pool, pool.Closed ∧ next = { assembly with pool }) ForSpace := by
  have hchecked : checkCount .innerClasses links.length = .ok () :=
    if_neg (Nat.not_lt.2 hcount)
  have hlinks : Links (fun _ => True) _ _ := Attribute.links_unlessEmptyNested hcount
  unfold Assembly.nestedAttribute
  rw [hchecked]
  exact ensures_interning hclosed hlinks

/-- The closing event adds attributes, and nothing else of them matters here. -/
theorem finish (h : assembly.Tallies told) (hnested : told.nested.length ≤ 65535) :
    (visit .finish).Ensures assembly
      (fun _ next => ∃ pool attributes,
        next = { assembly with pool, attributes, finished := true }) ForSpace := by
  have hcount : assembly.nested.toList.length ≤ 65535 := by
    rw [Array.length_toList, h.nested]
    exact hnested
  refine (h.requireOpen _).bind ?_
  rintro ⟨⟩ _ rfl
  refine Run.ensures_get_bind ((ensures_interning h.closed (links_commonAttributes _)).bind ?_)
  rintro common _ ⟨first, hfirst, rfl⟩
  refine Run.ensures_get_bind
    ((ensures_interning hfirst (Attribute.links_optionalEnclosing _)).bind ?_)
  rintro enclosing _ ⟨second, hsecond, rfl⟩
  refine Run.ensures_get_bind ((nestedAttribute hsecond hcount).bind ?_)
  rintro nested _ ⟨third, hthird, rfl⟩
  refine Run.ensures_get_bind ((ensures_interning hthird (Attribute.links_annotations _)).bind ?_)
  rintro annotations _ ⟨fourth, hfourth, rfl⟩
  refine Run.ensures_get_bind
    ((ensures_interning hfourth (Attribute.links_typeAnnotations _)).bind ?_)
  rintro types _ ⟨last, -, rfl⟩
  exact ⟨last, _, rfl⟩

end Tallies

end Assembly

/-! ## Surfaces -/

/-- The parts of a class that a class file counts in 16 bits are not too many. -/
structure ClassDescription.Countable (description : ClassDescription) : Prop where
  interfaces : description.header.interfaces.length ≤ 65535
  fields : description.fields.length ≤ 65535
  methods : description.methods.length ≤ 65535
  nested : description.nested.length ≤ 65535

/-- A finished assembly of a class whose parts can be counted has a class file. -/
theorem Assembly.Tallies.toClassFile {assembly : Assembly} {told : ClassDescription}
    (h : assembly.Tallies told) (hcounts : told.Countable) (pool : Pool)
    (attributes : List Attribute) :
    ∃ file, { assembly with pool, attributes, finished := true }.toClassFile = .ok file := by
  have hcheck : ∀ part count, count ≤ 65535 → checkCount part count = .ok () :=
    fun part count hcount => if_neg (Nat.not_lt.2 hcount)
  have hchecked : { assembly with pool, attributes, finished := true }.checkCounts = .ok () := by
    unfold checkCounts
    rw [hcheck _ _ (h.interfaces ▸ hcounts.interfaces), hcheck _ _ (h.fields ▸ hcounts.fields),
      hcheck _ _ (h.methods ▸ hcounts.methods)]
    exact hcheck _ _ (h.nested ▸ hcounts.nested)
  refine ⟨{ assembly with pool, attributes, finished := true }.build, ?_⟩
  unfold Assembly.toClassFile
  rw [hchecked, h.header]
  rfl

namespace Surface

variable {surface : Surface} {bodies : BodyStyle}

theorem kind_of_mem_middle {event : ClassEvent} (hevent : event ∈ surface.middle) :
    event.kind ≠ .header ∧ event.kind ≠ .finish := by
  simp only [middle, List.append_assoc, List.mem_append, List.mem_map] at hevent
  rcases hevent with ⟨_, _, rfl⟩ | ⟨_, _, rfl⟩ | ⟨_, _, rfl⟩ | ⟨_, _, rfl⟩ | ⟨_, _, rfl⟩
    | ⟨_, _, rfl⟩
  all_goals
    constructor <;> (intro hkind; cases hkind)

/-- A surface is told to an assembly to the end, unless there is no space. -/
theorem ensures_events (bodies : BodyStyle)
    (hnested : surface.description.nested.length ≤ 65535) :
    Run.Ensures (surface.events.forM Assembly.visit) (.start bodies)
      (fun _ next => ∃ assembly : Assembly, ∃ pool attributes,
        assembly.Tallies surface.description
          ∧ next = { assembly with pool, attributes, finished := true }) ForSpace := by
  have hsplit : (surface.middle ++ [ClassEvent.finish]).forM Assembly.visit =
      surface.middle.forM Assembly.visit >>= fun _ => [ClassEvent.finish].forM Assembly.visit :=
    List.forM_append
  refine (Assembly.tallies_of_header bodies surface.header).bind fun _ first hfirst => ?_
  change Run.Ensures ((surface.middle ++ [ClassEvent.finish]).forM Assembly.visit) _ _ _
  rw [hsplit]
  have hmiddle := hfirst.run fun event (hevent : event ∈ surface.middle) =>
    kind_of_mem_middle hevent
  rw [ClassDescription.foldl_add_ofEvents, List.nil_append, ofEvents_middle] at hmiddle
  refine hmiddle.bind fun _ second hsecond => ?_
  refine (hsecond.finish hnested).bind ?_
  rintro _ _ ⟨pool, attributes, rfl⟩
  exact ⟨second, pool, attributes, hsecond, rfl⟩

/-- A surface whose parts can be counted is assembled unless there is no space. -/
theorem failsOnly_assemble (hcounts : surface.description.Countable) :
    FailsOnly (· = .generation (.pool .outOfSpace)) (surface.assemble bodies) := by
  have hevents := ensures_events bodies hcounts.nested
  unfold assemble replay Run.outcome
  cases hrun : surface.events.forM Assembly.visit (.start bodies) with
  | ok value final =>
    obtain ⟨assembly, pool, attributes, htallies, rfl⟩ := hevents.of_ok hrun
    obtain ⟨file, hfile⟩ := htallies.toClassFile hcounts pool attributes
    exact .of_ok hfile
  | error error final => exact failsOnly_error (hevents.of_error hrun)

/-- The class file that was assembled from a surface has no fault but those that a class brings
with it. -/
theorem failsOnly_verify_of_assemble {file : ClassFile} (h : surface.assemble bodies = .ok file) :
    FailsOnly VerificationError.IsInherited file.verify := by
  unfold assemble replay Run.outcome at h
  cases hrun : surface.events.forM Assembly.visit (.start bodies) with
  | error error final =>
    rw [hrun] at h
    cases h
  | ok value final =>
    rw [hrun] at h
    have hfile : final.toClassFile = .ok file := h
    have hverifiable := Assembly.verifiable_attempt bodies surface.events
    rw [Consumer.attempt_of_ok hrun] at hverifiable
    obtain ⟨header, hheader⟩ := Assembly.exists_header_of_toClassFile hfile
    obtain ⟨rfl, -⟩ := Assembly.toClassFile_ok hfile
    exact hverifiable.failsOnly_verify_build hheader

end Surface

end ClassStub
