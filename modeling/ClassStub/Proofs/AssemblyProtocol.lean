import ClassStub.Proofs.RefusedEvents

/-! # The protocol of an assembly

An assembly takes one header, then other events, then a closing event. Which events it refuses for
being out of this order depends on the events that it accepted and on nothing else: headers and
closing events that failed for another reason do not count and may be tried again. An event that is
out of order leaves the assembly as it is, and after the closing event every event is. -/

namespace ClassStub

/-- The error comes from writing the class file. -/
def StubError.IsGeneration (error : StubError) : Prop :=
  ∃ cause, error = .generation cause

/-- An event of a kind is among the events. -/
def EventKind.IsAmong (kind : EventKind) (events : List ClassEvent) : Prop :=
  ∃ event ∈ events, event.kind = kind

/-- Behind the events that were accepted an event is out of order: a header behind a header, or
another event without a header before it or with the closing event before it. -/
def ClassEvent.IsMisplaced (event : ClassEvent) (seen : List ClassEvent) : Prop :=
  event.kind = .header ∧ EventKind.header.IsAmong seen
    ∨ event.kind ≠ .header ∧ (¬EventKind.header.IsAmong seen ∨ EventKind.finish.IsAmong seen)

namespace Assembly

variable {assembly next : Assembly} {event : ClassEvent}

/-! ## Events in order and out of order -/

/-- Why an assembly refuses an event as out of order, if it does. -/
def refusal? (assembly : Assembly) (event : ClassEvent) : Option ProtocolError :=
  match event, assembly.header with
  | .header header, some _ => some (.secondHeader header.name)
  | .header _, none => none
  | event, none => some (.beforeHeader event.kind)
  | event, some _ => if assembly.finished then some (.afterFinish event.kind) else none

/-- What an assembly does with an event that is in order. -/
def take : Consumer Assembly
  | .header header => visitHeader header
  | .enclosing link => modify fun assembly => { assembly with enclosing := some link }
  | .annotated item =>
    modify fun assembly => { assembly with annotations := assembly.annotations.push item }
  | .typeAnnotated item =>
    modify fun assembly => { assembly with typeAnnotations := assembly.typeAnnotations.push item }
  | .nested link => modify fun assembly => { assembly with nested := assembly.nested.push link }
  | .field field => visitField field
  | .method method => visitMethod method
  | .finish => visitFinish

theorem refusal?_header (header : ClassHeader) : assembly.refusal? (.header header) = none ↔
    assembly.header = none := by
  cases hheader : assembly.header <;> simp [refusal?, hheader]

theorem refusal?_of_ne (hkind : event.kind ≠ .header) : assembly.refusal? event = none ↔
    assembly.header.isSome ∧ assembly.finished = false := by
  cases event
  case header => exact absurd rfl hkind
  all_goals cases hheader : assembly.header <;> simp [refusal?, hheader]

theorem requireOpen_of_open (hheader : assembly.header.isSome)
    (hfinished : assembly.finished = false) (kind : EventKind) :
    requireOpen kind assembly = .ok () assembly := by
  cases assembly
  dsimp only at hheader hfinished
  obtain ⟨header, rfl⟩ := Option.isSome_iff_exists.1 hheader
  subst hfinished
  rfl

/-- Events that are in order are taken. -/
theorem visit_of_refusal_none (h : assembly.refusal? event = none) :
    visit event assembly = take event assembly := by
  by_cases hkind : event.kind = .header
  · cases event <;> first | rfl | cases hkind
  · obtain ⟨hheader, hfinished⟩ := (refusal?_of_ne hkind).1 h
    have hopen := requireOpen_of_open hheader hfinished
    cases event
    case header => exact absurd rfl hkind
    all_goals
      change EStateM.bind _ _ assembly = _
      unfold EStateM.bind
      rw [hopen]
      rfl

/-- Events that are out of order are refused, and leave the assembly as it is. -/
theorem visit_of_refusal {cause : ProtocolError} (h : assembly.refusal? event = some cause) :
    visit event assembly = .error (.protocol cause) assembly := by
  cases assembly with
  | mk bodies pool version access thisClass superClass interfaces fields methods attributes header
      enclosing annotations typeAnnotations nested finished =>
    cases header with
    | none =>
      cases event <;> cases h
      all_goals rfl
    | some header =>
      cases finished <;> cases event <;> cases h
      all_goals rfl

/-! ## Events that cannot be written -/

/-- A run fails only where the class file cannot be written. -/
def OnlyGenerates {α : Type} (run : Run Assembly α) : Prop :=
  ∀ assembly, run.Ensures assembly (fun _ _ => True) fun error _ => error.IsGeneration

namespace OnlyGenerates

variable {α β : Type}

theorem bind {run : Run Assembly α} {next : α → Run Assembly β} (hrun : OnlyGenerates run)
    (hnext : ∀ value, OnlyGenerates (next value)) : OnlyGenerates (run >>= next) :=
  fun assembly => (hrun assembly).bind fun value reached _ => hnext value reached

theorem get_bind {next : Assembly → Run Assembly β} (hnext : ∀ state, OnlyGenerates (next state)) :
    OnlyGenerates (get >>= next) :=
  fun assembly => Run.ensures_get_bind (hnext assembly assembly)

theorem modify (f : Assembly → Assembly) : OnlyGenerates (modify f : Run Assembly PUnit) :=
  fun _ => trivial

theorem interning (action : PoolM α) : OnlyGenerates (interning action) := by
  intro assembly
  unfold Run.Ensures Assembly.interning
  dsimp only
  cases action assembly.pool with
  | ok value pool => exact trivial
  | error cause pool => exact ⟨.pool cause, rfl⟩

theorem forM {step : β → Run Assembly PUnit} (hstep : ∀ item, OnlyGenerates (step item))
    (items : List β) : OnlyGenerates (items.forM step) :=
  fun _ => Run.ensures_forM (fun _ => True) (fun item reached _ => hstep item reached) trivial

theorem nestedAttribute (links : List NestedLink) : OnlyGenerates (nestedAttribute links) := by
  unfold Assembly.nestedAttribute
  split
  · exact interning _
  · exact fun _ => ⟨_, rfl⟩

end OnlyGenerates

theorem onlyGenerates_visitFinish : OnlyGenerates visitFinish :=
  .get_bind fun _ => .bind (.interning _) fun _ =>
    .get_bind fun _ => .bind (.interning _) fun _ =>
      .get_bind fun _ => .bind (.nestedAttribute _) fun _ =>
        .get_bind fun _ => .bind (.interning _) fun _ =>
          .get_bind fun _ => .bind (.interning _) fun _ => .modify _

theorem ensures_visitHeader_of_none (hheader : assembly.header = none) (header : ClassHeader) :
    (visitHeader header).Ensures assembly (fun _ _ => True) fun error _ => error.IsGeneration := by
  have hlist : OnlyGenerates (header.interfaces.forM fun name => do
      let index ← interning (Pool.addClass name)
      modify fun assembly => { assembly with interfaces := assembly.interfaces.push index }) :=
    .forM (fun _ => .bind (.interning _) fun _ => .modify _) _
  have hrest : OnlyGenerates (do
      modify fun assembly => { assembly with version := header.version, access := header.access }
      let thisClass ← interning (Pool.addClass header.name)
      modify fun assembly => { assembly with thisClass }
      let superClass ← interning (Pool.addOptionalClass header.superName)
      modify fun assembly => { assembly with superClass }
      header.interfaces.forM fun name => do
        let index ← interning (Pool.addClass name)
        modify fun assembly => { assembly with interfaces := assembly.interfaces.push index }
      modify fun assembly => { assembly with header := some header }) :=
    .bind (.modify _) fun _ => .bind (.interning _) fun _ => .bind (.modify _) fun _ =>
      .bind (.interning _) fun _ => .bind (.modify _) fun _ => .bind hlist fun _ => .modify _
  unfold visitHeader
  apply Run.ensures_get_bind
  rw [hheader, if_neg (by decide)]
  exact hrest assembly

/-- An event that is in order fails only where the class file cannot be written. -/
theorem ensures_visit_of_refusal_none (h : assembly.refusal? event = none) :
    (visit event).Ensures assembly (fun _ _ => True) fun error _ => error.IsGeneration := by
  have htake : (take event).Ensures assembly (fun _ _ => True)
      fun error _ => error.IsGeneration := by
    cases event with
    | header header => exact ensures_visitHeader_of_none ((refusal?_header header).1 h) header
    | field field => exact (OnlyGenerates.bind (.interning _) fun _ => .modify _) assembly
    | method method =>
      exact (OnlyGenerates.get_bind fun _ => .bind (.interning _) fun _ => .modify _) assembly
    | finish => exact onlyGenerates_visitFinish assembly
    | _ => exact trivial
  unfold Run.Ensures at htake ⊢
  rwa [visit_of_refusal_none h]

/-- Only events that are out of order break the protocol, and nothing is kept of them. -/
theorem visit_eq_protocol_iff {cause : ProtocolError} :
    visit event assembly = .error (.protocol cause) next ↔
      assembly.refusal? event = some cause ∧ next = assembly := by
  cases hrefusal : assembly.refusal? event with
  | none =>
    constructor
    · intro h
      obtain ⟨_, hcause⟩ := (ensures_visit_of_refusal_none hrefusal).of_error h
      cases hcause
    · rintro ⟨h, -⟩
      cases h
  | some found =>
    rw [visit_of_refusal hrefusal]
    constructor
    · rintro ⟨⟩
      exact ⟨rfl, rfl⟩
    · rintro ⟨⟨⟩, rfl⟩
      rfl

/-! ## The class file -/

theorem toClassFile_eq_protocol_iff : (∃ cause, assembly.toClassFile = .error (.protocol cause)) ↔
    assembly.header = none ∨ assembly.finished = false := by
  unfold toClassFile
  cases assembly.header with
  | none => exact ⟨fun _ => .inl rfl, fun _ => ⟨_, rfl⟩⟩
  | some header =>
    cases assembly.finished with
    | false => exact ⟨fun _ => .inr rfl, fun _ => ⟨_, rfl⟩⟩
    | true =>
      constructor
      · rintro ⟨cause, h⟩
        cases hcounts : assembly.checkCounts with
        | ok result =>
          rw [hcounts] at h
          cases h
        | error fault =>
          rw [hcounts] at h
          cases h
      · rintro (h | h) <;> cases h

/-- Once the closing event was accepted nothing changes an assembly. -/
theorem attempt_of_finished (hheader : assembly.header.isSome)
    (hfinished : assembly.finished = true) (later : List ClassEvent) :
    Assembly.visit.attempt assembly later = assembly := by
  induction later with
  | nil => rfl
  | cons event later ih =>
    have hrefusal : assembly.refusal? event ≠ none := by
      by_cases hkind : event.kind = .header
      · cases event
        case header header =>
          rw [Ne, refusal?_header]
          exact Option.isSome_iff_ne_none.1 hheader
        all_goals cases hkind
      · rw [Ne, refusal?_of_ne hkind, hfinished]
        exact fun h => nomatch h.2
    obtain ⟨cause, hcause⟩ := Option.ne_none_iff_exists'.1 hrefusal
    rw [Consumer.attempt_cons_of_error (visit_of_refusal hcause), ih]

/-! ## Attempts -/

section Stages

variable {style : BodyStyle} {left : List String} {seen : List ClassEvent}

theorem header_isAmong_cons (header : ClassHeader) (rest : List ClassEvent) :
    EventKind.header.IsAmong (.header header :: rest) :=
  ⟨_, List.mem_cons_self, rfl⟩

theorem Stage.header_isSome_iff (h : Stage style left seen assembly) :
    assembly.header.isSome ↔ EventKind.header.IsAmong seen := by
  cases h with
  | waiting hwaiting => simp [hwaiting.header, EventKind.IsAmong]
  | opened hmiddle hopened => simp [hopened.header, header_isAmong_cons]
  | closed hmiddle htold hfinished hattributes => simp [htold.header, header_isAmong_cons]

theorem Stage.header_of_finish (h : Stage style left seen assembly)
    (hfinish : EventKind.finish.IsAmong seen) : EventKind.header.IsAmong seen := by
  cases h with
  | waiting hwaiting =>
    obtain ⟨event, hevent, -⟩ := hfinish
    cases hevent
  | opened hmiddle hopened => exact header_isAmong_cons _ _
  | closed hmiddle htold hfinished hattributes => exact header_isAmong_cons _ _

theorem Stage.finished_iff (h : Stage style left seen assembly) :
    assembly.finished = true ↔ EventKind.finish.IsAmong seen := by
  cases h with
  | waiting hwaiting => simp [hwaiting.finished, EventKind.IsAmong]
  | opened hmiddle hopened =>
    have hnone : ∀ event ∈ _, ClassEvent.kind event ≠ .finish := fun event hevent =>
      (hmiddle event hevent).2
    simpa [hopened.finished, EventKind.IsAmong, ClassEvent.kind] using hnone
  | closed hmiddle htold hfinished hattributes =>
    simp [hfinished, EventKind.IsAmong, ClassEvent.kind]

theorem Stage.refusal?_ne_none_iff (h : Stage style left seen assembly) :
    assembly.refusal? event ≠ none ↔ event.IsMisplaced seen := by
  unfold ClassEvent.IsMisplaced
  rw [← h.header_isSome_iff, ← h.finished_iff]
  by_cases hkind : event.kind = .header
  · cases event
    case header header => simp [refusal?_header, ClassEvent.kind, Option.isSome_iff_ne_none]
    all_goals cases hkind
  · rw [Ne, refusal?_of_ne hkind]
    simp [hkind, imp_iff_not_or]

end Stages

/-- An assembly that accepted the events `seen` follows the protocol: it refuses exactly the events
that are out of order, keeps nothing of them, has a class file only when the header and the closing
event were accepted, and that class file is final. -/
structure FollowsProtocol (seen : List ClassEvent) (assembly : Assembly) : Prop where
  refuses_iff : ∀ event, (∃ cause next, visit event assembly = .error (.protocol cause) next) ↔
    event.IsMisplaced seen
  unchanged : ∀ event cause next, visit event assembly = .error (.protocol cause) next →
    next = assembly
  fails_iff : (∃ cause, assembly.toClassFile = .error (.protocol cause)) ↔
    ¬EventKind.header.IsAmong seen ∨ ¬EventKind.finish.IsAmong seen
  final : EventKind.finish.IsAmong seen → ∀ later,
    (Assembly.visit.attempt assembly later).toClassFile = assembly.toClassFile

/-- Whatever events an assembly is tried with, accepted or not, it follows the protocol, and what
counts are the events that were accepted. -/
theorem followsProtocol_attempt (style : BodyStyle) (events : List ClassEvent) :
    FollowsProtocol (Assembly.visit.accepted (start style) events)
      (Assembly.visit.attempt (start style) events) := by
  have hstage := (reached_attempt style events).stage
  refine ⟨?_, ?_, ?_, ?_⟩
  · intro event
    rw [← hstage.refusal?_ne_none_iff, Option.ne_none_iff_exists']
    simp only [visit_eq_protocol_iff, exists_eq_right]
  · intro event cause next h
    exact (visit_eq_protocol_iff.1 h).2
  · rw [toClassFile_eq_protocol_iff, ← hstage.header_isSome_iff, ← hstage.finished_iff]
    simp
  · intro hfinish later
    have hheader := hstage.header_isSome_iff.2 (hstage.header_of_finish hfinish)
    rw [attempt_of_finished hheader (hstage.finished_iff.2 hfinish)]

end Assembly

end ClassStub
