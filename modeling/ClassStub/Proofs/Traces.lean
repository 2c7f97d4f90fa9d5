import ClassStub.Proofs.DecodingFailures
import ClassStub.Proofs.SurfaceBuilding

/-! # What is told of a class file

A class file is told event by event until something in it cannot be decoded. Which events these are,
and what ends them, does not depend on who is told: a replay is a run of the consumer over the trace
of the class file, which then fails if the trace ends with a fault. A builder of surfaces accepts
every trace, so a class file has a surface exactly if its trace ends without a fault. -/

namespace ClassStub

/-- Events in a row, and how decoding ended behind them. -/
structure Trace where
  events : List ClassEvent
  ending : Except FormatError Unit

namespace Trace

variable {σ α : Type}

/-- The events that were decoded at once, or why they were not. -/
def ofDecoded (decoded : Except FormatError (List ClassEvent)) : Trace :=
  match decoded with
  | .ok events => ⟨events, .ok ()⟩
  | .error cause => ⟨[], .error cause⟩

/-- One trace, and behind it another one unless the first ended with a fault. -/
def append (first second : Trace) : Trace :=
  match first.ending with
  | .ok () => ⟨first.events ++ second.events, second.ending⟩
  | .error _ => first

/-- Members that are decoded one by one. -/
def ofMembers (decode : Member → Except FormatError α) (event : α → ClassEvent) :
    List Member → Trace
  | [] => ⟨[], .ok ()⟩
  | member :: members =>
    (ofDecoded ((fun item => [event item]) <$> decode member)).append
      (ofMembers decode event members)

/-- Tell a consumer the events, and end as decoding did. -/
def replay (trace : Trace) (visit : Consumer σ) : Run σ Unit := do
  trace.events.forM visit
  Run.ofDecoded trace.ending

variable {visit : Consumer σ}

theorem replay_append (first second : Trace) :
    (first.append second).replay visit = first.replay visit >>= fun _ => second.replay visit := by
  have hevents : (first.events ++ second.events).forM visit =
      first.events.forM visit >>= fun _ => second.events.forM visit := List.forM_append
  unfold append replay
  split
  · rename_i hending
    rw [hending, hevents, bind_assoc, bind_assoc]
    rfl
  · rename_i hending
    rw [hending, bind_assoc]
    rfl

theorem replay_ofDecoded (decoded : Except FormatError (List ClassEvent)) :
    (ofDecoded decoded).replay visit =
      Run.ofDecoded decoded >>= fun events => events.forM visit := by
  cases decoded with
  | ok events => exact bind_pure (events.forM visit)
  | error cause => rfl

theorem replay_ofMembers (decode : Member → Except FormatError α) (event : α → ClassEvent)
    (members : List Member) : (ofMembers decode event members).replay visit =
      members.forM (fun member => do visit (event (← Run.ofDecoded (decode member)))) := by
  induction members with
  | nil => rfl
  | cons member members ih =>
    have hmember : (ofDecoded ((fun item => [event item]) <$> decode member)).replay visit =
        (do visit (event (← Run.ofDecoded (decode member)))) := by
      rw [replay_ofDecoded]
      cases decode member with
      | ok item => exact bind_pure (visit (event item))
      | error cause => rfl
    rw [ofMembers, replay_append, ih, hmember]
    rfl

/-! ## Faults -/

section Faults

variable {allowed : FormatError → Prop}

theorem failsOnly_append {first second : Trace} (hfirst : FailsOnly allowed first.ending)
    (hsecond : FailsOnly allowed second.ending) :
    FailsOnly allowed (first.append second).ending := by
  unfold append
  split
  · exact hsecond
  · exact hfirst

theorem failsOnly_ofDecoded {decoded : Except FormatError (List ClassEvent)}
    (h : FailsOnly allowed decoded) : FailsOnly allowed (ofDecoded decoded).ending := by
  cases decoded with
  | ok events => exact failsOnly_ok ()
  | error cause => exact failsOnly_error (h cause rfl)

theorem failsOnly_ofMembers {decode : Member → Except FormatError α}
    (h : ∀ member, FailsOnly allowed (decode member)) (event : α → ClassEvent)
    (members : List Member) : FailsOnly allowed (ofMembers decode event members).ending := by
  induction members with
  | nil => exact failsOnly_ok ()
  | cons member members ih =>
    exact failsOnly_append (failsOnly_ofDecoded ((h member).map _)) ih

end Faults

/-! ## Headers -/

/-- No event of the trace is a header. -/
def Headless (trace : Trace) : Prop :=
  ∀ event ∈ trace.events, event.kind ≠ .header

theorem Headless.append {first second : Trace} (hfirst : first.Headless)
    (hsecond : second.Headless) : (first.append second).Headless := by
  unfold Trace.append
  split
  · exact List.forall_mem_append.2 ⟨hfirst, hsecond⟩
  · exact hfirst

theorem headless_ofMembers (decode : Member → Except FormatError α) {event : α → ClassEvent}
    (hevent : ∀ item, (event item).kind ≠ .header) (members : List Member) :
    (ofMembers decode event members).Headless := by
  induction members with
  | nil => exact List.forall_mem_nil _
  | cons member members ih =>
    refine Headless.append ?_ ih
    cases decode member with
    | ok item => exact List.forall_mem_singleton.2 (hevent item)
    | error cause => exact List.forall_mem_nil _

end Trace

namespace ClassFile

open Trace (ofDecoded ofMembers)

/-- The events behind those for the class itself. -/
def memberTrace (file : ClassFile) : Trace :=
  (ofMembers file.decodeField .field file.fields).append
    ((ofMembers file.decodeMethod .method file.methods).append (ofDecoded (.ok [.finish])))

/-- What is told of a class file, and how that ends. -/
def trace (file : ClassFile) : Trace :=
  (ofDecoded file.frontEvents).append file.memberTrace

variable {file : ClassFile}

/-- A replay is a run over the trace. -/
theorem replay_eq_replay_trace {σ : Type} (visit : Consumer σ) :
    file.replay visit = file.trace.replay visit := by
  have hfinish : (ofDecoded (.ok [.finish])).replay visit = visit .finish :=
    (bind_pure _).trans (bind_pure (visit .finish))
  unfold trace memberTrace replay
  simp only [Trace.replay_append, Trace.replay_ofDecoded, Trace.replay_ofMembers, hfinish,
    bind_assoc]

theorem failsOnly_trace (file : ClassFile) :
    FailsOnly FormatError.IsOfInput file.trace.ending :=
  Trace.failsOnly_append (Trace.failsOnly_ofDecoded file.failsOnly_frontEvents) <|
    Trace.failsOnly_append (Trace.failsOnly_ofMembers file.failsOnly_decodeField _ _) <|
      Trace.failsOnly_append (Trace.failsOnly_ofMembers file.failsOnly_decodeMethod _ _)
        (failsOnly_ok ())

theorem headless_memberTrace (file : ClassFile) : file.memberTrace.Headless := by
  have hfield : ∀ field, (ClassEvent.field field).kind ≠ .header := fun _ => nofun
  have hmethod : ∀ method, (ClassEvent.method method).kind ≠ .header := fun _ => nofun
  refine (Trace.headless_ofMembers _ hfield _).append ?_
  exact (Trace.headless_ofMembers _ hmethod _).append (List.forall_mem_singleton.2 nofun)

/-- If anything is told of a class file, then a header first, and no other header later. -/
theorem events_trace (file : ClassFile) : file.trace.events = [] ∨
    ∃ header rest, file.trace.events = .header header :: rest
      ∧ ∀ event ∈ rest, event.kind ≠ .header := by
  unfold trace Trace.append
  cases hfront : file.frontEvents with
  | error cause => exact .inl rfl
  | ok events =>
    right
    obtain ⟨name, superName, interfaces, statements, -, -, -, -, rfl⟩ := frontEvents_ok.1 hfront
    refine ⟨_, _, rfl, List.forall_mem_append.2 ⟨?_, file.headless_memberTrace⟩⟩
    intro event hevent
    simp only [List.append_assoc, List.mem_append, List.mem_map] at hevent
    rcases hevent with ⟨_, _, rfl⟩ | ⟨_, _, rfl⟩ | ⟨_, _, rfl⟩ | ⟨_, _, rfl⟩
    all_goals exact nofun

/-- A builder of surfaces accepts all that is told of a class file. -/
theorem exists_forM_visit_trace (file : ClassFile) :
    ∃ builder, file.trace.events.forM SurfaceBuilder.visit {} = .ok () builder := by
  rcases file.events_trace with hevents | ⟨header, rest, hevents, hrest⟩
  · rw [hevents]
    exact ⟨{}, rfl⟩
  · rw [hevents]
    have hfirst : SurfaceBuilder.visit (.header header) {} = .ok () { header := some header } := rfl
    exact ⟨_, Run.forM_cons_ok.2 ⟨_, hfirst, SurfaceBuilder.forM_visit_ok rfl hrest⟩⟩

/-- A class file has no surface exactly if its trace ends with a fault, which is then the reason. -/
theorem surface_error {error : StubError} : file.surface = .error error ↔
    ∃ cause, file.trace.ending = .error cause ∧ error = .format cause := by
  obtain ⟨builder, hbuilder⟩ := file.exists_forM_visit_trace
  have hreplay : file.replay SurfaceBuilder.visit {} =
      (Run.ofDecoded file.trace.ending : Run SurfaceBuilder Unit) builder := by
    rw [replay_eq_replay_trace]
    exact Run.bind_of_ok hbuilder
  cases hending : file.trace.ending with
  | error cause =>
    rw [hending] at hreplay
    have hsurface : file.surface = .error (.format cause) := by
      unfold surface Run.outcome
      rw [hreplay]
      rfl
    rw [hsurface]
    constructor
    · rintro ⟨⟩
      exact ⟨cause, rfl, rfl⟩
    · rintro ⟨_, ⟨⟩, rfl⟩
      rfl
  | ok result =>
    rw [hending] at hreplay
    obtain ⟨description, hdescribes, -⟩ := replay_ok.1 hreplay
    have hsurface : file.surface = .ok description.surface :=
      surface_ok.2 ⟨description, hdescribes, rfl⟩
    rw [hsurface]
    exact ⟨nofun, nofun⟩

end ClassFile

/-- Reading a class fails only because of the bytes. -/
theorem failsOnly_readSurface (bytes : Bytes) :
    FailsOnly (fun error => ∃ cause, error = .format cause ∧ cause.IsOfInput)
      (readSurface bytes) := by
  have hparse := ClassFile.failsOnly_parse bytes
  refine FailsOnly.bind (FailsOnly.mapError (hparse.mono fun cause h => ⟨cause, rfl, h⟩)) ?_
  intro file error herror
  obtain ⟨cause, hending, rfl⟩ := ClassFile.surface_error.1 herror
  exact ⟨cause, rfl, file.failsOnly_trace cause hending⟩

end ClassStub
