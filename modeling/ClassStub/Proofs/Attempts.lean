import ClassStub.Proofs.Runs

/-! # Runs that go on after failures

A consumer that refuses an event has a state all the same, and whoever tells it of a class may go on
from there. An attempt is such a run: every event is tried in the state that the events before it
left behind, whether they were accepted or not. -/

namespace ClassStub

/-! ## What a run leaves behind -/

namespace Run

variable {σ α β : Type} {state : σ} {failed : StubError → σ → Prop}

/-- What holds of the result and the state if a run succeeds, and of the error and the state if it
fails. -/
def Ensures (run : Run σ α) (state : σ) (done : α → σ → Prop) (failed : StubError → σ → Prop) :
    Prop :=
  match run state with
  | .ok value final => done value final
  | .error error final => failed error final

theorem Ensures.of_ok {run : Run σ α} {done : α → σ → Prop} (h : run.Ensures state done failed)
    {value : α} {final : σ} (hrun : run state = .ok value final) : done value final := by
  unfold Ensures at h
  rwa [hrun] at h

theorem Ensures.of_error {run : Run σ α} {done : α → σ → Prop} (h : run.Ensures state done failed)
    {error : StubError} {final : σ} (hrun : run state = .error error final) :
    failed error final := by
  unfold Ensures at h
  rwa [hrun] at h

theorem Ensures.imp {run : Run σ α} {done weaker : α → σ → Prop} {failed' : StubError → σ → Prop}
    (h : run.Ensures state done failed)
    (hweaker : ∀ value final, done value final → weaker value final)
    (hfailed : ∀ error final, failed error final → failed' error final) :
    run.Ensures state weaker failed' := by
  unfold Ensures at h ⊢
  split at h
  · exact hweaker _ _ h
  · exact hfailed _ _ h

theorem Ensures.mono {run : Run σ α} {done weaker : α → σ → Prop}
    (h : run.Ensures state done failed)
    (hweaker : ∀ value final, done value final → weaker value final) :
    run.Ensures state weaker failed :=
  h.imp hweaker fun _ _ hfailed => hfailed

theorem Ensures.bind {run : Run σ α} {next : α → Run σ β} {middle : α → σ → Prop}
    {done : β → σ → Prop} (hrun : run.Ensures state middle failed)
    (hnext : ∀ value reached, middle value reached → (next value).Ensures reached done failed) :
    Ensures (run >>= next) state done failed := by
  unfold Ensures
  change match EStateM.bind run next state with | .ok .. => _ | .error .. => _
  unfold EStateM.bind
  cases hfirst : run state with
  | ok value reached => exact hnext value reached (hrun.of_ok hfirst)
  | error cause reached => exact hrun.of_error hfirst

theorem ensures_get_bind {next : σ → Run σ β} {done : β → σ → Prop}
    (h : (next state).Ensures state done failed) : Ensures (get >>= next) state done failed :=
  h

theorem ensures_modify_bind {f : σ → σ} {next : PUnit → Run σ β} {done : β → σ → Prop}
    (h : (next ⟨⟩).Ensures (f state) done failed) : Ensures (modify f >>= next) state done failed :=
  h

/-- What a step leaves as it is, if it succeeds, is so behind a run of steps. -/
theorem ensures_forM (holds : σ → Prop) {step : β → Run σ PUnit} {items : List β}
    (hstep : ∀ item state, holds state → (step item).Ensures state (fun _ => holds) failed)
    (h : holds state) : Ensures (items.forM step) state (fun _ => holds) failed := by
  induction items generalizing state with
  | nil => exact h
  | cons item items ih => exact (hstep item state h).bind fun _ _ hnext => ih hnext

end Run

/-! ## Attempts -/

namespace Consumer

variable {σ : Type}

/-- The state that a consumer is in after an event, accepted or not. -/
def after (visit : Consumer σ) (state : σ) (event : ClassEvent) : σ :=
  ((visit event).outcome state).2

/-- Whether a consumer accepts an event. -/
def accepts (visit : Consumer σ) (state : σ) (event : ClassEvent) : Bool :=
  ((visit event).outcome state).1.isOk

/-- The state at the end of an attempt. -/
def attempt (visit : Consumer σ) (state : σ) (events : List ClassEvent) : σ :=
  events.foldl visit.after state

/-- The events that are accepted in an attempt. -/
def accepted (visit : Consumer σ) (state : σ) : List ClassEvent → List ClassEvent
  | [] => []
  | event :: events =>
    if visit.accepts state event then event :: accepted visit (visit.after state event) events
    else accepted visit (visit.after state event) events

variable {visit : Consumer σ} {state next : σ} {event : ClassEvent} {events : List ClassEvent}

theorem after_of_ok (h : visit event state = .ok () next) : visit.after state event = next := by
  simp [after, Run.outcome, h]

theorem after_of_error {error : StubError} (h : visit event state = .error error next) :
    visit.after state event = next := by
  simp [after, Run.outcome, h]

theorem accepts_of_ok (h : visit event state = .ok () next) : visit.accepts state event = true := by
  simp [accepts, Run.outcome, h, Except.isOk, Except.toBool]

theorem accepts_of_error {error : StubError} (h : visit event state = .error error next) :
    visit.accepts state event = false := by
  simp [accepts, Run.outcome, h, Except.isOk, Except.toBool]

@[simp] theorem attempt_nil : visit.attempt state [] = state := rfl

@[simp] theorem attempt_cons :
    visit.attempt state (event :: events) = visit.attempt (visit.after state event) events := rfl

theorem attempt_append (events others : List ClassEvent) :
    visit.attempt state (events ++ others) = visit.attempt (visit.attempt state events) others := by
  simp [attempt]

/-- An attempt at events that are all accepted is a run. -/
theorem attempt_of_ok {final : σ} (h : events.forM visit state = .ok () final) :
    visit.attempt state events = final := by
  induction events generalizing state with
  | nil =>
    cases h
    rfl
  | cons event events ih =>
    obtain ⟨next, hvisit, h⟩ := Run.forM_cons_ok.1 h
    rw [attempt_cons, after_of_ok hvisit]
    exact ih h

theorem attempt_cons_of_ok (h : visit event state = .ok () next) :
    visit.attempt state (event :: events) = visit.attempt next events := by
  rw [attempt_cons, after_of_ok h]

theorem attempt_cons_of_error {error : StubError} (h : visit event state = .error error next) :
    visit.attempt state (event :: events) = visit.attempt next events := by
  rw [attempt_cons, after_of_error h]

theorem accepted_cons_of_ok (h : visit event state = .ok () next) :
    visit.accepted state (event :: events) = event :: visit.accepted next events := by
  rw [accepted, if_pos (accepts_of_ok h), after_of_ok h]

theorem accepted_cons_of_error {error : StubError} (h : visit event state = .error error next) :
    visit.accepted state (event :: events) = visit.accepted next events := by
  rw [accepted, accepts_of_error h, if_neg Bool.false_ne_true, after_of_error h]

/-- A run accepts all of its events. -/
theorem accepted_of_ok {final : σ} (h : events.forM visit state = .ok () final) :
    visit.accepted state events = events := by
  induction events generalizing state with
  | nil => rfl
  | cons event events ih =>
    obtain ⟨next, hvisit, h⟩ := Run.forM_cons_ok.1 h
    rw [accepted_cons_of_ok hvisit, ih h]

/-! ## Refusals -/

/-- An event that was refused, with the states before and after it and the error. -/
structure Refusal (σ : Type) where
  before : σ
  event : ClassEvent
  error : StubError
  after : σ

/-- The refusals in an attempt. -/
def refused (visit : Consumer σ) (state : σ) : List ClassEvent → List (Refusal σ)
  | [] => []
  | event :: events =>
    match visit event state with
    | .ok _ next => refused visit next events
    | .error error next => ⟨state, event, error, next⟩ :: refused visit next events

theorem refused_cons_of_ok (h : visit event state = .ok () next) :
    visit.refused state (event :: events) = visit.refused next events := by
  rw [refused, h]

theorem refused_cons_of_error {error : StubError} (h : visit event state = .error error next) :
    visit.refused state (event :: events) =
      ⟨state, event, error, next⟩ :: visit.refused next events := by
  rw [refused, h]

/-- What holds of a state, the events accepted so far and the refusals so far, and goes on to hold
whatever event is tried next, holds at the end of an attempt. -/
theorem attempt_induction_refused (holds : σ → List ClassEvent → List (Refusal σ) → Prop)
    (hstep : ∀ state seen refusals event, holds state seen refusals →
      (visit event).Ensures state (fun _ next => holds next (seen ++ [event]) refusals)
        (fun error next => holds next seen (refusals ++ [⟨state, event, error, next⟩])))
    {seen : List ClassEvent} {refusals : List (Refusal σ)} (h : holds state seen refusals) :
    holds (visit.attempt state events) (seen ++ visit.accepted state events)
      (refusals ++ visit.refused state events) := by
  induction events generalizing state seen refusals with
  | nil => simpa [accepted, refused] using h
  | cons event events ih =>
    rw [attempt_cons]
    cases hvisit : visit event state with
    | ok result next =>
      rw [after_of_ok hvisit, accepted_cons_of_ok hvisit, refused_cons_of_ok hvisit]
      simpa using ih ((hstep state seen refusals event h).of_ok hvisit)
    | error error next =>
      rw [after_of_error hvisit, accepted_cons_of_error hvisit, refused_cons_of_error hvisit]
      simpa using ih ((hstep state seen refusals event h).of_error hvisit)

/-- What holds of a state and the events accepted so far, and goes on to hold whatever event is
tried next, holds at the end of an attempt. -/
theorem attempt_induction (holds : σ → List ClassEvent → Prop)
    (hstep : ∀ state seen event, holds state seen →
      (visit event).Ensures state (fun _ next => holds next (seen ++ [event]))
        (fun _ next => holds next seen))
    {seen : List ClassEvent} (h : holds state seen) :
    holds (visit.attempt state events) (seen ++ visit.accepted state events) :=
  @attempt_induction_refused _ visit state events (fun state seen _ => holds state seen)
    (fun state seen _ => hstep state seen) seen [] h

end Consumer

end ClassStub
