import ClassStub.ClassFile.Description
import ClassStub.Proofs.Outcome

/-! # Runs of consumers

How a run of a consumer came to succeed: each of its steps did, one after the other. -/

namespace ClassStub.Run

variable {σ α β : Type} {state final : σ}

theorem bind_ok {run : Run σ α} {next : α → Run σ β} {result : β} :
    (run >>= next) state = .ok result final ↔
      ∃ value middle, run state = .ok value middle ∧ next value middle = .ok result final := by
  change EStateM.bind run next state = _ ↔ _
  unfold EStateM.bind
  cases run state with
  | ok value middle =>
    constructor
    · intro h
      exact ⟨value, middle, rfl, h⟩
    · rintro ⟨_, _, hrun, h⟩
      cases hrun
      exact h
  | error cause middle => exact ⟨fun h => (nomatch h), fun ⟨_, _, hrun, _⟩ => (nomatch hrun)⟩

theorem bind_of_ok {run : Run σ α} {next : α → Run σ β} {value : α} {middle : σ}
    (h : run state = .ok value middle) : (run >>= next) state = next value middle := by
  change EStateM.bind run next state = _
  rw [EStateM.bind, h]

theorem bind_of_error {run : Run σ α} {next : α → Run σ β} {error : StubError}
    (h : run state = .error error final) : (run >>= next) state = .error error final := by
  change EStateM.bind run next state = _
  rw [EStateM.bind, h]

theorem pure_ok {value result : α} :
    (pure value : Run σ α) state = .ok result final ↔ value = result ∧ state = final := by
  constructor
  · intro h
    cases h
    exact ⟨rfl, rfl⟩
  · rintro ⟨rfl, rfl⟩
    rfl

theorem ofDecoded_ok {decoded : Except FormatError α} {value : α} :
    (ofDecoded decoded : Run σ α) state = .ok value final ↔
      decoded = .ok value ∧ state = final := by
  cases decoded with
  | ok found =>
    refine pure_ok.trans (and_congr_left fun _ => ?_)
    exact ⟨congrArg _, Except.ok.inj⟩
  | error cause => exact ⟨fun h => (nomatch h), fun h => (nomatch h.1)⟩

theorem outcome_ok {run : Run σ α} {value : α} :
    run.outcome state = (.ok value, final) ↔ run state = .ok value final := by
  unfold outcome
  cases run state with
  | ok found middle =>
    constructor
    · intro h
      cases h
      rfl
    · intro h
      cases h
      rfl
  | error cause middle => exact ⟨fun h => (nomatch h), fun h => (nomatch h)⟩

section Events

variable {visit : Consumer σ}

theorem forM_cons_ok {event : ClassEvent} {events : List ClassEvent} :
    ((event :: events).forM visit) state = .ok () final ↔
      ∃ middle, visit event state = .ok () middle ∧ events.forM visit middle = .ok () final := by
  change (visit event >>= fun _ => events.forM visit) state = _ ↔ _
  rw [bind_ok]
  exact ⟨fun ⟨_, middle, h⟩ => ⟨middle, h⟩, fun ⟨middle, h⟩ => ⟨(), middle, h⟩⟩

theorem forM_append_ok {events others : List ClassEvent} :
    ((events ++ others).forM visit) state = .ok () final ↔
      ∃ middle, events.forM visit state = .ok () middle
        ∧ others.forM visit middle = .ok () final := by
  induction events generalizing state with
  | nil =>
    constructor
    · intro h
      exact ⟨state, rfl, h⟩
    · rintro ⟨_, hnil, h⟩
      cases hnil
      exact h
  | cons event events ih =>
    rw [List.cons_append, forM_cons_ok]
    simp only [ih, forM_cons_ok]
    constructor
    · rintro ⟨first, hfirst, middle, hmiddle, h⟩
      exact ⟨middle, ⟨first, hfirst, hmiddle⟩, h⟩
    · rintro ⟨middle, ⟨first, hfirst, hmiddle⟩, h⟩
      exact ⟨first, hfirst, middle, hmiddle, h⟩

/-- Members that are decoded one by one, each before it is visited, are visited as if all of them
had been decoded before. -/
theorem forM_decoded_ok {decode : Member → Except FormatError α} {event : α → ClassEvent}
    {members : List Member} :
    (members.forM fun member => do visit (event (← ofDecoded (decode member)))) state
        = .ok () final ↔
      ∃ items, members.mapM decode = .ok items
        ∧ (items.map event).forM visit state = .ok () final := by
  induction members generalizing state with
  | nil =>
    constructor
    · intro h
      exact ⟨[], rfl, h⟩
    · rintro ⟨_, hnil, h⟩
      cases hnil
      exact h
  | cons member members ih =>
    have hcons : ∀ step : Member → Run σ Unit,
        (member :: members).forM step = step member >>= fun _ => members.forM step :=
      fun _ => rfl
    rw [hcons, bind_ok]
    simp only [ih, bind_ok, ofDecoded_ok, mapM_eq_ok, List.forall₂_cons_left_iff]
    constructor
    · rintro ⟨_, middle, ⟨item, _, ⟨hitem, rfl⟩, hvisit⟩, items, hitems, h⟩
      exact ⟨item :: items, ⟨item, items, hitem, hitems, rfl⟩, forM_cons_ok.2 ⟨middle, hvisit, h⟩⟩
    · rintro ⟨_, ⟨item, items, hitem, hitems, rfl⟩, h⟩
      obtain ⟨middle, hvisit, h⟩ := forM_cons_ok.1 h
      exact ⟨(), middle, ⟨item, state, ⟨hitem, rfl⟩, hvisit⟩, items, hitems, h⟩

end Events

end ClassStub.Run
