import Mathlib.Data.List.Forall2

/-! # Computations that can fail

How a computation in `Except` came to succeed: each of its steps did. And how it came to fail: one
of its steps did, behind others that succeeded. `FailsOnly` says which errors a computation can
have, with a rule for every way in which computations are put together. -/

namespace ClassStub

variable {α β ε ε' : Type}

@[simp] theorem bind_eq_ok {first : Except ε α} {next : α → Except ε β} {result : β} :
    first >>= next = .ok result ↔ ∃ value, first = .ok value ∧ next value = .ok result := by
  cases first with
  | ok value => exact ⟨fun h => ⟨value, rfl, h⟩, fun ⟨_, hfirst, h⟩ => Except.ok.inj hfirst ▸ h⟩
  | error cause => exact ⟨fun h => (nomatch h), fun ⟨_, hfirst, _⟩ => (nomatch hfirst)⟩

@[simp] theorem map_eq_ok {first : Except ε α} {f : α → β} {result : β} :
    f <$> first = .ok result ↔ ∃ value, first = .ok value ∧ f value = result := by
  cases first with
  | ok value =>
    constructor
    · intro h
      exact ⟨value, rfl, Except.ok.inj h⟩
    · rintro ⟨_, hfirst, rfl⟩
      cases hfirst
      rfl
  | error cause => exact ⟨fun h => (nomatch h), fun ⟨_, hfirst, _⟩ => (nomatch hfirst)⟩

@[simp] theorem pure_eq_ok {value result : α} :
    (pure value : Except ε α) = .ok result ↔ value = result :=
  ⟨Except.ok.inj, congrArg _⟩

@[simp] theorem mapError_eq_ok {first : Except ε α} {wrap : ε → ε'} {result : α} :
    first.mapError wrap = .ok result ↔ first = .ok result := by
  cases first with
  | ok value => exact ⟨fun h => congrArg _ (Except.ok.inj h), fun h => congrArg _ (Except.ok.inj h)⟩
  | error cause => exact ⟨fun h => (nomatch h), fun h => (nomatch h)⟩

theorem bind_eq_error {first : Except ε α} {next : α → Except ε β} {cause : ε} :
    first >>= next = .error cause ↔
      first = .error cause ∨ ∃ value, first = .ok value ∧ next value = .error cause := by
  cases first with
  | ok value =>
    constructor
    · exact fun h => .inr ⟨value, rfl, h⟩
    · rintro (h | ⟨_, hfirst, h⟩)
      · cases h
      · cases hfirst
        exact h
  | error other =>
    constructor
    · exact fun h => .inl (congrArg _ (Except.error.inj h))
    · rintro (h | ⟨_, hfirst, _⟩)
      · exact congrArg _ (Except.error.inj h)
      · cases hfirst

/-- A list is mapped successfully when each of its items is. -/
theorem mapM_eq_ok {f : α → Except ε β} {items : List α} {results : List β} :
    items.mapM f = .ok results ↔
      List.Forall₂ (fun item result => f item = .ok result) items results := by
  induction items generalizing results with
  | nil =>
    rw [List.mapM_nil, List.forall₂_nil_left_iff, pure_eq_ok, eq_comm]
  | cons item items ih =>
    rw [List.mapM_cons, List.forall₂_cons_left_iff, bind_eq_ok]
    constructor
    · rintro ⟨result, hitem, h⟩
      obtain ⟨rest, hrest, h⟩ := bind_eq_ok.1 h
      exact ⟨result, rest, hitem, ih.1 hrest, (pure_eq_ok.1 h).symm⟩
    · rintro ⟨result, rest, hitem, hrest, rfl⟩
      exact ⟨result, hitem, bind_eq_ok.2 ⟨rest, ih.2 hrest, rfl⟩⟩

/-- A list is not mapped because of the first of its items that is not. -/
theorem exists_of_mapM_eq_error {f : α → Except ε β} {items : List α} {cause : ε}
    (h : items.mapM f = .error cause) :
    ∃ before item after results, items = before ++ item :: after
      ∧ before.mapM f = .ok results ∧ f item = .error cause := by
  induction items with
  | nil => cases h
  | cons item items ih =>
    rw [List.mapM_cons] at h
    rcases bind_eq_error.1 h with hitem | ⟨result, hitem, h⟩
    · exact ⟨[], item, items, [], rfl, rfl, hitem⟩
    · rcases bind_eq_error.1 h with hitems | ⟨_, _, hpure⟩
      · obtain ⟨before, other, after, results, rfl, hbefore, hother⟩ := ih hitems
        refine ⟨item :: before, other, after, result :: results, rfl, ?_, hother⟩
        exact mapM_eq_ok.2 (.cons hitem (mapM_eq_ok.1 hbefore))
      · cases hpure

/-- A list is mapped unless one of its items is not. -/
theorem exists_mem_of_mapM_eq_error {f : α → Except ε β} {items : List α} {cause : ε}
    (h : items.mapM f = .error cause) : ∃ item ∈ items, f item = .error cause := by
  obtain ⟨before, item, after, -, rfl, -, hitem⟩ := exists_of_mapM_eq_error h
  exact ⟨item, List.mem_append_right _ List.mem_cons_self, hitem⟩

/-- What follows a check succeeds if the check does. -/
theorem check_bind_eq_ok {check : Except ε Unit} {next : Unit → Except ε β} {result : β} :
    check >>= next = .ok result ↔ check = .ok () ∧ next () = .ok result := by
  rw [bind_eq_ok]
  exact ⟨fun ⟨_, h⟩ => h, fun h => ⟨(), h⟩⟩

/-- A list passes a check when each of its items does. -/
theorem forM_eq_ok {f : α → Except ε Unit} {items : List α} :
    items.forM f = .ok () ↔ ∀ item ∈ items, f item = .ok () := by
  induction items with
  | nil => exact ⟨fun _ _ h => (nomatch h), fun _ => rfl⟩
  | cons item items ih =>
    rw [List.forall_mem_cons, ← ih]
    exact check_bind_eq_ok

theorem throw_bind_ne_ok {error : ε} {next : α → Except ε β} {result : β} :
    (throw error >>= next) ≠ .ok result :=
  nofun

/-- What is refused does not succeed. -/
theorem ite_throw_eq_ok {refused : Prop} [Decidable refused] {error : ε} {next : α → Except ε β}
    {otherwise : Except ε β} {result : β} :
    (if refused then throw error >>= next else otherwise) = .ok result ↔
      ¬refused ∧ otherwise = .ok result := by
  by_cases hrefused : refused
  · rw [if_pos hrefused]
    exact ⟨fun h => absurd h throw_bind_ne_ok, fun h => absurd hrefused h.1⟩
  · rw [if_neg hrefused]
    exact ⟨fun h => ⟨hrefused, h⟩, fun h => h.2⟩

/-! ## Faults -/

/-- If a computation fails, it does so with an `allowed` error. -/
def FailsOnly (allowed : ε → Prop) (result : Except ε α) : Prop :=
  ∀ cause, result = .error cause → allowed cause

section Faults

variable {allowed wider : ε → Prop} {result : Except ε α}

theorem failsOnly_ok (value : α) : FailsOnly allowed (.ok value) :=
  nofun

theorem failsOnly_error {cause : ε} (h : allowed cause) :
    FailsOnly allowed (.error cause : Except ε α) := by
  rintro _ ⟨⟩
  exact h

theorem FailsOnly.of_ok {value : α} (h : result = .ok value) : FailsOnly allowed result := by
  rw [h]
  exact failsOnly_ok value

theorem FailsOnly.mono (h : FailsOnly allowed result)
    (hwider : ∀ cause, allowed cause → wider cause) : FailsOnly wider result :=
  fun cause hcause => hwider cause (h cause hcause)

theorem FailsOnly.bind {next : α → Except ε β} (hfirst : FailsOnly allowed result)
    (hnext : ∀ value, FailsOnly allowed (next value)) : FailsOnly allowed (result >>= next) := by
  intro cause hcause
  rcases bind_eq_error.1 hcause with hcause | ⟨value, -, hcause⟩
  · exact hfirst cause hcause
  · exact hnext value cause hcause

/-- What follows a check need only be considered where the check succeeds. -/
theorem FailsOnly.check {check : Except ε Unit} {next : Unit → Except ε β}
    (hcheck : FailsOnly allowed check) (hnext : check = .ok () → FailsOnly allowed (next ())) :
    FailsOnly allowed (check >>= next) := by
  intro cause hcause
  rcases bind_eq_error.1 hcause with hcause | ⟨_, hok, hcause⟩
  · exact hcheck cause hcause
  · exact hnext hok cause hcause

theorem FailsOnly.map (h : FailsOnly allowed result) (f : α → β) :
    FailsOnly allowed (f <$> result) := by
  rw [map_eq_pure_bind]
  exact h.bind fun value => failsOnly_ok (f value)

theorem FailsOnly.mapError {allowed : ε' → Prop} {wrap : ε → ε'}
    (h : FailsOnly (fun cause => allowed (wrap cause)) result) :
    FailsOnly allowed (result.mapError wrap) := by
  cases result with
  | ok value => exact failsOnly_ok value
  | error cause => exact failsOnly_error (h cause rfl)

theorem failsOnly_mapM {f : α → Except ε β} (h : ∀ item, FailsOnly allowed (f item))
    (items : List α) : FailsOnly allowed (items.mapM f) := by
  induction items with
  | nil => exact failsOnly_ok []
  | cons item items ih =>
    rw [List.mapM_cons]
    exact (h item).bind fun result => ih.bind fun results => failsOnly_ok (result :: results)

theorem failsOnly_forM {f : α → Except ε Unit} {items : List α}
    (h : ∀ item ∈ items, FailsOnly allowed (f item)) : FailsOnly allowed (items.forM f) := by
  induction items with
  | nil => exact failsOnly_ok ()
  | cons item items ih =>
    obtain ⟨hitem, hitems⟩ := List.forall_mem_cons.1 h
    exact hitem.bind fun _ => ih hitems

end Faults

/-! ## Lists that correspond -/

/-- What stands in one of two lists that correspond has its counterpart in the other. -/
theorem exists_of_forall₂ {relation : α → β → Prop} {items : List α} {others : List β} {item : α}
    (h : List.Forall₂ relation items others) (hitem : item ∈ items) :
    ∃ other ∈ others, relation item other := by
  induction h with
  | nil => cases hitem
  | @cons first second _ _ hfirst _ ih =>
    rcases List.mem_cons.1 hitem with rfl | hitem
    · exact ⟨second, List.mem_cons_self, hfirst⟩
    · obtain ⟨other, hother, hrelated⟩ := ih hitem
      exact ⟨other, List.mem_cons_of_mem _ hother, hrelated⟩

/-- Items that each have a counterpart correspond to the list of these. -/
theorem exists_forall₂ {relation : α → β → Prop} {items : List α}
    (h : ∀ item ∈ items, ∃ other, relation item other) :
    ∃ others, List.Forall₂ relation items others := by
  induction items with
  | nil => exact ⟨[], .nil⟩
  | cons item items ih =>
    obtain ⟨hitem, hitems⟩ := List.forall_mem_cons.1 h
    obtain ⟨other, hother⟩ := hitem
    obtain ⟨others, hothers⟩ := ih hitems
    exact ⟨other :: others, .cons hother hothers⟩

end ClassStub
