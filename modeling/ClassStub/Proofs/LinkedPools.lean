import ClassStub.Proofs.VerifiedClasses

/-! # Pools whose references resolve

Adding to a pool never leaves a reference behind that does not resolve, not even when it fails
midway. `Links` is the judgement about computations that add constants which says so: under what is
given of all later pools, the result has its meaning in all later pools, and the pool stays closed
under references. Writing annotations is such a computation. -/

namespace ClassStub

/-- A pool that consists of constants, knows where they stand, and resolves their references. -/
structure Pool.Closed (pool : Pool) : Prop where
  sound : pool.Sound fun _ => True
  linked : pool.Linked

/-- What `action` returns has `meaning` in all later pools, if all of them have what is `given`.
Closed pools stay closed, even if the action fails, which it does only for lack of space. -/
def Links {α : Type} (given : Pool → Prop) (action : PoolM α) (meaning : Pool → α → Prop) : Prop :=
  ∀ pool : Pool, pool.Closed → (∀ later, pool ≤ later → given later) →
    match action pool with
    | .ok value next =>
      next.Closed ∧ pool ≤ next ∧ ∀ later, next ≤ later → meaning later value
    | .error cause next => next.Closed ∧ pool ≤ next ∧ cause = .outOfSpace

section Rules

variable {α β : Type} {given : Pool → Prop}

theorem links_pure {value : α} {meaning : Pool → α → Prop}
    (h : ∀ later, given later → meaning later value) : Links given (pure value) meaning :=
  fun pool hpool hgiven =>
    ⟨hpool, Pool.le_refl pool, fun later hlater => h later (hgiven later hlater)⟩

/-- What the first computation returned is given to the next. -/
theorem Links.bind {action : PoolM α} {next : α → PoolM β} {meaning : Pool → α → Prop}
    {result : Pool → β → Prop} (haction : Links given action meaning)
    (hnext : ∀ value, Links (fun later => given later ∧ meaning later value) (next value) result) :
    Links given (action >>= next) result := by
  intro pool hpool hgiven
  have hfirst := haction pool hpool hgiven
  change match EStateM.bind action next pool with | .ok .. => _ | .error .. => _
  unfold EStateM.bind
  cases hrun : action pool with
  | error cause middle =>
    rw [hrun] at hfirst
    exact hfirst
  | ok value middle =>
    rw [hrun] at hfirst
    obtain ⟨hclosed, hle, hmeaning⟩ := hfirst
    have hsecond := hnext value middle hclosed fun later hlater =>
      ⟨hgiven later (Pool.le_trans hle hlater), hmeaning later hlater⟩
    dsimp only
    cases hrun' : next value middle with
    | error cause final =>
      rw [hrun'] at hsecond
      exact ⟨hsecond.1, Pool.le_trans hle hsecond.2.1, hsecond.2.2⟩
    | ok value' final =>
      rw [hrun'] at hsecond
      exact ⟨hsecond.1, Pool.le_trans hle hsecond.2.1, hsecond.2.2⟩

/-- What was given holds afterwards too. -/
theorem Links.frame {action : PoolM α} {meaning : Pool → α → Prop}
    (h : Links given action meaning) :
    Links given action fun later value => given later ∧ meaning later value := by
  intro pool hpool hgiven
  have hrun := h pool hpool hgiven
  split at hrun
  · obtain ⟨hclosed, hle, hmeaning⟩ := hrun
    exact ⟨hclosed, hle, fun later hlater =>
      ⟨hgiven later (Pool.le_trans hle hlater), hmeaning later hlater⟩⟩
  · exact hrun

theorem Links.mono {action : PoolM α} {meaning weaker : Pool → α → Prop}
    (h : Links given action meaning)
    (hweaker : ∀ later value, meaning later value → weaker later value) :
    Links given action weaker := by
  intro pool hpool hgiven
  have hrun := h pool hpool hgiven
  split at hrun
  · exact ⟨hrun.1, hrun.2.1, fun later hlater => hweaker later _ (hrun.2.2 later hlater)⟩
  · exact hrun

theorem Links.and {action : PoolM α} {meaning other : Pool → α → Prop}
    (h : Links given action meaning) (hother : Links given action other) :
    Links given action fun later value => meaning later value ∧ other later value := by
  intro pool hpool hgiven
  have hrun := h pool hpool hgiven
  have hrun' := hother pool hpool hgiven
  cases haction : action pool with
  | ok value next =>
    rw [haction] at hrun hrun'
    obtain ⟨hclosed, hle, hmeaning⟩ := hrun
    exact ⟨hclosed, hle, fun later hlater => ⟨hmeaning later hlater, hrun'.2.2 later hlater⟩⟩
  | error cause next =>
    rw [haction] at hrun
    exact hrun

theorem Links.map {action : PoolM α} {meaning : Pool → α → Prop} {f : α → β}
    {result : Pool → β → Prop} (h : Links given action meaning)
    (hresult : ∀ later value, meaning later value → result later (f value)) :
    Links given (f <$> action) result := by
  rw [map_eq_pure_bind]
  refine h.bind fun value => links_pure ?_
  rintro later ⟨-, hvalue⟩
  exact hresult later value hvalue

/-- Nothing is asked of what was written, nor of what becomes of it. -/
theorem Links.map_any {action : PoolM α} (h : Links given action fun _ _ => True) (f : α → β) :
    Links given (f <$> action) fun _ _ => True :=
  h.map fun _ _ _ => trivial

theorem links_mapM {action : α → PoolM β} {meaning : α → Pool → β → Prop} {items : List α}
    (h : ∀ given, ∀ item ∈ items, Links given (action item) (meaning item)) :
    Links given (items.mapM action) fun later values =>
      List.Forall₂ (fun item value => meaning item later value) items values := by
  induction items generalizing given with
  | nil =>
    rw [List.mapM_nil]
    apply links_pure
    intro later _
    exact .nil
  | cons item items ih =>
    rw [List.mapM_cons]
    refine (h given item List.mem_cons_self).bind fun value => ?_
    refine (ih fun given other hother => h given other (List.mem_cons_of_mem _ hother)).bind
      fun values => ?_
    apply links_pure
    rintro later ⟨⟨-, hvalue⟩, hvalues⟩
    exact .cons hvalue hvalues

end Rules

namespace Pool

variable {given : Pool → Prop}

theorem closed_empty : empty.Closed where
  sound := sound_empty
  linked _ hconstant := absurd hconstant (Array.not_mem_empty _)

theorem linked_push {pool : Pool} {constant : Constant} (h : pool.Linked)
    (hconstant : ∀ reference ∈ constant.references, pool.has reference.2 reference.1) :
    (pool.push constant).Linked := by
  intro other hother reference hreference
  apply has_mono (le_push pool constant)
  rw [push, ← Array.mem_toList_iff, Array.toList_appendList, List.mem_append] at hother
  rcases hother with hother | hother
  · exact h other (Array.mem_toList_iff.1 hother) reference hreference
  · have hsame : other = constant := by
      unfold slotsOf at hother
      split at hother
      · simpa using hother
      · simpa using hother
    subst hsame
    exact hconstant reference hreference

/-- A constant whose references resolve can be added. -/
theorem links_add {constant : Constant} (h : ∀ later, given later →
      ∀ reference ∈ constant.references, later.has reference.2 reference.1) :
    Links given (add constant) fun later index => later.get index = .ok constant := by
  intro pool hpool hgiven
  rw [add_eq]
  cases hknown : pool.known[constant]? with
  | some index =>
    have hget := hpool.sound.known constant index hknown
    exact ⟨hpool, le_refl pool, fun later hlater => hlater _ _ hget⟩
  | none =>
    dsimp only
    by_cases hfull : maxSlots < pool.slots.size + constant.width
    · rw [if_pos hfull]
      exact ⟨hpool, le_refl pool, rfl⟩
    · rw [if_neg hfull]
      have hspace := Nat.le_of_not_lt hfull
      have hlinked := linked_push hpool.linked (h pool (hgiven pool (le_refl pool)))
      exact ⟨⟨hpool.sound.push (fun _ _ => trivial) hspace, hlinked⟩, le_push pool constant,
        fun later hlater => hlater _ _ (get_push hspace)⟩

/-- A constant without references can be added anywhere. -/
theorem links_add_plain {constant : Constant} (h : constant.references = []) :
    Links given (add constant) fun later index => later.get index = .ok constant := by
  refine links_add fun later _ reference hreference => ?_
  rw [h] at hreference
  cases hreference

theorem links_addText (text : JavaText) :
    Links given (addText text) fun later index => later.has Constant.isUtf8 index :=
  (links_add_plain rfl).mono fun _ _ hget => has_iff.2 ⟨_, hget, rfl⟩

theorem links_addName (name : String) :
    Links given (addName name) fun later index => later.getName index = .ok name :=
  (links_add_plain rfl).mono fun _ _ hget => getName_ok.2 hget

theorem has_of_getName {pool : Pool} {index : UInt16} {name : String}
    (h : pool.getName index = .ok name) : pool.has Constant.isUtf8 index :=
  has_iff.2 ⟨_, getName_ok.1 h, rfl⟩

theorem ne_zero_of_has {pool : Pool} {accepts : Constant → Bool} {index : UInt16}
    (h : pool.has accepts index) : index ≠ 0 := by
  obtain ⟨constant, hget, -⟩ := has_iff.1 h
  exact (get_ok.1 hget).1

theorem links_addClass (name : String) :
    Links given (addClass name) fun later index => later.has Constant.isClassRef index := by
  refine (links_addName name).bind fun first => ?_
  refine (links_add ?_).mono fun _ _ hget => has_iff.2 ⟨_, hget, rfl⟩
  rintro later ⟨-, hfirst⟩ reference hreference
  cases List.mem_singleton.1 hreference
  exact has_of_getName hfirst

theorem links_addNameAndType (name descriptor : String) :
    Links given (addNameAndType name descriptor) fun later index =>
      later.has Constant.isNameAndType index := by
  refine (links_addName name).bind fun first => (links_addName descriptor).bind fun second => ?_
  refine (links_add ?_).mono fun _ _ hget => has_iff.2 ⟨_, hget, rfl⟩
  rintro later ⟨⟨-, hfirst⟩, hsecond⟩ reference hreference
  rcases List.mem_pair.1 hreference with rfl | rfl
  · exact has_of_getName hfirst
  · exact has_of_getName hsecond

theorem links_addString (text : JavaText) :
    Links given (addString text) fun later index => later.has Constant.isConstantValue index := by
  refine (links_addText text).bind fun first => ?_
  refine (links_add ?_).mono fun _ _ hget => has_iff.2 ⟨_, hget, rfl⟩
  rintro later ⟨-, hfirst⟩ reference hreference
  cases List.mem_singleton.1 hreference
  exact hfirst

theorem links_addConstantValue (value : ConstantValue) :
    Links given value.add fun later index => later.has Constant.isConstantValue index := by
  cases value with
  | string text => exact links_addString text
  | _ => exact (links_add_plain rfl).mono fun _ _ hget => has_iff.2 ⟨_, hget, rfl⟩

/-- An optional class has the index 0 exactly if there is none. -/
theorem links_addOptionalClass (name : Option String) :
    Links given (addOptionalClass name) fun later index =>
      (index = 0 ↔ name = none) ∧ later.hasOptional Constant.isClassRef index := by
  cases name with
  | none =>
    apply links_pure
    intro later _
    exact ⟨⟨fun _ => rfl, fun _ => rfl⟩, hasOptional_iff.2 (.inl rfl)⟩
  | some name =>
    refine (links_addClass name).mono fun later index hindex =>
      ⟨?_, hasOptional_iff.2 (.inr hindex)⟩
    exact ⟨fun hzero => absurd hzero (ne_zero_of_has hindex), nofun⟩

theorem links_addOptionalName (name : Option String) :
    Links given (addOptionalName name) fun later index =>
      later.hasOptional Constant.isUtf8 index := by
  cases name with
  | none =>
    apply links_pure
    intro later _
    exact hasOptional_iff.2 (.inl rfl)
  | some name =>
    exact (links_addName name).mono fun _ _ hname => hasOptional_iff.2 (.inr (has_of_getName hname))

end Pool

/-! ## Written forms -/

section Written

variable {given : Pool → Prop}

theorem links_indexBytes {action : PoolM UInt16} {meaning : Pool → UInt16 → Prop}
    (h : Links given action meaning) :
    Links given (ElementValue.indexBytes action) fun later written =>
      ∃ index, written = Bytes.ofUInt16 index ∧ meaning later index :=
  h.map fun _ index hindex => ⟨index, rfl, hindex⟩

/-- A list of items is written as a list of rows that fit the pool, if every item is written as
such a row. -/
theorem links_encodeList {α β : Type} {encode : α → PoolM Bytes} {write : β → Bytes}
    {fits : Pool → β → Prop} {items : List α}
    (h : ∀ given, ∀ item ∈ items, Links given (encode item) fun later written =>
      ∃ row, written = write row ∧ fits later row) :
    Links given (encodeList encode items) fun later body =>
      ∃ rows : List β, rows.length = items.length ∧ body = Bytes.ofList write rows
        ∧ ∀ row ∈ rows, fits later row := by
  refine (links_mapM h).bind fun parts => links_pure ?_
  rintro later ⟨-, hparts⟩
  have hrows : ∃ rows : List β, rows.length = items.length ∧ parts = rows.map write
      ∧ ∀ row ∈ rows, fits later row := by
    clear h
    induction hparts with
    | nil => exact ⟨[], rfl, rfl, fun _ hrow => (nomatch hrow)⟩
    | cons hpart _ ih =>
      obtain ⟨row, rfl, hrow⟩ := hpart
      obtain ⟨rows, hlength, rfl, hrows⟩ := ih
      exact ⟨row :: rows, congrArg Nat.succ hlength, rfl, List.forall_mem_cons.2 ⟨hrow, hrows⟩⟩
  obtain ⟨rows, hlength, rfl, hrows⟩ := hrows
  exact ⟨rows, hlength, by rw [Bytes.ofList, hlength, List.flatMap]; rfl, hrows⟩

/-- An index that is written without anything being asked of it. -/
theorem links_anyIndex {action : PoolM UInt16} {meaning : Pool → UInt16 → Prop}
    (h : Links given action meaning) :
    Links given (ElementValue.indexBytes action) fun _ _ => True :=
  (links_indexBytes h).mono fun _ _ _ => trivial

end Written

namespace ElementValue

variable {given : Pool → Prop}

mutual

theorem links_encode {given : Pool → Prop} (value : ElementValue) :
    Links given value.encode fun _ _ => True := by
  rw [encode.eq_def]
  refine Links.map_any ?_ _
  match value with
  | byte value => exact links_anyIndex (Pool.links_add_plain rfl)
  | char unit => exact links_anyIndex (Pool.links_add_plain rfl)
  | double bits => exact links_anyIndex (Pool.links_add_plain rfl)
  | float bits => exact links_anyIndex (Pool.links_add_plain rfl)
  | int value => exact links_anyIndex (Pool.links_add_plain rfl)
  | long value => exact links_anyIndex (Pool.links_add_plain rfl)
  | short value => exact links_anyIndex (Pool.links_add_plain rfl)
  | boolean value => exact links_anyIndex (Pool.links_add_plain rfl)
  | string text => exact links_anyIndex (Pool.links_addText text)
  | enumConstant typeDescriptor constantName =>
    refine (links_anyIndex (Pool.links_addName typeDescriptor)).bind fun first => ?_
    exact (links_anyIndex (Pool.links_addName constantName)).bind fun second =>
      links_pure fun _ _ => trivial
  | classInfo descriptor => exact links_anyIndex (Pool.links_addName descriptor)
  | nested descriptor elements =>
    refine (links_anyIndex (Pool.links_addName descriptor)).bind fun first => ?_
    exact (links_encodePairsOnto [] elements).bind fun second => links_pure fun _ _ => trivial
  | array values =>
    exact (links_encodeValuesOnto [] values).bind fun second => links_pure fun _ _ => trivial

theorem links_encodePairsOnto {given : Pool → Prop} (reversed : List Bytes) :
    ∀ elements, Links given (encodePairsOnto reversed elements) fun _ _ => True
  | [] => by
    rw [encodePairsOnto]
    exact links_pure fun _ _ => trivial
  | (name, value) :: rest => by
    rw [encodePairsOnto]
    refine (links_anyIndex (Pool.links_addName name)).bind fun first => ?_
    exact (links_encode value).bind fun second => links_encodePairsOnto _ rest

theorem links_encodeValuesOnto {given : Pool → Prop} (reversed : List Bytes) :
    ∀ values, Links given (encodeValuesOnto reversed values) fun _ _ => True
  | [] => by
    rw [encodeValuesOnto]
    exact links_pure fun _ _ => trivial
  | value :: rest => by
    rw [encodeValuesOnto]
    exact (links_encode value).bind fun first => links_encodeValuesOnto _ rest

end

end ElementValue

end ClassStub
