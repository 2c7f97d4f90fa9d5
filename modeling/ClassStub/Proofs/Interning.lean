import ClassStub.Assembly
import ClassStub.Proofs.EventLimits
import ClassStub.Proofs.Pools

/-! # Laws of interning

A sound pool finds every constant it knows of at the index it remembers. `Interns` is the
judgement about computations that add constants: whatever they return keeps its meaning in every
pool that comes later, and a failure leaves a sound pool behind. -/

namespace ClassStub

namespace Pool

/-- The constants that a pool consists of stand in its slots one after the other, the texts among
them are `texts`, and what was added is where the pool remembers it. -/
structure Sound (texts : JavaText → Prop) (pool : Pool) : Prop where
  known : ∀ constant index, pool.known[constant]? = some index → pool.get index = .ok constant
  layout : ∃ constants : List Constant, pool.slots.toList = constants.flatMap slotsOf
    ∧ ∀ text, .utf8 text ∈ constants → texts text

/-- What adding constants to a pool may change. -/
structure Grown (texts : JavaText → Prop) (pool next : Pool) : Prop where
  sound : next.Sound texts
  le : pool ≤ next
  size_le : next.slots.size ≤ max pool.slots.size maxSlots

end Pool

/-- What `action` returns has `meaning` in all later pools. The pool stays sound, and the only
failure is for lack of space. -/
def Interns {α : Type} (texts : JavaText → Prop) (action : PoolM α) (meaning : Pool → α → Prop) :
    Prop :=
  ∀ pool, pool.Sound texts →
    match action pool with
    | .ok value next => pool.Grown texts next ∧ ∀ later, next ≤ later → meaning later value
    | .error cause next => pool.Grown texts next ∧ cause = .outOfSpace

namespace Pool

variable {texts : JavaText → Prop} {pool next : Pool}

theorem sound_empty : empty.Sound texts where
  known constant index h := by
    rw [empty, Std.HashMap.getElem?_empty] at h
    cases h
  layout := ⟨[], rfl, fun _ h => (nomatch h)⟩

theorem Sound.grown (h : pool.Sound texts) : pool.Grown texts pool :=
  ⟨h, le_refl pool, Nat.le_max_left ..⟩

theorem Grown.trans {a b c : Pool} (hab : a.Grown texts b) (hbc : b.Grown texts c) :
    a.Grown texts c :=
  ⟨hbc.sound, le_trans hab.le hbc.le, by
    have := hab.size_le
    have := hbc.size_le
    omega⟩

theorem length_slotsOf (constant : Constant) : (slotsOf constant).length = constant.width := by
  unfold slotsOf Constant.width
  split <;> rfl

theorem head?_slotsOf (constant : Constant) : (slotsOf constant)[0]? = some (.entry constant) := by
  unfold slotsOf
  split <;> rfl

end Pool

section Rules

variable {α β : Type} {texts : JavaText → Prop}

theorem Interns.grown {action : PoolM α} {meaning : Pool → α → Prop}
    (h : Interns texts action meaning) {pool next : Pool} {value : α} (hpool : pool.Sound texts)
    (hrun : action pool = .ok value next) :
    pool.Grown texts next ∧ ∀ later, next ≤ later → meaning later value := by
  have := h pool hpool
  rwa [hrun] at this

theorem interns_pure {value : α} {meaning : Pool → α → Prop} (h : ∀ later, meaning later value) :
    Interns texts (pure value) meaning :=
  fun _ hpool => ⟨hpool.grown, fun later _ => h later⟩

theorem Interns.bind {action : PoolM α} {next : α → PoolM β} {meaning : Pool → α → Prop}
    {result : Pool → β → Prop} (haction : Interns texts action meaning)
    (hnext : ∀ value, Interns texts (next value) fun later value' =>
      meaning later value → result later value') :
    Interns texts (action >>= next) result := by
  intro pool hpool
  have hfirst := haction pool hpool
  change match EStateM.bind action next pool with | .ok .. => _ | .error .. => _
  unfold EStateM.bind
  cases hrun : action pool with
  | error cause middle =>
    rw [hrun] at hfirst
    exact hfirst
  | ok value middle =>
    rw [hrun] at hfirst
    obtain ⟨hgrown, hmeaning⟩ := hfirst
    have hsecond := hnext value middle hgrown.sound
    dsimp only
    cases hrun' : next value middle with
    | error cause final =>
      rw [hrun'] at hsecond
      exact ⟨hgrown.trans hsecond.1, hsecond.2⟩
    | ok value' final =>
      rw [hrun'] at hsecond
      refine ⟨hgrown.trans hsecond.1, fun later hlater => hsecond.2 later hlater ?_⟩
      exact hmeaning later (Pool.le_trans hsecond.1.le hlater)

theorem Interns.mono {action : PoolM α} {meaning weaker : Pool → α → Prop}
    (h : Interns texts action meaning)
    (hweaker : ∀ later value, meaning later value → weaker later value) :
    Interns texts action weaker := by
  intro pool hpool
  have hrun := h pool hpool
  split at hrun
  · exact ⟨hrun.1, fun later hlater => hweaker later _ (hrun.2 later hlater)⟩
  · exact hrun

theorem Interns.map {action : PoolM α} {meaning : Pool → α → Prop} {f : α → β}
    {result : Pool → β → Prop} (h : Interns texts action meaning)
    (hresult : ∀ later value, meaning later value → result later (f value)) :
    Interns texts (f <$> action) result := by
  rw [map_eq_pure_bind]
  refine h.bind fun value => interns_pure ?_
  intro later hvalue
  exact hresult later value hvalue

theorem interns_mapM {action : α → PoolM β} {meaning : α → Pool → β → Prop} {items : List α}
    (h : ∀ item ∈ items, Interns texts (action item) (meaning item)) :
    Interns texts (items.mapM action) fun later values =>
      List.Forall₂ (fun item value => meaning item later value) items values := by
  induction items with
  | nil =>
    rw [List.mapM_nil]
    apply interns_pure
    intro later
    exact .nil
  | cons item items ih =>
    rw [List.mapM_cons]
    refine (h item List.mem_cons_self).bind fun value => ?_
    refine (ih fun other hother => h other (List.mem_cons_of_mem _ hother)).bind fun values => ?_
    apply interns_pure
    intro later hvalues hvalue
    exact .cons hvalue hvalues

end Rules

namespace Pool

variable {texts : JavaText → Prop}

/-- The pool with one constant more. -/
def push (pool : Pool) (constant : Constant) : Pool where
  slots := pool.slots ++ slotsOf constant
  known := pool.known.insert constant (pool.slots.size + 1).toUInt16

theorem add_eq (constant : Constant) (pool : Pool) :
    add constant pool = match pool.known[constant]? with
      | some index => .ok index pool
      | none =>
        if maxSlots < pool.slots.size + constant.width then .error .outOfSpace pool
        else .ok (pool.slots.size + 1).toUInt16 (pool.push constant) :=
  rfl

theorem known_push (pool : Pool) (constant other : Constant) :
    (pool.push constant).known[other]? =
      if constant == other then some (pool.slots.size + 1).toUInt16 else pool.known[other]? :=
  Std.HashMap.getElem?_insert

theorem le_push (pool : Pool) (constant : Constant) : pool ≤ pool.push constant := by
  apply le_of_prefix
  rw [push, Array.toList_appendList]
  exact List.prefix_append ..

/-- A constant is found where it was added. -/
theorem get_push {pool : Pool} {constant : Constant}
    (h : pool.slots.size + constant.width ≤ maxSlots) :
    (pool.push constant).get (pool.slots.size + 1).toUInt16 = .ok constant := by
  have hwidth : 1 ≤ constant.width := by
    unfold Constant.width
    split <;> omega
  have hindex : (pool.slots.size + 1).toUInt16.toNat = pool.slots.size + 1 := by
    rw [Nat.toUInt16_eq, UInt16.toNat_ofNat']
    unfold maxSlots at h
    omega
  refine get_ok.2 ⟨fun hzero => ?_, ?_⟩
  · rw [hzero] at hindex
    cases hindex
  · have hsize : pool.slots.toList.length = pool.slots.size := rfl
    rw [hindex, Nat.add_sub_cancel, push, ← Array.getElem?_toList, Array.toList_appendList,
      List.getElem?_append_right (by omega), hsize, Nat.sub_self, head?_slotsOf]

/-- A sound pool with space for a constant stays sound when it is added. -/
theorem Sound.push {pool : Pool} (hpool : pool.Sound texts) {constant : Constant}
    (h : ∀ text, constant = .utf8 text → texts text)
    (hspace : pool.slots.size + constant.width ≤ maxSlots) : (pool.push constant).Sound texts where
  known other index hother := by
    rw [known_push] at hother
    by_cases hsame : constant = other
    · subst hsame
      rw [if_pos (beq_self_eq_true constant)] at hother
      cases hother
      exact get_push hspace
    · rw [if_neg (mt beq_iff_eq.1 hsame)] at hother
      exact le_push pool constant _ _ (hpool.known other index hother)
  layout := by
    obtain ⟨constants, hslots, htexts⟩ := hpool.layout
    refine ⟨constants ++ [constant], ?_, ?_⟩
    · rw [Pool.push, Array.toList_appendList, hslots, List.flatMap_append, List.flatMap_singleton]
    · intro text htext
      rcases List.mem_append.1 htext with htext | htext
      · exact htexts text htext
      · exact h text (List.mem_singleton.1 htext).symm

/-- The index at which a constant was added names it from then on. -/
theorem interns_add {constant : Constant} (h : ∀ text, constant = .utf8 text → texts text) :
    Interns texts (add constant) fun later index => later.get index = .ok constant := by
  intro pool hpool
  rw [add_eq]
  cases hknown : pool.known[constant]? with
  | some index =>
    exact ⟨hpool.grown, fun later hlater => hlater _ _ (hpool.known constant index hknown)⟩
  | none =>
    dsimp only
    by_cases hfull : maxSlots < pool.slots.size + constant.width
    · rw [if_pos hfull]
      exact ⟨hpool.grown, rfl⟩
    · rw [if_neg hfull]
      have hspace := Nat.le_of_not_lt hfull
      refine ⟨⟨hpool.push h hspace, le_push pool constant, ?_⟩, fun later hlater =>
        hlater _ _ (get_push hspace)⟩
      rw [push, ← Array.length_toList, Array.toList_appendList, List.length_append,
        length_slotsOf, Array.length_toList]
      omega

theorem interns_addText {text : JavaText} (h : texts text) :
    Interns texts (addText text) fun later index => later.getText index = .ok text :=
  (interns_add fun other hother => by cases hother; exact h).mono fun _ _ => getText_ok.2

theorem interns_addName {name : String} (h : texts (.ofString name)) :
    Interns texts (addName name) fun later index => later.getName index = .ok name :=
  (interns_addText h).mono fun _ _ htext => getName_ok.2 (getText_ok.1 htext)

theorem interns_addClass {name : String} (h : texts (.ofString name)) :
    Interns texts (addClass name) fun later index =>
      index ≠ 0 ∧ later.getClassName index = .ok name :=
  (interns_addName h).bind fun text =>
    (interns_add fun _ hother => (nomatch hother)).mono fun _ _ hindex hname =>
      ⟨(get_ok.1 hindex).1, getClassName_ok.2 ⟨text, hindex, hname⟩⟩

theorem interns_addOptionalClass {name : Option String}
    (h : ∀ found ∈ name, texts (.ofString found)) :
    Interns texts (addOptionalClass name) fun later index =>
      later.getOptionalClassName index = .ok name := by
  cases name with
  | none =>
    apply interns_pure
    intro later
    rfl
  | some name =>
    refine (interns_addClass (h name rfl)).mono fun later index hindex => ?_
    unfold getOptionalClassName
    rw [if_neg hindex.1, hindex.2]
    rfl

theorem interns_addOptionalName {name : Option String}
    (h : ∀ found ∈ name, texts (.ofString found)) :
    Interns texts (addOptionalName name) fun later index =>
      later.getOptionalName index = .ok name := by
  cases name with
  | none =>
    apply interns_pure
    intro later
    rfl
  | some name =>
    refine (interns_addName (h name rfl)).mono fun later index hindex => ?_
    unfold getOptionalName
    rw [if_neg (get_ok.1 (getName_ok.1 hindex)).1, hindex]
    rfl

theorem interns_addNameAndType {name descriptor : String} (hname : texts (.ofString name))
    (hdescriptor : texts (.ofString descriptor)) :
    Interns texts (addNameAndType name descriptor) fun later index =>
      index ≠ 0 ∧ later.getNameAndType index = .ok (name, descriptor) :=
  (interns_addName hname).bind fun first => (interns_addName hdescriptor).bind fun second =>
    (interns_add fun _ hother => (nomatch hother)).mono fun _ _ hindex hsecond hfirst =>
      ⟨(get_ok.1 hindex).1, getNameAndType_ok.2 ⟨first, second, hindex, hfirst, hsecond⟩⟩

theorem interns_addInteger (value : Int32) :
    Interns texts (addInteger value) fun later index => later.getInteger index = .ok value :=
  (interns_add fun _ hother => (nomatch hother)).mono fun _ _ => getInteger_ok.2

theorem interns_addLong (value : Int64) :
    Interns texts (addLong value) fun later index => later.getLong index = .ok value :=
  (interns_add fun _ hother => (nomatch hother)).mono fun _ _ => getLong_ok.2

theorem interns_addFloat (bits : UInt32) :
    Interns texts (addFloat bits) fun later index => later.getFloat index = .ok bits :=
  (interns_add fun _ hother => (nomatch hother)).mono fun _ _ => getFloat_ok.2

theorem interns_addDouble (bits : UInt64) :
    Interns texts (addDouble bits) fun later index => later.getDouble index = .ok bits :=
  (interns_add fun _ hother => (nomatch hother)).mono fun _ _ => getDouble_ok.2

theorem interns_addConstantValue {value : ConstantValue} (h : value.Within texts) :
    Interns texts value.add fun later index =>
      Statement.findConstantValue later index = .ok value := by
  unfold Statement.findConstantValue
  cases value with
  | string text =>
    refine (interns_addText (h _ rfl)).bind fun first => ?_
    refine (interns_add fun _ hother => (nomatch hother)).mono fun later index hindex hfirst => ?_
    exact bind_eq_ok.2 ⟨_, hindex, bind_eq_ok.2 ⟨text, hfirst, rfl⟩⟩
  | _ =>
    refine (interns_add fun _ hother => (nomatch hother)).mono fun later index hindex => ?_
    rw [hindex]
    rfl

end Pool

end ClassStub
