import ClassStub.Proofs.Decoding
import ClassStub.Proofs.Pools
import ClassStub.Verification

/-! # Attribute bodies that are accepted

The four attributes with indexes in their bodies that a verification looks into. Each of them is
accepted exactly if its body is the written form of indexes that name constants of the kinds that
they need. -/

namespace ClassStub

/-! ## Look-ups -/

namespace Pool

variable {pool later : Pool} {accepts : Constant → Bool} {index : UInt16}

theorem has_iff :
    pool.has accepts index ↔ ∃ constant, pool.get index = .ok constant ∧ accepts constant := by
  unfold has check
  cases pool.get index with
  | ok constant =>
    by_cases haccepts : accepts constant
    · simp [haccepts]
    · simp [haccepts]
  | error cause => simp

theorem hasOptional_iff :
    pool.hasOptional accepts index ↔ index = 0 ∨ pool.has accepts index := by
  simp [hasOptional]

theorem has_mono (hle : pool ≤ later) (h : pool.has accepts index) : later.has accepts index := by
  obtain ⟨constant, hget, haccepts⟩ := has_iff.1 h
  exact has_iff.2 ⟨constant, hle _ _ hget, haccepts⟩

/-- A check of an index succeeds if it finds what is needed. -/
theorem check_ok {ε : Type} {missing wrongKind : ε} :
    (match pool.check accepts index with
      | .valid => .ok ()
      | .missing => .error missing
      | .wrongKind => .error wrongKind : Except ε Unit) = .ok () ↔ pool.has accepts index := by
  unfold has
  cases pool.check accepts index with
  | valid => simp
  | missing => simp
  | wrongKind => simp

end Pool

/-! ## Words -/

namespace Bytes

/-- Two bytes are the written form of their number. -/
theorem ofUInt16_toNat (high low : UInt8) :
    ofUInt16 (toNat [high, low]).toUInt16 = [high, low] := by
  have hlt : toNat [high, low] < 256 ^ 2 := toNat_lt [high, low]
  refine eq_of_toNat_eq rfl ?_
  rw [toNat_ofUInt16, toNat_toUInt16 (Nat.le_of_lt_succ hlt)]

theorem length_flatMap_ofUInt16 (items : List UInt16) :
    (items.flatMap ofUInt16).length = 2 * items.length := by
  simp [List.length_flatMap, Nat.mul_comm]

/-- Bytes of an even number are the written form of words. -/
theorem exists_words : ∀ body : Bytes, body.length % 2 = 0 →
    ∃ items : List UInt16, body = items.flatMap ofUInt16
  | [], _ => ⟨[], rfl⟩
  | [_], h => by cases h
  | high :: low :: rest, h => by
    have hrest : rest.length % 2 = 0 := by
      rw [List.length_cons, List.length_cons] at h
      omega
    obtain ⟨items, hitems⟩ := exists_words rest hrest
    refine ⟨(toNat [high, low]).toUInt16 :: items, ?_⟩
    rw [List.flatMap_cons, ofUInt16_toNat, ← hitems]
    rfl

end Bytes

namespace Verification

theorem wordsOnto_flatMap (items reversed : List UInt16) :
    wordsOnto reversed (items.flatMap Bytes.ofUInt16) = reversed.reverse ++ items := by
  induction items generalizing reversed with
  | nil => exact (List.append_nil _).symm
  | cons item items ih =>
    have hitem : (Bytes.toNat (Bytes.ofUInt16 item)).toUInt16 = item := by
      rw [Bytes.toNat_ofUInt16, Nat.toUInt16_eq, UInt16.ofNat_toNat]
    change wordsOnto ((Bytes.toNat (Bytes.ofUInt16 item)).toUInt16 :: reversed)
      (items.flatMap Bytes.ofUInt16) = _
    rw [hitem, ih, List.reverse_cons, List.append_assoc, List.singleton_append]

@[simp] theorem words_flatMap (items : List UInt16) :
    words (items.flatMap Bytes.ofUInt16) = items :=
  wordsOnto_flatMap items []

/-! ## Bodies -/

variable {pool : Pool} {body : Bytes}

theorem verifyConstantValue_ok : verifyConstantValue pool body = .ok () ↔
    ∃ index, body = Bytes.ofUInt16 index ∧ pool.has Constant.isConstantValue index := by
  unfold verifyConstantValue
  constructor
  · intro h
    split at h
    · rename_i hlength
      split at h
      · rename_i hhas
        obtain ⟨high, low, rfl⟩ := List.length_eq_two.1 hlength
        exact ⟨_, (Bytes.ofUInt16_toNat high low).symm, hhas⟩
      · cases h
    · cases h
  · rintro ⟨index, rfl, hhas⟩
    rw [if_pos (Bytes.length_ofUInt16 index), Bytes.toNat_ofUInt16, Nat.toUInt16_eq,
      UInt16.ofNat_toNat, if_pos hhas]

theorem verifyMethodIndex_ok {accepts : Constant → Bool} {index : UInt16} :
    verifyMethodIndex pool accepts index = .ok () ↔ pool.has accepts index :=
  Pool.check_ok

theorem verifyExceptions_ok : verifyExceptions pool body = .ok () ↔
    ∃ exceptions : List UInt16, exceptions.length ≤ 65535
      ∧ body = Bytes.ofList Bytes.ofUInt16 exceptions
      ∧ ∀ index ∈ exceptions, pool.has Constant.isClassRef index := by
  unfold verifyExceptions
  constructor
  · intro h
    split at h
    · rename_i count exceptions hwords
      split at h
      · rename_i hlength
        obtain ⟨items, rfl⟩ := Bytes.exists_words body (by omega)
        rw [words_flatMap] at hwords
        subst hwords
        rw [Bytes.length_flatMap_ofUInt16, List.length_cons] at hlength
        have hcount := count.toNat_lt
        refine ⟨exceptions, by omega, ?_, fun index hindex =>
          verifyMethodIndex_ok.1 (forM_eq_ok.1 h index hindex)⟩
        rw [Bytes.ofList, show exceptions.length = count.toNat by omega, Nat.toUInt16_eq,
          UInt16.ofNat_toNat, List.flatMap_cons]
      · cases h
    · cases h
  · rintro ⟨exceptions, hcount, rfl, hexceptions⟩
    rw [Bytes.ofList, ← List.flatMap_cons, words_flatMap]
    have hlength : ((exceptions.length.toUInt16 :: exceptions).flatMap Bytes.ofUInt16).length =
        2 + exceptions.length.toUInt16.toNat * 2 := by
      rw [Bytes.length_flatMap_ofUInt16, toNat_toUInt16 hcount, List.length_cons]
      omega
    dsimp only
    rw [if_pos hlength]
    exact forM_eq_ok.2 fun index hindex => verifyMethodIndex_ok.2 (hexceptions index hindex)

/-- A list of exceptions that name classes can only be too long. -/
theorem failsOnly_verifyExceptions {exceptions : List UInt16}
    (h : ∀ index ∈ exceptions, pool.has Constant.isClassRef index) :
    FailsOnly (· = .invalidAttribute .exceptions)
      (verifyExceptions pool (Bytes.ofList Bytes.ofUInt16 exceptions)) := by
  unfold verifyExceptions
  rw [Bytes.ofList, ← List.flatMap_cons, words_flatMap]
  dsimp only
  split
  · refine failsOnly_forM fun index hindex => ?_
    rw [verifyMethodIndex_ok.2 (h index hindex)]
    exact failsOnly_ok ()
  · exact failsOnly_error rfl

theorem enclosingMethodValid_iff : enclosingMethodValid pool body ↔
    ∃ owner method, body = Bytes.ofUInt16 owner ++ Bytes.ofUInt16 method
      ∧ pool.has Constant.isClassRef owner ∧ pool.hasOptional Constant.isNameAndType method := by
  unfold enclosingMethodValid
  constructor
  · intro h
    split at h
    · rename_i owner method hlength hwords
      obtain ⟨items, rfl⟩ := Bytes.exists_words body (by rw [beq_iff_eq.1 hlength])
      rw [words_flatMap] at hwords
      subst hwords
      exact ⟨owner, method, rfl, Bool.and_eq_true_iff.1 h⟩
    · cases h
  · rintro ⟨owner, method, rfl, howner, hmethod⟩
    have hwords : words (Bytes.ofUInt16 owner ++ Bytes.ofUInt16 method) = [owner, method] :=
      words_flatMap [owner, method]
    rw [hwords]
    exact Bool.and_eq_true_iff.2 ⟨howner, hmethod⟩

/-- A nested link in terms of the pool. -/
structure NestedRow where
  name : UInt16
  outer : UInt16
  simple : UInt16
  access : UInt16

namespace NestedRow

/-- The words of a nested link. -/
def words (row : NestedRow) : List UInt16 :=
  [row.name, row.outer, row.simple, row.access]

/-- The written form of a nested link. -/
def toBytes (row : NestedRow) : Bytes :=
  row.words.flatMap Bytes.ofUInt16

/-- The indexes of a nested link name what they should. -/
structure Resolves (pool : Pool) (row : NestedRow) : Prop where
  name : pool.has Constant.isClassRef row.name
  outer : pool.hasOptional Constant.isClassRef row.outer
  simple : pool.hasOptional Constant.isUtf8 row.simple

theorem length_flatMap_words (rows : List NestedRow) :
    (rows.flatMap words).length = 4 * rows.length := by
  simp [List.length_flatMap, words, Nat.mul_comm]

/-- Words in groups of four are those of nested links. -/
theorem exists_rows : ∀ items : List UInt16, items.length % 4 = 0 →
    ∃ rows : List NestedRow, items = rows.flatMap words
  | [], _ => ⟨[], rfl⟩
  | [_], h => by cases h
  | [_, _], h => by cases h
  | [_, _, _], h => by cases h
  | name :: outer :: simple :: access :: rest, h => by
    have hrest : rest.length % 4 = 0 := by
      simp only [List.length_cons] at h
      omega
    obtain ⟨rows, hrows⟩ := exists_rows rest hrest
    exact ⟨⟨name, outer, simple, access⟩ :: rows, by rw [hrows]; rfl⟩

end NestedRow

theorem nestedLinksValid_iff {rows : List NestedRow} :
    nestedLinksValid pool (rows.flatMap NestedRow.words) ↔ ∀ row ∈ rows, row.Resolves pool := by
  induction rows with
  | nil => exact ⟨fun _ _ h => (nomatch h), fun _ => rfl⟩
  | cons row rows ih =>
    rw [List.forall_mem_cons, ← ih]
    change (_ && _ && _ && nestedLinksValid pool (rows.flatMap NestedRow.words)) = true ↔ _
    simp only [Bool.and_eq_true]
    refine and_congr_left fun _ => ?_
    constructor
    · rintro ⟨⟨hname, houter⟩, hsimple⟩
      exact ⟨hname, houter, hsimple⟩
    · rintro ⟨hname, houter, hsimple⟩
      exact ⟨⟨hname, houter⟩, hsimple⟩

theorem innerClassesValid_iff : innerClassesValid pool body ↔
    ∃ rows : List NestedRow, rows.length ≤ 65535 ∧ body = Bytes.ofList NestedRow.toBytes rows
      ∧ ∀ row ∈ rows, row.Resolves pool := by
  have hwritten : ∀ rows : List NestedRow,
      rows.flatMap NestedRow.toBytes = (rows.flatMap NestedRow.words).flatMap Bytes.ofUInt16 :=
    fun rows => List.flatMap_assoc.symm
  unfold innerClassesValid
  constructor
  · intro h
    split at h
    · rename_i count links hwords
      obtain ⟨hlength, hlinks⟩ := Bool.and_eq_true_iff.1 h
      rw [beq_iff_eq] at hlength
      obtain ⟨items, rfl⟩ := Bytes.exists_words body (by omega)
      rw [words_flatMap] at hwords
      subst hwords
      rw [Bytes.length_flatMap_ofUInt16, List.length_cons] at hlength
      obtain ⟨rows, rfl⟩ := NestedRow.exists_rows links (by omega)
      rw [NestedRow.length_flatMap_words] at hlength
      have hcount := count.toNat_lt
      refine ⟨rows, by omega, ?_, nestedLinksValid_iff.1 hlinks⟩
      rw [Bytes.ofList, show rows.length = count.toNat by omega, Nat.toUInt16_eq,
        UInt16.ofNat_toNat, hwritten, List.flatMap_cons]
    · cases h
  · rintro ⟨rows, hcount, rfl, hrows⟩
    rw [Bytes.ofList, hwritten, ← List.flatMap_cons, words_flatMap]
    dsimp only
    rw [Bytes.length_flatMap_ofUInt16, List.length_cons, NestedRow.length_flatMap_words,
      toNat_toUInt16 hcount, nestedLinksValid_iff.2 hrows, Bool.and_true, beq_iff_eq]
    omega

end Verification

end ClassStub
