import ClassStub.Proofs.AnnotationWriting
import ClassStub.Proofs.NestedValues
import ClassStub.Proofs.ReachablePools

/-! # Values that were stored

A value is stored as bytes and as additions to a pool. From the bytes it is read back as it was,
whatever follows them and whatever is added to the pool later. -/

namespace ClassStub

namespace Pool

/-- The pool after further additions, whether they succeeded or not. -/
def addAll (pool : Pool) (additions : List Addition) : Pool :=
  additions.foldl (fun pool addition => addition.run.after pool) pool

theorem Sound.le_addAll {pool : Pool} (h : pool.Sound anyText) (additions : List Addition) :
    pool ≤ pool.addAll additions := by
  induction additions generalizing pool with
  | nil => exact le_refl pool
  | cons addition additions ih =>
    have hgrown := addition.interns.grown_after h
    exact le_trans hgrown.le (ih hgrown.sound)

end Pool

namespace ElementValue

/-- What a sound pool made of a value is read as that value with every later pool. -/
theorem reads_encode {value : ElementValue} (hvalue : value.Within (.counted anyText))
    {pool next later : Pool} (hpool : pool.Sound anyText) {written : Bytes}
    (hrun : value.encode pool = .ok written next) (hlater : next ≤ later) :
    (decode later).Reads written value := by
  intro rest offset
  -- The bound of the reader exceeds the bytes that are left, and so the size of the value.
  have hsize := ((writes_encode hvalue (Nat.le_refl _)).grown hpool hrun).2 later hlater
  have hlevels : value.writtenSize ≤ (written ++ rest).length := by
    rw [List.length_append, hsize.1]
    exact Nat.le_add_right _ _
  exact (((writes_encode hvalue hlevels).grown hpool hrun).2 later hlater).2 rest offset

/-- A value whose lists can be counted is read back from the bytes that were written for it, and
these are all that is read, whatever stands behind them and whatever was added to the pool since. -/
theorem decode_encode {value : ElementValue} (hvalue : value.Within (.counted anyText))
    {pool : Pool} (hpool : pool.Reachable) {written : Bytes} {next : Pool}
    (hrun : value.encode pool = .ok written next) (additions : List Pool.Addition) (rest : Bytes)
    (offset : Nat) :
    decode (next.addAll additions) ⟨written ++ rest, offset⟩ =
      .ok (value, ⟨rest, offset + written.length⟩) := by
  have hgrown := ((writes_encode hvalue (Nat.le_refl _)).grown hpool.sound hrun).1
  exact reads_encode hvalue hpool.sound hrun (hgrown.sound.le_addAll additions) rest offset

/-! ## An annotation with an array -/

/-- An annotation `A` whose element `A` is an array of -1 and of a `float` that is no number. -/
def signedAndNaN : ElementValue :=
  .nested "A" [("A", .array [.byte (-1), .float 0x7FC00001])]

/-- The pool of the class `A` with the numbers of that annotation. -/
def poolOfSignedAndNaN : Pool :=
  (Pool.ofClassA.push (.integer (-1))).push (.float 0x7FC00001)

theorem encode_signedAndNaN : signedAndNaN.encode .ofClassA =
    .ok [0x40, 0, 1, 0, 1, 0, 1, 0x5B, 0, 2, 0x42, 0, 3, 0x46, 0, 4] poolOfSignedAndNaN := by
  have hinteger : Pool.addInteger (Int8.toInt32 (-1)) .ofClassA =
      .ok 3 (Pool.ofClassA.push (.integer (-1))) := by
    unfold Pool.addInteger
    rw [Pool.add_eq, Pool.ofClassA, Pool.known_push, Pool.known_push, Pool.known_empty]
    rfl
  have hfloat : Pool.addFloat 0x7FC00001 (Pool.ofClassA.push (.integer (-1))) =
      .ok 4 poolOfSignedAndNaN := by
    unfold Pool.addFloat
    rw [Pool.add_eq, Pool.ofClassA, Pool.known_push, Pool.known_push, Pool.known_push,
      Pool.known_empty]
    rfl
  simp only [signedAndNaN, encode, encodePairsOnto, encodeValuesOnto, indexBytes, bind,
    EStateM.bind, Functor.map, EStateM.map, Pool.addName_ofClassA_known, hinteger, hfloat]
  rfl

theorem decode_encode_signedAndNaN :
    signedAndNaN.Within (.counted anyText) ∧ Pool.ofClassA.Reachable
      ∧ signedAndNaN.encode .ofClassA =
        .ok [0x40, 0, 1, 0, 1, 0, 1, 0x5B, 0, 2, 0x42, 0, 3, 0x46, 0, 4] poolOfSignedAndNaN
      ∧ decode (poolOfSignedAndNaN.addAll [.name "B", .float 0x7FC00001])
          (.start [0x40, 0, 1, 0, 1, 0, 1, 0x5B, 0, 2, 0x42, 0, 3, 0x46, 0, 4, 0xFF]) =
        .ok (signedAndNaN, ⟨[0xFF], 16⟩) := by
  have hcountable : signedAndNaN.Within (.counted anyText) := by
    refine .nested trivial (show 1 ≤ 65535 by decide) (fun _ _ => trivial) fun pair hpair => ?_
    cases List.mem_singleton.1 hpair
    refine .array (show 2 ≤ 65535 by decide) fun value hvalue => ?_
    simp only [List.mem_cons, List.not_mem_nil, or_false] at hvalue
    rcases hvalue with rfl | rfl
    · exact .byte _
    · exact .float _
  have hreachable : Pool.ofClassA.Reachable := by
    have hafter : (Pool.Addition.classRef "A").run.after .empty = Pool.ofClassA :=
      PoolM.after_of_ok Pool.addClass_empty
    have hadded := Pool.Reachable.empty.added (.classRef "A")
    rwa [hafter] at hadded
  exact ⟨hcountable, hreachable, encode_signedAndNaN,
    decode_encode hcountable hreachable encode_signedAndNaN [.name "B", .float 0x7FC00001] [0xFF] 0⟩

end ElementValue

end ClassStub
