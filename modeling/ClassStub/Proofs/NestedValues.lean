import ClassStub.Proofs.AnnotationReading
import ClassStub.Proofs.DecodingFailures
import ClassStub.Proofs.Layouts

/-! # Reading nested values

To read a value is to read the values inside of it, however deep these nest. Such a reader is a
solution of `reader = decodeLevel pool reader`. Every value takes three bytes or more, so that a
value inside of another one has three bytes less to be read from. The equation therefore has one
solution, and a bound on the levels is not noticed as long as it is a third of the bytes that are
left, so that no reader of an attribute notices its own. For the same reason a value that was read
has no more values inside of it, and is no deeper, than a third of the bytes that were read. -/

namespace ClassStub

/-! ## Decoders that agree -/

namespace Decoder

variable {α β : Type}

/-- The decoders do the same wherever no more than `bound` bytes are left. -/
def AgreeUpTo (bound : Nat) (decoder other : Decoder α) : Prop :=
  ∀ cursor : Cursor, cursor.remaining ≤ bound → decoder cursor = other cursor

/-- The decoder takes `count` bytes or more whenever it succeeds. -/
def Takes (decoder : Decoder α) (count : Nat) : Prop :=
  Yields decoder fun _ taken => count ≤ taken.length

variable {bound count : Nat} {decoder other : Decoder α}

theorem Yields.takes {property : α → Bytes → Prop} (h : Yields decoder property) :
    Takes decoder 0 :=
  h.mono fun _ taken _ => Nat.zero_le taken.length

theorem agreeUpTo_rfl : AgreeUpTo bound decoder decoder :=
  fun _ _ => rfl

theorem AgreeUpTo.mono {larger : Nat} (h : AgreeUpTo larger decoder other)
    (hbound : bound ≤ larger) : AgreeUpTo bound decoder other := by
  intro cursor hcursor
  exact h cursor (Nat.le_trans hcursor hbound)

theorem Takes.remaining (h : Takes decoder count) {cursor next : Cursor} {value : α}
    (hrun : decoder cursor = .ok (value, next)) : next.remaining ≤ cursor.remaining - count := by
  obtain ⟨taken, hrest, -, htaken⟩ := h cursor value next hrun
  unfold Cursor.remaining
  rw [hrest, List.length_append]
  omega

/-- What follows a decoder has fewer bytes left by those that the decoder takes. -/
theorem AgreeUpTo.bind {next next' : α → Decoder β} (hfirst : AgreeUpTo bound decoder other)
    (htakes : Takes decoder count)
    (hnext : ∀ value, AgreeUpTo (bound - count) (next value) (next' value)) :
    AgreeUpTo bound (decoder >>= next) (other >>= next') := by
  intro cursor hcursor
  change (decoder cursor >>= fun pair => next pair.1 pair.2) =
    (other cursor >>= fun pair => next' pair.1 pair.2)
  rw [← hfirst cursor hcursor]
  cases hrun : decoder cursor with
  | error error => rfl
  | ok pair =>
    obtain ⟨value, middle⟩ := pair
    have hmiddle := htakes.remaining hrun
    exact hnext value middle (by omega)

theorem AgreeUpTo.map (h : AgreeUpTo bound decoder other) (f : α → β) :
    AgreeUpTo bound (decoder >>= fun value => pure (f value))
      (other >>= fun value => pure (f value)) := by
  intro cursor hcursor
  change (decoder cursor >>= fun pair => Except.ok (f pair.1, pair.2)) = _
  rw [h cursor hcursor]
  rfl

theorem AgreeUpTo.repeatOnto (h : AgreeUpTo bound decoder other) (htakes : Takes decoder 0)
    (count : Nat) (reversed : List α) :
    AgreeUpTo bound (repeatOnto decoder count reversed) (other.repeatOnto count reversed) := by
  induction count generalizing reversed with
  | zero => exact agreeUpTo_rfl
  | succ count ih =>
    rw [repeatOnto_succ, repeatOnto_succ]
    exact h.bind htakes fun value => ih (value :: reversed)

theorem takes_u1 : Takes u1 1 :=
  yields_u1.mono fun _ _ htaken => Nat.le_of_eq htaken.symm

theorem takes_u2 : Takes u2 2 :=
  yields_u2.mono fun _ _ htaken => Nat.le_of_eq htaken.symm

/-- Decoders that agree read the same from a body that is no longer than their bound. -/
theorem AgreeUpTo.decode (h : AgreeUpTo bound decoder other) {body : Bytes}
    (hbody : body.length ≤ bound) : decoder.decode body = other.decode body :=
  congrArg (Except.map Prod.fst) (h (.start body) hbody)

/-- The items of a list have two bytes less, those of its count. -/
theorem AgreeUpTo.counted (h : AgreeUpTo bound decoder other) (htakes : Takes decoder 0) :
    AgreeUpTo (bound + 2) (counted decoder) (counted other) :=
  agreeUpTo_rfl.bind takes_u2 fun number => h.repeatOnto htakes number.toNat []

end Decoder

/-- Any text is a text. -/
theorem Pool.holds_anyText (pool : Pool) : pool.Holds anyText :=
  fun _ _ _ => trivial

namespace ElementValue

open Decoder (Yields Takes AgreeUpTo agreeUpTo_rfl takes_u1)

/-! ## The equation of the reader -/

/-- A value with any nesting. The bytes that are left bound its levels. -/
def decode (pool : Pool) : Decoder ElementValue := fun cursor =>
  decodeWithin pool (levelBound cursor.rest) cursor

variable {pool : Pool} {levels : Nat} {cursor : Cursor} {inner other : Decoder ElementValue}

theorem length_le_levelBound (body : Bytes) : body.length ≤ 3 * levelBound body := by
  unfold levelBound
  omega

/-- The default of an element is read as any other value. -/
theorem decodeBody_eq (pool : Pool) (body : Bytes) :
    decodeBody pool body = (decode pool).decode body := by
  unfold decodeBody Decoder.decode decode
  rfl

theorem decodeLevel_of_remaining_zero (h : cursor.remaining = 0) :
    decodeLevel pool inner cursor = .error (.truncated cursor.offset 1) := by
  obtain ⟨rest, offset⟩ := cursor
  obtain rfl := List.length_eq_zero_iff.1 h
  rfl

theorem takes_decodeIndexed {α : Type} (find : UInt16 → Except PoolError α) :
    Takes (decodeIndexed find) 2 :=
  (yields_decodeIndexed find).mono fun _ _ h => Nat.le_of_eq h.2.symm

theorem agreeUpTo_decodePairs {bound : Nat} (h : AgreeUpTo bound inner other)
    (htakes : Takes inner 0) :
    AgreeUpTo bound (decodePairs pool inner) (decodePairs pool other) := by
  have hpair : AgreeUpTo bound
      (do let name ← decodeIndexed pool.getName; return (name, ← inner))
      (do let name ← decodeIndexed pool.getName; return (name, ← other)) :=
    agreeUpTo_rfl.bind (takes_decodeIndexed pool.getName) fun name =>
      (h.mono (Nat.sub_le _ _)).map (Prod.mk name)
  refine (hpair.counted ?_).mono (Nat.le_add_right bound 2)
  have hyields : Yields (do let name ← decodeIndexed pool.getName; return (name, ← inner))
      fun _ _ => True :=
    (takes_decodeIndexed pool.getName).bind fun name _ _ => htakes.map fun _ _ _ => trivial
  exact hyields.takes

/-- The values inside of a value have three bytes less: those of its tag and of a count. -/
theorem agreeUpTo_decodeLevel {bound : Nat} (h : AgreeUpTo bound inner other)
    (htakes : Takes inner 0) :
    AgreeUpTo (bound + 3) (decodeLevel pool inner) (decodeLevel pool other) := by
  refine agreeUpTo_rfl.bind takes_u1 fun tag => ?_
  split
  case h_12 =>
    refine agreeUpTo_rfl.bind (takes_decodeIndexed pool.getName) fun descriptor => ?_
    exact (agreeUpTo_decodePairs h htakes).map (nested descriptor)
  case h_13 => exact (h.counted htakes).map array
  all_goals exact agreeUpTo_rfl

theorem takes_decodeWithin (pool : Pool) (levels : Nat) : Takes (decodeWithin pool levels) 0 :=
  (yields_decodeWithin pool.holds_anyText levels).takes

/-! ## Bounds that are not noticed -/

/-- More levels than a third of the bytes that are left are not used. -/
theorem agreeUpTo_decodeWithin (pool : Pool) (levels more : Nat) :
    AgreeUpTo (3 * levels) (decodeWithin pool levels) (decodeWithin pool (levels + more)) := by
  induction levels with
  | zero =>
    -- No byte is left for a tag, and that is what both readers say.
    intro cursor hcursor
    cases more with
    | zero => rfl
    | succ more =>
      rw [Nat.zero_add, decodeWithin, decodeWithin,
        decodeLevel_of_remaining_zero (Nat.le_zero.1 hcursor)]
      rfl
  | succ levels ih =>
    rw [Nat.succ_add, decodeWithin, decodeWithin]
    exact agreeUpTo_decodeLevel ih (takes_decodeWithin pool levels)

theorem decodeWithin_eq_of_remaining {fewer : Nat} (h : cursor.remaining ≤ 3 * levels)
    (h' : cursor.remaining ≤ 3 * fewer) :
    decodeWithin pool levels cursor = decodeWithin pool fewer cursor := by
  rcases Nat.le_total levels fewer with hle | hle
  · obtain ⟨more, rfl⟩ := Nat.exists_eq_add_of_le hle
    exact agreeUpTo_decodeWithin pool levels more cursor h
  · obtain ⟨more, rfl⟩ := Nat.exists_eq_add_of_le hle
    exact (agreeUpTo_decodeWithin pool fewer more cursor h').symm

/-- A bound on the levels is not noticed from a third of the bytes on. -/
theorem decodeWithin_eq_decode (h : cursor.remaining ≤ 3 * levels) :
    decodeWithin pool levels cursor = decode pool cursor :=
  decodeWithin_eq_of_remaining h (length_le_levelBound cursor.rest)

/-- The reader reads the values inside of a value as it reads the value itself. -/
theorem decode_eq (pool : Pool) : decode pool = decodeLevel pool (decode pool) := by
  funext cursor
  have hinside : AgreeUpTo (3 * cursor.remaining) (decodeWithin pool cursor.remaining)
      (decode pool) := fun _ h => decodeWithin_eq_decode h
  have htakes := takes_decodeWithin pool cursor.remaining
  exact agreeUpTo_decodeLevel hinside htakes cursor (by omega)

/-- No other reader solves the equation: what it makes of a value inside is known from fewer
bytes. -/
theorem eq_decode {reader : Decoder ElementValue} (h : reader = decodeLevel pool reader) :
    reader = decode pool := by
  -- Induction on the levels: the equation is used once for each, at the cost of three bytes.
  have hbounded : ∀ levels, AgreeUpTo (3 * levels) (decodeWithin pool levels) reader := by
    intro levels
    induction levels with
    | zero =>
      intro cursor hcursor
      rw [congrFun h cursor, decodeLevel_of_remaining_zero (Nat.le_zero.1 hcursor)]
      rfl
    | succ levels ih =>
      intro cursor hcursor
      rw [congrFun h cursor]
      exact agreeUpTo_decodeLevel ih (takes_decodeWithin pool levels) cursor hcursor
  funext cursor
  exact (hbounded (levelBound cursor.rest) cursor (length_le_levelBound cursor.rest)).symm

/-! ## How much there is in a value -/

mutual

/-- How many values there are in a value, itself included. -/
def size : ElementValue → Nat
  | nested _ elements => 1 + pairsCount elements
  | array values => 1 + valuesCount values
  | _ => 1

/-- How many values there are in named values. -/
def pairsCount : List ElementPair → Nat
  | [] => 0
  | (_, value) :: rest => value.size + pairsCount rest

/-- How many values there are in values. -/
def valuesCount : List ElementValue → Nat
  | [] => 0
  | value :: rest => value.size + valuesCount rest

end

mutual

/-- On how many levels the values in a value stand, its own included. -/
def depth : ElementValue → Nat
  | nested _ elements => 1 + pairsDepth elements
  | array values => 1 + valuesDepth values
  | _ => 1

/-- On how many levels the values in named values stand. -/
def pairsDepth : List ElementPair → Nat
  | [] => 0
  | (_, value) :: rest => max value.depth (pairsDepth rest)

/-- On how many levels the values in values stand. -/
def valuesDepth : List ElementValue → Nat
  | [] => 0
  | value :: rest => max value.depth (valuesDepth rest)

end

mutual

/-- Three bytes or more are written for each value. -/
theorem size_le_writtenSize (value : ElementValue) : 3 * value.size ≤ value.writtenSize := by
  match value with
  | nested _ elements =>
    have helements := pairsCount_le_pairsSize elements
    simp only [size, writtenSize]
    omega
  | array values =>
    have hvalues := valuesCount_le_valuesSize values
    simp only [size, writtenSize]
    omega
  | byte _ | char _ | double _ | float _ | int _ | long _ | short _ | boolean _ | string _
  | enumConstant _ _ | classInfo _ => simp [size, writtenSize]

theorem pairsCount_le_pairsSize (elements : List ElementPair) :
    3 * pairsCount elements ≤ pairsSize elements := by
  match elements with
  | [] => simp [pairsCount]
  | (_, value) :: rest =>
    have hvalue := size_le_writtenSize value
    have hrest := pairsCount_le_pairsSize rest
    simp only [pairsCount, pairsSize]
    omega

theorem valuesCount_le_valuesSize (values : List ElementValue) :
    3 * valuesCount values ≤ valuesSize values := by
  match values with
  | [] => simp [valuesCount]
  | value :: rest =>
    have hvalue := size_le_writtenSize value
    have hrest := valuesCount_le_valuesSize rest
    simp only [valuesCount, valuesSize]
    omega

end

mutual

/-- There is a value on each level. -/
theorem depth_le_size (value : ElementValue) : value.depth ≤ value.size := by
  match value with
  | nested _ elements =>
    have helements := pairsDepth_le_pairsCount elements
    simp only [depth, size]
    omega
  | array values =>
    have hvalues := valuesDepth_le_valuesCount values
    simp only [depth, size]
    omega
  | byte _ | char _ | double _ | float _ | int _ | long _ | short _ | boolean _ | string _
  | enumConstant _ _ | classInfo _ => simp [depth, size]

theorem pairsDepth_le_pairsCount (elements : List ElementPair) :
    pairsDepth elements ≤ pairsCount elements := by
  match elements with
  | [] => simp [pairsDepth]
  | (_, value) :: rest =>
    have hvalue := depth_le_size value
    have hrest := pairsDepth_le_pairsCount rest
    simp only [pairsDepth, pairsCount]
    omega

theorem valuesDepth_le_valuesCount (values : List ElementValue) :
    valuesDepth values ≤ valuesCount values := by
  match values with
  | [] => simp [valuesDepth]
  | value :: rest =>
    have hvalue := depth_le_size value
    have hrest := valuesDepth_le_valuesCount rest
    simp only [valuesDepth, valuesCount]
    omega

end

/-! ## Reading ends -/

/-- Three bytes or more are read for each value. -/
theorem yields_decode (pool : Pool) :
    Yields (decode pool) fun value taken =>
      3 * value.size ≤ taken.length ∧ 3 * value.depth ≤ taken.length := by
  intro cursor value next hrun
  have hbounded := (yields_decodeWithin pool.holds_anyText (levelBound cursor.rest)).mono
    fun value taken (h : Sized _ _ value taken) => h.2
  obtain ⟨taken, hrest, hoffset, hwritten⟩ := hbounded cursor value next hrun
  have hsize := size_le_writtenSize value
  have hdepth := depth_le_size value
  exact ⟨taken, hrest, hoffset, by omega, by omega⟩

/-- Reading a value ends, on whatever bytes and with whatever pool: the equation of the reader has
one solution, which needs no more levels than a third of the bytes that are left. A value that was
read has no more values inside of it, and is no deeper, than a third of the bytes that were read,
and a value is refused for want of bytes, for its tag or for what stands in the pool. -/
theorem decode_terminates (pool : Pool) :
    (∀ reader, reader = decodeLevel pool reader ↔ reader = decode pool)
    ∧ (∀ levels cursor, cursor.remaining ≤ 3 * levels →
        decodeWithin pool levels cursor = decode pool cursor)
    ∧ Yields (decode pool) (fun value taken =>
        3 * value.size ≤ taken.length ∧ 3 * value.depth ≤ taken.length)
    ∧ Decoder.FailsOnly IsFault (decode pool) := by
  refine ⟨fun reader => ⟨eq_decode, ?_⟩, fun _ _ => decodeWithin_eq_decode, yields_decode pool, ?_⟩
  · rintro rfl
    exact decode_eq pool
  · intro cursor
    exact (isComposed_decodeWithin pool (levelBound cursor.rest)).failsOnly cursor

-- An empty array inside of an array: two values on two levels, in six bytes.
example : decode .empty (.start [0x5B, 0, 1, 0x5B, 0, 0]) = .ok (.array [.array []], ⟨[], 6⟩) :=
  rfl

end ElementValue

/-! ## Values in annotations -/

section Annotations

open Decoder (AgreeUpTo Takes agreeUpTo_rfl takes_u1)
open ElementValue (levelBound length_le_levelBound decodePairs takes_decodeIndexed)

/-- An annotation with any nesting. -/
def Annotation.decode (pool : Pool) (visible : Bool) : Decoder Annotation :=
  decodeBy pool visible (ElementValue.decode pool)

/-- A table of parameter annotations with any nesting. -/
def ParameterTable.decode (pool : Pool) (visible : Bool) : Decoder ParameterTable :=
  decodeBy pool visible (ElementValue.decode pool)

/-- A type annotation with any nesting. -/
def TypeAnnotation.decode (pool : Pool) (visible : Bool) : Decoder TypeAnnotation :=
  decodeBy pool visible (ElementValue.decode pool)

variable (pool : Pool) (visible : Bool) {bound : Nat} {value other : Decoder ElementValue}

theorem Annotation.agreeUpTo_decodeBy (h : AgreeUpTo bound value other) (htakes : Takes value 0) :
    AgreeUpTo bound (decodeBy pool visible value) (decodeBy pool visible other) := by
  refine agreeUpTo_rfl.bind (takes_decodeIndexed pool.getName) fun descriptor => ?_
  have helements : AgreeUpTo bound (decodePairs pool value) (decodePairs pool other) :=
    ElementValue.agreeUpTo_decodePairs h htakes
  exact (helements.mono (Nat.sub_le _ _)).map _

theorem TypeAnnotation.agreeUpTo_decodeBy (h : AgreeUpTo bound value other)
    (htakes : Takes value 0) :
    AgreeUpTo bound (decodeBy pool visible value) (decodeBy pool visible other) := by
  have hcontent := Annotation.agreeUpTo_decodeBy pool visible h htakes
  refine agreeUpTo_rfl.bind takes_u1 fun targetType => ?_
  refine agreeUpTo_rfl.bind (Target.yields_decode targetType).takes fun target => ?_
  refine agreeUpTo_rfl.bind TypePath.yields_decode.takes fun path => AgreeUpTo.map ?_ _
  exact hcontent.mono (by omega)

variable (body : Bytes)

theorem agreeUpTo_levelBound :
    AgreeUpTo body.length (ElementValue.decodeWithin pool (levelBound body))
      (ElementValue.decode pool) :=
  fun _ hcursor =>
    ElementValue.decodeWithin_eq_decode (Nat.le_trans hcursor (length_le_levelBound body))

/-- The annotations in an attribute are read as if there were no bound on their nesting. -/
theorem Annotation.decodeBody_eq :
    decodeBody pool visible body = (Decoder.counted (decode pool visible)).decode body := by
  have hitem := agreeUpTo_decodeBy pool visible (agreeUpTo_levelBound pool body)
    (ElementValue.takes_decodeWithin pool _)
  have htakes := (yields_decodeWithin pool.holds_anyText visible (levelBound body)).takes
  exact (hitem.counted htakes).decode (Nat.le_add_right _ 2)

/-- So are the annotations of parameters. -/
theorem ParameterTable.decodeBody_eq :
    decodeBody pool visible body = (decode pool visible).decode body := by
  have hitem := Annotation.agreeUpTo_decodeBy pool visible (agreeUpTo_levelBound pool body)
    (ElementValue.takes_decodeWithin pool _)
  have hyields := Annotation.yields_decodeWithin pool.holds_anyText visible (levelBound body)
  have hitems := (hitem.counted hyields.takes).mono (Nat.le_add_right body.length 2)
  have hparameter := hitems.map CanonicalSet.ofList
  have htakes := (yields_parameter pool.holds_anyText visible (levelBound body)).takes
  have htable : AgreeUpTo body.length _ (decode pool visible) :=
    agreeUpTo_rfl.bind takes_u1 fun count =>
      ((hparameter.mono (Nat.sub_le _ 1)).repeatOnto htakes count.toNat []).map mk
  exact htable.decode (Nat.le_refl _)

/-- So are type annotations. -/
theorem TypeAnnotation.decodeBody_eq :
    decodeBody pool visible body = (Decoder.counted (decode pool visible)).decode body := by
  have hitem := agreeUpTo_decodeBy pool visible (agreeUpTo_levelBound pool body)
    (ElementValue.takes_decodeWithin pool _)
  have htakes := (yields_decodeWithin pool.holds_anyText visible (levelBound body)).takes
  exact (hitem.counted htakes).decode (Nat.le_add_right _ 2)

end Annotations

end ClassStub
