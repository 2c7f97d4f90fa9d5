import Mathlib.Algebra.Group.Nat.Defs
import Mathlib.Data.List.Induction
import ClassStub.Decoder
import ClassStub.Proofs.Outcome

/-! # Laws of decoding

Three judgements about decoders, each with a rule for every way in which decoders are put together.
`Reads` says what a decoder makes of bytes that were written for it, `Yields` says what holds of
whatever a decoder returned, and `Refines` compares two decoders. Proofs about the readers of the
class file format apply these rules along the `do` blocks of the readers. -/

namespace ClassStub

namespace Bytes

@[simp] theorem toNat_nil : toNat [] = 0 := rfl

theorem toNat_concat (bytes : Bytes) (byte : UInt8) :
    toNat (bytes ++ [byte]) = toNat bytes * 256 + byte.toNat := by
  rw [toNat, List.foldl_append, List.foldl_cons, List.foldl_nil]
  rfl

/-- A digit of a number in base 256 joins the digits before it. -/
theorem digits_step (number position : Nat) :
    number / 2 ^ (position + 8) * 256 + number / 2 ^ position % 256 = number / 2 ^ position := by
  rw [Nat.pow_add, ← Nat.div_div_eq_div_mul]
  exact Nat.div_add_mod' _ _

theorem digits_top {number position : Nat} (h : number / 2 ^ position < 256) :
    0 * 256 + number / 2 ^ position % 256 = number / 2 ^ position := by
  rw [Nat.zero_mul, Nat.zero_add, Nat.mod_eq_of_lt h]

theorem digits_last (number : Nat) :
    number / 2 ^ 8 * 256 + number % 256 = number := by
  have h := digits_step number 0
  rwa [Nat.pow_zero, Nat.div_one] at h

@[simp] theorem toNat_ofUInt16 (word : UInt16) : toNat (ofUInt16 word) = word.toNat := by
  have htop : word.toNat / 2 ^ 8 < 256 := by
    have := word.toNat_lt
    omega
  change toNat ([] ++ [_] ++ [_]) = _
  simp only [toNat_concat, toNat_nil, UInt16.toNat_toUInt8, UInt16.toNat_shiftRight,
    Nat.shiftRight_eq_div_pow, UInt16.reduceToNat, Nat.reduceMod]
  rw [digits_top htop, digits_last]

@[simp] theorem toNat_ofUInt32 (word : UInt32) : toNat (ofUInt32 word) = word.toNat := by
  have htop : word.toNat / 2 ^ 24 < 256 := by
    have := word.toNat_lt
    omega
  have h := digits_step word.toNat
  change toNat ([] ++ [_] ++ [_] ++ [_] ++ [_]) = _
  simp only [toNat_concat, toNat_nil, UInt32.toNat_toUInt8, UInt32.toNat_shiftRight,
    Nat.shiftRight_eq_div_pow, UInt32.reduceToNat, Nat.reduceMod]
  rw [digits_top htop, h 16, h 8, digits_last]

@[simp] theorem toNat_ofUInt64 (word : UInt64) : toNat (ofUInt64 word) = word.toNat := by
  have htop : word.toNat / 2 ^ 56 < 256 := by
    have := word.toNat_lt
    omega
  have h := digits_step word.toNat
  change toNat ([] ++ [_] ++ [_] ++ [_] ++ [_] ++ [_] ++ [_] ++ [_] ++ [_]) = _
  simp only [toNat_concat, toNat_nil, UInt64.toNat_toUInt8, UInt64.toNat_shiftRight,
    Nat.shiftRight_eq_div_pow, UInt64.reduceToNat, Nat.reduceMod]
  rw [digits_top htop, h 48, h 40, h 32, h 24, h 16, h 8, digits_last]

theorem toNat_lt (bytes : Bytes) : toNat bytes < 256 ^ bytes.length := by
  induction bytes using List.reverseRecOn with
  | nil => exact Nat.one_pos
  | append_singleton bytes byte ih =>
    have hbyte := byte.toNat_lt
    rw [toNat_concat, List.length_append, List.length_singleton, Nat.pow_succ]
    omega

/-- A number has only one written form of each length. -/
theorem eq_of_toNat_eq {bytes other : Bytes} (hlength : bytes.length = other.length)
    (h : toNat bytes = toNat other) : bytes = other := by
  induction bytes using List.reverseRecOn generalizing other with
  | nil => exact (List.length_eq_zero_iff.1 hlength.symm).symm
  | append_singleton bytes byte ih =>
    cases other using List.reverseRecOn with
    | nil => cases bytes <;> cases hlength
    | append_singleton other byte' =>
      have hbyte := byte.toNat_lt
      have hbyte' := byte'.toNat_lt
      rw [List.length_append, List.length_append] at hlength
      rw [toNat_concat, toNat_concat] at h
      have hlast : byte = byte' := UInt8.toNat_inj.1 (by omega)
      rw [ih (Nat.add_right_cancel hlength) (by omega), hlast]

end Bytes

/-- A count that fits into 16 bits is kept by them. -/
theorem toNat_toUInt16 {count : Nat} (h : count ≤ 65535) : count.toUInt16.toNat = count := by
  rw [Nat.toUInt16_eq, UInt16.toNat_ofNat']
  omega

/-- A count that fits into 8 bits is kept by them. -/
theorem toNat_toUInt8 {count : Nat} (h : count ≤ 255) : count.toUInt8.toNat = count := by
  rw [Nat.toUInt8_eq, UInt8.toNat_ofNat']
  omega

/-- A length that fits into 32 bits is kept by them. -/
theorem toNat_toUInt32 {count : Nat} (h : count < 2 ^ 32) : count.toUInt32.toNat = count := by
  rw [Nat.toUInt32_eq, UInt32.toNat_ofNat']
  omega

namespace Decoder

variable {α β : Type}

theorem bind_ok {decoder : Decoder α} {next : α → Decoder β} {cursor : Cursor}
    {result : β × Cursor} :
    (decoder >>= next) cursor = .ok result ↔
      ∃ value middle, decoder cursor = .ok (value, middle) ∧ next value middle = .ok result := by
  change (decoder cursor >>= fun pair => next pair.1 pair.2) = _ ↔ _
  rw [bind_eq_ok, Prod.exists]

theorem bind_error {decoder : Decoder α} {next : α → Decoder β} {cursor : Cursor}
    {error : FormatError} :
    (decoder >>= next) cursor = .error error ↔
      decoder cursor = .error error ∨
        ∃ value middle, decoder cursor = .ok (value, middle) ∧ next value middle = .error error := by
  change (decoder cursor >>= fun pair => next pair.1 pair.2) = _ ↔ _
  rw [bind_eq_error, Prod.exists]

theorem pure_ok {value : α} {cursor : Cursor} {result : α × Cursor} :
    (pure value : Decoder α) cursor = .ok result ↔ (value, cursor) = result :=
  pure_eq_ok

theorem bytes_ok {count : Nat} {cursor next : Cursor} {value : Bytes} :
    bytes count cursor = .ok (value, next) ↔
      cursor.rest = value ++ next.rest ∧ value.length = count
        ∧ next.offset = cursor.offset + count := by
  unfold bytes
  simp only [List.splitAt_eq, List.length_take]
  constructor
  · intro h
    split at h
    · cases h
    · cases h
      refine ⟨(List.take_append_drop _ _).symm, ?_, rfl⟩
      rw [List.length_take]
      omega
  · rintro ⟨hrest, hlength, hoffset⟩
    obtain ⟨rest, offset⟩ := next
    simp only at hrest hoffset
    subst hoffset
    rw [hrest, List.length_append, if_neg (by omega), ← hlength, List.take_left, List.drop_left]

theorem lookup_ok {result : Except PoolError α} {cursor next : Cursor} {value : α} :
    lookup result cursor = .ok (value, next) ↔ result = .ok value ∧ cursor = next := by
  unfold lookup
  cases result with
  | ok found =>
    constructor
    · intro h
      cases h
      exact ⟨rfl, rfl⟩
    · rintro ⟨hfound, rfl⟩
      cases hfound
      rfl
  | error cause => exact ⟨fun h => (nomatch h), fun h => (nomatch h.1)⟩

theorem repeatOnto_succ (item : Decoder α) (count : Nat) (reversed : List α) :
    repeatOnto item (count + 1) reversed =
      item >>= fun value => repeatOnto item count (value :: reversed) := by
  funext cursor
  change _ = item cursor >>= fun pair => repeatOnto item count (pair.1 :: reversed) pair.2
  simp only [repeatOnto]
  cases item cursor <;> rfl

/-! ## Reading what was written -/

/-- `decoder` reads exactly the bytes `written`, whatever stands behind them, and returns
`value`. -/
def Reads (decoder : Decoder α) (written : Bytes) (value : α) : Prop :=
  ∀ rest offset,
    decoder ⟨written ++ rest, offset⟩ = .ok (value, ⟨rest, offset + written.length⟩)

theorem reads_pure (value : α) : Reads (pure value) [] value :=
  fun _ _ => rfl

theorem Reads.bind {decoder : Decoder α} {next : α → Decoder β} {first second : Bytes} {value : α}
    {result : β} (hfirst : Reads decoder first value) (hsecond : Reads (next value) second result) :
    Reads (decoder >>= next) (first ++ second) result := by
  intro rest offset
  rw [List.append_assoc, bind_ok]
  refine ⟨value, _, hfirst _ _, ?_⟩
  rw [hsecond, List.length_append, Nat.add_assoc]

/-- What takes no bytes, such as a look into a pool, follows. -/
theorem Reads.last {decoder : Decoder α} {next : α → Decoder β} {written : Bytes} {value : α}
    {result : β} (hfirst : Reads decoder written value) (hlast : Reads (next value) [] result) :
    Reads (decoder >>= next) written result := by
  have hreads := hfirst.bind hlast
  rwa [List.append_nil] at hreads

theorem Reads.map {decoder : Decoder α} {written : Bytes} {value : α}
    (h : Reads decoder written value) (f : α → β) :
    Reads (decoder >>= fun value => pure (f value)) written (f value) :=
  h.last (reads_pure (f value))

theorem reads_bytes (written : Bytes) : Reads (bytes written.length) written written :=
  fun _ _ => bytes_ok.2 ⟨rfl, rfl, rfl⟩

theorem reads_u1 (byte : UInt8) : Reads u1 [byte] byte := by
  have h := ((reads_bytes [byte]).map Bytes.toNat).map Nat.toUInt8
  rwa [show (Bytes.toNat [byte]).toUInt8 = byte by simp [Bytes.toNat]] at h

theorem reads_u2 (word : UInt16) : Reads u2 (Bytes.ofUInt16 word) word := by
  have h := ((reads_bytes (Bytes.ofUInt16 word)).map Bytes.toNat).map Nat.toUInt16
  rwa [Bytes.toNat_ofUInt16, Nat.toUInt16_eq, UInt16.ofNat_toNat] at h

theorem reads_u4 (word : UInt32) : Reads u4 (Bytes.ofUInt32 word) word := by
  have h := ((reads_bytes (Bytes.ofUInt32 word)).map Bytes.toNat).map Nat.toUInt32
  rwa [Bytes.toNat_ofUInt32, Nat.toUInt32_eq, UInt32.ofNat_toNat] at h

theorem reads_u8 (word : UInt64) : Reads u8 (Bytes.ofUInt64 word) word := by
  have h := ((reads_bytes (Bytes.ofUInt64 word)).map Bytes.toNat).map Nat.toUInt64
  rwa [Bytes.toNat_ofUInt64, Nat.toUInt64_eq, UInt64.ofNat_toNat] at h

theorem reads_lookup {result : Except PoolError α} {value : α} (h : result = .ok value) :
    Reads (lookup result) [] value :=
  fun _ _ => lookup_ok.2 ⟨h, rfl⟩

theorem reads_repeatOnto {item : Decoder α} {parts : List Bytes} {items : List α}
    (h : List.Forall₂ (Reads item) parts items) (reversed : List α) :
    Reads (repeatOnto item items.length reversed) parts.flatten (reversed.reverse ++ items) := by
  induction h generalizing reversed with
  | nil =>
    rw [List.append_nil]
    exact reads_pure reversed.reverse
  | @cons part value parts items hpart _ ih =>
    have hrest := ih (value :: reversed)
    rw [List.reverse_cons, List.append_assoc, List.singleton_append] at hrest
    rw [List.length_cons, repeatOnto_succ]
    exact hpart.bind hrest

theorem reads_replicate {item : Decoder α} {parts : List Bytes} {items : List α}
    (h : List.Forall₂ (Reads item) parts items) :
    Reads (replicate items.length item) parts.flatten items :=
  reads_repeatOnto h []

theorem reads_counted {item : Decoder α} {parts : List Bytes} {items : List α}
    (h : List.Forall₂ (Reads item) parts items) (hcount : items.length ≤ 65535) :
    Reads (counted item) (Bytes.ofUInt16 items.length.toUInt16 ++ parts.flatten) items := by
  refine (reads_u2 _).bind ?_
  rw [toNat_toUInt16 hcount]
  exact reads_replicate h

theorem Reads.decode {decoder : Decoder α} {written : Bytes} {value : α}
    (h : Reads decoder written value) : decoder.decode written = .ok value := by
  have hwritten := h [] 0
  rw [List.append_nil] at hwritten
  exact congrArg (Except.map Prod.fst) hwritten

/-! ## What a decoder returns -/

/-- Whatever `decoder` returns has `property`, together with the bytes that were taken for it. -/
def Yields (decoder : Decoder α) (property : α → Bytes → Prop) : Prop :=
  ∀ cursor value next, decoder cursor = .ok (value, next) →
    ∃ taken, cursor.rest = taken ++ next.rest ∧ next.offset = cursor.offset + taken.length
      ∧ property value taken

theorem Yields.mono {decoder : Decoder α} {property weaker : α → Bytes → Prop}
    (h : Yields decoder property)
    (hweaker : ∀ value taken, property value taken → weaker value taken) :
    Yields decoder weaker := by
  intro cursor value next hrun
  obtain ⟨taken, hrest, hoffset, hvalue⟩ := h cursor value next hrun
  exact ⟨taken, hrest, hoffset, hweaker value taken hvalue⟩

theorem yields_pure {property : α → Bytes → Prop} {value : α} (h : property value []) :
    Yields (pure value) property := by
  intro cursor result next hrun
  cases pure_ok.1 hrun
  exact ⟨[], rfl, rfl, h⟩

theorem Yields.bind {decoder : Decoder α} {next : α → Decoder β} {property : α → Bytes → Prop}
    {result : β → Bytes → Prop} (hfirst : Yields decoder property)
    (hnext : ∀ value taken, property value taken →
      Yields (next value) fun value' taken' => result value' (taken ++ taken')) :
    Yields (decoder >>= next) result := by
  intro cursor value' final hrun
  obtain ⟨value, middle, hvalue, hvalue'⟩ := bind_ok.1 hrun
  obtain ⟨taken, hrest, hoffset, hproperty⟩ := hfirst _ _ _ hvalue
  obtain ⟨taken', hrest', hoffset', hresult⟩ := hnext value taken hproperty _ _ _ hvalue'
  refine ⟨taken ++ taken', ?_, ?_, hresult⟩
  · rw [hrest, hrest', List.append_assoc]
  · rw [hoffset', hoffset, List.length_append, Nat.add_assoc]

theorem yields_fail {error : FormatError} {property : α → Bytes → Prop} :
    Yields (fail error) property :=
  fun _ _ _ h => nomatch h

theorem yields_bytes (count : Nat) :
    Yields (bytes count) fun value taken => taken = value ∧ value.length = count := by
  intro cursor value next hrun
  obtain ⟨hrest, hlength, hoffset⟩ := bytes_ok.1 hrun
  exact ⟨value, hrest, by rw [hoffset, hlength], rfl, hlength⟩

theorem yields_number (size : Nat) : Yields (number size) fun _ taken => taken.length = size :=
  (yields_bytes size).bind fun value taken h => yields_pure (by rw [List.append_nil, h.1, h.2])

theorem Yields.map {decoder : Decoder α} {property : α → Bytes → Prop} {f : α → β}
    {result : β → Bytes → Prop} (h : Yields decoder property)
    (hresult : ∀ value taken, property value taken → result (f value) taken) :
    Yields (decoder >>= fun value => pure (f value)) result :=
  h.bind fun value taken hvalue => yields_pure (by
    rw [List.append_nil]
    exact hresult value taken hvalue)

theorem yields_u1 : Yields u1 fun _ taken => taken.length = 1 :=
  (yields_number 1).map fun _ _ h => h

theorem yields_u2 : Yields u2 fun _ taken => taken.length = 2 :=
  (yields_number 2).map fun _ _ h => h

theorem yields_u4 : Yields u4 fun _ taken => taken.length = 4 :=
  (yields_number 4).map fun _ _ h => h

theorem yields_u8 : Yields u8 fun _ taken => taken.length = 8 :=
  (yields_number 8).map fun _ _ h => h

theorem yields_digits (size : Nat) : Yields (number size) fun value taken =>
    taken.length = size ∧ Bytes.toNat taken = value ∧ value < 256 ^ size := by
  refine (yields_bytes size).map fun digits taken h => ?_
  obtain ⟨rfl, rfl⟩ := h
  exact ⟨rfl, rfl, Bytes.toNat_lt taken⟩

/-! Each word is returned for its written form. -/

theorem yields_written_u1 : Yields u1 fun byte taken => taken = [byte] :=
  (yields_digits 1).map fun number taken ⟨hlength, hnumber, hlt⟩ => by
    refine Bytes.eq_of_toNat_eq hlength ?_
    rw [hnumber, show [number.toUInt8] = [] ++ [number.toUInt8] from rfl, Bytes.toNat_concat,
      Bytes.toNat_nil, Nat.zero_mul, Nat.zero_add, toNat_toUInt8 (Nat.le_of_lt_succ hlt)]

theorem yields_written_u2 : Yields u2 fun word taken => taken = Bytes.ofUInt16 word :=
  (yields_digits 2).map fun number taken ⟨hlength, hnumber, hlt⟩ => by
    refine Bytes.eq_of_toNat_eq hlength ?_
    rw [hnumber, Bytes.toNat_ofUInt16, toNat_toUInt16 (Nat.le_of_lt_succ hlt)]

theorem yields_written_u4 : Yields u4 fun word taken => taken = Bytes.ofUInt32 word :=
  (yields_digits 4).map fun number taken ⟨hlength, hnumber, hlt⟩ => by
    refine Bytes.eq_of_toNat_eq hlength ?_
    rw [hnumber, Bytes.toNat_ofUInt32, toNat_toUInt32 hlt]

theorem yields_written_u8 : Yields u8 fun word taken => taken = Bytes.ofUInt64 word :=
  (yields_digits 8).map fun number taken ⟨hlength, hnumber, hlt⟩ => by
    refine Bytes.eq_of_toNat_eq hlength ?_
    rw [hnumber, Bytes.toNat_ofUInt64, Nat.toUInt64_eq, UInt64.toNat_ofNat']
    exact (Nat.mod_eq_of_lt hlt).symm

theorem yields_lookup (result : Except PoolError α) :
    Yields (lookup result) fun value taken => result = .ok value ∧ taken = [] := by
  intro cursor value next hrun
  obtain ⟨hresult, rfl⟩ := lookup_ok.1 hrun
  exact ⟨[], rfl, rfl, hresult, rfl⟩

/-- Items and the bytes that were taken for each of them. -/
def Itemized (property : α → Bytes → Prop) (items : List α) (taken : Bytes) : Prop :=
  ∃ parts : List Bytes, taken = parts.flatten ∧ List.Forall₂ property items parts

theorem yields_repeatOnto {item : Decoder α} {property : α → Bytes → Prop}
    (h : Yields item property) (count : Nat) (reversed : List α) :
    Yields (repeatOnto item count reversed) fun values taken =>
      ∃ items, values = reversed.reverse ++ items ∧ items.length = count
        ∧ Itemized property items taken := by
  induction count generalizing reversed with
  | zero => exact yields_pure ⟨[], (List.append_nil _).symm, rfl, [], rfl, .nil⟩
  | succ count ih =>
    rw [repeatOnto_succ]
    refine h.bind fun value taken hvalue => (ih (value :: reversed)).mono ?_
    rintro values _ ⟨items, rfl, rfl, parts, rfl, hparts⟩
    refine ⟨value :: items, ?_, rfl, taken :: parts, rfl, .cons hvalue hparts⟩
    rw [List.reverse_cons, List.append_assoc, List.singleton_append]

theorem yields_replicate {item : Decoder α} {property : α → Bytes → Prop}
    (h : Yields item property) (count : Nat) :
    Yields (replicate count item) fun items taken =>
      items.length = count ∧ Itemized property items taken := by
  refine (yields_repeatOnto h count []).mono ?_
  rintro values taken ⟨items, rfl, hitems⟩
  exact hitems

theorem yields_counted {item : Decoder α} {property : α → Bytes → Prop}
    (h : Yields item property) :
    Yields (counted item) fun items taken => items.length ≤ 65535 ∧
      ∃ count body, taken = count ++ body ∧ count.length = 2 ∧ Itemized property items body := by
  refine yields_u2.bind fun count taken hcount => (yields_replicate h count.toNat).mono ?_
  rintro items body ⟨hlength, hitems⟩
  have := count.toNat_lt
  exact ⟨by omega, taken, body, rfl, hcount, hitems⟩

theorem Yields.decode {decoder : Decoder α} {property : α → Bytes → Prop}
    (h : Yields decoder property) {body : Bytes} {value : α}
    (hrun : decoder.decode body = .ok value) :
    ∃ taken rest, body = taken ++ rest ∧ property value taken := by
  unfold Decoder.decode at hrun
  cases hstart : decoder (.start body) with
  | error cause =>
    rw [hstart] at hrun
    cases hrun
  | ok pair =>
    rw [hstart] at hrun
    cases hrun
    obtain ⟨taken, hrest, -, hvalue⟩ := h _ _ _ hstart
    exact ⟨taken, _, hrest, hvalue⟩

/-! ## Comparing decoders -/

/-- Whatever `decoder` reads, `other` reads in the same way. -/
def Refines (decoder other : Decoder α) : Prop :=
  ∀ cursor result, decoder cursor = .ok result → other cursor = .ok result

theorem refines_rfl {decoder : Decoder α} : Refines decoder decoder :=
  fun _ _ h => h

theorem Refines.bind {decoder other : Decoder α} {next next' : α → Decoder β}
    (hfirst : Refines decoder other) (hnext : ∀ value, Refines (next value) (next' value)) :
    Refines (decoder >>= next) (other >>= next') := by
  intro cursor result hrun
  obtain ⟨value, middle, hvalue, hresult⟩ := bind_ok.1 hrun
  exact bind_ok.2 ⟨value, middle, hfirst _ _ hvalue, hnext value _ _ hresult⟩

theorem Refines.map {decoder other : Decoder α} (h : Refines decoder other) (f : α → β) :
    Refines (decoder >>= fun value => pure (f value)) (other >>= fun value => pure (f value)) :=
  h.bind fun _ => refines_rfl

theorem refines_lookup {result other : Except PoolError α}
    (h : ∀ value, result = .ok value → other = .ok value) :
    Refines (lookup result) (lookup other) := by
  rintro cursor ⟨value, next⟩ hrun
  obtain ⟨hvalue, rfl⟩ := lookup_ok.1 hrun
  exact lookup_ok.2 ⟨h value hvalue, rfl⟩

theorem Refines.repeatOnto {item other : Decoder α} (h : Refines item other) (count : Nat)
    (reversed : List α) :
    Refines (repeatOnto item count reversed) (other.repeatOnto count reversed) := by
  induction count generalizing reversed with
  | zero => exact refines_rfl
  | succ count ih =>
    rw [repeatOnto_succ, repeatOnto_succ]
    exact h.bind fun value => ih (value :: reversed)

theorem Refines.counted {item other : Decoder α} (h : Refines item other) :
    Refines (counted item) (counted other) :=
  refines_rfl.bind fun count => h.repeatOnto count.toNat []

theorem Refines.decode {decoder other : Decoder α} (h : Refines decoder other) {body : Bytes}
    {value : α} (hrun : decoder.decode body = .ok value) : other.decode body = .ok value := by
  unfold Decoder.decode at hrun ⊢
  cases hstart : decoder (.start body) with
  | error cause =>
    rw [hstart] at hrun
    cases hrun
  | ok pair =>
    rw [hstart] at hrun
    rw [h _ _ hstart]
    exact hrun

end Decoder

end ClassStub
