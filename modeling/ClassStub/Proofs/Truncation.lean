import ClassStub.Proofs.ComposedReaders

/-! # Class files that were cut off or continued

A decoder goes by the bytes that it takes, so more bytes behind the input change neither what it
returns nor why it refuses the input; all they can do is to supply what was missing. It follows
that a class file which was cut off is reported as truncated, within its length, that nothing may
follow a class file, and that no other fault of the input can be mended at its end. -/

namespace ClassStub

namespace Cursor

/-- The place where the input ends. -/
def ending (cursor : Cursor) : Nat :=
  cursor.offset + cursor.remaining

/-- The same place in an input that goes on with `more`. -/
def append (cursor : Cursor) (more : Bytes) : Cursor :=
  ⟨cursor.rest ++ more, cursor.offset⟩

@[simp] theorem ending_start (bytes : Bytes) : (start bytes).ending = bytes.length :=
  Nat.zero_add _

@[simp] theorem append_start (bytes more : Bytes) :
    (start bytes).append more = start (bytes ++ more) := rfl

end Cursor

/-- Bytes were missing. -/
def FormatError.IsTruncated (error : FormatError) : Prop :=
  ∃ offset needed, error = .truncated offset needed

theorem FormatError.not_isTruncated {error : FormatError}
    (h : ∀ offset needed, error ≠ .truncated offset needed) : ¬error.IsTruncated :=
  fun ⟨offset, needed, herror⟩ => h offset needed herror

namespace Decoder

variable {α β : Type}

/-- `decoder` goes by the bytes that it takes. What it returns, and every fault other than missing
bytes, is the same in front of `more`. Bytes are missing at a place of the input, and fewer are
missing where more stand behind it. -/
structure IsSequential (decoder : Decoder α) : Prop where
  ok : ∀ {cursor value next}, decoder cursor = .ok (value, next) →
    next.ending = cursor.ending ∧
      ∀ more, decoder (cursor.append more) = .ok (value, next.append more)
  truncated : ∀ {cursor offset needed}, decoder cursor = .error (.truncated offset needed) →
    offset ≤ cursor.ending ∧ 1 ≤ needed ∧ ∀ more : Bytes, more.length < needed →
      decoder (cursor.append more) = .error (.truncated offset (needed - more.length))
  fault : ∀ {cursor error}, decoder cursor = .error error → ¬error.IsTruncated →
    ∀ more, decoder (cursor.append more) = .error error

theorem isSequential_pure (value : α) : IsSequential (pure value) where
  ok h := by
    cases pure_ok.1 h
    exact ⟨rfl, fun _ => rfl⟩
  truncated h := nomatch h
  fault h := nomatch h

theorem isSequential_fail {error : FormatError} (h : ¬error.IsTruncated) :
    IsSequential (fail error : Decoder α) where
  ok h := nomatch h
  truncated hrun := by
    cases hrun
    exact absurd ⟨_, _, rfl⟩ h
  fault hrun _ _ := hrun

theorem bytes_error {count : Nat} {cursor : Cursor} {error : FormatError} :
    bytes count cursor = .error error ↔
      cursor.remaining < count ∧ error = .truncated cursor.offset (count - cursor.remaining) := by
  unfold bytes Cursor.remaining
  simp only [List.splitAt_eq, List.length_take]
  by_cases hshort : cursor.rest.length < count
  · rw [Nat.min_eq_right (Nat.le_of_lt hshort), if_pos hshort]
    exact ⟨fun h => ⟨hshort, (Except.error.inj h).symm⟩, fun h => congrArg _ h.2.symm⟩
  · rw [if_neg (by omega)]
    exact ⟨fun h => (nomatch h), fun h => absurd h.1 hshort⟩

theorem isSequential_bytes (count : Nat) : IsSequential (bytes count) where
  ok {cursor value next} h := by
    obtain ⟨hrest, hlength, hoffset⟩ := bytes_ok.1 h
    constructor
    · simp only [Cursor.ending, Cursor.remaining, hrest, hoffset, List.length_append]
      omega
    · intro more
      refine bytes_ok.2 ⟨?_, hlength, hoffset⟩
      change cursor.rest ++ more = value ++ (next.rest ++ more)
      rw [hrest, List.append_assoc]
  truncated {cursor offset needed} h := by
    obtain ⟨hshort, herror⟩ := bytes_error.1 h
    cases herror
    refine ⟨Nat.le_add_right _ _, by omega, fun more hmore => bytes_error.2 ?_⟩
    have hremaining : (cursor.append more).remaining = cursor.remaining + more.length :=
      List.length_append
    rw [hremaining, Nat.sub_sub]
    exact ⟨by omega, rfl⟩
  fault h hfault := by
    obtain ⟨-, rfl⟩ := bytes_error.1 h
    exact absurd ⟨_, _, rfl⟩ hfault

theorem IsSequential.bind {decoder : Decoder α} {next : α → Decoder β}
    (hfirst : IsSequential decoder) (hnext : ∀ value, IsSequential (next value)) :
    IsSequential (decoder >>= next) where
  ok h := by
    obtain ⟨value, middle, hvalue, hresult⟩ := bind_ok.1 h
    obtain ⟨hmiddle, hextended⟩ := hfirst.ok hvalue
    obtain ⟨hfinal, hextended'⟩ := (hnext value).ok hresult
    exact ⟨hfinal.trans hmiddle, fun more =>
      bind_ok.2 ⟨value, _, hextended more, hextended' more⟩⟩
  truncated h := by
    rcases bind_error.1 h with h | ⟨value, middle, hvalue, h⟩
    · obtain ⟨hoffset, hneeded, hextended⟩ := hfirst.truncated h
      exact ⟨hoffset, hneeded, fun more hmore => bind_error.2 (.inl (hextended more hmore))⟩
    · obtain ⟨hmiddle, hextended⟩ := hfirst.ok hvalue
      obtain ⟨hoffset, hneeded, hextended'⟩ := (hnext value).truncated h
      exact ⟨hmiddle ▸ hoffset, hneeded, fun more hmore =>
        bind_error.2 (.inr ⟨value, _, hextended more, hextended' more hmore⟩)⟩
  fault h hfault more := by
    rcases bind_error.1 h with h | ⟨value, middle, hvalue, h⟩
    · exact bind_error.2 (.inl (hfirst.fault h hfault more))
    · exact bind_error.2 (.inr ⟨value, _, (hfirst.ok hvalue).2 more,
        (hnext value).fault h hfault more⟩)

theorem isSequential_exhausted :
    IsSequential ((fun cursor => .error (.truncated cursor.offset 1)) : Decoder α) where
  ok h := nomatch h
  truncated h := by
    cases h
    refine ⟨Nat.le_add_right _ _, Nat.le_refl 1, fun more hmore => ?_⟩
    rw [List.length_eq_zero_iff.1 (Nat.lt_one_iff.1 hmore)]
    rfl
  fault h hfault := by
    cases h
    exact absurd ⟨_, _, rfl⟩ hfault

theorem IsComposed.isSequential {faults : FormatError → Prop} {decoder : Decoder α}
    (h : IsComposed faults decoder) (hfaults : ∀ error, faults error → ¬error.IsTruncated) :
    IsSequential decoder := by
  induction h with
  | pure value => exact isSequential_pure value
  | bytes count => exact isSequential_bytes count
  | exhausted => exact isSequential_exhausted
  | fail h => exact isSequential_fail (hfaults _ h)
  | bind _ _ ihfirst ihnext => exact ihfirst.bind ihnext

end Decoder

theorem FormatError.IsFault.not_isTruncated {error : FormatError} (h : error.IsFault) :
    ¬error.IsTruncated := by
  rintro ⟨offset, needed, rfl⟩
  exact h

namespace ClassFile

theorem isSequential_decode : decode.IsSequential :=
  isComposed_decode.isSequential fun _ => FormatError.IsFault.not_isTruncated

/-! ## Whole inputs -/

/-- A class file takes all of its bytes. -/
theorem parse_ok {bytes : Bytes} {file : ClassFile} :
    parse bytes = .ok file ↔ ∃ next, decode (.start bytes) = .ok (file, next) ∧ next.rest = [] := by
  constructor
  · intro h
    obtain ⟨⟨found, next⟩, hdecode, h⟩ := bind_eq_ok.1 h
    dsimp only at h
    split at h
    · rename_i hrest
      cases h
      exact ⟨next, hdecode, hrest⟩
    · cases h
  · rintro ⟨next, hdecode, hrest⟩
    refine bind_eq_ok.2 ⟨_, hdecode, ?_⟩
    dsimp only
    rw [hrest]
    rfl

theorem parse_trailing {bytes : Bytes} {file : ClassFile} {next : Cursor}
    (h : decode (.start bytes) = .ok (file, next)) (hrest : next.rest ≠ []) :
    parse bytes = .error (.trailingBytes next.remaining) := by
  refine bind_eq_error.2 (.inr ⟨_, h, ?_⟩)
  dsimp only
  split
  · rename_i hnone
    exact absurd hnone hrest
  · rfl

theorem parse_fault {bytes : Bytes} {error : FormatError}
    (h : ∀ count, error ≠ .trailingBytes count) :
    parse bytes = .error error ↔ decode (.start bytes) = .error error := by
  constructor
  · intro hparse
    rcases bind_eq_error.1 hparse with hdecode | ⟨⟨file, next⟩, hdecode, hrest⟩
    · exact hdecode
    · dsimp only at hrest
      split at hrest
      · cases hrest
      · cases hrest
        exact absurd rfl (h _)
  · exact fun hdecode => bind_eq_error.2 (.inl hdecode)

/-- A class file that was cut off is reported as truncated, at a place it still has, and no more
bytes are missed there than were cut off. -/
theorem parse_take {bytes : Bytes} {file : ClassFile} (h : parse bytes = .ok file) {kept : Nat}
    (hkept : kept < bytes.length) :
    ∃ offset needed, parse (bytes.take kept) = .error (.truncated offset needed)
      ∧ offset ≤ kept ∧ 1 ≤ needed ∧ needed ≤ bytes.length - kept := by
  obtain ⟨final, hwhole, hfinal⟩ := parse_ok.1 h
  have happend : (Cursor.start (bytes.take kept)).append (bytes.drop kept) = .start bytes := by
    rw [Cursor.append_start, List.take_append_drop]
  have hending : (Cursor.start (bytes.take kept)).ending = kept := by
    rw [Cursor.ending_start, List.length_take, Nat.min_eq_left (Nat.le_of_lt hkept)]
  have hdropped : (bytes.drop kept).length = bytes.length - kept := List.length_drop
  cases hcut : decode (.start (bytes.take kept)) with
  | ok result =>
    -- The whole input would go on behind this class file.
    have hextended := (isSequential_decode.ok hcut).2 (bytes.drop kept)
    rw [happend, hwhole] at hextended
    cases hextended
    have hnone := congrArg List.length hfinal
    rw [Cursor.append, List.length_append, List.length_nil] at hnone
    omega
  | error error =>
    by_cases htruncated : error.IsTruncated
    · obtain ⟨offset, needed, rfl⟩ := htruncated
      obtain ⟨hoffset, hneeded, hextended⟩ := isSequential_decode.truncated hcut
      have hnot : ∀ count, FormatError.truncated offset needed ≠ .trailingBytes count := nofun
      refine ⟨offset, needed, (parse_fault hnot).2 hcut, hending ▸ hoffset, hneeded, ?_⟩
      by_contra hmore
      have hfails := hextended (bytes.drop kept) (by omega)
      rw [happend, hwhole] at hfails
      cases hfails
    · have hfails := isSequential_decode.fault hcut htruncated (bytes.drop kept)
      rw [happend, hwhole] at hfails
      cases hfails

theorem parse_append {bytes : Bytes} {file : ClassFile} (h : parse bytes = .ok file) {more : Bytes}
    (hmore : more ≠ []) : parse (bytes ++ more) = .error (.trailingBytes more.length) := by
  obtain ⟨next, hdecode, hrest⟩ := parse_ok.1 h
  have hextended := (isSequential_decode.ok hdecode).2 more
  have hleft : (next.append more).rest = more := by
    rw [Cursor.append, hrest, List.nil_append]
  have htrailing := parse_trailing hextended (by rwa [hleft])
  rwa [Cursor.remaining, hleft] at htrailing

theorem parse_append_fault {bytes : Bytes} {error : FormatError} (h : parse bytes = .error error)
    (htruncated : ¬error.IsTruncated) (htrailing : ∀ count, error ≠ .trailingBytes count)
    (more : Bytes) : parse (bytes ++ more) = .error error :=
  (parse_fault htrailing).2
    (isSequential_decode.fault ((parse_fault htrailing).1 h) htruncated more)

/-- A class file begins no other class file. When it is cut off anywhere, bytes are missing, at a
place within what was kept and no more than were cut off; when it goes on, all that was added is
trailing. Any other fault of an input stays, whatever follows the input. -/
theorem parse_prefixFree (bytes : Bytes) :
    (∀ file, parse bytes = .ok file →
      (∀ whole other, parse whole = .ok other → bytes <+: whole → whole = bytes)
      ∧ (∀ kept < bytes.length, ∃ offset needed,
          parse (bytes.take kept) = .error (.truncated offset needed)
            ∧ offset ≤ kept ∧ 1 ≤ needed ∧ needed ≤ bytes.length - kept)
      ∧ ∀ more ≠ [], parse (bytes ++ more) = .error (.trailingBytes more.length))
    ∧ ∀ error, parse bytes = .error error →
        (∀ offset needed, error ≠ .truncated offset needed) →
        (∀ count, error ≠ .trailingBytes count) →
        ∀ more, parse (bytes ++ more) = .error error := by
  refine ⟨fun file hfile => ⟨?_, ?_, ?_⟩, fun error herror htruncated htrailing more => ?_⟩
  · rintro _ other hother ⟨more, rfl⟩
    by_cases hmore : more = []
    · rw [hmore, List.append_nil]
    · rw [parse_append hfile hmore] at hother
      cases hother
  · exact fun kept hkept => parse_take hfile hkept
  · exact fun more hmore => parse_append hfile hmore
  · exact parse_append_fault herror (FormatError.not_isTruncated htruncated) htrailing more

/-- A class file with three constants, an interface, a field that has an attribute, and a method. -/
def withMembers : Bytes :=
  [0xCA, 0xFE, 0xBA, 0xBE, 0, 0, 0, 52]
    ++ [0, 5, 1, 0, 1, 0x41, 7, 0, 1, 5, 0, 0, 0, 0, 0, 0, 0, 9]
    ++ [0, 1, 0, 2, 0, 0, 0, 1, 0, 2]
    ++ [0, 1, 0, 2, 0, 1, 0, 1, 0, 1, 0, 1, 0, 0, 0, 3, 7, 8, 9]
    ++ [0, 1, 4, 1, 0, 1, 0, 1, 0, 0]
    ++ [0, 0]

theorem exists_parse_withMembers :
    ∃ file, parse withMembers = .ok file ∧ file.fields.length = 1 ∧ file.methods.length = 1 :=
  ⟨_, rfl, rfl, rfl⟩

theorem parse_prefixFree_withMembers :
    (∃ file, parse withMembers = .ok file)
    ∧ (∀ kept < 67, ∃ offset needed,
        parse (withMembers.take kept) = .error (.truncated offset needed)
          ∧ offset ≤ kept ∧ 1 ≤ needed ∧ needed ≤ 67 - kept)
    ∧ parse (withMembers ++ [0, 0]) = .error (.trailingBytes 2)
    ∧ ∀ more, parse ([0xCA, 0xFE, 0xBA, 0xBD] ++ more) = .error (.badMagic 0xCAFEBABD) := by
  obtain ⟨file, hfile, -⟩ := exists_parse_withMembers
  obtain ⟨-, hcut, htrailing⟩ := (parse_prefixFree withMembers).1 file hfile
  have hmagic : parse [0xCA, 0xFE, 0xBA, 0xBD] = .error (.badMagic 0xCAFEBABD) := rfl
  exact ⟨⟨file, hfile⟩, hcut, htrailing [0, 0] (List.cons_ne_nil _ _),
    (parse_prefixFree [0xCA, 0xFE, 0xBA, 0xBD]).2 _ hmagic nofun nofun⟩

end ClassFile

end ClassStub
