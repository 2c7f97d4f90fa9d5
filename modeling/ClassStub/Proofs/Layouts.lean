import ClassStub.Proofs.Interning

/-! # Layouts

What an encoder writes, apart from any constant pool. A layout is a tree of plain bytes, of indexes
that are given by what they stand for, and of parts behind the field that counts or measures them.
`Layout.write` adds to a pool what the indexes stand for, and `Layout.IsWrittenAs` says of bytes
that they are the written form in terms of a pool. A count or a length loses the bits that do not
fit its field; the layout is exact if none of them does. -/

namespace ClassStub

/-! ## Length fields -/

/-- A field that holds a count or a length, in one, two or four bytes. -/
inductive LengthField where
  | u1
  | u2
  | u4
  deriving DecidableEq, Repr

namespace LengthField

/-- The written form of a number. -/
def toBytes : LengthField → Nat → Bytes
  | u1, number => [number.toUInt8]
  | u2, number => Bytes.ofUInt16 number.toUInt16
  | u4, number => Bytes.ofUInt32 number.toUInt32

/-- The number that a reader finds in the field. -/
def stored : LengthField → Nat → Nat
  | u1, number => number.toUInt8.toNat
  | u2, number => number.toUInt16.toNat
  | u4, number => number.toUInt32.toNat

/-- How many numbers the field can hold. -/
def capacity : LengthField → Nat
  | u1 => 2 ^ 8
  | u2 => 2 ^ 16
  | u4 => 2 ^ 32

/-- How many bytes the field takes. -/
def size : LengthField → Nat
  | u1 => 1
  | u2 => 2
  | u4 => 4

@[simp] theorem length_toBytes (field : LengthField) (number : Nat) :
    (field.toBytes number).length = field.size := by
  cases field <;> rfl

/-- A number is found again exactly if the field can hold it. -/
@[simp] theorem stored_eq_iff {field : LengthField} {number : Nat} :
    field.stored number = number ↔ number < field.capacity := by
  cases field <;> simp [stored, capacity]

end LengthField

/-! ## Symbols -/

/-- What an index stands for, with the names and texts that are behind it. -/
inductive Symbol where
  | text (content : JavaText)
  | classRef (name : String)
  | nameAndType (name descriptor : String)
  | value (constant : ConstantValue)

namespace Symbol

/-- The symbol for a name. -/
abbrev name (name : String) : Symbol :=
  .text (.ofString name)

/-- Add what a symbol stands for. -/
def add : Symbol → PoolM UInt16
  | .text content => Pool.addText content
  | .classRef name => Pool.addClass name
  | .nameAndType name descriptor => Pool.addNameAndType name descriptor
  | .value constant => constant.add

/-- A look-up in the pool finds a symbol at an index. -/
def IsAt (pool : Pool) (index : UInt16) : Symbol → Prop
  | .text content => pool.getText index = .ok content
  | .classRef name => pool.getClassName index = .ok name
  | .nameAndType name descriptor => pool.getNameAndType index = .ok (name, descriptor)
  | .value constant => Statement.findConstantValue pool index = .ok constant

theorem IsAt.mono {pool later : Pool} {index : UInt16} {symbol : Symbol} (hle : pool ≤ later)
    (h : symbol.IsAt pool index) : symbol.IsAt later index := by
  cases symbol with
  | text content => exact Pool.getText_mono hle h
  | classRef name => exact Pool.getClassName_mono hle h
  | nameAndType name descriptor => exact Pool.getNameAndType_mono hle h
  | value constant => exact Pool.findConstantValue_mono hle h

end Symbol

/-- Nothing is asked of the texts of a pool. -/
abbrev anyText : JavaText → Prop :=
  fun _ => True

/-- What was added for a symbol is found at its index from then on. -/
theorem Symbol.interns_add (symbol : Symbol) :
    Interns anyText symbol.add fun later index => symbol.IsAt later index := by
  cases symbol with
  | text content => exact Pool.interns_addText trivial
  | classRef name =>
    exact (Pool.interns_addClass trivial).mono fun _ _ h => h.2
  | nameAndType name descriptor =>
    exact (Pool.interns_addNameAndType trivial trivial).mono fun _ _ h => h.2
  | value constant => exact Pool.interns_addConstantValue fun _ _ => trivial

/-! ## Layouts -/

/-- The form of what is written to a class file. -/
inductive Layout where
  /-- Bytes that do not depend on a pool. -/
  | plain (bytes : Bytes)
  /-- The index of a symbol. -/
  | index (symbol : Symbol)
  /-- One part behind another. -/
  | append (first second : Layout)
  /-- Items behind their number. -/
  | counted (field : LengthField) (items : List Layout)
  /-- A part behind its length in bytes. -/
  | measured (field : LengthField) (body : Layout)

namespace Layout

instance : Append Layout := ⟨append⟩

/-- The index of a name. -/
abbrev name (name : String) : Layout :=
  .index (.name name)

/-- The index of a symbol, or 0 if there is none. -/
def optional : Option Symbol → Layout
  | some symbol => .index symbol
  | none => .plain (Bytes.ofUInt16 0)

mutual

/-- Write a layout, adding to the pool what its indexes stand for. -/
def write : Layout → PoolM Bytes
  | plain bytes => return bytes
  | index symbol => ElementValue.indexBytes symbol.add
  | append first second => do return (← first.write) ++ (← second.write)
  | counted field items => do return field.toBytes items.length ++ (← writeAll items).flatten
  | measured field body => do
    let written ← body.write
    return field.toBytes written.length ++ written

/-- Write layouts one after the other. -/
def writeAll : List Layout → PoolM (List Bytes)
  | [] => return []
  | item :: items => do return (← item.write) :: (← writeAll items)

end

mutual

/-- Bytes are the written form of a layout in terms of a pool. -/
def IsWrittenAs (pool : Pool) : Layout → Bytes → Prop
  | plain bytes, written => written = bytes
  | index symbol, written => ∃ index, symbol.IsAt pool index ∧ written = Bytes.ofUInt16 index
  | append first second, written =>
    ∃ left right, first.IsWrittenAs pool left ∧ second.IsWrittenAs pool right
      ∧ written = left ++ right
  | counted field items, written =>
    ∃ rest, AreWrittenAs pool items rest ∧ written = field.toBytes items.length ++ rest
  | measured field body, written =>
    ∃ inner, body.IsWrittenAs pool inner ∧ written = field.toBytes inner.length ++ inner

/-- Bytes are the written forms of layouts, one behind the other. -/
def AreWrittenAs (pool : Pool) : List Layout → Bytes → Prop
  | [], written => written = []
  | item :: items, written =>
    ∃ left right, item.IsWrittenAs pool left ∧ AreWrittenAs pool items right
      ∧ written = left ++ right

end

mutual

/-- How many bytes a layout takes, whatever the pool is. -/
def size : Layout → Nat
  | plain bytes => bytes.length
  | index _ => 2
  | append first second => first.size + second.size
  | counted field items => field.size + sizeAll items
  | measured field body => field.size + body.size

/-- How many bytes layouts take together. -/
def sizeAll : List Layout → Nat
  | [] => 0
  | item :: items => item.size + sizeAll items

end

mutual

/-- Every field in a layout holds the number of the items, or of the bytes, that follow it. -/
def IsExact : Layout → Prop
  | plain _ => True
  | index _ => True
  | append first second => first.IsExact ∧ second.IsExact
  | counted field items => field.stored items.length = items.length ∧ AreExact items
  | measured field body => field.stored body.size = body.size ∧ body.IsExact

/-- All of the layouts are exact. -/
def AreExact : List Layout → Prop
  | [] => True
  | item :: items => item.IsExact ∧ AreExact items

end

theorem writeAll_eq_mapM (items : List Layout) : writeAll items = items.mapM write := by
  induction items with
  | nil => rw [writeAll, List.mapM_nil]
  | cons item items ih => simp only [writeAll, List.mapM_cons, ih]

theorem areExact_iff {items : List Layout} :
    AreExact items ↔ ∀ item ∈ items, item.IsExact := by
  induction items with
  | nil => simp [AreExact]
  | cons item items ih => rw [AreExact, List.forall_mem_cons, ih]

theorem areWrittenAs_flatten {pool : Pool} {items : List Layout} {parts : List Bytes}
    (h : List.Forall₂ (IsWrittenAs pool) items parts) : AreWrittenAs pool items parts.flatten := by
  induction h with
  | nil => rfl
  | cons hitem _ ih => exact ⟨_, _, hitem, ih, rfl⟩

/-! ## Written forms -/

variable {pool later : Pool}

@[simp] theorem isWrittenAs_plain {bytes written : Bytes} :
    (plain bytes).IsWrittenAs pool written ↔ written = bytes := by
  rw [IsWrittenAs]

@[simp] theorem isExact_plain (bytes : Bytes) : (plain bytes).IsExact := by
  simp [IsExact]

@[simp] theorem isExact_index (symbol : Symbol) : (index symbol).IsExact := by
  simp [IsExact]

@[simp] theorem isExact_optional (symbol : Option Symbol) : (optional symbol).IsExact := by
  cases symbol <;> simp [optional]

@[simp] theorem isExact_append {first second : Layout} :
    (first ++ second).IsExact ↔ first.IsExact ∧ second.IsExact :=
  Iff.of_eq (IsExact.eq_3 first second)

@[simp] theorem isExact_counted {field : LengthField} {items : List Layout} :
    (counted field items).IsExact ↔
      items.length < field.capacity ∧ ∀ item ∈ items, item.IsExact := by
  rw [IsExact, LengthField.stored_eq_iff, areExact_iff]

@[simp] theorem isExact_measured {field : LengthField} {body : Layout} :
    (measured field body).IsExact ↔ body.size < field.capacity ∧ body.IsExact := by
  rw [IsExact, LengthField.stored_eq_iff]

theorem write_append (first second : Layout) :
    (first ++ second).write = do return (← first.write) ++ (← second.write) := by
  change (append first second).write = _
  rw [write]

theorem write_plain_append (bytes : Bytes) (rest : Layout) :
    (plain bytes ++ rest).write = (bytes ++ ·) <$> rest.write := by
  rw [write_append, write, pure_bind, map_eq_pure_bind]

theorem write_counted (field : LengthField) (items : List Layout) :
    (counted field items).write =
      do return field.toBytes items.length ++ (← items.mapM write).flatten := by
  rw [write, writeAll_eq_mapM]

theorem isWrittenAs_append {first second : Layout} {written : Bytes} :
    (first ++ second).IsWrittenAs pool written ↔
      ∃ left right, first.IsWrittenAs pool left ∧ second.IsWrittenAs pool right
        ∧ written = left ++ right :=
  Iff.of_eq (IsWrittenAs.eq_3 pool written first second)

theorem IsWrittenAs.plain (pool : Pool) (bytes : Bytes) :
    (Layout.plain bytes).IsWrittenAs pool bytes :=
  isWrittenAs_plain.2 rfl

theorem IsWrittenAs.index {symbol : Symbol} {index : UInt16} (h : symbol.IsAt pool index) :
    (Layout.index symbol).IsWrittenAs pool (Bytes.ofUInt16 index) :=
  ⟨index, h, rfl⟩

theorem IsWrittenAs.measured {field : LengthField} {body : Layout} {written : Bytes}
    (h : body.IsWrittenAs pool written) :
    (Layout.measured field body).IsWrittenAs pool (field.toBytes written.length ++ written) :=
  ⟨written, h, rfl⟩

theorem IsWrittenAs.append {first second : Layout} {left right : Bytes}
    (hfirst : first.IsWrittenAs pool left) (hsecond : second.IsWrittenAs pool right) :
    (first ++ second).IsWrittenAs pool (left ++ right) :=
  ⟨left, right, hfirst, hsecond, rfl⟩

theorem IsWrittenAs.counted {field : LengthField} {items : List Layout} {parts : List Bytes}
    (h : List.Forall₂ (IsWrittenAs pool) items parts) :
    (Layout.counted field items).IsWrittenAs pool
      (field.toBytes items.length ++ parts.flatten) := by
  rw [IsWrittenAs]
  exact ⟨_, areWrittenAs_flatten h, rfl⟩

mutual

/-- Bytes that are the written form of a layout stay so in all later pools. -/
theorem IsWrittenAs.mono (hle : pool ≤ later) (layout : Layout) {written : Bytes}
    (h : layout.IsWrittenAs pool written) : layout.IsWrittenAs later written := by
  match layout with
  | .plain bytes => simpa using h
  | .index symbol =>
    rw [IsWrittenAs] at h ⊢
    obtain ⟨index, hat, rfl⟩ := h
    exact ⟨index, hat.mono hle, rfl⟩
  | .append first second =>
    rw [IsWrittenAs] at h ⊢
    obtain ⟨left, right, hfirst, hsecond, rfl⟩ := h
    exact ⟨left, right, hfirst.mono hle, hsecond.mono hle, rfl⟩
  | .counted field items =>
    rw [IsWrittenAs] at h ⊢
    obtain ⟨rest, hitems, rfl⟩ := h
    exact ⟨rest, AreWrittenAs.mono hle items hitems, rfl⟩
  | .measured field body =>
    rw [IsWrittenAs] at h ⊢
    obtain ⟨inner, hbody, rfl⟩ := h
    exact ⟨inner, hbody.mono hle, rfl⟩

theorem AreWrittenAs.mono (hle : pool ≤ later) (items : List Layout) {written : Bytes}
    (h : AreWrittenAs pool items written) : AreWrittenAs later items written := by
  match items with
  | [] => exact h
  | item :: items =>
    rw [AreWrittenAs] at h ⊢
    obtain ⟨left, right, hitem, hitems, rfl⟩ := h
    exact ⟨left, right, hitem.mono hle, AreWrittenAs.mono hle items hitems, rfl⟩

end

mutual

theorem IsWrittenAs.length_eq (layout : Layout) {written : Bytes}
    (h : layout.IsWrittenAs pool written) : written.length = layout.size := by
  match layout with
  | .plain bytes =>
    rw [isWrittenAs_plain] at h
    rw [h, size]
  | .index symbol =>
    rw [IsWrittenAs] at h
    obtain ⟨index, -, rfl⟩ := h
    simp [size]
  | .append first second =>
    rw [IsWrittenAs] at h
    obtain ⟨left, right, hfirst, hsecond, rfl⟩ := h
    simp [size, hfirst.length_eq, hsecond.length_eq]
  | .counted field items =>
    rw [IsWrittenAs] at h
    obtain ⟨rest, hitems, rfl⟩ := h
    simp [size, AreWrittenAs.length_eq items hitems]
  | .measured field body =>
    rw [IsWrittenAs] at h
    obtain ⟨inner, hbody, rfl⟩ := h
    simp [size, hbody.length_eq]

theorem AreWrittenAs.length_eq (items : List Layout) {written : Bytes}
    (h : AreWrittenAs pool items written) : written.length = sizeAll items := by
  match items with
  | [] =>
    rw [AreWrittenAs] at h
    rw [h, sizeAll, List.length_nil]
  | item :: items =>
    rw [AreWrittenAs] at h
    obtain ⟨left, right, hitem, hitems, rfl⟩ := h
    simp [sizeAll, hitem.length_eq, AreWrittenAs.length_eq items hitems]

end

/-! ## Writing -/

mutual

/-- What is written for a layout is its written form from then on. -/
theorem interns_write (layout : Layout) :
    Interns anyText layout.write fun later written => layout.IsWrittenAs later written := by
  match layout with
  | .plain bytes =>
    rw [write]
    apply interns_pure
    simp
  | .index symbol =>
    rw [write]
    apply symbol.interns_add.map
    intro later index hat
    exact ⟨index, hat, rfl⟩
  | .append first second =>
    rw [write]
    apply first.interns_write.bind
    intro left
    apply second.interns_write.bind
    intro right
    apply interns_pure
    intro later hsecond hfirst
    exact hfirst.append hsecond
  | .counted field items =>
    rw [write]
    apply (interns_writeAll items).bind
    intro parts
    apply interns_pure
    intro later hparts
    exact .counted hparts
  | .measured field body =>
    rw [write]
    apply body.interns_write.bind
    intro inner
    apply interns_pure
    intro later hinner
    exact ⟨inner, hinner, rfl⟩

theorem interns_writeAll (items : List Layout) :
    Interns anyText (writeAll items) fun later parts =>
      List.Forall₂ (IsWrittenAs later) items parts := by
  match items with
  | [] =>
    rw [writeAll]
    apply interns_pure
    intro later
    exact .nil
  | item :: items =>
    rw [writeAll]
    apply item.interns_write.bind
    intro part
    apply (interns_writeAll items).bind
    intro parts
    apply interns_pure
    intro later hparts hpart
    exact .cons hpart hparts

end

end Layout

end ClassStub
