import Mathlib.Data.List.TakeWhile
import Mathlib.Algebra.GroupWithZero.Nat
import ClassStub.Descriptor

/-! # Method descriptors of method types

The slots that are read off the descriptor of a method type. The parameters are taken to end at the
first closing parenthesis, but the name of a class may have one in it. So the slots of a type are
counted up to the first parameter with such a name, which comes out right exactly if that parameter
is the last one. -/

namespace ClassStub.Descriptor

/-- The types that have no parts. -/
inductive PrimitiveType where
  | byte
  | char
  | double
  | float
  | int
  | long
  | short
  | boolean
  deriving DecidableEq, Repr

/-- The letter of a type in a descriptor. -/
def PrimitiveType.letter : PrimitiveType → Char
  | byte => 'B'
  | char => 'C'
  | double => 'D'
  | float => 'F'
  | int => 'I'
  | long => 'J'
  | short => 'S'
  | boolean => 'Z'

/-- A name of a class as it stands in a descriptor. All characters but three may occur in it. -/
structure ClassName where
  chars : List Char
  ne_nil : chars ≠ []
  legal : ∀ char ∈ chars, char ≠ ';' ∧ char ≠ '.' ∧ char ≠ '['

/-- The type of a field or of a parameter. -/
inductive FieldType where
  | primitive (type : PrimitiveType)
  | object (name : ClassName)
  | array (element : FieldType)

namespace FieldType

/-- The text of a type in a descriptor. -/
def text : FieldType → List Char
  | primitive type => [type.letter]
  | object name => 'L' :: (name.chars ++ [';'])
  | array element => '[' :: element.text

/-- The local variables that a parameter of the type takes. -/
def slots : FieldType → Nat
  | primitive .double | primitive .long => 2
  | _ => 1

/-- There is a closing parenthesis in the name of the class that the type is about. -/
def HasParenthesis (type : FieldType) : Prop :=
  ')' ∈ type.text

instance (type : FieldType) : Decidable type.HasParenthesis :=
  inferInstanceAs (Decidable (_ ∈ _))

theorem slots_pos (type : FieldType) : 0 < type.slots := by
  unfold slots
  split <;> decide

end FieldType

/-- The type of a method. It has no result type if the method returns nothing. -/
structure MethodType where
  parameters : List FieldType
  result : Option FieldType

namespace MethodType

/-- The descriptor of a method type. -/
def text (type : MethodType) : String :=
  .ofList ('(' :: (type.parameters.flatMap FieldType.text
    ++ ')' :: type.result.elim ['V'] FieldType.text))

/-- The local variables that the parameters take. -/
def slots (type : MethodType) : Nat :=
  (type.parameters.map FieldType.slots).sum

end MethodType

/-! ## Reading a type -/

theorem semicolon_not_mem (name : ClassName) : ';' ∉ name.chars :=
  fun h => (name.legal ';' h).1 rfl

theorem slotsFrom_className {name : List Char} (h : ';' ∉ name) (slots : UInt16)
    (rest : List Char) :
    slotsFrom slots .className (name ++ ';' :: rest) = slotsFrom slots .parameter rest := by
  induction name with
  | nil => simp [slotsFrom]
  | cons char name ih =>
    obtain ⟨hchar, hname⟩ := not_or.1 (mt List.mem_cons.2 h)
    simp [slotsFrom, Ne.symm hchar, ih hname]

/-- A class name that is not ended counts for what it began. -/
theorem slotsFrom_className_unended {name : List Char} (h : ';' ∉ name) (slots : UInt16) :
    slotsFrom slots .className name = slots := by
  induction name with
  | nil => simp [slotsFrom]
  | cons char name ih =>
    obtain ⟨hchar, hname⟩ := not_or.1 (mt List.mem_cons.2 h)
    simp [slotsFrom, Ne.symm hchar, ih hname]

theorem slotsFrom_arrayElement (type : FieldType) (slots : UInt16) (rest : List Char) :
    slotsFrom slots .arrayElement (type.text ++ rest) = slotsFrom slots .parameter rest := by
  induction type with
  | primitive type => cases type <;> simp [FieldType.text, PrimitiveType.letter, slotsFrom]
  | object name =>
    have hname := slotsFrom_className (semicolon_not_mem name) slots rest
    simpa [FieldType.text, slotsFrom] using hname
  | array element ih => simpa [FieldType.text, slotsFrom] using ih

/-- A type is read to its end, whatever follows it. -/
theorem slotsFrom_text (type : FieldType) (slots : UInt16) (rest : List Char) :
    slotsFrom slots .parameter (type.text ++ rest) =
      slotsFrom (slots + .ofNat type.slots) .parameter rest := by
  cases type with
  | primitive type =>
    cases type <;> simp [FieldType.text, FieldType.slots, PrimitiveType.letter, slotsFrom]
  | object name =>
    have hname := slotsFrom_className (semicolon_not_mem name) (slots + 1) rest
    simpa [FieldType.text, FieldType.slots, slotsFrom] using hname
  | array element =>
    have helement := slotsFrom_arrayElement element (slots + 1) rest
    simpa [FieldType.text, FieldType.slots, slotsFrom] using helement

/-! ## Parentheses in names -/

/-- What is read of a text whose end is taken to be the first closing parenthesis. -/
def beforeParenthesis (text : List Char) : List Char :=
  text.takeWhile (· != ')')

theorem beforeParenthesis_append_of_not_mem {text : List Char} (h : ')' ∉ text)
    (rest : List Char) :
    beforeParenthesis (text ++ rest) = text ++ beforeParenthesis rest := by
  refine List.takeWhile_append_of_pos fun char hchar => ?_
  rw [bne_iff_ne]
  rintro rfl
  exact h hchar

theorem beforeParenthesis_append_of_mem {text : List Char} (h : ')' ∈ text) (rest : List Char) :
    beforeParenthesis (text ++ rest) = beforeParenthesis text := by
  unfold beforeParenthesis
  induction text with
  | nil => cases h
  | cons char text ih =>
    by_cases hchar : char = ')'
    · simp [hchar]
    · have hmem : ')' ∈ text := (List.mem_cons.1 h).resolve_left (Ne.symm hchar)
      simp [hchar, ih hmem]

theorem hasParenthesis_object {name : ClassName} (h : (FieldType.object name).HasParenthesis) :
    ')' ∈ name.chars := by
  simpa [FieldType.HasParenthesis, FieldType.text] using h

theorem hasParenthesis_array {element : FieldType} (h : element.array.HasParenthesis) :
    element.HasParenthesis := by
  simpa [FieldType.HasParenthesis, FieldType.text] using h

/-- What is read of a class name with a parenthesis in it does not end the name. -/
theorem slotsFrom_className_before {name : ClassName} (h : ')' ∈ name.chars) (slots : UInt16) :
    slotsFrom slots .className (beforeParenthesis (name.chars ++ [';'])) = slots := by
  rw [beforeParenthesis_append_of_mem h]
  refine slotsFrom_className_unended (fun hmem => ?_) slots
  exact semicolon_not_mem name ((List.takeWhile_sublist _).subset hmem)

theorem slotsFrom_arrayElement_before {type : FieldType} (h : type.HasParenthesis)
    (slots : UInt16) :
    slotsFrom slots .arrayElement (beforeParenthesis type.text) = slots := by
  induction type with
  | primitive type => cases type <;> simp [FieldType.HasParenthesis, FieldType.text,
      PrimitiveType.letter] at h
  | object name =>
    have hname := slotsFrom_className_before (hasParenthesis_object h) slots
    simpa [FieldType.text, beforeParenthesis, slotsFrom] using hname
  | array element ih =>
    have helement := ih (hasParenthesis_array h)
    simpa [FieldType.text, beforeParenthesis, slotsFrom] using helement

/-- A type with a parenthesis in it counts in full although it is not read to its end. -/
theorem slotsFrom_before {type : FieldType} (h : type.HasParenthesis) (slots : UInt16) :
    slotsFrom slots .parameter (beforeParenthesis type.text) = slots + .ofNat type.slots := by
  cases type with
  | primitive type => cases type <;> simp [FieldType.HasParenthesis, FieldType.text,
      PrimitiveType.letter] at h
  | object name =>
    have hname := slotsFrom_className_before (hasParenthesis_object h) (slots + 1)
    simpa [FieldType.text, FieldType.slots, beforeParenthesis, slotsFrom] using hname
  | array element =>
    have helement := slotsFrom_arrayElement_before (hasParenthesis_array h) (slots + 1)
    simpa [FieldType.text, FieldType.slots, beforeParenthesis, slotsFrom] using helement

/-! ## Reading a descriptor -/

/-- The parameters up to the first one with a parenthesis in it. -/
def reached : List FieldType → List FieldType
  | [] => []
  | type :: types => if type.HasParenthesis then [type] else type :: reached types

theorem slotsFrom_parameters (types : List FieldType) (slots : UInt16) (rest : List Char) :
    slotsFrom slots .parameter (beforeParenthesis (types.flatMap FieldType.text ++ ')' :: rest)) =
      slots + .ofNat ((reached types).map FieldType.slots).sum := by
  induction types generalizing slots with
  | nil => simp [beforeParenthesis, reached, slotsFrom]
  | cons type types ih =>
    rw [List.flatMap_cons, List.append_assoc, reached]
    by_cases htype : type.HasParenthesis
    · rw [beforeParenthesis_append_of_mem htype, slotsFrom_before htype, if_pos htype]
      simp
    · rw [beforeParenthesis_append_of_not_mem htype, slotsFrom_text, ih, if_neg htype]
      simp [UInt16.ofNat_add, UInt16.add_assoc]

theorem sum_reached_le (types : List FieldType) :
    ((reached types).map FieldType.slots).sum ≤ (types.map FieldType.slots).sum := by
  induction types with
  | nil => exact Nat.le_refl _
  | cons type types ih =>
    rw [reached]
    split
    · simp
    · simpa using ih

/-- The slots of the parameters are counted up to the first parameter with a parenthesis in it. -/
theorem argumentSlots_text {type : MethodType} (hslots : type.slots ≤ 65535) :
    argumentSlots type.text = ((reached type.parameters).map FieldType.slots).sum := by
  have hparameters := slotsFrom_parameters type.parameters 0
    (type.result.elim ['V'] FieldType.text)
  have hcount : slotCount type.text =
      .ofNat ((reached type.parameters).map FieldType.slots).sum := by
    rw [UInt16.zero_add] at hparameters
    rw [← hparameters, slotCount, MethodType.text, String.toList_ofList]
    rfl
  have hsmall : ((reached type.parameters).map FieldType.slots).sum ≤ 65535 :=
    (sum_reached_le type.parameters).trans hslots
  rw [argumentSlots, hcount]
  exact Nat.mod_eq_of_lt (Nat.lt_succ_of_le hsmall)

/-- No slot is missed exactly if no parameter but the last has a parenthesis in it. -/
theorem sum_reached_eq_iff (types : List FieldType) :
    ((reached types).map FieldType.slots).sum = (types.map FieldType.slots).sum ↔
      ∀ type ∈ types.dropLast, ¬type.HasParenthesis := by
  induction types with
  | nil => simp [reached]
  | cons type types ih =>
    cases types with
    | nil => by_cases htype : type.HasParenthesis <;> simp [reached, htype]
    | cons next types =>
      rw [List.dropLast_cons_cons, List.forall_mem_cons, ← ih]
      have hnext := next.slots_pos
      by_cases htype : type.HasParenthesis
      · rw [reached, if_pos htype]
        simp [htype]
        omega
      · rw [reached, if_neg htype]
        simp [htype]

end ClassStub.Descriptor
