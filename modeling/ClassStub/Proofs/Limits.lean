import Mathlib.Algebra.GroupWithZero.Nat
import ClassStub.Annotation.Decode
import ClassStub.Annotation.Encode
import ClassStub.Text.ModifiedUtf8

/-! # Limits on annotations

The formats in which annotations are kept bound the names, the texts and the lengths of the lists
in them. `Limits` collects such bounds, and `Within` says of a value that it respects them at every
depth. The written sizes of values are given here as well; they do not depend on the pool. -/

namespace ClassStub

/-- Bounds on names, on texts, and on the lengths of lists. -/
structure Limits where
  name : String → Prop
  text : JavaText → Prop
  count : Nat → Prop

namespace Limits

/-- One collection of limits is at least as strict as another. -/
structure Stricter (limits other : Limits) : Prop where
  name : ∀ name, limits.name name → other.name name
  text : ∀ text, limits.text text → other.text text
  count : ∀ count, limits.count count → other.count count

/-- The limits of class files whose texts are `texts`: lists are counted in 16 bits. -/
def counted (texts : JavaText → Prop) : Limits where
  name name := texts (.ofString name)
  text := texts
  count count := count ≤ 65535

end Limits

/-- The length of the text fits into 16 bits when it is written in modified UTF-8. -/
def JavaText.IsWritable (text : JavaText) : Prop :=
  text.encode.length ≤ 65535

instance (text : JavaText) : Decidable text.IsWritable :=
  inferInstanceAs (Decidable (_ ≤ _))

/-- The limits of the class file format. -/
def Limits.classFile : Limits :=
  .counted JavaText.IsWritable

namespace ElementValue

/-- At every depth of a value, names, texts and lengths are within limits. -/
inductive Within (limits : Limits) : ElementValue → Prop where
  | byte (value : Int8) : Within limits (.byte value)
  | char (unit : UInt16) : Within limits (.char unit)
  | double (bits : UInt64) : Within limits (.double bits)
  | float (bits : UInt32) : Within limits (.float bits)
  | int (value : Int32) : Within limits (.int value)
  | long (value : Int64) : Within limits (.long value)
  | short (value : Int16) : Within limits (.short value)
  | boolean (value : Bool) : Within limits (.boolean value)
  | string {text : JavaText} (htext : limits.text text) : Within limits (.string text)
  | enumConstant {typeDescriptor constantName : String} (htype : limits.name typeDescriptor)
      (hconstant : limits.name constantName) :
      Within limits (.enumConstant typeDescriptor constantName)
  | classInfo {descriptor : String} (hdescriptor : limits.name descriptor) :
      Within limits (.classInfo descriptor)
  | nested {descriptor : String} {elements : List ElementPair}
      (hdescriptor : limits.name descriptor) (hcount : limits.count elements.length)
      (hnames : ∀ pair ∈ elements, limits.name pair.1)
      (hvalues : ∀ pair ∈ elements, Within limits pair.2) :
      Within limits (.nested descriptor elements)
  | array {values : List ElementValue} (hcount : limits.count values.length)
      (hvalues : ∀ value ∈ values, Within limits value) : Within limits (.array values)

theorem Within.mono {limits other : Limits} (h : limits.Stricter other) {value : ElementValue}
    (hvalue : value.Within limits) : value.Within other := by
  induction hvalue with
  | string htext => exact .string (h.text _ htext)
  | enumConstant htype hconstant => exact .enumConstant (h.name _ htype) (h.name _ hconstant)
  | classInfo hdescriptor => exact .classInfo (h.name _ hdescriptor)
  | nested hdescriptor hcount hnames _ ih =>
    exact .nested (h.name _ hdescriptor) (h.count _ hcount)
      (fun pair hpair => h.name _ (hnames pair hpair)) ih
  | array hcount _ ih => exact .array (h.count _ hcount) ih
  | _ => constructor

mutual

/-- How many bytes the written form of a value takes. -/
def writtenSize : ElementValue → Nat
  | enumConstant .. => 5
  | nested _ elements => 5 + pairsSize elements
  | array values => 3 + valuesSize values
  | _ => 3

/-- How many bytes the written forms of named values take. -/
def pairsSize : List ElementPair → Nat
  | [] => 0
  | (_, value) :: rest => 2 + value.writtenSize + pairsSize rest

/-- How many bytes the written forms of values take. -/
def valuesSize : List ElementValue → Nat
  | [] => 0
  | value :: rest => value.writtenSize + valuesSize rest

end

/-- How many bytes the written form of a named value takes. -/
def pairSize (pair : ElementPair) : Nat :=
  2 + pair.2.writtenSize

theorem pairsSize_eq_sum (elements : List ElementPair) :
    pairsSize elements = (elements.map pairSize).sum := by
  induction elements with
  | nil => simp [pairsSize]
  | cons pair elements ih =>
    rw [pairsSize, List.map_cons, List.sum_cons, ih]
    rfl

theorem valuesSize_eq_sum (values : List ElementValue) :
    valuesSize values = (values.map writtenSize).sum := by
  induction values with
  | nil => simp [valuesSize]
  | cons value values ih => rw [valuesSize, List.map_cons, List.sum_cons, ih]

end ElementValue

/-- How many bytes items take behind their count. -/
def listSize {α : Type} (size : α → Nat) (items : List α) : Nat :=
  2 + (items.map size).sum

namespace Annotation

/-- Everything in an annotation is within limits. -/
structure Within (limits : Limits) (item : Annotation) : Prop where
  descriptor : limits.name item.descriptor
  count : limits.count item.elements.length
  names : ∀ pair ∈ item.elements, limits.name pair.1
  values : ∀ pair ∈ item.elements, pair.2.Within limits

theorem Within.mono {limits other : Limits} (h : limits.Stricter other) {item : Annotation}
    (hitem : item.Within limits) : item.Within other where
  descriptor := h.name _ hitem.descriptor
  count := h.count _ hitem.count
  names pair hpair := h.name _ (hitem.names pair hpair)
  values pair hpair := (hitem.values pair hpair).mono h

/-- How many bytes the written form of an annotation takes. -/
def writtenSize (item : Annotation) : Nat :=
  2 + listSize ElementValue.pairSize item.elements

end Annotation

/-- The target has the form that belongs to a target type. -/
def Target.Fits (targetType : UInt8) : Target → Prop
  | .typeParameter _ => targetType = 0x00 ∨ targetType = 0x01
  | .supertype _ => targetType = 0x10
  | .typeParameterBound .. => targetType = 0x11 ∨ targetType = 0x12
  | .empty => targetType = 0x13 ∨ targetType = 0x14 ∨ targetType = 0x15
  | .formalParameter _ => targetType = 0x16
  | .throws _ => targetType = 0x17

namespace TypeAnnotation

/-- The target of a type annotation fits its type, its path can be counted in 8 bits, and its
content is within limits. -/
structure Within (limits : Limits) (item : TypeAnnotation) : Prop where
  target : item.target.Fits item.targetType
  path : item.path.steps.length ≤ 255
  content : item.content.Within limits

theorem Within.mono {limits other : Limits} (h : limits.Stricter other) {item : TypeAnnotation}
    (hitem : item.Within limits) : item.Within other :=
  { hitem with content := hitem.content.mono h }

/-- How many bytes the written form of a type annotation takes. -/
def writtenSize (item : TypeAnnotation) : Nat :=
  item.siteBytes.length + item.content.writtenSize

end TypeAnnotation

namespace ParameterTable

/-- A table of annotations of one visibility that can be counted, all of them within limits. -/
structure Within (limits : Limits) (visible : Bool) (table : ParameterTable) : Prop where
  parameters : table.parameters.length ≤ 255
  count : ∀ set ∈ table.parameters, limits.count set.toList.length
  visible : ∀ set ∈ table.parameters, ∀ item ∈ set.toList, item.visible = visible
  items : ∀ set ∈ table.parameters, ∀ item ∈ set.toList, item.Within limits

/-- How many bytes the annotations of one parameter take. -/
def parameterSize (set : CanonicalSet Annotation) : Nat :=
  listSize Annotation.writtenSize set.toList

/-- How many bytes the written form of a table takes. -/
def writtenSize (table : ParameterTable) : Nat :=
  1 + (table.parameters.map parameterSize).sum

end ParameterTable

end ClassStub
