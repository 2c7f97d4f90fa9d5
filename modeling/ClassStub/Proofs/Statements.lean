import ClassStub.ClassFile.Description
import ClassStub.Proofs.Outcome

/-! # What attributes amount to

The parts of a class are read off the statements of its attributes by a fixed set of questions. A
`Digest` holds the answers to all of them, and the digest of joined statements is made of the
digests of the parts. -/

namespace ClassStub

/-- The answers that statements give. -/
structure Digest where
  signature : Option String := none
  deprecated : Bool := false
  synthetic : Bool := false
  annotations : List Annotation := []
  typeAnnotations : List TypeAnnotation := []
  enclosing : Option EnclosingLink := none
  nested : Option (List NestedLink) := none
  constantValue : Option ConstantValue := none
  exceptions : List String := []
  visibleParameters : Option ParameterTable := none
  invisibleParameters : Option ParameterTable := none
  defaultValue : Option ElementValue := none

/-- Of single answers the last counts, lists are joined. -/
def Digest.append (first second : Digest) : Digest where
  signature := second.signature.or first.signature
  deprecated := first.deprecated || second.deprecated
  synthetic := first.synthetic || second.synthetic
  annotations := first.annotations ++ second.annotations
  typeAnnotations := first.typeAnnotations ++ second.typeAnnotations
  enclosing := second.enclosing.or first.enclosing
  nested := second.nested.or first.nested
  constantValue := second.constantValue.or first.constantValue
  exceptions := first.exceptions ++ second.exceptions
  visibleParameters := second.visibleParameters.or first.visibleParameters
  invisibleParameters := second.invisibleParameters.or first.invisibleParameters
  defaultValue := second.defaultValue.or first.defaultValue

instance : Append Digest :=
  ⟨Digest.append⟩

namespace Digest

theorem append_eq (first second : Digest) : first ++ second = first.append second :=
  rfl

theorem empty_append (digest : Digest) : {} ++ digest = digest := by
  simp only [append_eq, append, Option.or_none, Bool.false_or, List.nil_append]

theorem append_empty (digest : Digest) : digest ++ {} = digest := by
  simp only [append_eq, append, Option.none_or, Bool.or_false, List.append_nil]

end Digest

namespace Statements

/-- The answers of a list of statements. -/
def digest (statements : Statements) : Digest where
  signature := statements.signature
  deprecated := statements.deprecated
  synthetic := statements.synthetic
  annotations := statements.annotations
  typeAnnotations := statements.typeAnnotations
  enclosing := statements.enclosing
  nested := statements.last? fun | .nested links => some links | _ => none
  constantValue := statements.constantValue
  exceptions := statements.exceptions
  visibleParameters := statements.visibleParameters
  invisibleParameters := statements.invisibleParameters
  defaultValue := statements.defaultValue

theorem last?_append {α : Type} (first second : Statements) (select : Statement → Option α) :
    last? (first ++ second) select = (second.last? select).or (first.last? select) := by
  rw [last?, List.filterMap_append, List.getLast?_append]
  rfl

theorem digest_append (first second : Statements) :
    digest (first ++ second) = first.digest ++ second.digest := by
  simp only [Digest.append_eq, Digest.append, digest, signature, deprecated, synthetic, annotations,
    typeAnnotations, enclosing, constantValue, exceptions, visibleParameters, invisibleParameters,
    defaultValue, last?_append, List.any_append, List.flatMap_append]

theorem digest_cons (statement : Statement) (statements : Statements) :
    digest (statement :: statements) = digest [statement] ++ statements.digest :=
  digest_append [statement] statements

theorem digest_skipped_cons (statements : Statements) :
    digest (.skipped :: statements) = statements.digest := by
  rw [digest_cons]
  exact Digest.empty_append _

theorem digest_annotations (items : List Annotation) :
    digest [.annotations items] = { annotations := items } :=
  congrArg (fun items => ({ annotations := items } : Digest)) (List.append_nil items)

theorem digest_typeAnnotations (items : List TypeAnnotation) :
    digest [.typeAnnotations items] = { typeAnnotations := items } :=
  congrArg (fun items => ({ typeAnnotations := items } : Digest)) (List.append_nil items)

theorem digest_exceptions (names : List String) :
    digest [.exceptions names] = { exceptions := names } :=
  congrArg (fun names => ({ exceptions := names } : Digest)) (List.append_nil names)

end Statements

end ClassStub
