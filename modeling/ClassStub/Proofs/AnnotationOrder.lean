import ClassStub.Proofs.AnnotationKeys
import ClassStub.Proofs.CanonicalSets

/-! # The canonical order of annotations

Two annotations compare as equal exactly if they are the same in every part, and so do two type
annotations. A canonical set therefore holds all the annotations that are put into it. Values are
the same if they are of one kind and have the same content at every depth, with numbers in floating
point taken as bits. -/

namespace ClassStub

/-! ## Orders that tell items apart -/

namespace CanonicalSet

variable {α : Type} [Keyed α] {valid : α → Prop}

/-- The canonical order tells `valid` items apart, and so the sets of such items hold whatever was
put into them. -/
structure TellsApart (valid : α → Prop) : Prop where
  compare_eq_iff : ∀ item other, valid item → valid other →
    (Keyed.compare item other = .eq ↔ item = other)
  mem_ofList : ∀ items, (∀ item ∈ items, valid item) →
    ∀ item, item ∈ (ofList items).toList ↔ item ∈ items
  mem_insert : ∀ (set : CanonicalSet α) item, (∀ other ∈ set.toList, valid other) → valid item →
    ∀ other, other ∈ (set.insert item).toList ↔ other = item ∨ other ∈ set.toList

/-- For that it is enough that `valid` items with one key are equal. -/
theorem TellsApart.of_key
    (h : ∀ item other, valid item → valid other → Keyed.key item = Keyed.key other →
      item = other) : TellsApart valid := by
  have hlist : ∀ items, (∀ item ∈ items, valid item) →
      ∀ item : α, item ∈ (ofList items).toList ↔ item ∈ items := by
    intro items hitems item
    apply mem_ofList_iff_mem
    intro a ha b hb hkey
    exact h a b (hitems a ha) (hitems b hb) hkey
  refine ⟨?_, hlist, ?_⟩
  · intro item other hitem hother
    rw [CanonicalSet.compare_eq_iff]
    exact ⟨h item other hitem hother, congrArg Keyed.key⟩
  · intro set item hset hitem other
    have hall : ∀ other ∈ set.toList ++ [item], valid other :=
      List.forall_mem_append.2 ⟨hset, List.forall_mem_singleton.2 hitem⟩
    rw [insert, hlist _ hall, List.mem_append, List.mem_singleton, or_comm]

end CanonicalSet

/-! ## Annotations -/

open CanonicalSet (TellsApart)

theorem Annotation.tellsApart : TellsApart fun item : Annotation => item.Within .keyed :=
  .of_key fun _ _ => Annotation.eq_of_canonicalKey

theorem TypeAnnotation.tellsApart : TellsApart TypeAnnotation.IsKeyed :=
  .of_key fun _ _ => TypeAnnotation.eq_of_key

/-- The target and the path of a type annotation are told apart whatever its content. -/
theorem TypeAnnotation.compare_eq_iff {item other : TypeAnnotation}
    (h : item.target.Fits item.targetType) (h' : other.target.Fits other.targetType) :
    Keyed.compare item other = .eq ↔ item.targetType = other.targetType
      ∧ item.target = other.target ∧ item.path = other.path
      ∧ Keyed.compare item.content other.content = .eq := by
  have hkey : Keyed.key item = Keyed.key other ↔
      item.siteBytes = other.siteBytes ∧ Keyed.key item.content = Keyed.key other.content :=
    Prod.mk.injEq .. ▸ Iff.rfl
  rw [CanonicalSet.compare_eq_iff, hkey, siteBytes_eq_iff h h', CanonicalSet.compare_eq_iff,
    and_assoc, and_assoc]

/-- Annotations compare as equal exactly if they have the same descriptor, visibility and elements,
and type annotations exactly if they have the same target type, target and path and their contents
compare as equal. Sets of them lose none that differs from all others. -/
theorem Annotation.compare_eq_iff_same :
    (∀ item other : Annotation, item.Within .keyed → other.Within .keyed →
        (Keyed.compare item other = .eq ↔ item.descriptor = other.descriptor
          ∧ item.visible = other.visible ∧ item.elements = other.elements))
      ∧ (∀ item other : TypeAnnotation, item.target.Fits item.targetType →
          other.target.Fits other.targetType →
          (Keyed.compare item other = .eq ↔ item.targetType = other.targetType
            ∧ item.target = other.target ∧ item.path = other.path
            ∧ Keyed.compare item.content other.content = .eq))
      ∧ TellsApart (fun item : Annotation => item.Within .keyed)
      ∧ TellsApart TypeAnnotation.IsKeyed := by
  refine ⟨?_, ?_, Annotation.tellsApart, TypeAnnotation.tellsApart⟩
  · intro item other hitem hother
    have horder := Annotation.tellsApart.compare_eq_iff item other hitem hother
    rw [horder]
    cases item
    cases other
    exact Annotation.mk.injEq .. ▸ Iff.rfl
  · intro item other hitem hother
    exact TypeAnnotation.compare_eq_iff hitem hother

/-- An annotation with one element, a number in floating point. -/
def Annotation.ofFloat (bits : UInt32) : Annotation where
  descriptor := "LX;"
  visible := true
  elements := [("v", .float bits)]

theorem Annotation.within_ofFloat (bits : UInt32) : (ofFloat bits).Within .keyed where
  descriptor := by
    change "LX;".utf8ByteSize < 2 ^ 32
    decide
  count := by
    change 1 < 2 ^ 32
    decide
  names := List.forall_mem_singleton.2 <| by
    change "v".utf8ByteSize < 2 ^ 32
    decide
  values := List.forall_mem_singleton.2 (.float bits)

/-- A type annotation of a field, on what a path leads to. -/
def TypeAnnotation.onField (steps : List PathStep) : TypeAnnotation where
  targetType := 0x13
  target := .empty
  path := ⟨steps⟩
  content := .ofFloat 0

/-- Zero differs from negative zero, and a set that has the one holds the other as well once it is
put in. No steps differ from 256 steps, although 8 bits count both as 0. -/
theorem Annotation.compare_eq_iff_same_zeros :
    Keyed.compare (ofFloat 0) (ofFloat 0x80000000) ≠ .eq
      ∧ ofFloat 0x80000000 ∈ ((CanonicalSet.ofList [ofFloat 0]).insert (ofFloat 0x80000000)).toList
      ∧ ofFloat 0 ∈ ((CanonicalSet.ofList [ofFloat 0]).insert (ofFloat 0x80000000)).toList
      ∧ Keyed.compare (.onField [] : TypeAnnotation)
          (.onField (List.replicate 256 { kind := 3, argumentIndex := 0 })) ≠ .eq := by
  obtain ⟨hannotations, htypes, hsets, -⟩ := Annotation.compare_eq_iff_same
  have hzero := within_ofFloat 0
  have hnegative := within_ofFloat 0x80000000
  have hmem := hsets.mem_ofList [ofFloat 0] (List.forall_mem_singleton.2 hzero)
  have hset : ∀ item ∈ (CanonicalSet.ofList [ofFloat 0]).toList, item.Within .keyed := by
    intro item hitem
    rwa [List.mem_singleton.1 ((hmem item).1 hitem)]
  have hinsert := hsets.mem_insert _ _ hset hnegative
  refine ⟨?_, (hinsert _).2 (.inl rfl), (hinsert _).2 (.inr ((hmem _).2 List.mem_cons_self)), ?_⟩
  · intro heq
    obtain ⟨-, -, helements⟩ := (hannotations _ _ hzero hnegative).1 heq
    simp [ofFloat] at helements
  · intro heq
    have hfits : Target.empty.Fits 0x13 := .inl rfl
    obtain ⟨-, -, hpath, -⟩ := (htypes _ _ hfits hfits).1 heq
    have hsteps := congrArg (·.steps.length) hpath
    unfold TypeAnnotation.onField at hsteps
    rw [List.length_replicate] at hsteps
    cases hsteps

end ClassStub
