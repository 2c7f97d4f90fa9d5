import ClassStub.Proofs.CanonicalSets
import ClassStub.Proofs.Recognition

/-! # The order of attributes

Attributes of different kinds answer different questions, so their order matters only for lists of
annotations, and there only between annotations of different visibility, which have different keys.
Attributes that are ignored do not matter at all. -/

namespace ClassStub

open CanonicalSet (agree agree_iff)

namespace Digest

/-- A digest without its annotations. -/
def bare (digest : Digest) : Digest :=
  { digest with annotations := [], typeAnnotations := [] }

/-- Two digests give the same answers, except that annotations with different keys may stand in
another order. -/
structure Similar (first second : Digest) : Prop where
  bare : first.bare = second.bare
  annotations : ∀ item, first.annotations.find? (agree item) = second.annotations.find? (agree item)
  typeAnnotations : ∀ item,
    first.typeAnnotations.find? (agree item) = second.typeAnnotations.find? (agree item)

theorem Similar.refl (digest : Digest) : Similar digest digest :=
  ⟨rfl, fun _ => rfl, fun _ => rfl⟩

theorem Similar.trans {a b c : Digest} (hab : Similar a b) (hbc : Similar b c) : Similar a c :=
  ⟨hab.bare.trans hbc.bare, fun item => (hab.annotations item).trans (hbc.annotations item),
    fun item => (hab.typeAnnotations item).trans (hbc.typeAnnotations item)⟩

theorem bare_append (first second : Digest) : (first ++ second).bare = first.bare ++ second.bare :=
  rfl

theorem Similar.append {a b c d : Digest} (hab : Similar a b) (hcd : Similar c d) :
    Similar (a ++ c) (b ++ d) where
  bare := by rw [bare_append, bare_append, hab.bare, hcd.bare]
  annotations item := by
    change (a.annotations ++ c.annotations).find? _ = (b.annotations ++ d.annotations).find? _
    rw [List.find?_append, List.find?_append, hab.annotations, hcd.annotations]
  typeAnnotations item := by
    change (a.typeAnnotations ++ c.typeAnnotations).find? _
      = (b.typeAnnotations ++ d.typeAnnotations).find? _
    rw [List.find?_append, List.find?_append, hab.typeAnnotations, hcd.typeAnnotations]

theorem append_exceptions {digest : Digest} (h : digest.exceptions = []) (names : List String) :
    ({ exceptions := names } : Digest) ++ digest = digest ++ { exceptions := names } := by
  simp only [append_eq, append, h, Option.or_none, Option.none_or, Bool.or_false, Bool.false_or,
    List.append_nil, List.nil_append]

end Digest

/-- Lists without a common key can be searched in either order. -/
theorem find?_append_comm {α : Type} [Keyed α] {items others : List α}
    (h : ∀ a ∈ items, ∀ b ∈ others, Keyed.key a ≠ Keyed.key b) (item : α) :
    (items ++ others).find? (agree item) = (others ++ items).find? (agree item) := by
  rw [List.find?_append, List.find?_append]
  cases hitems : items.find? (agree item) with
  | none => rw [Option.none_or, Option.or_none]
  | some a =>
    cases hothers : others.find? (agree item) with
    | none => rfl
    | some b =>
      have ha := agree_iff.1 (List.find?_some hitems)
      have hb := agree_iff.1 (List.find?_some hothers)
      exact absurd (ha.symm.trans hb)
        (h a (List.mem_of_find?_eq_some hitems) b (List.mem_of_find?_eq_some hothers))

namespace Statements

variable {first second : Statement} {kind other : AttributeKind}

theorem bare_comm (hfirst : first.Answers kind) (hsecond : second.Answers other)
    (hne : kind ≠ other) :
    (digest [first]).bare ++ (digest [second]).bare =
      (digest [second]).bare ++ (digest [first]).bare := by
  cases first <;> cases second
  case exceptions.exceptions => exact absurd (hfirst.trans hsecond.symm) hne
  case exceptions.skipped => exact hsecond.elim
  all_goals
    first
    | rfl
    | exact absurd (Eq.trans hfirst (Eq.symm hsecond)) hne
    | exact Digest.append_exceptions rfl _
    | exact (Digest.append_exceptions rfl _).symm

theorem kind_of_mem_annotations (h : first.Answers kind) {item : Annotation}
    (hitem : item ∈ (digest [first]).annotations) : kind = .annotations item.visible := by
  cases first
  case annotations items =>
    rw [digest_annotations] at hitem
    obtain ⟨visible, hkind, hvisible⟩ := h
    rw [hkind, hvisible item hitem]
  all_goals cases hitem

theorem kind_of_mem_typeAnnotations (h : first.Answers kind) {item : TypeAnnotation}
    (hitem : item ∈ (digest [first]).typeAnnotations) : kind = .typeAnnotations item.visible := by
  cases first
  case typeAnnotations items =>
    rw [digest_typeAnnotations] at hitem
    obtain ⟨visible, hkind, hvisible⟩ := h
    rw [hkind, hvisible item hitem]
  all_goals cases hitem

/-- Statements of different kinds can be made in either order. -/
theorem similar_comm (hfirst : first.Answers kind) (hsecond : second.Answers other)
    (hne : kind ≠ other) :
    Digest.Similar (digest [first] ++ digest [second]) (digest [second] ++ digest [first]) where
  bare := bare_comm hfirst hsecond hne
  annotations item := by
    refine find?_append_comm (fun a ha b hb hkey => hne ?_) item
    have hvisible : a.visible = b.visible := congrArg (fun key : AnnotationKey => key.2.1) hkey
    rw [kind_of_mem_annotations hfirst ha, kind_of_mem_annotations hsecond hb, hvisible]
  typeAnnotations item := by
    refine find?_append_comm (fun a ha b hb hkey => hne ?_) item
    have hvisible : a.visible = b.visible :=
      congrArg (fun key : Bytes × AnnotationKey => key.2.2.1) hkey
    rw [kind_of_mem_typeAnnotations hfirst ha, kind_of_mem_typeAnnotations hsecond hb, hvisible]

end Statements

/-! ## Attributes in another order -/

section Permutations

variable {pool : Pool} {place : AttributePlace}

/-- Two attributes that are not of one recognised kind can change places. -/
theorem similar_swap {item other : Attribute} {first second : Statement}
    (hfirst : Statement.decode pool place item = .ok first)
    (hsecond : Statement.decode pool place other = .ok second)
    (hapart : ∀ kind ∈ place.recognised, ¬ (item.IsNamed pool kind ∧ other.IsNamed pool kind)) :
    Digest.Similar (Statements.digest [first] ++ Statements.digest [second])
      (Statements.digest [second] ++ Statements.digest [first]) := by
  obtain ⟨-, rfl | ⟨kind, hkind, hnamed, hanswers⟩⟩ := Statement.decode_ok hfirst
  · change Digest.Similar ({} ++ _) (_ ++ {})
    rw [Digest.empty_append, Digest.append_empty]
    exact .refl _
  · obtain ⟨-, rfl | ⟨kind', hkind', hnamed', hanswers'⟩⟩ := Statement.decode_ok hsecond
    · change Digest.Similar (_ ++ {}) ({} ++ _)
      rw [Digest.empty_append, Digest.append_empty]
      exact .refl _
    · refine Statements.similar_comm hanswers hanswers' ?_
      rintro rfl
      exact hapart kind hkind ⟨hnamed, hnamed'⟩

/-- The order of attributes of which no recognised kind repeats does not matter. -/
theorem similar_perm {attributes others : List Attribute} (hperm : attributes.Perm others)
    (hrepeats : Attribute.NoneRepeats pool place attributes) {statements : Statements}
    (h : Statement.decodeAll pool place attributes = .ok statements) :
    ∃ statements' : Statements, Statement.decodeAll pool place others = .ok statements'
      ∧ Digest.Similar statements.digest statements'.digest := by
  induction hperm generalizing statements with
  | nil => exact ⟨statements, h, .refl _⟩
  | @cons item attributes others _ ih =>
    obtain ⟨statement, rest, hstatement, hrest, rfl⟩ :=
      List.forall₂_cons_left_iff.1 (mapM_eq_ok.1 h)
    obtain ⟨rest', hrest', hsimilar⟩ := ih (List.pairwise_cons.1 hrepeats).2 (mapM_eq_ok.2 hrest)
    refine ⟨statement :: rest', mapM_eq_ok.2 (.cons hstatement (mapM_eq_ok.1 hrest')), ?_⟩
    rw [Statements.digest_cons, Statements.digest_cons statement rest']
    exact (Digest.Similar.refl _).append hsimilar
  | swap item other attributes =>
    obtain ⟨second, _, hsecond, hbehind, rfl⟩ := List.forall₂_cons_left_iff.1 (mapM_eq_ok.1 h)
    obtain ⟨first, rest, hfirst, hrest, rfl⟩ := List.forall₂_cons_left_iff.1 hbehind
    have hapart := (List.pairwise_cons.1 hrepeats).1 item List.mem_cons_self
    refine ⟨first :: second :: rest, mapM_eq_ok.2 (.cons hfirst (.cons hsecond hrest)), ?_⟩
    have hdigest : ∀ a b : Statement, Statements.digest (a :: b :: rest) =
        Statements.digest [a] ++ Statements.digest [b] ++ Statements.digest rest := fun a b => by
      rw [← Statements.digest_append, ← Statements.digest_append]
      rfl
    rw [hdigest, hdigest]
    exact (similar_swap hsecond hfirst hapart).append (.refl _)
  | @trans attributes middle others hperm _ ih ih' =>
    obtain ⟨statements', h', hsimilar⟩ := ih hrepeats h
    have hrepeats' : Attribute.NoneRepeats pool place middle :=
      (hperm.pairwise_iff fun hapart kind hkind hboth => hapart kind hkind hboth.symm).1 hrepeats
    obtain ⟨statements'', h'', hsimilar'⟩ := ih' hrepeats' h'
    exact ⟨statements'', h'', hsimilar.trans hsimilar'⟩

end Permutations

end ClassStub
