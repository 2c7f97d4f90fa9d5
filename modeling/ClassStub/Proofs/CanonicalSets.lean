import ClassStub.Canonical

/-! # Members of canonical sets

A canonical set that is built from a list holds, for each key, the first item of the list that has
it. Two lists therefore give the same set as soon as they agree on the first item of every key,
whatever the order of their items. -/

namespace ClassStub.CanonicalSet

section Keys

variable {α κ : Type} [Ord κ]

/-- Whether an item with a key has the key of another. -/
def sameKey (item other : κ × α) : Bool :=
  Ord.compare item.1 other.1 = .eq

variable [Std.TransOrd κ]

theorem inOrder_trans (a b c : κ × α) (hab : inOrder a b = true) (hbc : inOrder b c = true) :
    inOrder a c = true :=
  Std.TransCmp.isLE_trans hab hbc

theorem inOrder_total (a b : κ × α) : (inOrder a b || inOrder b a) = true := by
  unfold inOrder
  have hswap : Ord.compare b.1 a.1 = (Ord.compare a.1 b.1).swap := Std.OrientedCmp.eq_swap
  rw [hswap]
  cases Ord.compare a.1 b.1 <;> rfl

@[simp] theorem sameKey_refl (a : κ × α) : sameKey a a = true :=
  decide_eq_true Std.ReflCmp.compare_self

theorem sameKey_comm (a b : κ × α) : sameKey a b = sameKey b a := by
  have hswap : Ord.compare b.1 a.1 = (Ord.compare a.1 b.1).swap := Std.OrientedCmp.eq_swap
  unfold sameKey
  rw [hswap]
  cases Ord.compare a.1 b.1 <;> rfl

theorem inOrder_of_sameKey {item a b : κ × α} (ha : sameKey item a = true)
    (hb : sameKey item b = true) : inOrder a b = true := by
  rw [sameKey_comm] at ha
  have hab : Ord.compare a.1 b.1 = .eq :=
    Std.TransCmp.eq_trans (of_decide_eq_true ha) (of_decide_eq_true hb)
  rw [inOrder, hab]
  rfl

/-- Sorting keeps the order of the items that share a key. -/
theorem filter_mergeSort (item : κ × α) (items : List (κ × α)) :
    (items.mergeSort inOrder).filter (sameKey item) = items.filter (sameKey item) := by
  have hsorted : (items.filter (sameKey item)).Pairwise fun a b => inOrder a b = true :=
    List.pairwise_of_forall_mem_list fun a ha b hb =>
      inOrder_of_sameKey (List.mem_filter.1 ha).2 (List.mem_filter.1 hb).2
  have hsub := List.sublist_mergeSort inOrder_trans inOrder_total hsorted List.filter_sublist
  have hfilter := hsub.filter (sameKey item)
  simp only [List.filter_filter, Bool.and_self] at hfilter
  refine (hfilter.eq_of_length ?_).symm
  exact ((List.mergeSort_perm items inOrder).filter _).length_eq.symm

theorem mem_consFirst_iff {item x : κ × α} {rest : List (κ × α)}
    (hrest : rest.Pairwise fun a b => Ord.compare a.1 b.1 = .lt)
    (hle : ∀ other ∈ rest, inOrder item other = true) :
    x ∈ consFirst item rest ↔ x = item ∨ x ∈ rest ∧ sameKey item x = false := by
  unfold consFirst
  cases rest with
  | nil => simp
  | cons next more =>
    obtain ⟨hnext, -⟩ := List.pairwise_cons.1 hrest
    have hmore : ∀ other ∈ more, Ord.compare item.1 other.1 = .lt := fun other hother =>
      Std.TransCmp.lt_of_isLE_of_lt (hle next List.mem_cons_self) (hnext other hother)
    have hdiffer : ∀ other ∈ more, sameKey item other = false := fun other hother => by
      rw [sameKey, hmore other hother]
      rfl
    dsimp only
    by_cases heq : Ord.compare item.1 next.1 = .eq
    · have hsame : sameKey item next = true := decide_eq_true heq
      rw [if_pos heq, List.mem_cons, List.mem_cons]
      constructor
      · rintro (rfl | hx)
        · exact .inl rfl
        · exact .inr ⟨.inr hx, hdiffer x hx⟩
      · rintro (rfl | ⟨rfl | hx, hx'⟩)
        · exact .inl rfl
        · rw [hsame] at hx'
          cases hx'
        · exact .inr hx
    · have hnextDiffer : sameKey item next = false := decide_eq_false heq
      rw [if_neg heq, List.mem_cons, List.mem_cons]
      constructor
      · rintro (rfl | rfl | hx)
        · exact .inl rfl
        · exact .inr ⟨.inl rfl, hnextDiffer⟩
        · exact .inr ⟨.inr hx, hdiffer x hx⟩
      · rintro (rfl | ⟨hx, -⟩)
        · exact .inl rfl
        · exact .inr hx

/-- Of sorted items, those that are the first with their key remain. -/
theorem mem_foldr_consFirst_iff {items : List (κ × α)} {x : κ × α}
    (h : items.Pairwise fun a b => inOrder a b = true) :
    x ∈ items.foldr consFirst [] ↔ items.find? (sameKey x) = some x := by
  induction items with
  | nil => simp
  | cons item items ih =>
    obtain ⟨hitem, hitems⟩ := List.pairwise_cons.1 h
    have hle : ∀ other ∈ items.foldr consFirst [], inOrder item other = true :=
      fun other hother => hitem other (mem_of_mem_foldr_consFirst hother)
    rw [List.foldr_cons, mem_consFirst_iff (pairwise_foldr_consFirst hitems) hle, ih hitems,
      sameKey_comm item x, List.find?_cons]
    cases hsame : sameKey x item with
    | true =>
      constructor
      · rintro (rfl | ⟨-, h⟩)
        · rfl
        · cases h
      · intro h
        exact .inl (Option.some.inj h).symm
    | false =>
      constructor
      · rintro (rfl | ⟨h, -⟩)
        · rw [sameKey_refl] at hsame
          cases hsame
        · exact h
      · intro h
        exact .inr ⟨h, rfl⟩

theorem mem_sortFirst_iff {items : List (κ × α)} {x : κ × α} :
    x ∈ sortFirst items ↔ items.find? (sameKey x) = some x := by
  have hsorted := List.pairwise_mergeSort inOrder_trans inOrder_total items
  rw [sortFirst, mem_foldr_consFirst_iff hsorted, ← List.head?_filter, filter_mergeSort,
    List.head?_filter]

end Keys

variable {α : Type} [Keyed α]

/-- Whether two items have the same key. -/
def agree (item other : α) : Bool :=
  Keyed.compare item other = .eq

theorem compare_eq_iff {item other : α} :
    Keyed.compare item other = .eq ↔ Keyed.key item = Keyed.key other := by
  change Ord.compare (Keyed.key item) (Keyed.key other) = .eq ↔ _
  exact Std.LawfulEqCmp.compare_eq_iff_eq

theorem agree_iff {item other : α} :
    agree item other = true ↔ Keyed.key item = Keyed.key other := by
  rw [agree, decide_eq_true_eq, compare_eq_iff]

theorem key_ne_of_lt {a b : α} (h : Keyed.compare a b = .lt) : Keyed.key a ≠ Keyed.key b := by
  intro hkey
  have hself : Ord.compare (Keyed.key b) (Keyed.key b) = .eq := Std.ReflCmp.compare_self
  rw [Keyed.compare, hkey, hself] at h
  cases h

theorem find?_map_withKey (item : α) (items : List α) :
    (items.map withKey).find? (sameKey (withKey item)) =
      (items.find? (agree item)).map withKey := by
  rw [List.find?_map]
  rfl

/-- A set that is built from a list holds the first item of each key. -/
theorem mem_ofList_iff {items : List α} {item : α} :
    item ∈ (ofList items).toList ↔ items.find? (agree item) = some item := by
  have hkeyed : item ∈ (ofList items).toList ↔ withKey item ∈ sortFirst (items.map withKey) := by
    rw [ofList, List.mem_map]
    constructor
    · rintro ⟨x, hx, rfl⟩
      rwa [← eq_withKey_of_mem_sortFirst hx]
    · intro h
      exact ⟨_, h, rfl⟩
  rw [hkeyed, mem_sortFirst_iff, find?_map_withKey, Option.map_eq_some_iff]
  constructor
  · rintro ⟨found, hfound, h⟩
    rw [hfound, show found = item from congrArg Prod.snd h]
  · intro h
    exact ⟨item, h, rfl⟩

theorem nodup (set : CanonicalSet α) : set.toList.Nodup :=
  set.increasing.imp fun {_ _} h hab => key_ne_of_lt h (congrArg Keyed.key hab)

/-- Canonical sets with the same members are equal. -/
theorem ext_mem {a b : CanonicalSet α} (h : ∀ item, item ∈ a.toList ↔ item ∈ b.toList) : a = b := by
  have hperm : a.toList.Perm b.toList := (List.perm_ext_iff_of_nodup a.nodup b.nodup).2 h
  have hlist : a.toList = b.toList := by
    refine hperm.eq_of_pairwise (fun x y _ _ hxy hyx => ?_) a.increasing b.increasing
    have hself : Ord.compare (Keyed.key x) (Keyed.key x) = .lt := Std.TransCmp.lt_trans hxy hyx
    exact absurd rfl (key_ne_of_lt hself)
  cases a
  cases b
  cases hlist
  rfl

/-- Lists with the same first item of each key give the same set. -/
theorem ofList_congr {items others : List α}
    (h : ∀ item, items.find? (agree item) = others.find? (agree item)) :
    ofList items = ofList others :=
  ext_mem fun item => by rw [mem_ofList_iff, mem_ofList_iff, h item]

/-- Within a list, only equal items have equal keys. -/
def KeysDistinct (items : List α) : Prop :=
  ∀ a ∈ items, ∀ b ∈ items, Keyed.key a = Keyed.key b → a = b

theorem mem_ofList_iff_mem {items : List α} (h : KeysDistinct items) {item : α} :
    item ∈ (ofList items).toList ↔ item ∈ items := by
  rw [mem_ofList_iff]
  constructor
  · exact List.mem_of_find?_eq_some
  · intro hitem
    have hself : agree item item = true := agree_iff.2 rfl
    obtain ⟨found, hfound⟩ : ∃ found, items.find? (agree item) = some found :=
      Option.isSome_iff_exists.1 (List.find?_isSome.2 ⟨item, hitem, hself⟩)
    have hkey := agree_iff.1 (List.find?_some hfound)
    rw [hfound, h item hitem found (List.mem_of_find?_eq_some hfound) hkey]

theorem mem_of_mem_ofList {items : List α} {item : α} (h : item ∈ (ofList items).toList) :
    item ∈ items :=
  List.mem_of_find?_eq_some (mem_ofList_iff.1 h)

@[simp] theorem toList_ofList_nil : (ofList ([] : List α)).toList = [] :=
  List.eq_nil_iff_forall_not_mem.2 fun _ h => List.not_mem_nil (mem_of_mem_ofList h)

/-- Where items with equal keys are equal, a set depends on the members of the list alone. -/
theorem ofList_eq_of_mem_iff {items others : List α} (hitems : KeysDistinct items)
    (h : ∀ item, item ∈ items ↔ item ∈ others) : ofList items = ofList others := by
  have hothers : KeysDistinct others := fun a ha b hb =>
    hitems a ((h a).2 ha) b ((h b).2 hb)
  exact ext_mem fun item => by
    rw [mem_ofList_iff_mem hitems, mem_ofList_iff_mem hothers, h item]

theorem keysDistinct_of_pairwise {items : List α}
    (h : items.Pairwise fun a b => Keyed.key a ≠ Keyed.key b) : KeysDistinct items := by
  refine List.Pairwise.forall_of_forall_of_flip (fun _ _ _ => rfl) ?_ ?_
  · exact h.imp fun hne hkey => absurd hkey hne
  · exact h.imp fun hne hkey => absurd hkey.symm hne

theorem keysDistinct (set : CanonicalSet α) : KeysDistinct set.toList :=
  keysDistinct_of_pairwise (set.increasing.imp key_ne_of_lt)

/-- A canonical set is built again from any list that has its members. -/
theorem ofList_eq_of_mem {set : CanonicalSet α} {items : List α}
    (h : ∀ item, item ∈ items ↔ item ∈ set.toList) : ofList items = set := by
  have hitems : KeysDistinct items := fun a ha b hb =>
    set.keysDistinct a ((h a).1 ha) b ((h b).1 hb)
  exact ext_mem fun item => by rw [mem_ofList_iff_mem hitems, h item]

end ClassStub.CanonicalSet
