import Std.Data.HashMap

/-! # Canonical order

Every kind of item that a stub lists has a canonical key, and items are compared by their keys
alone. A `CanonicalSet` lists items in strictly increasing order of their keys. `ofList` builds
one from items in any order: of the items that share a key, the first is kept. -/

namespace ClassStub

/-- Items with a canonical key, which has a total order. -/
class Keyed (α : Type) where
  Key : Type
  key : α → Key
  [ord : Ord Key]
  [trans : Std.TransOrd Key]
  [lawful : Std.LawfulEqOrd Key]

namespace Keyed

variable {α : Type} [Keyed α]

instance : Ord (Key α) := ord
instance : Std.TransOrd (Key α) := trans
instance : Std.LawfulEqOrd (Key α) := lawful

/-- The order of two items is that of their keys. -/
def compare (a b : α) : Ordering :=
  Ord.compare (key a) (key b)

end Keyed

/-- Items in strictly increasing order of their keys. -/
structure CanonicalSet (α : Type) [Keyed α] where
  toList : List α
  increasing : toList.Pairwise fun a b => Keyed.compare a b = .lt

namespace CanonicalSet

variable {α : Type} {κ : Type} [Ord κ]

/-- Whether one item may stand before another. -/
def inOrder (a b : κ × α) : Bool :=
  (Ord.compare a.1 b.1).isLE

/-- Put an item before sorted ones; it replaces the first of them if that has the same key. -/
def consFirst (item : κ × α) (rest : List (κ × α)) : List (κ × α) :=
  match rest with
  | next :: more => if Ord.compare item.1 next.1 = .eq then item :: more else item :: rest
  | [] => [item]

/-- The items with their keys, sorted, with the first item of each key. -/
def sortFirst (items : List (κ × α)) : List (κ × α) :=
  (items.mergeSort inOrder).foldr consFirst []

theorem mem_of_mem_consFirst {item x : κ × α} {rest : List (κ × α)}
    (h : x ∈ consFirst item rest) : x = item ∨ x ∈ rest := by
  unfold consFirst at h
  split at h
  · split at h
    · rcases List.mem_cons.1 h with rfl | h
      · exact .inl rfl
      · exact .inr (List.mem_cons_of_mem _ h)
    · exact List.mem_cons.1 h
  · exact .inl (List.mem_singleton.1 h)

theorem mem_of_mem_foldr_consFirst {items : List (κ × α)} {x : κ × α}
    (h : x ∈ items.foldr consFirst []) : x ∈ items := by
  induction items with
  | nil => simp at h
  | cons item items ih =>
    rw [List.foldr_cons] at h
    rcases mem_of_mem_consFirst h with rfl | h
    · exact List.mem_cons_self
    · exact List.mem_cons_of_mem _ (ih h)

theorem mem_of_mem_sortFirst {items : List (κ × α)} {x : κ × α}
    (h : x ∈ sortFirst items) : x ∈ items :=
  (List.mergeSort_perm items inOrder).mem_iff.1 (mem_of_mem_foldr_consFirst h)

/-- Sorted items, each key once, are strictly increasing. -/
theorem pairwise_foldr_consFirst [Std.TransOrd κ] {items : List (κ × α)}
    (h : items.Pairwise fun a b => inOrder a b = true) :
    (items.foldr consFirst []).Pairwise fun a b => Ord.compare a.1 b.1 = .lt := by
  induction items with
  | nil => exact List.Pairwise.nil
  | cons item items ih =>
    obtain ⟨hitem, hitems⟩ := List.pairwise_cons.1 h
    have hrest := ih hitems
    have hle : ∀ x ∈ items.foldr consFirst [], (Ord.compare item.1 x.1).isLE = true :=
      fun x hx => hitem x (mem_of_mem_foldr_consFirst hx)
    rw [List.foldr_cons]
    revert hrest hle
    generalize items.foldr consFirst [] = rest
    intro hrest hle
    unfold consFirst
    split
    · rename_i next more
      obtain ⟨hnext, hmore⟩ := List.pairwise_cons.1 hrest
      split
      · rename_i heq
        exact List.pairwise_cons.2
          ⟨fun x hx => Std.TransCmp.lt_of_eq_of_lt heq (hnext x hx), hmore⟩
      · rename_i hne
        have hlt : Ord.compare item.1 next.1 = .lt := by
          have := hle next List.mem_cons_self
          revert this hne
          cases Ord.compare item.1 next.1 <;> simp
        refine List.pairwise_cons.2 ⟨?_, hrest⟩
        intro x hx
        rcases List.mem_cons.1 hx with rfl | hx
        · exact hlt
        · exact Std.TransCmp.lt_trans hlt (hnext x hx)
    · exact List.pairwise_singleton _ _

theorem pairwise_sortFirst [Std.TransOrd κ] (items : List (κ × α)) :
    (sortFirst items).Pairwise fun a b => Ord.compare a.1 b.1 = .lt := by
  apply pairwise_foldr_consFirst
  apply List.pairwise_mergeSort
  · intro a b c hab hbc
    exact Std.TransCmp.isLE_trans hab hbc
  · intro a b
    unfold inOrder
    have hswap : Ord.compare b.1 a.1 = (Ord.compare a.1 b.1).swap := Std.OrientedCmp.eq_swap
    rw [hswap]
    cases Ord.compare a.1 b.1 <;> rfl

variable [Keyed α]

/-- An item together with its key. -/
def withKey (item : α) : Keyed.Key α × α :=
  (Keyed.key item, item)

theorem eq_withKey_of_mem_sortFirst {items : List α} {x : Keyed.Key α × α}
    (h : x ∈ sortFirst (items.map withKey)) : x = withKey x.2 := by
  obtain ⟨item, -, rfl⟩ := List.mem_map.1 (mem_of_mem_sortFirst h)
  rfl

/-- The set that keeps, of the items that share a key, the first. -/
def ofList (items : List α) : CanonicalSet α where
  toList := (sortFirst (items.map withKey)).map Prod.snd
  increasing := by
    refine List.pairwise_map.2 ?_
    refine (pairwise_sortFirst (items.map withKey)).imp_of_mem ?_
    intro a b ha hb hab
    have ha := congrArg Prod.fst (eq_withKey_of_mem_sortFirst ha)
    have hb := congrArg Prod.fst (eq_withKey_of_mem_sortFirst hb)
    rw [ha, hb] at hab
    exact hab

/-- The set without items. -/
def empty : CanonicalSet α :=
  ⟨[], List.Pairwise.nil⟩

instance : Inhabited (CanonicalSet α) := ⟨empty⟩

/-- How many items a set has. -/
def size (set : CanonicalSet α) : Nat :=
  set.toList.length

/-- Whether a set has no items. -/
def isEmpty (set : CanonicalSet α) : Bool :=
  set.toList.isEmpty

/-- Whether a set has an item with the key of `item`. -/
def contains (set : CanonicalSet α) (item : α) : Bool :=
  set.toList.any fun other => Keyed.compare item other = .eq

/-- Add `item`, unless the set already has an item with its key. -/
def insert (set : CanonicalSet α) (item : α) : CanonicalSet α :=
  ofList (set.toList ++ [item])

/-- Whether two sets have the same keys. -/
def sameKeys (a b : CanonicalSet α) : Bool :=
  a.size == b.size && (a.toList.zip b.toList).all fun (x, y) => Keyed.compare x y = .eq

end CanonicalSet

end ClassStub
