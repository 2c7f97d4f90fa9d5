import ClassStub.Proofs.EventLimits
import ClassStub.Proofs.Recognition

/-! # What attributes say is within limits

A statement that was decoded holds names and texts that the pool holds, and as much as one attribute
can hold: what is made of it can be written to a single attribute again. -/

namespace ClassStub

open Decoder (Yields)
open Statement (resolve)

/-! ## Lists that fit into one attribute -/

/-- Items that can be counted in 16 bits, in a written form that is no longer than the body of an
attribute can be. -/
structure ListFits {α : Type} (property : α → Prop) (size : α → Nat) (items : List α) : Prop where
  count : items.length ≤ 65535
  each : ∀ item ∈ items, property item
  size : listSize size items < 2 ^ 32

namespace ListFits

variable {α : Type} {property : α → Prop} {size : α → Nat} {items others : List α}

theorem nil : ListFits property size [] where
  count := Nat.zero_le _
  each := nofun
  size := (by decide : 2 < 2 ^ 32)

theorem sublist (h : ListFits property size others) (hsub : List.Sublist items others) :
    ListFits property size items where
  count := Nat.le_trans hsub.length_le h.count
  each item hitem := h.each item (hsub.subset hitem)
  size := by
    have hsum := (hsub.map size).sum_le_sum fun _ _ => Nat.zero_le _
    exact Nat.lt_of_le_of_lt (Nat.add_le_add_left hsum 2) h.size

/-- Items that all occur in a list that fits, each of them once, fit. -/
theorem subset (h : ListFits property size others) (hnodup : items.Nodup) (hsub : items ⊆ others) :
    ListFits property size items where
  count := Nat.le_trans (List.subperm_of_subset hnodup hsub).length_le h.count
  each item hitem := h.each item (hsub hitem)
  size := Nat.lt_of_le_of_lt (Nat.add_le_add_left (sum_size_le hnodup hsub) 2) h.size

end ListFits

/-! ## Names and texts -/

namespace Pool.Holds

variable {texts : JavaText → Prop} {pool : Pool} {index : UInt16}

theorem name (hpool : pool.Holds texts) {name : String} (h : pool.getName index = .ok name) :
    NameWithin texts name :=
  hpool _ _ (Pool.getName_ok.1 h)

theorem className (hpool : pool.Holds texts) {name : String}
    (h : pool.getClassName index = .ok name) : NameWithin texts name := by
  obtain ⟨_, -, hname⟩ := Pool.getClassName_ok.1 h
  exact hpool.name hname

theorem optionalName (hpool : pool.Holds texts) {name : Option String}
    (h : pool.getOptionalName index = .ok name) : ∀ found ∈ name, NameWithin texts found := by
  unfold Pool.getOptionalName at h
  by_cases hindex : index = 0
  · rw [if_pos hindex] at h
    cases h
    exact nofun
  · rw [if_neg hindex] at h
    obtain ⟨value, hvalue, rfl⟩ := map_eq_ok.1 h
    rintro _ ⟨⟩
    exact hpool.name hvalue

theorem optionalClassName (hpool : pool.Holds texts) {name : Option String}
    (h : pool.getOptionalClassName index = .ok name) : ∀ found ∈ name, NameWithin texts found := by
  unfold Pool.getOptionalClassName at h
  by_cases hindex : index = 0
  · rw [if_pos hindex] at h
    cases h
    exact nofun
  · rw [if_neg hindex] at h
    obtain ⟨value, hvalue, rfl⟩ := map_eq_ok.1 h
    rintro _ ⟨⟩
    exact hpool.className hvalue

theorem constantValue (hpool : pool.Holds texts) {value : ConstantValue}
    (h : Statement.findConstantValue pool index = .ok value) : value.Within texts := by
  obtain ⟨constant, -, h⟩ := bind_eq_ok.1 h
  intro text htext
  split at h
  case h_5 =>
    obtain ⟨found, hfound, h⟩ := bind_eq_ok.1 h
    cases h
    cases htext
    exact hpool _ _ (Pool.getText_ok.1 hfound)
  all_goals cases h <;> cases htext

end Pool.Holds

namespace Statement

variable {texts : JavaText → Prop} {pool : Pool} {place : AttributePlace} {body : Bytes}
  {kind : AttributeKind} {statement : Statement}

/-- What a statement says can be written to one attribute. -/
def Within (texts : JavaText → Prop) : Statement → Prop
  | .signature value => NameWithin texts value
  | .annotations items =>
    ListFits (fun item => item.Within (.counted texts)) Annotation.writtenSize items
  | .typeAnnotations items =>
    ListFits (fun item => item.Within (.counted texts)) TypeAnnotation.writtenSize items
  | .enclosing link => link.Within texts
  | .nested links => ListFits (fun link => link.Within texts) (fun _ => 8) links
  | .constantValue value => value.Within texts
  | .exceptions names => ListFits (NameWithin texts) (fun _ => 2) names
  | .visibleParameters table => table.Within (.counted texts) true ∧ table.writtenSize < 2 ^ 32
  | .invisibleParameters table => table.Within (.counted texts) false ∧ table.writtenSize < 2 ^ 32
  | .defaultValue value => value.Within (.counted texts) ∧ value.writtenSize < 2 ^ 32
  | .deprecated | .synthetic | .skipped => True

/-! ## Bodies -/

theorem fits_of_decodeCounted {α : Type} {item : Decoder α} {property : α → Prop} {size : α → Nat}
    {items : List α} (hitem : Yields item (Sized property size)) (hbody : body.length < 2 ^ 32)
    (h : (Decoder.counted item).decode body = .ok items) : ListFits property size items := by
  obtain ⟨taken, rest, rfl, hcount, hitems, hsize⟩ := (yields_counted_sized hitem).decode h
  rw [List.length_append] at hbody
  exact ⟨hcount, hitems, by omega⟩

section Bodies

variable (hpool : pool.Holds texts)

include hpool

theorem within_of_decodeEnclosing {link : EnclosingLink}
    (h : (decodeEnclosing pool).decode body = .ok link) : link.Within texts := by
  have hyields : Yields (decodeEnclosing pool) fun link _ => link.Within texts := by
    refine (ElementValue.yields_decodeIndexed _).bind fun owner _ howner => ?_
    obtain ⟨⟨_, howner⟩, -⟩ := howner
    refine Decoder.yields_u2.bind fun method _ _ => ?_
    by_cases hmethod : method = 0
    · rw [if_pos hmethod]
      exact Decoder.yields_pure ⟨hpool.className howner, nofun, nofun, rfl⟩
    · rw [if_neg hmethod]
      refine (Decoder.yields_lookup _).map fun pair _ hpair => ?_
      obtain ⟨_, _, -, hname, hdescriptor⟩ := Pool.getNameAndType_ok.1 hpair.1
      refine ⟨hpool.className howner, ?_, ?_, rfl⟩
      · rintro _ ⟨⟩
        exact hpool.name hname
      · rintro _ ⟨⟩
        exact hpool.name hdescriptor
  obtain ⟨_, _, _, hlink⟩ := hyields.decode h
  exact hlink

variable (hbody : body.length < 2 ^ 32)

include hbody

theorem within_of_decodeNested {links : List NestedLink}
    (h : (Decoder.counted (decodeNested pool)).decode body = .ok links) :
    (Statement.nested links).Within texts := by
  refine fits_of_decodeCounted ?_ hbody h
  refine (ElementValue.yields_decodeIndexed _).bind fun name takenName hname => ?_
  refine (ElementValue.yields_decodeIndexed _).bind fun outer takenOuter houter => ?_
  refine (ElementValue.yields_decodeIndexed _).bind fun simple takenSimple hsimple => ?_
  refine Decoder.yields_u2.map fun access takenAccess haccess => ?_
  obtain ⟨⟨_, hname⟩, hlengthName⟩ := hname
  obtain ⟨⟨_, houter⟩, hlengthOuter⟩ := houter
  obtain ⟨⟨_, hsimple⟩, hlengthSimple⟩ := hsimple
  refine ⟨⟨hpool.className hname, hpool.optionalClassName houter, hpool.optionalName hsimple⟩, ?_⟩
  simp only [List.length_append]
  omega

theorem within_of_decodeExceptions {names : List String}
    (h : (Decoder.counted (ElementValue.decodeIndexed pool.getClassName)).decode body = .ok names) :
    (Statement.exceptions names).Within texts := by
  refine fits_of_decodeCounted ?_ hbody h
  exact (ElementValue.yields_decodeIndexed _).mono fun _ _ ⟨⟨_, hname⟩, hlength⟩ =>
    ⟨hpool.className hname, Nat.le_of_eq hlength.symm⟩

theorem within_of_decodeShared (h : decodeShared pool body kind = .ok statement) :
    statement.Within texts := by
  have hannotations : ∀ visible, Statement.annotations <$> Annotation.decodeBody pool visible body =
      .ok statement → statement.Within texts := by
    intro visible h
    obtain ⟨items, hitems, rfl⟩ := map_eq_ok.1 h
    obtain ⟨hcount, hlisted, hsize⟩ := Annotation.listed_of_decodeBody hpool hitems
    exact ⟨hcount, fun item hitem => (hlisted item hitem).2, Nat.lt_of_le_of_lt hsize hbody⟩
  have htypes : ∀ visible, Statement.typeAnnotations <$>
      TypeAnnotation.decodeBody pool visible body = .ok statement → statement.Within texts := by
    intro visible h
    obtain ⟨items, hitems, rfl⟩ := map_eq_ok.1 h
    obtain ⟨hcount, hlisted, hsize⟩ := TypeAnnotation.listed_of_decodeBody hpool hitems
    exact ⟨hcount, fun item hitem => (hlisted item hitem).2, Nat.lt_of_le_of_lt hsize hbody⟩
  cases kind
  case signature =>
    obtain ⟨_, _, h⟩ := bind_eq_ok.1 h
    obtain ⟨_, hname, h⟩ := bind_eq_ok.1 h
    cases h
    exact hpool.name (mapError_eq_ok.1 hname)
  case visibleAnnotations => exact hannotations true h
  case invisibleAnnotations => exact hannotations false h
  case visibleTypeAnnotations => exact htypes true h
  case invisibleTypeAnnotations => exact htypes false h
  all_goals
    cases h
    trivial

theorem within_of_decodeKind (h : decodeKind pool body place kind = .ok statement) :
    statement.Within texts := by
  unfold decodeKind at h
  split at h
  · obtain ⟨link, hlink, rfl⟩ := map_eq_ok.1 h
    exact within_of_decodeEnclosing hpool hlink
  · obtain ⟨links, hlinks, rfl⟩ := map_eq_ok.1 h
    exact within_of_decodeNested hpool hbody hlinks
  · obtain ⟨_, _, h⟩ := bind_eq_ok.1 h
    obtain ⟨_, hvalue, h⟩ := bind_eq_ok.1 h
    cases h
    exact hpool.constantValue (mapError_eq_ok.1 hvalue)
  · obtain ⟨names, hnames, rfl⟩ := map_eq_ok.1 h
    exact within_of_decodeExceptions hpool hbody hnames
  · obtain ⟨table, htable, rfl⟩ := map_eq_ok.1 h
    obtain ⟨hwithin, hsize⟩ := ParameterTable.within_of_decodeBody hpool htable
    exact ⟨hwithin, Nat.lt_of_le_of_lt hsize hbody⟩
  · obtain ⟨table, htable, rfl⟩ := map_eq_ok.1 h
    obtain ⟨hwithin, hsize⟩ := ParameterTable.within_of_decodeBody hpool htable
    exact ⟨hwithin, Nat.lt_of_le_of_lt hsize hbody⟩
  · obtain ⟨value, hvalue, rfl⟩ := map_eq_ok.1 h
    obtain ⟨hwithin, hsize⟩ := ElementValue.within_of_decodeBody hpool hvalue
    exact ⟨hwithin, Nat.lt_of_le_of_lt hsize hbody⟩
  · exact within_of_decodeShared hpool hbody h

end Bodies

/-- What one attribute says can be written to one attribute. -/
theorem within_of_decode (hpool : pool.Holds texts) {item : Attribute}
    (hbody : item.body.length < 2 ^ 32) (h : decode pool place item = .ok statement) :
    statement.Within texts := by
  obtain ⟨name, _, h⟩ := bind_eq_ok.1 h
  split at h
  · exact within_of_decodeKind hpool hbody h
  · cases h
    trivial

end Statement

end ClassStub
