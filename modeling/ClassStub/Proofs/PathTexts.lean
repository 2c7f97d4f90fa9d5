import Mathlib.Data.List.Infix
import ClassStub.Files.FileSystem

/-! # The parts of path texts

A path text and its parts determine each other, and what is joined to a path adds one part to it. -/

namespace ClassStub

@[simp] theorem PathText.bytes_append (front rest : PathText) :
    (front ++ rest).bytes = front.bytes ++ rest.bytes :=
  rfl

theorem PathText.append_assoc (front middle rest : PathText) :
    front ++ middle ++ rest = front ++ (middle ++ rest) :=
  PathText.ext (List.append_assoc ..)

theorem PathText.append_empty (path : PathText) : path ++ ("" : PathText) = path :=
  PathText.ext (List.append_nil _)

theorem PathText.eq_empty_iff {path : PathText} : path = "" ↔ path.bytes = [] :=
  PathText.ext_iff

@[simp] theorem PathText.size_append (front rest : PathText) :
    (front ++ rest).size = front.size + rest.size :=
  List.length_append

/-- A name that a file can have. -/
structure IsFileName (name : PathText) : Prop where
  nonempty : name ≠ ""
  notDot : name ≠ "."
  notDots : name ≠ ".."
  noSlash : Path.slash ∉ name.bytes
  noNul : 0 ∉ name.bytes
  size : name.size ≤ FileSystem.maxName

instance (name : PathText) : Decidable (IsFileName name) :=
  decidable_of_iff
    (name ≠ "" ∧ name ≠ "." ∧ name ≠ ".." ∧ Path.slash ∉ name.bytes ∧ 0 ∉ name.bytes
      ∧ name.size ≤ FileSystem.maxName)
    ⟨fun ⟨h, hdot, hdots, hslash, hnul, hsize⟩ => ⟨h, hdot, hdots, hslash, hnul, hsize⟩,
      fun ⟨h, hdot, hdots, hslash, hnul, hsize⟩ => ⟨h, hdot, hdots, hslash, hnul, hsize⟩⟩

namespace Path

/-! ## Parts -/

theorem splitSlashes_ne_nil (text : Bytes) : splitSlashes text ≠ [] := by
  cases text with
  | nil => exact List.cons_ne_nil _ _
  | cons byte text =>
    rw [splitSlashes]
    split
    · exact List.cons_ne_nil _ _
    · split <;> exact List.cons_ne_nil _ _

theorem splitSlashes_append (text rest : Bytes) :
    splitSlashes (text ++ slash :: rest) = splitSlashes text ++ splitSlashes rest := by
  induction text with
  | nil => rfl
  | cons byte text ih =>
    rw [List.cons_append, splitSlashes, splitSlashes, ih]
    by_cases hbyte : byte = slash
    · rw [if_pos hbyte, if_pos hbyte, List.cons_append]
    · rw [if_neg hbyte, if_neg hbyte]
      obtain ⟨part, parts, hparts⟩ := List.exists_cons_of_ne_nil (splitSlashes_ne_nil text)
      rw [hparts]
      rfl

theorem splitSlashes_of_not_mem {text : Bytes} (h : slash ∉ text) :
    splitSlashes text = [text] := by
  induction text with
  | nil => rfl
  | cons byte text ih =>
    obtain ⟨hbyte, htext⟩ := not_or.1 (mt List.mem_cons.2 h)
    rw [splitSlashes, if_neg (Ne.symm hbyte), ih htext]

theorem not_mem_of_mem_splitSlashes {text part : Bytes} (h : part ∈ splitSlashes text) :
    slash ∉ part := by
  induction text generalizing part with
  | nil =>
    rw [List.mem_singleton.1 h]
    exact List.not_mem_nil
  | cons byte text ih =>
    rw [splitSlashes] at h
    by_cases hbyte : byte = slash
    · rw [if_pos hbyte] at h
      rcases List.mem_cons.1 h with rfl | h
      · exact List.not_mem_nil
      · exact ih h
    · rw [if_neg hbyte] at h
      obtain ⟨first, parts, hparts⟩ := List.exists_cons_of_ne_nil (splitSlashes_ne_nil text)
      rw [hparts] at h ih
      rcases List.mem_cons.1 h with rfl | h
      · have hfirst := ih List.mem_cons_self
        exact fun hmem => (List.mem_cons.1 hmem).elim (Ne.symm hbyte) hfirst
      · exact ih (List.mem_cons_of_mem first h)

theorem intercalate_splitSlashes (text : Bytes) :
    [slash].intercalate (splitSlashes text) = text := by
  induction text with
  | nil => rfl
  | cons byte text ih =>
    obtain ⟨first, parts, hparts⟩ := List.exists_cons_of_ne_nil (splitSlashes_ne_nil text)
    rw [splitSlashes]
    rw [hparts] at ih ⊢
    by_cases hbyte : byte = slash
    · rw [if_pos hbyte, hbyte, ← ih]
      rfl
    · rw [if_neg hbyte, ← ih]
      cases parts <;> rfl

variable {path name part : PathText}

theorem parts_ne_nil (path : PathText) : parts path ≠ [] :=
  fun h => splitSlashes_ne_nil _ (List.map_eq_nil_iff.1 h)

theorem parts_slash (path rest : PathText) :
    parts (path ++ ("/" : PathText) ++ rest) = parts path ++ parts rest := by
  unfold parts
  rw [← List.map_append, ← splitSlashes_append, PathText.append_assoc]
  rfl

theorem parts_of_noSlash (h : slash ∉ name.bytes) : parts name = [name] := by
  rw [parts, splitSlashes_of_not_mem h, List.map_singleton]

theorem noSlash_of_mem_parts (h : part ∈ parts path) : slash ∉ part.bytes := by
  obtain ⟨text, htext, rfl⟩ := List.mem_map.1 h
  exact not_mem_of_mem_splitSlashes htext

/-- A path is made of its parts. -/
theorem ofParts_parts (path : PathText) : ofParts (parts path) = path := by
  have hparts : (splitSlashes path.bytes).map (PathText.bytes ∘ PathText.mk) =
      splitSlashes path.bytes :=
    List.map_id'' (fun _ => rfl) _
  rw [ofParts, parts, List.map_map, hparts, intercalate_splitSlashes]

theorem ofParts_singleton (part : PathText) : ofParts [part] = part :=
  PathText.ext (List.append_nil _)

theorem ofParts_append {front rest : List PathText} (hfront : front ≠ []) (hrest : rest ≠ []) :
    ofParts (front ++ rest) = ofParts front ++ ("/" : PathText) ++ ofParts rest := by
  obtain ⟨next, rest, rfl⟩ := List.exists_cons_of_ne_nil hrest
  induction front with
  | nil => exact absurd rfl hfront
  | cons part front ih =>
    cases front with
    | nil =>
      rw [ofParts_singleton, PathText.append_assoc]
      rfl
    | cons other front =>
      have hmore := ih (List.cons_ne_nil _ _)
      have hcons : ∀ more : List PathText, ofParts (part :: other :: more) =
          part ++ (("/" : PathText) ++ ofParts (other :: more)) := fun _ => rfl
      rw [List.cons_append, List.cons_append, hcons, ← List.cons_append, hmore, hcons]
      simp only [PathText.append_assoc]

/-- Rows without slashes are the parts of the path that is made of them. -/
theorem parts_ofParts {row : List PathText} (hrow : row ≠ [])
    (hparts : ∀ part ∈ row, slash ∉ part.bytes) : parts (ofParts row) = row := by
  induction row with
  | nil => exact absurd rfl hrow
  | cons part row ih =>
    obtain ⟨hpart, hparts⟩ := List.forall_mem_cons.1 hparts
    by_cases hrest : row = []
    · rw [hrest, ofParts_singleton, parts_of_noSlash hpart]
    · rw [← List.singleton_append, ofParts_append (List.cons_ne_nil _ _) hrest, parts_slash,
        ofParts_singleton, parts_of_noSlash hpart, ih hrest hparts]

/-- A row has a last part that is not empty, unless all parts are. -/
theorem exists_last (row : List PathText) :
    (∀ part ∈ row, part = "")
      ∨ ∃ (above : List PathText) (part : PathText) (empties : List PathText),
        row = above ++ part :: empties ∧ part ≠ ""
        ∧ ∀ part ∈ empties, part = "" := by
  induction row with
  | nil => exact .inl (List.forall_mem_nil _)
  | cons first row ih =>
    rcases ih with hall | ⟨above, part, empties, rfl, hrest⟩
    · by_cases hfirst : first = ""
      · exact .inl (List.forall_mem_cons.2 ⟨hfirst, hall⟩)
      · exact .inr ⟨[], first, row, rfl, hfirst, hall⟩
    · exact .inr ⟨first :: above, part, empties, rfl, hrest⟩

/-! ## Joined paths -/

theorem not_isAbsolute_of_noSlash (h : slash ∉ name.bytes) : isAbsolute name = false := by
  rw [isAbsolute, beq_eq_false_iff_ne]
  exact fun hhead => h (List.mem_of_head? hhead)

theorem join_of_relative {rest : PathText} (h : isAbsolute rest = false) (path : PathText) :
    join path rest =
      if path = "" ∨ path.bytes.getLast? = some slash then path ++ rest
      else path ++ ("/" : PathText) ++ rest := by
  rw [join, h, if_neg Bool.false_ne_true]

/-- A joined path is that of a row of parts with what is joined as one more part. -/
theorem exists_join_eq {rest : PathText} (hpath : path ≠ "") (hrest : isAbsolute rest = false) :
    ∃ front, join path rest = front ++ ("/" : PathText) ++ rest
      ∧ (path = front ∨ path = front ++ ("/" : PathText)) := by
  rw [join_of_relative hrest]
  by_cases hslash : path.bytes.getLast? = some slash
  · obtain ⟨text, htext⟩ := List.getLast?_eq_some_iff.1 hslash
    have hfront : path = ⟨text⟩ ++ ("/" : PathText) := PathText.ext htext
    rw [if_pos (.inr hslash)]
    exact ⟨⟨text⟩, congrArg (· ++ rest) hfront, .inr hfront⟩
  · rw [if_neg (not_or.2 ⟨hpath, hslash⟩)]
    exact ⟨path, rfl, .inl rfl⟩

theorem isAbsolute_append (hpath : path ≠ "") (rest : PathText) :
    isAbsolute (path ++ rest) = isAbsolute path := by
  have hne : path.bytes ≠ [] := mt PathText.eq_empty_iff.2 hpath
  rw [isAbsolute, PathText.bytes_append, List.head?_append_of_ne_nil _ hne]
  rfl

theorem isAbsolute_join {rest : PathText} (hpath : path ≠ "") (hrest : isAbsolute rest = false) :
    isAbsolute (join path rest) = isAbsolute path := by
  rw [join_of_relative hrest]
  split
  · exact isAbsolute_append hpath rest
  · rw [PathText.append_assoc]
    exact isAbsolute_append hpath _

theorem parts_append_slash (path : PathText) :
    parts (path ++ ("/" : PathText)) = parts path ++ [("" : PathText)] := by
  have h := parts_slash path ""
  rwa [PathText.append_empty] at h

/-- The parts of a joined path. An empty last part is left out. -/
theorem exists_parts_join (hpath : path ≠ "") (hname : slash ∉ name.bytes) :
    ∃ front, front ≠ [] ∧ parts (join path name) = front ++ [name]
      ∧ (parts path = front ∨ parts path = front ++ [("" : PathText)]) := by
  obtain ⟨front, hjoin, hfront⟩ := exists_join_eq hpath (not_isAbsolute_of_noSlash hname)
  refine ⟨parts front, parts_ne_nil front, ?_, ?_⟩
  · rw [hjoin, parts_slash, parts_of_noSlash hname]
  · rcases hfront with rfl | rfl
    · exact .inl rfl
    · exact .inr (parts_append_slash front)

/-- The path of a row of names under `path`, which are joined to it one by one. -/
def descend (path : PathText) (names : List PathText) : PathText :=
  names.foldl join path

theorem descend_concat (names : List PathText) :
    descend path (names ++ [name]) = join (descend path names) name := by
  rw [descend, List.foldl_append]
  rfl

theorem size_add_le_join (path name : PathText) (hname : isAbsolute name = false) :
    path.size + name.size ≤ (join path name).size := by
  rw [join_of_relative hname]
  split
  · rw [PathText.size_append]
  · rw [PathText.size_append, PathText.size_append]
    omega

theorem IsFileName.isAbsolute (h : IsFileName name) : isAbsolute name = false :=
  not_isAbsolute_of_noSlash h.noSlash

theorem size_le_join (path : PathText) (hname : IsFileName name) :
    path.size ≤ (join path name).size :=
  Nat.le_of_add_right_le (size_add_le_join path name (IsFileName.isAbsolute hname))

/-- Every name on the way makes a path longer. -/
theorem length_le_descend {names : List PathText} (hnames : ∀ name ∈ names, IsFileName name) :
    names.length ≤ (descend path names).size := by
  induction names using List.reverseRecOn with
  | nil => exact Nat.zero_le _
  | append_singleton names name ih =>
    obtain ⟨hnames, hname⟩ := List.forall_mem_append.1 hnames
    have hname := List.forall_mem_singleton.1 hname
    have hfront := ih hnames
    have hjoin := size_add_le_join (descend path names) name (IsFileName.isAbsolute hname)
    have hpos : name.size ≠ 0 := fun hzero =>
      hname.nonempty (PathText.eq_empty_iff.2 (List.length_eq_zero_iff.1 hzero))
    rw [descend_concat, List.length_append, List.length_singleton]
    omega

theorem join_ne_empty (hname : name ≠ "") : join path name ≠ "" := by
  have hbytes : name.bytes ≠ [] := mt PathText.eq_empty_iff.2 hname
  unfold join
  rw [ne_eq, PathText.eq_empty_iff]
  split
  · exact hbytes
  · split <;> simp [hbytes]

/-- What is joined to a path that ends in a name stands behind a slash. -/
theorem join_join {rest : PathText} (hname : IsFileName name) (hrest : isAbsolute rest = false) :
    join (join path name) rest = join path name ++ ("/" : PathText) ++ rest := by
  have hlast : (join path name).bytes.getLast? ≠ some slash := by
    have hne : name.bytes ≠ [] := mt PathText.eq_empty_iff.2 hname.nonempty
    have hsame : (join path name).bytes.getLast? = name.bytes.getLast? := by
      rw [join_of_relative (IsFileName.isAbsolute hname)]
      split <;> rw [PathText.bytes_append, List.getLast?_append_of_ne_nil _ hne]
    rw [hsame]
    exact fun h => hname.noSlash (List.mem_of_getLast? h)
  rw [join_of_relative hrest, if_neg (not_or.2 ⟨join_ne_empty hname.nonempty, hlast⟩)]

theorem join_append {first : PathText} (hfirst : first ≠ "") (h : isAbsolute first = false)
    (path rest : PathText) : join path (first ++ rest) = join path first ++ rest := by
  rw [join_of_relative h, join_of_relative (isAbsolute_append hfirst rest ▸ h)]
  split <;> simp only [PathText.append_assoc]

theorem ofParts_ne_empty {names : List PathText} (hne : names ≠ [])
    (hnames : ∀ name ∈ names, IsFileName name) : ofParts names ≠ "" := by
  intro hempty
  have hparts := parts_ofParts hne fun name hname => (hnames name hname).noSlash
  rw [hempty] at hparts
  exact (hnames "" (hparts ▸ List.mem_singleton_self _)).nonempty rfl

theorem isAbsolute_ofParts {names : List PathText} (hnames : ∀ name ∈ names, IsFileName name) :
    isAbsolute (ofParts names) = false := by
  cases names with
  | nil => rfl
  | cons name names =>
    have hname := hnames name List.mem_cons_self
    by_cases hrest : names = []
    · rw [hrest, ofParts_singleton]
      exact IsFileName.isAbsolute hname
    · rw [← List.singleton_append, ofParts_append (List.cons_ne_nil _ _) hrest, ofParts_singleton,
        PathText.append_assoc, isAbsolute_append hname.nonempty]
      exact IsFileName.isAbsolute hname

/-- Names are joined to a path one by one or all at once. -/
theorem join_ofParts {names : List PathText} (hne : names ≠ [])
    (hnames : ∀ name ∈ names, IsFileName name) :
    join path (ofParts names) = descend path names := by
  induction names using List.reverseRecOn with
  | nil => exact absurd rfl hne
  | append_singleton names name ih =>
    obtain ⟨hfront, hname⟩ := List.forall_mem_append.1 hnames
    have hname := List.forall_mem_singleton.1 hname
    rw [descend_concat]
    cases names using List.reverseRecOn with
    | nil =>
      rw [List.nil_append, ofParts_singleton]
      rfl
    | append_singleton front last =>
      have hlast := hfront last List.mem_concat_self
      have hne : front ++ [last] ≠ [] := List.concat_ne_nil _ _
      rw [ofParts_append hne (List.cons_ne_nil _ _), ofParts_singleton, PathText.append_assoc,
        join_append (ofParts_ne_empty hne hfront) (isAbsolute_ofParts hfront), ih hne hfront,
        descend_concat, join_join hlast (IsFileName.isAbsolute hname), PathText.append_assoc]

/-! ## Directories above -/

theorem ofReversedParts_parts (hpath : path ≠ "") :
    ofReversedParts (parts path).reverse = path := by
  have hroot : (parts path).reverse ≠ [("" : PathText)] := by
    intro h
    apply hpath
    rw [← ofParts_parts path, ← List.reverse_reverse (parts path), h]
    rfl
  rw [ofReversedParts, if_neg hroot, List.reverse_reverse, ofParts_parts]

theorem IsFileName.isIdle (h : IsFileName name) : isIdle name = false := by
  simp [Path.isIdle, h.nonempty, h.notDot]

/-- The directories above a name under a path are those that the path leads through. -/
theorem ancestors_join (hpath : path ≠ ("" : PathText)) (hname : IsFileName name) :
    ancestors (join path name) = (parts (join path name)).reverse :: ancestors path := by
  obtain ⟨front, hfront, hparts, hcases⟩ := exists_parts_join hpath hname.noSlash
  have habove : ancestors path = ancestorsFrom front.reverse := by
    rw [ancestors, if_neg hpath]
    rcases hcases with hcases | hcases
    · rw [hcases]
    · have hne : front.reverse ≠ [] := mt List.reverse_eq_nil_iff.1 hfront
      rw [hcases, List.reverse_append, List.reverse_singleton, List.singleton_append, ancestorsFrom,
        if_pos ⟨rfl, hne⟩]
  rw [ancestors, if_neg (join_ne_empty hname.nonempty), hparts, List.reverse_append,
    List.reverse_singleton, List.singleton_append, ancestorsFrom, if_neg, habove]
  exact fun h => Bool.false_ne_true (IsFileName.isIdle hname ▸ h.1)

/-- A path with a name joined to it stands before the directories of the path. -/
theorem exists_ancestors_join (hpath : path ≠ ("" : PathText)) (hname : IsFileName name) :
    ∃ row, ancestors (join path name) = row :: ancestors path
      ∧ ofReversedParts row = join path name :=
  ⟨_, ancestors_join hpath hname, ofReversedParts_parts (join_ne_empty hname.nonempty)⟩

/-- The nearest of the directories that a path leads through is that of the path without idle parts
at its end. -/
theorem exists_ancestors (hpath : path ≠ ("" : PathText)) :
    ∃ row idle above, ancestors path = row :: above ∧ parts path = row.reverse ++ idle
      ∧ row ≠ [] ∧ ∀ part ∈ idle, isIdle part := by
  have hrow : ∀ row : List PathText, row ≠ [] → ∃ nearest idle above,
      ancestorsFrom row = nearest :: above ∧ row.reverse = nearest.reverse ++ idle
        ∧ nearest ≠ [] ∧ ∀ part ∈ idle, isIdle part := by
    intro row hne
    induction row with
    | nil => exact absurd rfl hne
    | cons part row ih =>
      rw [ancestorsFrom]
      by_cases hidle : isIdle part ∧ row ≠ []
      · obtain ⟨nearest, idle, above, hancestors, hrow, hnearest, hall⟩ := ih hidle.2
        rw [if_pos hidle]
        refine ⟨nearest, idle ++ [part], above, hancestors, ?_, hnearest, ?_⟩
        · rw [List.reverse_cons, hrow, List.append_assoc]
        · exact List.forall_mem_append.2 ⟨hall, List.forall_mem_singleton.2 hidle.1⟩
      · rw [if_neg hidle]
        exact ⟨part :: row, [], _, rfl, (List.append_nil _).symm, List.cons_ne_nil _ _,
          List.forall_mem_nil _⟩
  obtain ⟨nearest, idle, above, hancestors, hparts, hnearest, hall⟩ :=
    hrow (parts path).reverse (mt List.reverse_eq_nil_iff.1 (parts_ne_nil path))
  rw [List.reverse_reverse] at hparts
  exact ⟨nearest, idle, above, by rw [ancestors, if_neg hpath, hancestors], hparts, hnearest, hall⟩

/-- The path of a row of parts is the beginning of any path that has these parts first. -/
theorem exists_ofReversedParts {row rest : List PathText} (hpath : path ≠ "") (hrow : row ≠ [])
    (hparts : parts path = row.reverse ++ rest) :
    ofReversedParts row ≠ "" ∧ (∃ tail, path = ofReversedParts row ++ tail)
      ∧ (parts (ofReversedParts row) = row.reverse
        ∨ parts (ofReversedParts row) = row.reverse ++ [("" : PathText)]) := by
  have hne : row.reverse ≠ [] := mt List.reverse_eq_nil_iff.1 hrow
  have hspelled := ofParts_parts path
  rw [hparts] at hspelled
  unfold ofReversedParts
  by_cases hroot : row = [("" : PathText)]
  · subst hroot
    rw [if_pos rfl]
    refine ⟨by decide, ?_, .inr (by decide)⟩
    by_cases hrest : rest = []
    · rw [hrest] at hspelled
      exact absurd hspelled.symm hpath
    · rw [ofParts_append hne hrest] at hspelled
      exact ⟨ofParts rest, hspelled.symm⟩
  · have hslashes : ∀ part ∈ row.reverse, slash ∉ part.bytes := fun part hpart =>
      noSlash_of_mem_parts (hparts ▸ List.mem_append_left rest hpart)
    have hsame := parts_ofParts hne hslashes
    rw [if_neg hroot]
    refine ⟨?_, ?_, .inl hsame⟩
    · intro hempty
      rw [hempty] at hsame
      apply hroot
      rw [← List.reverse_reverse row, ← hsame]
      decide
    · by_cases hrest : rest = []
      · rw [hrest, List.append_nil] at hspelled
        exact ⟨"", by rw [PathText.append_empty, hspelled]⟩
      · rw [ofParts_append hne hrest, PathText.append_assoc] at hspelled
        exact ⟨_, hspelled.symm⟩

/-! ## Components -/

/-- A name that is joined to a path is one more component. -/
theorem components_join (hpath : path ≠ "") (hname : IsFileName name) :
    components (join path name) = components path ++ [name] := by
  obtain ⟨front, hfront, hjoin, hparts⟩ := exists_parts_join hpath hname.noSlash
  obtain ⟨first, front, rfl⟩ := List.exists_cons_of_ne_nil hfront
  have hrest : (front ++ [name]).filter (fun part => !isIdle part) =
      front.filter (fun part => !isIdle part) ++ [name] := by
    rw [List.filter_append, List.filter_singleton, IsFileName.isIdle hname]
    rfl
  have hslash : (front ++ [("" : PathText)]).filter (fun part => !isIdle part) =
      front.filter fun part => !isIdle part := by
    rw [List.filter_append]
    exact List.append_nil _
  have hsame : components path =
      if first = "" then front.filter (fun part => !isIdle part)
      else first :: front.filter fun part => !isIdle part := by
    unfold components
    rcases hparts with hparts | hparts
    · rw [hparts]
    · rw [hparts, List.cons_append]
      dsimp only
      rw [hslash]
  rw [hsame, components, hjoin, List.cons_append]
  dsimp only
  rw [hrest]
  split <;> rfl

theorem descend_ne_empty {names : List PathText} (hpath : path ≠ "")
    (hnames : ∀ name ∈ names, IsFileName name) : descend path names ≠ "" := by
  cases names using List.reverseRecOn with
  | nil => exact hpath
  | append_singleton names name =>
    rw [descend_concat]
    exact join_ne_empty (hnames name List.mem_concat_self).nonempty

theorem components_descend {names : List PathText} (hpath : path ≠ "")
    (hnames : ∀ name ∈ names, IsFileName name) :
    components (descend path names) = components path ++ names := by
  induction names using List.reverseRecOn with
  | nil => exact (List.append_nil _).symm
  | append_singleton names name ih =>
    obtain ⟨hfront, hname⟩ := List.forall_mem_append.1 hnames
    have hname := List.forall_mem_singleton.1 hname
    rw [descend_concat, components_join (descend_ne_empty hpath hfront) hname, ih hfront,
      List.append_assoc]

theorem isAbsolute_descend {names : List PathText} (hpath : path ≠ "")
    (hnames : ∀ name ∈ names, IsFileName name) :
    isAbsolute (descend path names) = isAbsolute path := by
  induction names using List.reverseRecOn with
  | nil => rfl
  | append_singleton names name ih =>
    obtain ⟨hfront, hname⟩ := List.forall_mem_append.1 hnames
    have hname := IsFileName.isAbsolute (List.forall_mem_singleton.1 hname)
    rw [descend_concat, isAbsolute_join (descend_ne_empty hpath hfront) hname, ih hfront]

/-- Behind a path stands the row of names that was joined to it. -/
theorem stripPrefix?_descend {names : List PathText} (hpath : path ≠ "")
    (hnames : ∀ name ∈ names, IsFileName name) :
    stripPrefix? (descend path names) path = some (ofParts names) := by
  rw [stripPrefix?, components_descend hpath hnames, isAbsolute_descend hpath hnames,
    if_pos ⟨rfl, List.prefix_append _ _⟩, List.drop_left]

/-! ## Extensions -/

/-- A name has the extension that every path has at whose end it stands. -/
theorem fileExtension?_join (hpath : path ≠ "") (hname : IsFileName name) :
    fileExtension? (join path name) = extension? name := by
  rw [fileExtension?, components_join hpath hname, List.getLast?_concat]
  rfl

end Path

end ClassStub
