import Mathlib.Data.List.Perm.Basic
import ClassStub.Proofs.PathTexts

/-! # Trees of files

What is found at the places of a tree of files, and which files there are in it, before and after
something is put at a place. -/

namespace ClassStub

namespace Entry

/-- A tree of files: the names in a directory are names of files, and no two of them are the
same. -/
inductive IsTree : Entry → Prop where
  | file (content : Bytes) : IsTree (file content)
  | directory {entries : List (PathText × Entry)} (hdistinct : (entries.map Prod.fst).Nodup)
      (hnames : ∀ item ∈ entries, IsFileName item.1) (htrees : ∀ item ∈ entries, item.2.IsTree) :
      IsTree (directory entries)
  | special : IsTree special

/-- The kind of what is at a place. -/
def kindAt? (entry : Entry) (place : Place) : Option FileKind :=
  (entry.at? place).map kind

variable {entry new : Entry} {entries : List (PathText × Entry)} {name : PathText}
  {place other : Place}

@[simp] theorem at?_nil : entry.at? [] = some entry := rfl

theorem kindAt?_of_at? {found : Entry} (h : entry.at? place = some found) :
    entry.kindAt? place = some found.kind :=
  congrArg (Option.map kind) h

theorem at?_cons : entry.at? (name :: place) = (entry.child? name).bind (·.at? place) := by
  rw [at?]
  cases entry.child? name <;> rfl

theorem at?_append (place other : Place) :
    entry.at? (place ++ other) = (entry.at? place).bind (·.at? other) := by
  induction place generalizing entry with
  | nil => rfl
  | cons name place ih =>
    rw [List.cons_append, at?_cons, at?_cons]
    cases entry.child? name with
    | none => rfl
    | some child => exact ih

theorem at?_concat (place : Place) (name : PathText) :
    entry.at? (place ++ [name]) = (entry.at? place).bind (·.child? name) := by
  rw [at?_append]
  congr 1
  funext found
  rw [at?_cons]
  cases found.child? name <;> rfl

theorem kindAt?_eq_directory :
    entry.kindAt? place = some .directory ↔
      ∃ entries, entry.at? place = some (directory entries) := by
  unfold kindAt?
  rw [Option.map_eq_some_iff]
  constructor
  · rintro ⟨found, hfound, hkind⟩
    cases found with
    | directory entries => exact ⟨entries, hfound⟩
    | file content => cases hkind
    | special => cases hkind
  · rintro ⟨entries, hfound⟩
    exact ⟨_, hfound, rfl⟩

/-- Above a place at which something is found there are directories. -/
theorem kindAt?_above {found : Entry} (habove : place <+: other) (hne : place ≠ other)
    (h : entry.at? other = some found) : entry.kindAt? place = some .directory := by
  obtain ⟨rest, rfl⟩ := habove
  rw [at?_append] at h
  obtain ⟨above, habove, hfound⟩ := Option.bind_eq_some_iff.1 h
  cases above with
  | directory entries => exact kindAt?_eq_directory.2 ⟨entries, habove⟩
  | _ =>
    cases rest with
    | nil => exact absurd (List.append_nil place).symm hne
    | cons name rest => cases hfound

/-- What bears a name is found in a directory. -/
theorem kindAt?_front {kind : FileKind} (h : entry.kindAt? (place ++ [name]) = some kind) :
    entry.kindAt? place = some .directory := by
  obtain ⟨found, hfound, -⟩ := Option.map_eq_some_iff.1 h
  exact kindAt?_above (List.prefix_append _ _) (by simp) hfound

theorem kindAt?_of_above (habove : place <+: other) (h : entry.kindAt? other = some .directory) :
    entry.kindAt? place = some .directory := by
  by_cases hne : place = other
  · rwa [hne]
  · obtain ⟨entries, hfound⟩ := kindAt?_eq_directory.1 h
    exact kindAt?_above habove hne hfound

/-! ## Putting -/

theorem lookup_filter_ne {other : PathText} (hne : other ≠ name) :
    (entries.filter fun item => item.1 ≠ name).lookup other = entries.lookup other := by
  induction entries with
  | nil => rfl
  | cons item entries ih =>
    obtain ⟨key, child⟩ := item
    by_cases hkey : key = name
    · subst hkey
      rw [List.filter_cons_of_neg (by simp), ih, List.lookup_cons, beq_false_of_ne hne]
    · rw [List.filter_cons_of_pos (by simpa using hkey), List.lookup_cons, List.lookup_cons, ih]

theorem child?_put_cons :
    ((directory entries).put new (name :: place)).child? name =
      some (((entries.lookup name).getD (directory [])).put new place) := by
  rw [put]
  exact List.lookup_cons_self

theorem child?_put_of_ne {other : PathText} (hne : other ≠ name) :
    (entry.put new (name :: place)).child? other = entry.child? other := by
  cases entry with
  | directory entries =>
    rw [put, child?, child?, List.lookup_cons, beq_false_of_ne hne]
    exact lookup_filter_ne hne
  | _ => rfl

/-- What is put below a place is put into what is there. -/
theorem at?_put_append {found : Entry} (h : entry.at? place = some found) :
    (entry.put new (place ++ other)).at? place = some (found.put new other) := by
  induction place generalizing entry with
  | nil =>
    cases h
    rfl
  | cons name place ih =>
    rw [at?_cons] at h
    obtain ⟨child, hchild, hfound⟩ := Option.bind_eq_some_iff.1 h
    cases entry with
    | directory entries =>
      have hlookup : entries.lookup name = some child := hchild
      rw [List.cons_append, at?_cons, child?_put_cons, hlookup]
      exact ih hfound
    | _ => cases hchild

/-- What is neither above nor below a place stays when something is put there. -/
theorem at?_put_of_apart (h : ¬place <+: other) (h' : ¬other <+: place) :
    (entry.put new place).at? other = entry.at? other := by
  induction place generalizing entry other with
  | nil => exact absurd List.nil_prefix h
  | cons name place ih =>
    cases other with
    | nil => exact absurd List.nil_prefix h'
    | cons key other =>
      rw [at?_cons, at?_cons]
      by_cases hkey : key = name
      · subst hkey
        rw [List.prefix_cons_inj] at h h'
        cases entry with
        | directory entries =>
          rw [child?_put_cons, child?]
          cases hlookup : entries.lookup key with
          | some child => exact ih h h'
          | none =>
            refine (ih h h').trans ?_
            cases other with
            | nil => exact absurd List.nil_prefix h'
            | cons key' other => rfl
        | _ => rfl
      · rw [child?_put_of_ne hkey]

/-- Nothing but directories is in the way to a place. -/
def Allows (entry : Entry) (place : Place) : Prop :=
  ∀ above, above <+: place → above ≠ place → ∀ kind, entry.kindAt? above = some kind →
    kind = .directory

theorem Allows.child (h : (directory entries).Allows (name :: place)) :
    ((entries.lookup name).getD (directory [])).Allows place := by
  intro above habove hne kind hkind
  have hall := h (name :: above) ((List.prefix_cons_inj name).2 habove) (by simpa using hne) kind
  cases hlookup : entries.lookup name with
  | some child =>
    rw [hlookup] at hkind
    apply hall
    rw [kindAt?, at?_cons, child?, hlookup]
    exact hkind
  | none =>
    rw [hlookup] at hkind
    cases above with
    | nil => exact (Option.some.inj hkind).symm
    | cons first above => cases hkind

/-- Something may be put into a directory under any name. -/
theorem allows_concat (h : entry.kindAt? place = some .directory) :
    entry.Allows (place ++ [name]) := by
  intro above habove hne kind hkind
  have habove := (List.prefix_concat_iff.1 habove).resolve_left hne
  rw [kindAt?_of_above habove h] at hkind
  exact (Option.some.inj hkind).symm

theorem at?_put_concat (h : entry.kindAt? place = some .directory) :
    (entry.put new (place ++ [name])).at? (place ++ [name]) = some new := by
  obtain ⟨entries, hfound⟩ := kindAt?_eq_directory.1 h
  rw [at?_concat, at?_put_append hfound]
  exact child?_put_cons

/-- Something with nothing in it is put into a directory: it is found there, and elsewhere nothing
changes its kind. -/
theorem kindAt?_put_concat {below : Place} {kind : FileKind}
    (h : entry.kindAt? place = some .directory) (hnew : ∀ name, new.child? name = none)
    (hkind : (entry.put new (place ++ [name])).kindAt? below = some kind) :
    below = place ++ [name] ∧ kind = new.kind ∨ entry.kindAt? below = some kind := by
  have hput : (entry.put new (place ++ [name])).at? (place ++ [name]) = some new :=
    at?_put_concat h
  by_cases hbelow : place ++ [name] <+: below
  · obtain ⟨rest, rfl⟩ := hbelow
    rw [kindAt?, at?_append, hput, Option.bind_some] at hkind
    cases rest with
    | nil => exact .inl ⟨List.append_nil _, (Option.some.inj hkind).symm⟩
    | cons first rest =>
      rw [at?_cons, hnew] at hkind
      cases hkind
  · right
    by_cases habove : below <+: place ++ [name]
    · have hne : below ≠ place ++ [name] := fun h => hbelow (h ▸ List.prefix_rfl)
      have hdirectory := kindAt?_above habove hne hput
      rw [hkind] at hdirectory
      rw [hdirectory]
      exact kindAt?_of_above ((List.prefix_concat_iff.1 habove).resolve_left hne) h
    · rw [kindAt?, ← at?_put_of_apart hbelow habove]
      exact hkind

/-! ## Files -/

/-- The files of a tree that stands at a place. -/
def filesFrom (place : Place) (entry : Entry) : List (Place × Bytes) :=
  entry.files.map fun file => (place ++ file.1, file.2)

theorem filesIn_eq (entries : List (PathText × Entry)) :
    filesIn entries = entries.flatMap fun item => item.2.filesFrom [item.1] := by
  induction entries with
  | nil => rw [filesIn]; rfl
  | cons item entries ih =>
    rw [filesIn, ih, List.flatMap_cons]
    rfl

theorem files_directory (entries : List (PathText × Entry)) :
    (directory entries).files = entries.flatMap fun item => item.2.filesFrom [item.1] := by
  rw [files, filesIn_eq]

theorem perm_of_lookup (hdistinct : (entries.map Prod.fst).Nodup) (name : PathText) :
    entries.Perm (((entries.lookup name).map (name, ·)).toList
      ++ entries.filter fun item => item.1 ≠ name) := by
  induction entries with
  | nil => exact .nil
  | cons item entries ih =>
    obtain ⟨key, child⟩ := item
    obtain ⟨hkey, hdistinct⟩ := List.nodup_cons.1 hdistinct
    by_cases hname : key = name
    · subst hname
      have hrest : entries.filter (fun item => item.1 ≠ key) = entries := by
        refine List.filter_eq_self.2 fun item hitem => ?_
        have hmem : item.1 ∈ entries.map Prod.fst := List.mem_map_of_mem hitem
        have hne : item.1 ≠ key := fun h => hkey (h ▸ hmem)
        simpa using hne
      rw [List.lookup_cons_self, List.filter_cons_of_neg (by simp), hrest]
      rfl
    · rw [List.filter_cons_of_pos (by simpa using hname), List.lookup_cons,
        beq_false_of_ne (Ne.symm hname)]
      exact ((ih hdistinct).cons _).trans List.perm_middle.symm

theorem lookup_eq_some_iff (hdistinct : (entries.map Prod.fst).Nodup) {child : Entry} :
    entries.lookup name = some child ↔ (name, child) ∈ entries := by
  rw [(perm_of_lookup hdistinct name).mem_iff]
  simp

/-- What is found in a directory is found in one of its entries. -/
theorem at?_directory_iff (hdistinct : (entries.map Prod.fst).Nodup) {found : Entry} :
    (directory entries).at? (name :: place) = some found ↔
      ∃ child, (name, child) ∈ entries ∧ child.at? place = some found := by
  rw [at?_cons, Option.bind_eq_some_iff]
  exact exists_congr fun child => and_congr_left fun _ => lookup_eq_some_iff hdistinct

theorem isTree_empty : (directory []).IsTree :=
  .directory .nil (List.forall_mem_nil _) (List.forall_mem_nil _)

theorem IsTree.child (h : (Entry.directory entries).IsTree) (name : PathText) :
    ((entries.lookup name).getD (.directory [])).IsTree := by
  cases h with
  | directory hdistinct hnames htrees =>
    cases hlookup : entries.lookup name with
    | none => exact isTree_empty
    | some child => exact htrees _ ((lookup_eq_some_iff hdistinct).1 hlookup)

/-- A tree stays one when a tree is put into it under names of files. -/
theorem IsTree.put (h : entry.IsTree) (hnew : new.IsTree)
    (hplace : ∀ name ∈ place, IsFileName name) :
    (entry.put new place).IsTree := by
  induction place generalizing entry with
  | nil => exact hnew
  | cons name place ih =>
    obtain ⟨hname, hplace⟩ := List.forall_mem_cons.1 hplace
    cases entry with
    | file content => exact h
    | special => exact h
    | directory entries =>
      have hchild := ih (h.child name) hplace
      cases h with
      | directory hdistinct hnames htrees =>
        refine .directory ?_ ?_ ?_
        · refine List.nodup_cons.2 ⟨by simp, ?_⟩
          exact hdistinct.sublist (List.filter_sublist.map Prod.fst)
        · exact List.forall_mem_cons.2
            ⟨hname, fun item hitem => hnames item (List.mem_of_mem_filter hitem)⟩
        · exact List.forall_mem_cons.2
            ⟨hchild, fun item hitem => htrees item (List.mem_of_mem_filter hitem)⟩

/-- The places in a tree have names of files. -/
theorem IsTree.isFileName (h : entry.IsTree) {found : Entry}
    (hfound : entry.at? place = some found) :
    ∀ name ∈ place, IsFileName name := by
  induction h generalizing place with
  | file | special =>
    cases place with
    | nil => exact List.forall_mem_nil _
    | cons name place => cases hfound
  | @directory entries hdistinct hnames htrees ih =>
    cases place with
    | nil => exact List.forall_mem_nil _
    | cons name place =>
      obtain ⟨child, hitem, hrest⟩ := (at?_directory_iff hdistinct).1 hfound
      exact List.forall_mem_cons.2 ⟨hnames _ hitem, ih _ hitem hrest⟩

/-- What is found in a tree is a tree. -/
theorem IsTree.of_at? (h : entry.IsTree) {found : Entry} (hfound : entry.at? place = some found) :
    found.IsTree := by
  induction place generalizing entry with
  | nil =>
    cases hfound
    exact h
  | cons name place ih =>
    rw [at?_cons] at hfound
    obtain ⟨child, hchild, hrest⟩ := Option.bind_eq_some_iff.1 hfound
    cases h with
    | file | special => cases hchild
    | directory hdistinct hnames htrees =>
      exact ih (htrees _ ((lookup_eq_some_iff hdistinct).1 hchild)) hrest

/-- The files of a tree are those that are found in it. -/
theorem mem_files (h : entry.IsTree) {content : Bytes} :
    (place, content) ∈ entry.files ↔ entry.at? place = some (file content) := by
  induction h generalizing place with
  | file found =>
    rw [files, List.mem_singleton, Prod.mk.injEq]
    cases place with
    | nil => simp [eq_comm]
    | cons name place => simp [at?_cons, child?]
  | special =>
    rw [files]
    cases place with
    | nil => simp
    | cons name place => simp [at?_cons, child?]
  | @directory entries hdistinct hnames htrees ih =>
    rw [files_directory, List.mem_flatMap]
    constructor
    · rintro ⟨item, hitem, hfile⟩
      obtain ⟨⟨rest, found⟩, hfound, heq⟩ := List.mem_map.1 hfile
      obtain ⟨rfl, rfl⟩ := Prod.mk.inj heq
      exact (at?_directory_iff hdistinct).2 ⟨item.2, hitem, (ih item hitem).1 hfound⟩
    · intro hfound
      cases place with
      | nil => cases hfound
      | cons name place =>
        obtain ⟨child, hitem, hrest⟩ := (at?_directory_iff hdistinct).1 hfound
        exact ⟨_, hitem, List.mem_map.2 ⟨(place, content), (ih _ hitem).2 hrest, rfl⟩⟩

theorem filesFrom_append (place other : Place) (entry : Entry) :
    entry.filesFrom (place ++ other) =
      (entry.filesFrom other).map fun file => (place ++ file.1, file.2) := by
  simp [filesFrom]

/-- The files of a directory: those under one name, and the others. -/
theorem files_split (hdistinct : (entries.map Prod.fst).Nodup) (name : PathText) :
    (directory entries).files.Perm
      (((entries.lookup name).getD (directory [])).filesFrom [name]
        ++ (directory (entries.filter fun item => item.1 ≠ name)).files) := by
  have hsplit := (perm_of_lookup hdistinct name).flatMap
    fun item _ => List.Perm.refl (item.2.filesFrom [item.1])
  rw [files_directory, files_directory]
  rw [List.flatMap_append] at hsplit
  refine hsplit.trans (List.Perm.append_right _ (.of_eq ?_))
  cases entries.lookup name with
  | none => rfl
  | some child => exact List.flatMap_singleton ..

theorem filter_files_others :
    (directory (entries.filter fun item => item.1 ≠ name)).files.filter
        (fun file => ¬(name :: place) <+: file.1) =
      (directory (entries.filter fun item => item.1 ≠ name)).files := by
  refine List.filter_eq_self.2 fun file hfile => ?_
  rw [files_directory] at hfile
  obtain ⟨item, hitem, hfile⟩ := List.mem_flatMap.1 hfile
  obtain ⟨below, -, rfl⟩ := List.mem_map.1 hfile
  have hne : item.1 ≠ name := of_decide_eq_true (List.mem_filter.1 hitem).2
  simp [List.cons_prefix_cons, hne.symm]

theorem filter_filesFrom_cons :
    (entry.filesFrom [name]).filter (fun file => ¬(name :: place) <+: file.1) =
      (entry.files.filter fun file => ¬place <+: file.1).map
        fun file => ([name] ++ file.1, file.2) := by
  rw [filesFrom, List.filter_map]
  congr 2
  funext file
  simp

/-- What files there are when something is put at a place: those that are put there, and those that
were not there before. -/
theorem files_put (h : entry.IsTree) (hallows : entry.Allows place) :
    (entry.put new place).files.Perm
      (new.filesFrom place ++ entry.files.filter fun file => ¬place <+: file.1) := by
  induction place generalizing entry with
  | nil => simp [Entry.put, filesFrom]
  | cons name place ih =>
    have hroot := hallows [] List.nil_prefix nofun _ rfl
    cases entry with
    | file content => cases hroot
    | special => cases hroot
    | directory entries =>
      have hchild := ih (h.child name) hallows.child
      cases h with
      | directory hdistinct hnames htrees =>
        have hsplit := (files_split hdistinct name).filter fun file => ¬(name :: place) <+: file.1
        rw [List.filter_append, filter_filesFrom_cons, filter_files_others] at hsplit
        have hput : ((directory entries).put new (name :: place)).files =
            ((((entries.lookup name).getD (directory [])).put new place).filesFrom [name])
              ++ (directory (entries.filter fun item => item.1 ≠ name)).files := by
          rw [Entry.put, files_directory, files_directory, List.flatMap_cons]
        have hnew : new.filesFrom (name :: place) =
            (new.filesFrom place).map fun file => ([name] ++ file.1, file.2) :=
          filesFrom_append [name] place new
        rw [hput, hnew]
        refine .trans ?_ (hsplit.symm.append_left _)
        rw [← List.append_assoc, ← List.map_append]
        exact (hchild.map _).append_right _

/-- A directory that is new has no files in it. -/
theorem files_put_directory (h : entry.IsTree) (hallows : entry.Allows place)
    (hvacant : entry.at? place = none) :
    (entry.put (directory []) place).files.Perm entry.files := by
  have hkept : (entry.files.filter fun file => ¬place <+: file.1) = entry.files := by
    refine List.filter_eq_self.2 fun file hfile => ?_
    have hfound := (mem_files h).1 hfile
    have hbelow : ¬place <+: file.1 := by
      rintro ⟨rest, hrest⟩
      rw [← hrest, at?_append, hvacant] at hfound
      cases hfound
    simpa using hbelow
  have hput : (entry.put (directory []) place).files.Perm _ := files_put h hallows
  rwa [hkept] at hput

/-- A file that is put takes the place of one that was there. -/
theorem files_put_file {content : Bytes} (h : entry.IsTree) (hallows : entry.Allows place)
    (hkind : entry.kindAt? place ≠ some .directory) :
    (entry.put (file content) place).files.Perm
      ((place, content) :: entry.files.filter fun file => file.1 ≠ place) := by
  have hkept : (entry.files.filter fun file => ¬place <+: file.1) =
      entry.files.filter fun file => file.1 ≠ place := by
    refine List.filter_congr fun file hfile => ?_
    have hfound := (mem_files h).1 hfile
    have hsame : place <+: file.1 ↔ file.1 = place := by
      constructor
      · intro hbelow
        by_contra hne
        exact hkind (kindAt?_above hbelow (Ne.symm hne) hfound)
      · exact fun heq => heq ▸ List.prefix_rfl
    simp [hsame]
  have hput : (entry.put (file content) place).files.Perm _ := files_put h hallows
  rw [hkept] at hput
  have hnew : (file content).filesFrom place = [(place, content)] := by
    simp [filesFrom, files]
  rwa [hnew] at hput

end Entry

end ClassStub
