import ClassStub.Proofs.MadeDirectories

/-! # Outputs that grow

An output is an empty directory at first. Directories are made in it, and files are written into
them, under names that another tree of files has as well. -/

namespace ClassStub

variable {files later : FileSystem} {path : PathText} {entries : List (PathText × Entry)}

/-! ## Growth -/

/-- The files grew from `made` at a place where there was an empty directory: a tree of files is
there whose entries are of the kinds that they have in a model. -/
structure FileSystem.Grown (made : FileSystem) (place : Place) (model entry : Entry)
    (files : FileSystem) : Prop where
  current : files.current = made.current
  found : files.root.at? place = some entry
  apart : ∀ other, ¬place <+: other → ¬other <+: place →
    files.root.at? other = made.root.at? other
  isTree : entry.IsTree
  isDirectory : entry.kindAt? [] = some .directory
  mirrors : ∀ below kind, entry.kindAt? below = some kind → model.kindAt? below = some kind

namespace FileSystem

variable {made : FileSystem} {place : Place} {model entry : Entry}

theorem grown_self (hmade : made.root.at? place = some (.directory []))
    (hmodel : model.kindAt? [] = some .directory) :
    made.Grown place model (.directory []) made where
  current := rfl
  found := hmade
  apart _ _ _ := rfl
  isTree := Entry.isTree_empty
  isDirectory := rfl
  mirrors below kind hkind := by
    cases below with
    | nil =>
      cases hkind
      exact hmodel
    | cons name below => cases hkind

/-- Whatever was there before stays. -/
theorem Grown.keeps (h : made.Grown place model entry files)
    (hmade : made.root.at? place = some (.directory [])) : made.Keeps files where
  current := h.current
  kinds other kind hkind := by
    have hplace : files.root.kindAt? place = some .directory := by
      rw [Entry.kindAt?, h.found]
      exact h.isDirectory
    by_cases habove : other <+: place
    · have hdirectory := Entry.kindAt?_of_above habove (Entry.kindAt?_eq_directory.2 ⟨[], hmade⟩)
      rw [hkind] at hdirectory
      rw [hdirectory]
      exact Entry.kindAt?_of_above habove hplace
    · by_cases hbelow : place <+: other
      · obtain ⟨rest, rfl⟩ := hbelow
        rw [Entry.kindAt?, Entry.at?_append, hmade] at hkind
        cases rest with
        | nil =>
          rw [List.append_nil] at habove
          exact absurd List.prefix_rfl habove
        | cons name rest => cases hkind
      · rw [Entry.kindAt?, h.apart other hbelow habove]
        exact hkind

/-- Something with nothing in it is put into a directory of the output. -/
theorem Grown.put {new : Entry} {above : Place} {name : PathText}
    (h : made.Grown place model entry files) (habove : entry.kindAt? above = some .directory)
    (hmodel : model.IsTree) (hkind : model.kindAt? (above ++ [name]) = some new.kind)
    (hnew : new.IsTree) (hleaf : ∀ name, new.child? name = none) :
    made.Grown place model (entry.put new (above ++ [name]))
      (files.putAt (place ++ (above ++ [name])) new) where
  current := h.current
  found := Entry.at?_put_append h.found
  apart other hbelow hother := by
    refine (Entry.at?_put_of_apart ?_ ?_).trans (h.apart other hbelow hother)
    · exact fun hfront => hbelow ((List.prefix_append _ _).trans hfront)
    · intro hfront
      exact (List.prefix_or_prefix_of_prefix hfront (List.prefix_append _ _)).elim hother hbelow
  isTree := by
    obtain ⟨found, hfound, -⟩ := Option.map_eq_some_iff.1 hkind
    exact h.isTree.put hnew (hmodel.isFileName hfound)
  isDirectory := by
    have hput : (entry.put new (above ++ [name])).at? (above ++ [name]) = some new :=
      Entry.at?_put_concat habove
    exact Entry.kindAt?_above List.nil_prefix (List.concat_ne_nil _ _).symm hput
  mirrors below kind hbelow := by
    rcases Entry.kindAt?_put_concat habove hleaf hbelow with ⟨rfl, rfl⟩ | hbefore
    · exact hkind
    · exact h.mirrors below kind hbefore

/-! ## Directories of the output -/

/-- The output path leads to an empty directory, and the model is a tree. -/
structure IsOutput (made : FileSystem) (output : PathText) (place : Place) (model : Entry) :
    Prop where
  leads : made.Leads output place
  empty : made.root.at? place = some (.directory [])
  isTree : model.IsTree
  isDirectory : model.kindAt? [] = some .directory

variable {output name : PathText} {above below : Place} {kind : FileKind}

theorem IsOutput.isFileName (hout : made.IsOutput output place model)
    (hkind : model.kindAt? (above ++ [name]) = some kind) :
    (∀ name ∈ above, IsFileName name) ∧ IsFileName name := by
  obtain ⟨found, hfound, -⟩ := Option.map_eq_some_iff.1 hkind
  obtain ⟨hnames, hname⟩ := List.forall_mem_append.1 (hout.isTree.isFileName hfound)
  exact ⟨hnames, List.forall_mem_singleton.1 hname⟩

theorem Grown.leads (h : made.Grown place model entry files)
    (hout : made.IsOutput output place model) :
    files.Leads output place :=
  hout.leads.keep (h.keeps hout.empty)

/-- The path of a directory of the output leads to it. -/
theorem Grown.exists_leads (h : made.Grown place model entry files)
    (hout : made.IsOutput output place model) (habove : entry.kindAt? above = some .directory)
    (hnames : ∀ name ∈ above, IsFileName name)
    (hshort : (Path.descend output above).size < maxPath) :
    ∃ entries, entry.at? above = some (.directory entries)
      ∧ files.root.at? (place ++ above) = some (.directory entries)
      ∧ files.Leads (Path.descend output above) (place ++ above) := by
  obtain ⟨entries, hentries⟩ := Entry.kindAt?_eq_directory.1 habove
  have hplace : files.root.at? (place ++ above) = some (.directory entries) := by
    rw [Entry.at?_append, h.found]
    exact hentries
  exact ⟨entries, hentries, hplace, (h.leads hout).descend hplace hnames hshort⟩

/-- A directory of the output that the model has as well is made in one that is there. -/
theorem Grown.exists_provides (h : made.Grown place model entry files)
    (hout : made.IsOutput output place model) (habove : entry.kindAt? above = some .directory)
    (hkind : model.kindAt? (above ++ [name]) = some .directory)
    (hshort : (Path.descend output (above ++ [name])).size < maxPath) :
    ∃ later grown, Files.Provides files (Path.descend output (above ++ [name])) later
      ∧ made.Grown place model grown later
      ∧ grown.kindAt? (above ++ [name]) = some .directory
      ∧ grown.files.Perm entry.files := by
  obtain ⟨hnames, hname⟩ := hout.isFileName hkind
  rw [Path.descend_concat] at hshort ⊢
  have hfront := size_lt_of_join hname hshort
  obtain ⟨entries, hentries, hplace, hleads⟩ := h.exists_leads hout habove hnames hfront
  have hmake := hleads.makeDirectory_join hplace hname hshort
  have hat : entry.at? (above ++ [name]) = entries.lookup name := by
    rw [Entry.at?_concat, hentries]
    rfl
  cases hlookup : entries.lookup name with
  | some child =>
    rw [hlookup, Option.isSome_some, if_pos rfl] at hmake
    have hchild : entry.kindAt? (above ++ [name]) = some child.kind :=
      Entry.kindAt?_of_at? (hat.trans hlookup)
    -- What bears the name already is a directory, because the model has one there.
    have hdirectory := h.mirrors _ _ hchild
    rw [hkind] at hdirectory
    rw [← hdirectory] at hchild
    cases child with
    | file | special => cases hdirectory
    | directory below =>
      have hfind : files.find (Path.join (Path.descend output above) name) =
          .ok (.directory below) := by
        refine (hleads.join hplace hlookup hname hshort).find ?_
        rw [Entry.at?_concat, hplace]
        exact hlookup
      exact ⟨files, entry, .inr ⟨hmake, rfl, below, hfind⟩, h, hchild, .rfl⟩
  | none =>
    rw [hlookup, Option.isSome_none, if_neg Bool.false_ne_true, List.append_assoc] at hmake
    rw [hlookup] at hat
    have hput : (entry.put (.directory []) (above ++ [name])).at? (above ++ [name]) =
        some (.directory []) := Entry.at?_put_concat habove
    have hgrown := h.put habove hout.isTree hkind Entry.isTree_empty fun _ => rfl
    refine ⟨_, _, .inl hmake, hgrown, ?_, ?_⟩
    · exact Entry.kindAt?_eq_directory.2 ⟨[], hput⟩
    · exact Entry.files_put_directory h.isTree (Entry.allows_concat habove) hat

/-- The output is still missing, or has grown. -/
inductive Holds (first made : FileSystem) (output : PathText) (place : Place) (model : Entry) :
    Entry → FileSystem → Prop where
  | missing (hmissing : first.trailTo output = .error .notFound)
      (hmakes : (Files.ensureDirectories (Path.ancestors output) : StateM FileSystem _) first =
        (.ok (), made)) : Holds first made output place model (.directory []) first
  | grown {entry : Entry} {files : FileSystem} (h : made.Grown place model entry files) :
      Holds first made output place model entry files

variable {first : FileSystem}

/-- A directory of the model is in the output, or is missing. -/
theorem Holds.found_or_missing (h : Holds first made output place model entry files)
    (hout : made.IsOutput output place model) (hkind : model.kindAt? below = some .directory)
    (hshort : (Path.descend output below).size < maxPath) :
    made.Grown place model entry files ∧ entry.kindAt? below = some .directory
      ∨ files.trailTo (Path.descend output below) = .error .notFound := by
  obtain ⟨found, hfound, -⟩ := Option.map_eq_some_iff.1 hkind
  have hnames := hout.isTree.isFileName hfound
  cases h with
  | missing hmissing hmakes =>
    exact .inr (trailTo_descend_of_missing hout.leads.isSpelled hmissing hnames hshort)
  | grown h =>
    cases hat : entry.at? below with
    | some child =>
      have hchild := Entry.kindAt?_of_at? hat
      have hsame := h.mirrors _ _ hchild
      rw [hkind] at hsame
      exact .inl ⟨h, hchild.trans hsame.symm⟩
    | none =>
      have hallows : entry.Allows below := by
        intro above habove hne kind hkind
        have hsame := h.mirrors _ _ hkind
        rw [Entry.kindAt?_above habove hne hfound] at hsame
        exact (Option.some.inj hsame).symm
      exact .inr ((h.leads hout).descend_missing h.found hallows hat hnames hshort)

/-- A directory of the model can be made in the output, with all above it. -/
theorem Holds.exists_ensure (h : Holds first made output place model entry files)
    (hout : made.IsOutput output place model) (hkind : model.kindAt? below = some .directory)
    (hshort : (Path.descend output below).size < maxPath) :
    ∃ later grown,
      (Files.ensureDirectories (Path.ancestors (Path.descend output below)) :
        StateM FileSystem _) files = (.ok (), later)
      ∧ made.Grown place model grown later ∧ grown.kindAt? below = some .directory
      ∧ grown.files.Perm entry.files := by
  induction below using List.reverseRecOn with
  | nil =>
    cases h with
    | missing hmissing hmakes =>
      exact ⟨made, .directory [], hmakes, grown_self hout.empty hout.isDirectory, rfl, .rfl⟩
    | grown h =>
      obtain ⟨entries, hentries⟩ := Entry.kindAt?_eq_directory.1 h.isDirectory
      have hfound : files.root.at? place = some (.directory entries) :=
        h.found.trans hentries
      exact ⟨files, entry, Files.run_ensureDirectories_of_find ((h.leads hout).find hfound), h,
        h.isDirectory, .rfl⟩
  | append_singleton above name ih =>
    obtain ⟨hnames, hname⟩ := hout.isFileName hkind
    have habove := Entry.kindAt?_front hkind
    have hpath : Path.descend output (above ++ [name]) =
        Path.join (Path.descend output above) name := Path.descend_concat above
    have hfront : (Path.descend output above).size < maxPath :=
      size_lt_of_join hname (hpath ▸ hshort)
    have hspelled := hout.leads.isSpelled.descend hnames hfront
    obtain ⟨row, hancestors, hrow⟩ := Path.exists_ancestors_join hspelled.nonempty hname
    rw [← hpath] at hancestors hrow
    rw [hancestors]
    rcases h.found_or_missing hout habove hfront with ⟨hgrown, hdirectory⟩ | hmissing
    · obtain ⟨later, grown, hprovides, hlater⟩ :=
        hgrown.exists_provides hout hdirectory hkind hshort
      rw [← hrow] at hprovides
      exact ⟨later, grown, hprovides.run_ensureDirectories, hlater⟩
    · -- The directory above has to be made before.
      have hmake := makeDirectory_join_of_missing hspelled hmissing hname (hpath ▸ hshort)
      obtain ⟨middle, middle', hrun, hmiddle, hdirectory, hperm⟩ := ih habove hfront
      obtain ⟨later, grown, hprovides, hlater, hmade, hperm'⟩ :=
        hmiddle.exists_provides hout hdirectory hkind hshort
      rw [← hpath, ← hrow] at hmake
      rw [← hrow] at hprovides
      exact ⟨later, grown, hprovides.run_ensureDirectories_of_missing hmake hrun, hlater, hmade,
        hperm'.trans hperm⟩

/-- The directory of a file of the model can be made in the output. -/
theorem Holds.exists_ensureParent (h : Holds first made output place model entry files)
    (hout : made.IsOutput output place model)
    (hkind : model.kindAt? (above ++ [name]) = some .file)
    (hshort : (Path.descend output (above ++ [name])).size < maxPath) :
    ∃ later grown,
      (Files.ensureParent (Path.descend output (above ++ [name])) : StateM FileSystem _) files =
        (.ok (), later)
      ∧ made.Grown place model grown later ∧ grown.kindAt? above = some .directory
      ∧ grown.files.Perm entry.files := by
  obtain ⟨hnames, hname⟩ := hout.isFileName hkind
  rw [Path.descend_concat] at hshort ⊢
  have hfront := size_lt_of_join hname hshort
  have hspelled := hout.leads.isSpelled.descend hnames hfront
  rw [Files.ensureParent, Path.ancestors_join hspelled.nonempty hname, List.tail_cons]
  exact h.exists_ensure hout (Entry.kindAt?_front hkind) hfront

/-- A file of the model is written into a directory of the output. -/
theorem Grown.exists_write {content : Bytes} (h : made.Grown place model entry files)
    (hout : made.IsOutput output place model) (habove : entry.kindAt? above = some .directory)
    (hkind : model.kindAt? (above ++ [name]) = some .file)
    (hshort : (Path.descend output (above ++ [name])).size < maxPath) :
    ∃ later grown, files.write (Path.descend output (above ++ [name])) content = .ok later
      ∧ made.Grown place model grown later
      ∧ grown.files.Perm ((above ++ [name], content)
        :: entry.files.filter fun file => file.1 ≠ above ++ [name]) := by
  obtain ⟨hnames, hname⟩ := hout.isFileName hkind
  rw [Path.descend_concat] at hshort ⊢
  have hfront := size_lt_of_join hname hshort
  obtain ⟨entries, hentries, hplace, hleads⟩ := h.exists_leads hout habove hnames hfront
  have hfile : ∀ kind, entry.kindAt? (above ++ [name]) = some kind → kind = .file := by
    intro kind hentry
    have hsame := h.mirrors _ _ hentry
    rw [hkind] at hsame
    exact (Option.some.inj hsame).symm
  have hlookup : ∀ child, entries.lookup name = some child → child.kind = .file := by
    intro child hchild
    refine hfile _ (Entry.kindAt?_of_at? ?_)
    rw [Entry.at?_concat, hentries]
    exact hchild
  have hwrite : files.write (Path.join (Path.descend output above) name) content = .ok _ :=
    hleads.write_join hplace hname hshort hlookup
  rw [List.append_assoc] at hwrite
  exact ⟨_, _, hwrite, h.put habove hout.isTree hkind (.file content) fun _ => rfl,
    Entry.files_put_file h.isTree (Entry.allows_concat habove) fun hdirectory =>
      nomatch hfile _ hdirectory⟩

end FileSystem

end ClassStub
