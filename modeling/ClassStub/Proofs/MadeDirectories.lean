import ClassStub.Proofs.FollowedPaths

/-! # Directories that are made

A path names a place, whether something is there or not. The directories on the way to it are made
as far as they are missing, and everything else stays as it was. -/

namespace ClassStub

variable {files later : FileSystem} {path name : PathText} {entries : List (PathText × Entry)}

/-! ## Operations in a run -/

theorem stateM_bind {σ α β : Type} (run : StateM σ α) (next : α → StateM σ β) (state : σ) :
    (run >>= next) state = next (run state).1 (run state).2 :=
  rfl

namespace Files

theorem run_update (operation : FileSystem → Except FileError FileSystem) :
    FileSystem.update operation files =
      match operation files with
      | .ok later => (.ok (), later)
      | .error cause => (.error cause, files) := by
  have hget : FileSystem.update operation files =
      (match operation files with
      | .ok later => do
        set later
        return .ok ()
      | .error cause => return .error cause : StateM FileSystem (Except FileError Unit)) files :=
    rfl
  rw [hget]
  cases operation files <;> rfl

theorem run_makeDirectory (path : PathText) :
    (MonadFiles.makeDirectory path : StateM FileSystem _) files =
      match files.makeDirectory path with
      | .ok later => (.ok (), later)
      | .error cause => (.error cause, files) :=
  run_update (·.makeDirectory path)

theorem run_write_of_ok {content : Bytes} (h : files.write path content = .ok later) :
    (MonadFiles.write path content : StateM FileSystem _) files = (.ok (), later) := by
  refine (run_update (·.write path content)).trans ?_
  rw [h]

theorem run_isDirectory (h : files.find path = .ok (.directory entries)) :
    (isDirectory path : StateM FileSystem Bool) files = (true, files) := by
  have hkind : (MonadFiles.kindOf path : StateM FileSystem _) files = (.ok .directory, files) := by
    change (Except.map Entry.kind (files.find path), files) = _
    rw [h]
    rfl
  rw [isDirectory, stateM_bind, hkind]
  rfl

/-- A directory was made at a path, or was there. -/
def Provides (files : FileSystem) (path : PathText) (later : FileSystem) : Prop :=
  files.makeDirectory path = .ok later
    ∨ files.makeDirectory path = .error .alreadyExists ∧ later = files
      ∧ ∃ entries, files.find path = .ok (.directory entries)

theorem Provides.run_ensureDirectory (h : Provides files path later) :
    (ensureDirectory path : StateM FileSystem _) files = (.ok (), later) := by
  rw [ensureDirectory, stateM_bind, run_makeDirectory]
  obtain hmade | ⟨hmade, rfl, entries, hfound⟩ := h
  · rw [hmade]
    rfl
  · rw [hmade]
    dsimp only
    rw [if_neg nofun, stateM_bind, run_isDirectory hfound]
    rfl

theorem run_ensureDirectory_of_missing (h : files.makeDirectory path = .error .notFound) :
    (ensureDirectory path : StateM FileSystem _) files = (.error .notFound, files) := by
  rw [ensureDirectory, stateM_bind, run_makeDirectory, h]
  rfl

/-- Directories are made as far as none is there: the first one alone, or behind those above it. -/
theorem Provides.run_ensureDirectories {row : List PathText} {above : List (List PathText)}
    (h : Provides files (Path.ofReversedParts row) later) :
    (ensureDirectories (row :: above) : StateM FileSystem _) files = (.ok (), later) := by
  rw [ensureDirectories, stateM_bind, h.run_ensureDirectory]
  rfl

theorem Provides.run_ensureDirectories_of_missing {middle : FileSystem} {row : List PathText}
    {above : List (List PathText)}
    (hmissing : files.makeDirectory (Path.ofReversedParts row) = .error .notFound)
    (habove : (ensureDirectories above : StateM FileSystem _) files = (.ok (), middle))
    (h : Provides middle (Path.ofReversedParts row) later) :
    (ensureDirectories (row :: above) : StateM FileSystem _) files = (.ok (), later) := by
  rw [ensureDirectories, stateM_bind, run_ensureDirectory_of_missing hmissing]
  dsimp only
  rw [stateM_bind, habove]
  dsimp only
  rw [stateM_bind, run_makeDirectory]
  obtain hmade | ⟨hmade, rfl, entries, hfound⟩ := h
  · rw [hmade]
    rfl
  · rw [hmade]
    dsimp only
    rw [stateM_bind, run_isDirectory hfound]
    rfl

/-- A directory that is there does not need to be made. -/
theorem run_ensureDirectories_of_find (h : files.find path = .ok (.directory entries)) :
    (ensureDirectories (Path.ancestors path) : StateM FileSystem _) files = (.ok (), files) := by
  obtain ⟨place, hleads, -⟩ := FileSystem.exists_leads h
  obtain ⟨row, idle, above, hancestors, hparts, hrow, hidle⟩ :=
    Path.exists_ancestors hleads.isSpelled.nonempty
  have hfound := FileSystem.find_ofReversedParts hparts hrow hidle h
  have hprovides : Provides files (Path.ofReversedParts row) files :=
    .inr ⟨FileSystem.makeDirectory_of_find hfound, rfl, entries, hfound⟩
  rw [hancestors, hprovides.run_ensureDirectories]

end Files

/-! ## Named places -/

namespace FileSystem

variable {trail reached : Trail} {place : Place} {row front : List PathText}

/-- The place to which one part of a path leads from another place. -/
def step (place : Place) (part : PathText) : Place :=
  if Path.isIdle part then place
  else if part = ".." then place.dropLast
  else place ++ [part]

/-- The place that the parts in `row` name where `path` begins. -/
def placeFor (files : FileSystem) (path : PathText) (row : List PathText) : Place :=
  row.foldl step (if Path.isAbsolute path then [] else files.current.foldl step [])

/-- The place that a path names. -/
def placeNamed (files : FileSystem) (path : PathText) : Place :=
  files.placeFor path (Path.parts path)

theorem placeFor_concat (row : List PathText) (part : PathText) :
    files.placeFor path (row ++ [part]) = step (files.placeFor path row) part := by
  rw [placeFor, List.foldl_append]
  rfl

theorem placeOf_follow (h : files.follow trail row = .ok reached) :
    placeOf reached = row.foldl step (placeOf trail) := by
  induction row generalizing trail with
  | nil =>
    cases h
    rfl
  | cons part row ih =>
    rw [follow_cons] at h
    obtain ⟨next, hpart, hrow⟩ := bind_eq_ok.1 h
    rw [ih hrow, List.foldl_cons]
    congr 1
    obtain ⟨entries, -, ⟨hidle, rfl⟩ | ⟨hidle, hdots, rfl⟩ | ⟨hidle, hdots, -, entry, -, rfl⟩⟩ :=
      follow_part_ok hpart
    · rw [step, if_pos hidle]
    · rw [step, if_neg hidle, if_pos hdots, placeOf_tail]
    · rw [step, if_neg hidle, if_neg hdots, placeOf_cons]

/-- What is followed from where a path begins ends at the place that is named. -/
theorem placeOf_followFor (h : files.followFor path row = .ok trail) :
    placeOf trail = files.placeFor path row := by
  unfold followFor at h
  unfold placeFor
  split at h
  · rename_i habsolute
    rw [if_pos habsolute]
    exact placeOf_follow h
  · rename_i habsolute
    obtain ⟨start, hstart, hrow⟩ := bind_eq_ok.1 h
    rw [if_neg habsolute, placeOf_follow hrow, placeOf_follow hstart]
    rfl

theorem Leads.eq_placeNamed (h : files.Leads path place) : place = files.placeNamed path := by
  have hspelled := h.isSpelled
  obtain ⟨trail, htrail, rfl⟩ := h
  rw [hspelled.trailTo] at htrail
  exact placeOf_followFor htrail

/-- There is a tree of files, and the current directory is in it. -/
structure IsSound (files : FileSystem) : Prop where
  isTree : files.root.IsTree
  current : files.root.kindAt? files.current = some .directory

theorem foldl_step_names (hplace : ∀ name ∈ place, IsFileName name) (above : Place) :
    place.foldl step above = above ++ place := by
  induction place generalizing above with
  | nil => exact (List.append_nil _).symm
  | cons name place ih =>
    obtain ⟨hname, hplace⟩ := List.forall_mem_cons.1 hplace
    have hidle : ¬Path.isIdle name := by simp [Path.IsFileName.isIdle hname]
    rw [List.foldl_cons, step, if_neg hidle, if_neg hname.notDots, ih hplace, List.append_assoc]
    rfl

/-- Names lead to what is found under them. -/
theorem exists_follow_names {entry : Entry} (hplace : ∀ name ∈ place, IsFileName name)
    (hfound : files.root.at? place = some entry) :
    ∃ trail, files.follow [] place = .ok trail := by
  induction place using List.reverseRecOn generalizing entry with
  | nil => exact ⟨[], rfl⟩
  | append_singleton place name ih =>
    obtain ⟨hplace, hname⟩ := List.forall_mem_append.1 hplace
    rw [Entry.at?_concat] at hfound
    obtain ⟨above, habove, hchild⟩ := Option.bind_eq_some_iff.1 hfound
    obtain ⟨trail, htrail⟩ := ih hplace habove
    have hend := (isTrail_nil.follow htrail).at?_place
    rw [placeOf_follow htrail, foldl_step_names hplace] at hend
    have hend : some above = some (files.endOf trail) := habove.symm.trans hend
    cases above with
    | file | special => cases hchild
    | directory entries =>
      have hlookup : entries.lookup name = some entry := hchild
      refine ⟨(name, entry) :: trail, ?_⟩
      rw [follow_append, htrail]
      change files.follow trail [name] = _
      rw [follow_name (List.forall_mem_singleton.1 hname) (Option.some.inj hend).symm, hlookup]

theorem IsSound.exists_followFor_nil (h : files.IsSound) (path : PathText) :
    ∃ trail, files.followFor path [] = .ok trail := by
  unfold followFor
  split
  · exact ⟨[], rfl⟩
  · obtain ⟨entries, hfound⟩ := Entry.kindAt?_eq_directory.1 h.current
    obtain ⟨trail, htrail⟩ := exists_follow_names (h.isTree.isFileName hfound) hfound
    exact ⟨trail, by rw [htrail]; rfl⟩

/-! ## Paths on which directories can be made -/

/-- On the way of a path there are directories or nothing, and no name is too long. -/
structure IsClear (files : FileSystem) (path : PathText) : Prop where
  isSpelled : IsSpelled path
  size : ∀ part ∈ Path.parts path, part.size ≤ maxName
  unblocked : ∀ front, front <+: Path.parts path → ∀ kind,
    files.root.kindAt? (files.placeFor path front) = some kind → kind = .directory

/-- A path leads over a place, and nothing is there. -/
def IsMissing (files : FileSystem) (path : PathText) (place : Place) : Prop :=
  ∃ front, front <+: Path.parts path ∧ files.placeFor path front = place
    ∧ files.root.at? place = none

/-- Of what a path leads over some that was missing is a directory later. Everything else stays. -/
structure Prepares (files : FileSystem) (path : PathText) (later : FileSystem) : Prop extends
    files.Keeps later where
  stays : ∀ place entry, files.root.at? place = some entry →
    (∀ other, files.IsMissing path other → ¬place <+: other) → later.root.at? place = some entry
  only : ∀ place kind, later.root.kindAt? place = some kind →
    files.root.kindAt? place = some kind ∨ kind = .directory ∧ files.IsMissing path place

theorem prepares_refl (files : FileSystem) (path : PathText) : files.Prepares path files where
  current := rfl
  kinds _ _ hkind := hkind
  stays _ _ hfound _ := hfound
  only _ _ hkind := .inl hkind

/-- What is new in a directory leaves everything in its place. -/
theorem keeps_putAt {above : Place} (habove : files.root.kindAt? above = some .directory)
    (hfree : files.root.at? (above ++ [name]) = none) (entry : Entry) :
    files.Keeps (files.putAt (above ++ [name]) entry) where
  current := rfl
  kinds place kind hkind := by
    have hput : (files.root.put entry (above ++ [name])).at? (above ++ [name]) = some entry :=
      Entry.at?_put_concat habove
    obtain ⟨found, hfound, rfl⟩ := Option.map_eq_some_iff.1 hkind
    by_cases hfront : place <+: above ++ [name]
    · have hne : place ≠ above ++ [name] := by
        rintro rfl
        rw [hfree] at hfound
        cases hfound
      have hdirectory := Entry.kindAt?_of_above ((List.prefix_concat_iff.1 hfront).resolve_left hne)
        habove
      rw [hdirectory] at hkind
      rw [← hkind]
      exact Entry.kindAt?_above hfront hne hput
    · have hbelow : ¬above ++ [name] <+: place := by
        rintro ⟨rest, rfl⟩
        rw [Entry.at?_append, hfree] at hfound
        cases hfound
      exact Entry.kindAt?_of_at? ((Entry.at?_put_of_apart hbelow hfront).trans hfound)

/-- One directory more that was missing. -/
theorem Prepares.put {above : Place} (h : files.Prepares path later)
    (habove : later.root.kindAt? above = some .directory)
    (hfree : later.root.at? (above ++ [name]) = none)
    (hmissing : files.IsMissing path (above ++ [name])) :
    files.Prepares path (later.putAt (above ++ [name]) (.directory [])) where
  toKeeps := by
    have hkeeps := keeps_putAt habove hfree (.directory [])
    exact ⟨hkeeps.current.trans h.current,
      fun place kind hkind => hkeeps.kinds place kind (h.kinds place kind hkind)⟩
  stays place entry hfound hapart := by
    have hlater := h.stays place entry hfound hapart
    refine (Entry.at?_put_of_apart ?_ (hapart _ hmissing)).trans hlater
    rintro ⟨rest, rfl⟩
    rw [Entry.at?_append, hfree] at hlater
    cases hlater
  only place kind hkind := by
    rcases Entry.kindAt?_put_concat habove (fun _ => rfl) hkind with ⟨rfl, rfl⟩ | hbefore
    · exact .inr ⟨rfl, hmissing⟩
    · exact h.only place kind hbefore

theorem Prepares.placeFor (h : files.Prepares path later) (row : List PathText) :
    later.placeFor path row = files.placeFor path row := by
  unfold FileSystem.placeFor
  rw [h.current]

/-- Everything that is found on the way of a clear path is a directory. -/
theorem IsClear.exists_endOf (h : files.IsClear path) (hlater : files.Prepares path later)
    (hfront : front <+: Path.parts path) (htrail : later.followFor path front = .ok trail) :
    ∃ entries, later.endOf trail = .directory entries := by
  have hfound := (isTrail_of_followFor htrail).at?_place
  have hkind := Entry.kindAt?_of_at? hfound
  rw [placeOf_followFor htrail, hlater.placeFor] at hkind
  have hdirectory : (later.endOf trail).kind = .directory := by
    rcases hlater.only _ _ hkind with hbefore | ⟨hnew, -⟩
    · exact h.unblocked front hfront _ hbefore
    · exact hnew
  cases hend : later.endOf trail with
  | directory entries => exact ⟨entries, rfl⟩
  | file | special =>
    rw [hend] at hdirectory
    cases hdirectory

/-- A part that is not too long leads further from a directory, or is a name that is free there. -/
theorem follow_or_free {part : PathText} (hend : files.endOf trail = .directory entries)
    (hsize : part.size ≤ maxName) :
    (∃ reached, files.follow trail [part] = .ok reached)
      ∨ ¬Path.isIdle part ∧ part ≠ ".." ∧ entries.lookup part = none
        ∧ files.follow trail [part] = .error .notFound := by
  rw [follow, hend]
  dsimp only
  by_cases hidle : Path.isIdle part
  · rw [if_pos hidle]
    exact .inl ⟨trail, rfl⟩
  · rw [if_neg hidle]
    by_cases hdots : part = ".."
    · rw [if_pos hdots]
      exact .inl ⟨trail.tail, rfl⟩
    · rw [if_neg hdots, if_neg (Nat.not_lt.2 hsize)]
      cases entries.lookup part with
      | some entry => exact .inl ⟨(part, entry) :: trail, rfl⟩
      | none => exact .inr ⟨hidle, hdots, rfl, rfl⟩

/-- A clear path can be followed, or it leads over something that is missing. -/
theorem IsClear.follow_or_missing (h : files.IsClear path) (hsound : files.IsSound)
    (hfront : front <+: Path.parts path) :
    (∃ trail, files.followFor path front = .ok trail)
      ∨ files.followFor path front = .error .notFound := by
  induction front using List.reverseRecOn with
  | nil => exact .inl (hsound.exists_followFor_nil path)
  | append_singleton front part ih =>
    have habove : front <+: Path.parts path := (List.prefix_append _ _).trans hfront
    have hsize : part.size ≤ maxName := h.size part (hfront.subset List.mem_concat_self)
    rw [followFor_append]
    rcases ih habove with ⟨trail, htrail⟩ | hmissing
    · obtain ⟨entries, hend⟩ := h.exists_endOf (prepares_refl files path) habove htrail
      rw [htrail]
      exact (follow_or_free hend hsize).imp id fun ⟨_, _, _, hfree⟩ => hfree
    · rw [hmissing]
      exact .inr rfl

/-! ## One directory after the other -/

/-- The path of the first parts of another path. -/
structure IsFront (path : PathText) (front : List PathText) (start : PathText) : Prop where
  isSpelled : IsSpelled start
  isAbsolute : Path.isAbsolute start = Path.isAbsolute path
  parts : Path.parts start = front ∨ Path.parts start = front ++ [("" : PathText)]

theorem isFront_ofReversedParts {part : PathText} (hspelled : IsSpelled path)
    (hfront : front ++ [part] <+: Path.parts path) :
    IsFront path (front ++ [part]) (Path.ofReversedParts (part :: front.reverse)) := by
  obtain ⟨rest, hrest⟩ := hfront
  have hreverse : (part :: front.reverse).reverse = front ++ [part] := by simp
  obtain ⟨hne, ⟨tail, hpath⟩, hparts⟩ := Path.exists_ofReversedParts hspelled.nonempty
    (List.cons_ne_nil part front.reverse) (by rw [hreverse, hrest])
  rw [hreverse] at hparts
  exact ⟨hspelled.front hpath hne, by rw [← Path.isAbsolute_append hne tail, ← hpath], hparts⟩

theorem IsFront.followFor {start : PathText} (h : IsFront path front start)
    (row : List PathText) : files.followFor start row = files.followFor path row := by
  unfold FileSystem.followFor
  rw [h.isAbsolute]

theorem IsFront.find {start : PathText} (h : IsFront path front start)
    (htrail : files.followFor path front = .ok trail)
    (hend : files.endOf trail = .directory entries) :
    files.find start = .ok (.directory entries) := by
  rw [find_eq, h.isSpelled.trailTo, h.followFor]
  refine map_eq_ok.2 ⟨trail, ?_, hend⟩
  rcases h.parts with hparts | hparts
  · rw [hparts, htrail]
  · rw [hparts, followFor_append, htrail]
    exact follow_idle rfl hend

/-- The spot of the first parts of a path, of which the last one is not empty. -/
theorem IsFront.exists_spot {start part : PathText} (h : IsFront path (front ++ [part]) start)
    (hpart : part ≠ "") : ∃ slashed, files.spot start = do
      let above ← files.followFor path (front ++ [("" : PathText)])
      return { above, name := part, slashed } := by
  rcases h.parts with hparts | hparts
  · exact ⟨_, by rw [h.isSpelled.spot_eq hparts hpart (List.forall_mem_nil _), h.followFor]⟩
  · rw [List.append_assoc] at hparts
    have hempty : ∀ part ∈ [("" : PathText)], part = "" := fun _ => List.mem_singleton.1
    exact ⟨_, by rw [h.isSpelled.spot_eq hparts hpart hempty, h.followFor]⟩

/-- A directory is made under a name that is free. -/
theorem IsFront.makeDirectory {start part : PathText} (h : IsFront path (front ++ [part]) start)
    (htrail : files.followFor path front = .ok trail)
    (hend : files.endOf trail = .directory entries) (hsize : part.size ≤ maxName)
    (hidle : ¬Path.isIdle part) (hdots : part ≠ "..") (hlookup : entries.lookup part = none) :
    files.makeDirectory start = .ok (files.putAt (placeOf trail ++ [part]) (.directory [])) := by
  have hnames : part ≠ "" ∧ part ≠ "." := by simpa [Path.isIdle] using hidle
  have habove : files.followFor path (front ++ [("" : PathText)]) = .ok trail := by
    rw [followFor_append, htrail]
    exact follow_idle rfl hend
  obtain ⟨slashed, hspot⟩ : ∃ slashed, files.spot start = do
      let above ← files.followFor path (front ++ [("" : PathText)])
      return { above, name := part, slashed } := h.exists_spot hnames.1
  rw [habove] at hspot
  have hnamed : (Spot.mk trail part slashed).isNamed = true := by
    simp [Spot.isNamed, hnames.2, hdots]
  have hfree : files.occupant? (Spot.mk trail part slashed) = none := by
    rw [occupant?, hend]
    exact hlookup
  rw [makeDirectory_of_spot hspot, makeDirectoryAt, hnamed, hfree, if_neg (Nat.not_lt.2 hsize)]
  rfl

/-- No directory is made below what is missing. -/
theorem IsFront.makeDirectory_of_missing {start part : PathText}
    (h : IsFront path (front ++ [part]) start) (hpart : part ≠ "")
    (hmissing : files.followFor path front = .error .notFound) :
    files.makeDirectory start = .error .notFound := by
  obtain ⟨slashed, hspot⟩ : ∃ slashed, files.spot start = do
      let above ← files.followFor path (front ++ [("" : PathText)])
      return { above, name := part, slashed } := h.exists_spot hpart
  rw [FileSystem.makeDirectory, hspot, followFor_append, hmissing]
  rfl

/-- What is put under a name is found on the way that ends in that name. -/
theorem exists_followFor_putAt {part : PathText} (htrail : files.followFor path front = .ok trail)
    (hkeeps : files.Keeps (files.putAt (placeOf trail ++ [part]) (.directory [])))
    (hdirectory : files.root.kindAt? (placeOf trail) = some .directory)
    (hsize : part.size ≤ maxName) :
    ∃ reached, (files.putAt (placeOf trail ++ [part]) (.directory [])).followFor path
      (front ++ [part]) = .ok reached := by
  obtain ⟨trail', htrail', hplace⟩ := hkeeps.followFor htrail
  have hput : (files.root.put (.directory []) (placeOf trail ++ [part])).at?
      (placeOf trail ++ [part]) = some (.directory []) := Entry.at?_put_concat hdirectory
  rw [Entry.at?_concat, ← hplace] at hput
  obtain ⟨above, habove, hchild⟩ := Option.bind_eq_some_iff.1 hput
  rw [followFor_append, htrail']
  rw [hplace] at habove
  have hend := (isTrail_of_followFor htrail').at?_place
  rw [hplace] at hend
  have hend := habove.symm.trans hend
  cases above with
  | file | special => cases hchild
  | directory entries =>
    have hlookup : entries.lookup part = some (.directory []) := hchild
    rcases follow_or_free (Option.some.inj hend).symm hsize with hreached | ⟨-, -, hfree, -⟩
    · exact hreached
    · rw [hlookup] at hfree
      cases hfree

/-- What is still missing on the way of a path was missing before. -/
theorem Prepares.isMissing {part : PathText} (h : files.Prepares path later)
    (hfront : front ++ [part] <+: Path.parts path) (htrail : later.followFor path front = .ok trail)
    (hidle : ¬Path.isIdle part) (hdots : part ≠ "..")
    (hfree : later.root.at? (placeOf trail ++ [part]) = none) :
    files.IsMissing path (placeOf trail ++ [part]) := by
  refine ⟨front ++ [part], hfront, ?_, ?_⟩
  · rw [placeFor_concat, step, if_neg hidle, if_neg hdots, placeOf_followFor htrail, h.placeFor]
  · by_contra hfound
    obtain ⟨entry, hentry⟩ := Option.ne_none_iff_exists'.1 hfound
    have hkind := h.kinds _ _ (Entry.kindAt?_of_at? hentry)
    rw [Entry.kindAt?, hfree] at hkind
    cases hkind

/-- The next directory on the way of a clear path is there or can be made. -/
theorem IsClear.exists_provides {part : PathText} (h : files.IsClear path)
    (hlater : files.Prepares path later) (hfront : front ++ [part] <+: Path.parts path)
    (htrail : later.followFor path front = .ok trail) :
    ∃ next reached, Files.Provides later (Path.ofReversedParts (part :: front.reverse)) next
      ∧ files.Prepares path next ∧ next.followFor path (front ++ [part]) = .ok reached := by
  have hstart := isFront_ofReversedParts h.isSpelled hfront
  have habove : front <+: Path.parts path := (List.prefix_append _ _).trans hfront
  have hsize : part.size ≤ maxName := h.size part (hfront.subset List.mem_concat_self)
  obtain ⟨entries, hend⟩ := h.exists_endOf hlater habove htrail
  have hsame : later.followFor path (front ++ [part]) = later.follow trail [part] := by
    rw [followFor_append, htrail]
    rfl
  rcases follow_or_free hend hsize with ⟨reached, hreached⟩ | ⟨hidle, hdots, hlookup, -⟩
  · have hreached := hsame.trans hreached
    obtain ⟨below, hbelow⟩ := h.exists_endOf hlater hfront hreached
    have hfound := hstart.find hreached hbelow
    exact ⟨later, reached, .inr ⟨makeDirectory_of_find hfound, rfl, below, hfound⟩, hlater,
      hreached⟩
  · have hplace := (isTrail_of_followFor htrail).at?_place
    rw [hend] at hplace
    have hdirectory : later.root.kindAt? (placeOf trail) = some .directory :=
      Entry.kindAt?_of_at? hplace
    have hfree : later.root.at? (placeOf trail ++ [part]) = none := by
      rw [Entry.at?_concat, hplace]
      exact hlookup
    have hmissing := hlater.isMissing hfront htrail hidle hdots hfree
    have hmake := hstart.makeDirectory htrail hend hsize hidle hdots hlookup
    obtain ⟨reached, hreached⟩ := exists_followFor_putAt htrail
      (keeps_putAt hdirectory hfree (.directory [])) hdirectory hsize
    exact ⟨_, reached, .inl hmake, hlater.put hdirectory hfree hmissing, hreached⟩

/-- All directories on the way of a clear path are there or can be made. -/
theorem IsClear.exists_ensure (h : files.IsClear path) (hsound : files.IsSound)
    (hfront : front <+: Path.parts path) :
    ∃ later trail, (Files.ensureDirectories (Path.ancestorsFrom front.reverse) :
        StateM FileSystem _) files = (.ok (), later)
      ∧ files.Prepares path later ∧ later.followFor path front = .ok trail := by
  induction front using List.reverseRecOn with
  | nil =>
    obtain ⟨trail, htrail⟩ := hsound.exists_followFor_nil path
    exact ⟨files, trail, rfl, prepares_refl files path, htrail⟩
  | append_singleton front part ih =>
    have habove : front <+: Path.parts path := (List.prefix_append _ _).trans hfront
    obtain ⟨later, trail, hmade, hlater, htrail⟩ := ih habove
    rw [List.reverse_append, List.reverse_singleton, List.singleton_append, Path.ancestorsFrom]
    by_cases hidle : Path.isIdle part ∧ front.reverse ≠ []
    · obtain ⟨entries, hend⟩ := h.exists_endOf hlater habove htrail
      rw [if_pos hidle]
      refine ⟨later, trail, hmade, hlater, ?_⟩
      rw [followFor_append, htrail]
      exact follow_idle hidle.1 hend
    · rw [if_neg hidle]
      rcases h.follow_or_missing hsound habove with ⟨first, hfirst⟩ | hmissing
      · obtain ⟨next, reached, hprovides, hnext⟩ :=
          h.exists_provides (prepares_refl files path) hfront hfirst
        exact ⟨next, reached, hprovides.run_ensureDirectories, hnext⟩
      · -- A way on which something is missing has a part before, so that this one is not idle.
        have hpart : part ≠ "" := by
          rintro rfl
          refine hidle ⟨rfl, fun hnil => ?_⟩
          rw [List.reverse_eq_nil_iff.1 hnil] at hmissing
          obtain ⟨first, hfirst⟩ := hsound.exists_followFor_nil path
          rw [hfirst] at hmissing
          cases hmissing
        have hmake := (isFront_ofReversedParts h.isSpelled hfront).makeDirectory_of_missing hpart
          hmissing
        obtain ⟨next, reached, hprovides, hnext⟩ := h.exists_provides hlater hfront htrail
        exact ⟨next, reached, hprovides.run_ensureDirectories_of_missing hmake hmade, hnext⟩

/-! ## Vacant outputs -/

/-- An output path names an empty directory, or nothing where one can be made. It is outside of the
input. What is missing on its way is neither in the input nor in the output, as it could be where
two dots follow. -/
structure IsVacant (files : FileSystem) (input output : PathText) : Prop extends
    files.IsClear output where
  empty : ∀ entry, files.root.at? (files.placeNamed output) = some entry → entry = .directory []
  outside : ¬files.placeNamed input <+: files.placeNamed output
  detours : ∀ place, files.IsMissing output place → ¬files.placeNamed input <+: place
    ∧ (files.placeNamed output <+: place → place = files.placeNamed output)

theorem IsSound.placeFor_nil (h : files.IsSound) (hname : IsFileName name) :
    files.placeFor name [] = files.current := by
  obtain ⟨entries, hdirectory⟩ := Entry.kindAt?_eq_directory.1 h.current
  rw [placeFor, Path.IsFileName.isAbsolute hname, if_neg Bool.false_ne_true,
    foldl_step_names (h.isTree.isFileName hdirectory)]
  rfl

theorem IsSound.placeNamed_name (h : files.IsSound) (hname : IsFileName name) :
    files.placeNamed name = files.current ++ [name] := by
  have hidle : ¬Path.isIdle name := by simp [Path.IsFileName.isIdle hname]
  rw [placeNamed, Path.parts_of_noSlash hname.noSlash]
  refine (placeFor_concat [] name).trans ?_
  rw [h.placeFor_nil hname, step, if_neg hidle, if_neg hname.notDots]

/-- A name that nothing bears in the current directory is a vacant output, unless the input is that
directory or one above it. -/
theorem isVacant_of_name {input : PathText} {tree : Entry} (hsound : files.IsSound)
    (hname : IsFileName name) (hfree : files.root.at? (files.current ++ [name]) = none)
    (hinput : files.root.at? (files.placeNamed input) = some tree)
    (hcurrent : ¬files.placeNamed input <+: files.current) : files.IsVacant input name := by
  have hparts : Path.parts name = [name] := Path.parts_of_noSlash hname.noSlash
  have hnamed := hsound.placeNamed_name hname
  rw [← hnamed] at hfree
  have houtside : ¬files.placeNamed input <+: files.placeNamed name := by
    intro hfront
    rw [hnamed] at hfront
    rcases List.prefix_concat_iff.1 hfront with hsame | hfront
    · rw [hsame, ← hnamed, hfree] at hinput
      cases hinput
    · exact hcurrent hfront
  -- The path leads over the current directory and the place that it names, and nothing else.
  have hfronts : ∀ front, front <+: Path.parts name →
      files.placeFor name front = files.current ∨
        files.placeFor name front = files.placeNamed name := by
    intro front hfront
    rw [hparts, ← List.nil_append [name]] at hfront
    rcases List.prefix_concat_iff.1 hfront with rfl | hfront
    · exact .inr (by rw [placeNamed, hparts, List.nil_append])
    · rw [List.prefix_nil.1 hfront]
      exact .inl (hsound.placeFor_nil hname)
  refine ⟨⟨⟨hname.nonempty, hname.noNul, Nat.lt_of_le_of_lt hname.size (by decide)⟩, ?_, ?_⟩, ?_,
    houtside, ?_⟩
  · rw [hparts, List.forall_mem_singleton]
    exact hname.size
  · intro front hfront kind hkind
    rcases hfronts front hfront with hplace | hplace
    · rw [hplace, hsound.current] at hkind
      exact (Option.some.inj hkind).symm
    · rw [hplace, Entry.kindAt?, hfree] at hkind
      cases hkind
  · intro entry hentry
    rw [hfree] at hentry
    cases hentry
  · rintro place ⟨front, hfront, rfl, hnone⟩
    rcases hfronts front hfront with hplace | hplace
    · obtain ⟨entries, hdirectory⟩ := Entry.kindAt?_eq_directory.1 hsound.current
      rw [hplace, hdirectory] at hnone
      cases hnone
    · rw [hplace]
      exact ⟨houtside, fun _ => rfl⟩

/-- A directory that is made on the way to an output is not in it. -/
theorem IsVacant.eq_nil {input output : PathText} (h : files.IsVacant input output)
    (hprepares : files.Prepares output later)
    (hfound : later.root.at? (files.placeNamed output) = some (.directory entries)) :
    entries = [] := by
  cases hbefore : files.root.at? (files.placeNamed output) with
  | some entry =>
    have hlater := hprepares.stays _ _ hbefore fun place hmissing hbelow => by
      rw [(h.detours place hmissing).2 hbelow] at hmissing
      obtain ⟨-, -, -, hnone⟩ := hmissing
      rw [hbefore] at hnone
      cases hnone
    rw [hfound, h.empty entry hbefore] at hlater
    cases hlater
    rfl
  | none =>
    cases entries with
    | nil => rfl
    | cons item entries =>
      have hitem : later.root.at? (files.placeNamed output ++ [item.1]) = some item.2 := by
        rw [Entry.at?_concat, hfound]
        exact List.lookup_cons_self
      rcases hprepares.only _ _ (Entry.kindAt?_of_at? hitem) with hkind | ⟨-, hmissing⟩
      · rw [Entry.kindAt?, Entry.at?_append, hbefore] at hkind
        cases hkind
      · have hsame := (h.detours _ hmissing).2 (List.prefix_append _ _)
        simp at hsame

/-- The output of a batch is made before anything is written: it is an empty directory then, and
the input is what it was. -/
theorem IsVacant.exists_made {input output : PathText} {tree : Entry}
    (h : files.IsVacant input output) (hsound : files.IsSound)
    (hinput : files.root.at? (files.placeNamed input) = some tree) :
    ∃ made, (Files.ensureDirectories (Path.ancestors output) : StateM FileSystem _) files =
        (.ok (), made)
      ∧ files.Keeps made ∧ made.Leads output (files.placeNamed output)
      ∧ made.root.at? (files.placeNamed output) = some (.directory [])
      ∧ made.root.at? (files.placeNamed input) = some tree := by
  obtain ⟨made, trail, hmade, hprepares, htrail⟩ := h.exists_ensure hsound List.prefix_rfl
  obtain ⟨entries, hend⟩ := h.exists_endOf hprepares List.prefix_rfl htrail
  have hplace : placeOf trail = files.placeNamed output := by
    rw [placeOf_followFor htrail, hprepares.placeFor]
    rfl
  have hfound := (isTrail_of_followFor htrail).at?_place
  rw [hplace, hend] at hfound
  obtain rfl := h.eq_nil hprepares hfound
  refine ⟨made, ?_, hprepares.toKeeps, ⟨trail, ?_, hplace⟩, hfound, ?_⟩
  · rw [Path.ancestors, if_neg h.isSpelled.nonempty, hmade]
  · rw [h.isSpelled.trailTo, htrail]
  · exact hprepares.stays _ _ hinput fun place hmissing => (h.detours place hmissing).1

end FileSystem

end ClassStub
