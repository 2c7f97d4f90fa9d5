import ClassStub.Proofs.FileTrees
import ClassStub.Proofs.Outcome

/-! # Where paths lead

A path that is followed leads to a place. It leads to the same place as long as what is found on the
way stays what it was, a file or a directory. A name that is joined to a path leads one step
further, or names a spot for something new. -/

namespace ClassStub.FileSystem

variable {files later : FileSystem} {trail reached : Trail} {entry : Entry}
  {entries : List (PathText × Entry)} {path name : PathText} {place : Place}

/-! ## Trails -/

/-- The place at which a trail ends. -/
def placeOf (trail : Trail) : Place :=
  (trail.map Prod.fst).reverse

theorem placeOf_cons (name : PathText) (entry : Entry) (trail : Trail) :
    placeOf ((name, entry) :: trail) = placeOf trail ++ [name] := by
  rw [placeOf, List.map_cons, List.reverse_cons]
  rfl

theorem placeOf_tail (trail : Trail) : placeOf trail.tail = (placeOf trail).dropLast := by
  cases trail with
  | nil => rfl
  | cons step trail => rw [List.tail_cons, placeOf_cons, List.dropLast_concat]

/-- The entries on a trail are those that are found at their places. -/
def IsTrail (files : FileSystem) (trail : Trail) : Prop :=
  ∀ front, front <:+ trail → files.root.at? (placeOf front) = some (files.endOf front)

theorem isTrail_nil : files.IsTrail [] := by
  intro front hfront
  rw [List.suffix_nil.1 hfront]
  rfl

theorem IsTrail.at?_place (h : files.IsTrail trail) :
    files.root.at? (placeOf trail) = some (files.endOf trail) :=
  h trail List.suffix_rfl

theorem IsTrail.tail (h : files.IsTrail trail) : files.IsTrail trail.tail :=
  fun front hfront => h front (hfront.trans (List.tail_suffix trail))

theorem IsTrail.cons (h : files.IsTrail trail) (hend : files.endOf trail = .directory entries)
    (hlookup : entries.lookup name = some entry) : files.IsTrail ((name, entry) :: trail) := by
  intro front hfront
  rcases List.suffix_cons_iff.1 hfront with rfl | hfront
  · rw [placeOf_cons, Entry.at?_concat, h.at?_place, hend]
    exact hlookup
  · exact h front hfront

/-! ## Following -/

theorem follow_cons (trail : Trail) (part : PathText) (rest : List PathText) :
    files.follow trail (part :: rest) = files.follow trail [part] >>= (files.follow · rest) := by
  rw [follow, follow]
  cases files.endOf trail with
  | directory entries =>
    dsimp only
    split
    · rfl
    · split
      · rfl
      · split
        · rfl
        · cases entries.lookup part <;> rfl
  | _ => rfl

theorem follow_append (trail : Trail) (row rest : List PathText) :
    files.follow trail (row ++ rest) = files.follow trail row >>= (files.follow · rest) := by
  induction row generalizing trail with
  | nil => rfl
  | cons part row ih =>
    rw [List.cons_append, follow_cons, follow_cons trail part row, bind_assoc]
    exact congrArg _ (funext ih)

theorem follow_idle {part : PathText} (hidle : Path.isIdle part)
    (hend : files.endOf trail = .directory entries) : files.follow trail [part] = .ok trail := by
  rw [follow, hend]
  dsimp only
  rw [if_pos hidle]
  rfl

/-- A name leads to what bears it in the directory that was reached. -/
theorem follow_name (hname : IsFileName name) (hend : files.endOf trail = .directory entries) :
    files.follow trail [name] =
      match entries.lookup name with
      | some entry => .ok ((name, entry) :: trail)
      | none => .error .notFound := by
  rw [follow, hend]
  dsimp only
  rw [if_neg (by simp [Path.isIdle, hname.nonempty, hname.notDot]), if_neg hname.notDots,
    if_neg (Nat.not_lt.2 hname.size)]
  rfl

/-- The ways in which one part of a path is followed. -/
theorem follow_part_ok {part : PathText} (h : files.follow trail [part] = .ok reached) :
    ∃ entries, files.endOf trail = .directory entries
      ∧ (Path.isIdle part ∧ reached = trail
        ∨ ¬Path.isIdle part ∧ part = ".." ∧ reached = trail.tail
        ∨ ¬Path.isIdle part ∧ part ≠ ".." ∧ part.size ≤ maxName
          ∧ ∃ entry, entries.lookup part = some entry ∧ reached = (part, entry) :: trail) := by
  rw [follow] at h
  cases hend : files.endOf trail with
  | file | special =>
    rw [hend] at h
    cases h
  | directory entries =>
    rw [hend] at h
    refine ⟨entries, rfl, ?_⟩
    dsimp only at h
    by_cases hidle : Path.isIdle part
    · rw [if_pos hidle] at h
      cases h
      exact .inl ⟨hidle, rfl⟩
    · rw [if_neg hidle] at h
      by_cases hdots : part = ".."
      · rw [if_pos hdots] at h
        cases h
        exact .inr (.inl ⟨hidle, hdots, rfl⟩)
      · rw [if_neg hdots] at h
        by_cases hsize : part.size > maxName
        · rw [if_pos hsize] at h
          cases h
        · rw [if_neg hsize] at h
          cases hlookup : entries.lookup part with
          | none =>
            rw [hlookup] at h
            cases h
          | some entry =>
            rw [hlookup] at h
            cases h
            exact .inr (.inr ⟨hidle, hdots, Nat.not_lt.1 hsize, entry, rfl, rfl⟩)

theorem IsTrail.follow {row : List PathText} (h : files.IsTrail trail)
    (hrow : files.follow trail row = .ok reached) : files.IsTrail reached := by
  induction row generalizing trail with
  | nil =>
    cases hrow
    exact h
  | cons part row ih =>
    rw [follow_cons] at hrow
    obtain ⟨next, hpart, hrow⟩ := bind_eq_ok.1 hrow
    refine ih ?_ hrow
    obtain ⟨entries, hend, ⟨-, rfl⟩ | ⟨-, -, rfl⟩ | ⟨-, -, -, entry, hlookup, rfl⟩⟩ :=
      follow_part_ok hpart
    · exact h
    · exact h.tail
    · exact h.cons hend hlookup

/-! ## Files that stay -/

/-- Where there was a file or a directory, there still is one. -/
structure Keeps (files later : FileSystem) : Prop where
  current : later.current = files.current
  kinds : ∀ place kind, files.root.kindAt? place = some kind → later.root.kindAt? place = some kind

theorem Keeps.endOf {trail' : Trail} (hkeeps : files.Keeps later) (h : files.IsTrail trail)
    (h' : later.IsTrail trail') (hplace : placeOf trail' = placeOf trail)
    (hend : files.endOf trail = .directory entries) :
    ∃ entries', later.endOf trail' = .directory entries' := by
  have hkind : files.root.kindAt? (placeOf trail) = some .directory :=
    Entry.kindAt?_eq_directory.2 ⟨entries, hend ▸ h.at?_place⟩
  obtain ⟨entries', hfound⟩ := Entry.kindAt?_eq_directory.1 (hkeeps.kinds _ _ hkind)
  rw [← hplace, h'.at?_place] at hfound
  exact ⟨entries', Option.some.inj hfound⟩

/-- What is followed to a place is still followed to that place. -/
theorem Keeps.follow {trail' : Trail} {row : List PathText} (hkeeps : files.Keeps later)
    (h : files.IsTrail trail) (h' : later.IsTrail trail') (hplace : placeOf trail' = placeOf trail)
    (hrow : files.follow trail row = .ok reached) :
    ∃ reached', later.follow trail' row = .ok reached' ∧ placeOf reached' = placeOf reached := by
  induction row generalizing trail trail' with
  | nil =>
    cases hrow
    exact ⟨trail', rfl, hplace⟩
  | cons part row ih =>
    rw [follow_cons] at hrow ⊢
    obtain ⟨next, hpart, hrow⟩ := bind_eq_ok.1 hrow
    have hnext := h.follow hpart
    suffices hsame :
        ∃ next', later.follow trail' [part] = .ok next' ∧ placeOf next' = placeOf next by
      obtain ⟨next', hpart', hplace'⟩ := hsame
      obtain ⟨reached', hreached', hsame⟩ := ih hnext (h'.follow hpart') hplace' hrow
      exact ⟨reached', bind_eq_ok.2 ⟨next', hpart', hreached'⟩, hsame⟩
    obtain ⟨entries, hend, hcases⟩ := follow_part_ok hpart
    obtain ⟨entries', hend'⟩ := hkeeps.endOf h h' hplace hend
    rw [follow, hend']
    dsimp only
    obtain ⟨hidle, rfl⟩ | ⟨hidle, hdots, rfl⟩ | ⟨hidle, hdots, hsize, entry, hlookup, rfl⟩ := hcases
    · rw [if_pos hidle]
      exact ⟨trail', rfl, hplace⟩
    · rw [if_neg hidle, if_pos hdots]
      exact ⟨trail'.tail, rfl, by rw [placeOf_tail, placeOf_tail, hplace]⟩
    · have hkind : files.root.kindAt? (placeOf trail ++ [part]) = some entry.kind := by
        rw [← placeOf_cons part entry]
        exact Entry.kindAt?_of_at? hnext.at?_place
      have hkind' := hkeeps.kinds _ _ hkind
      rw [Entry.kindAt?, Entry.at?_concat, ← hplace, h'.at?_place, hend'] at hkind'
      obtain ⟨entry', hlookup', -⟩ := Option.map_eq_some_iff.1 hkind'
      have hlookup' : entries'.lookup part = some entry' := hlookup'
      rw [if_neg hidle, if_neg hdots, if_neg (Nat.not_lt.2 hsize), hlookup']
      exact ⟨(part, entry') :: trail', rfl, by rw [placeOf_cons, placeOf_cons, hplace]⟩

/-! ## Paths -/

/-- A path that a file system looks at. -/
structure IsSpelled (path : PathText) : Prop where
  nonempty : path ≠ ""
  noNul : 0 ∉ path.bytes
  short : path.size < maxPath

theorem IsSpelled.checkPath (h : IsSpelled path) : checkPath path = .ok (Path.parts path) := by
  have hnul : path.bytes.contains 0 = false := by simpa using h.noNul
  rw [FileSystem.checkPath, hnul, if_neg Bool.false_ne_true, if_neg h.nonempty,
    if_neg (Nat.not_le.2 h.short)]

theorem isSpelled_of_checkPath {row : List PathText} (h : checkPath path = .ok row) :
    IsSpelled path := by
  unfold FileSystem.checkPath at h
  by_cases hnul : path.bytes.contains 0
  · rw [if_pos hnul] at h
    cases h
  · rw [if_neg hnul] at h
    by_cases hempty : path = ""
    · rw [if_pos hempty] at h
      cases h
    · rw [if_neg hempty] at h
      by_cases hshort : path.size ≥ maxPath
      · rw [if_pos hshort] at h
        cases h
      · exact ⟨hempty, by simpa using hnul, Nat.not_le.1 hshort⟩

/-- The beginning of a path. -/
theorem IsSpelled.front {front tail : PathText} (h : IsSpelled path) (hpath : path = front ++ tail)
    (hfront : front ≠ "") : IsSpelled front where
  nonempty := hfront
  noNul hmem := h.noNul (by rw [hpath, PathText.bytes_append]; exact List.mem_append_left _ hmem)
  short := by
    have hshort := h.short
    rw [hpath, PathText.size_append] at hshort
    omega

theorem IsSpelled.join (h : IsSpelled path) (hname : IsFileName name)
    (hshort : (Path.join path name).size < maxPath) : IsSpelled (Path.join path name) where
  nonempty := Path.join_ne_empty hname.nonempty
  noNul := by
    have hslash : (0 : UInt8) ∉ ("/" : PathText).bytes := by decide
    rw [Path.join_of_relative (Path.IsFileName.isAbsolute hname)]
    split
    · simp [h.noNul, hname.noNul]
    · simp [h.noNul, hname.noNul, hslash]
  short := hshort

/-- A path is shorter than one to which a name is joined. -/
theorem size_lt_of_join (hname : IsFileName name) (hshort : (Path.join path name).size < maxPath) :
    path.size < maxPath :=
  Nat.lt_of_le_of_lt (Path.size_le_join path hname) hshort

theorem IsSpelled.descend {below : Place} (h : IsSpelled path)
    (hnames : ∀ name ∈ below, IsFileName name)
    (hshort : (Path.descend path below).size < maxPath) :
    IsSpelled (Path.descend path below) := by
  induction below using List.reverseRecOn with
  | nil => exact h
  | append_singleton below name ih =>
    obtain ⟨hbelow, hname⟩ := List.forall_mem_append.1 hnames
    have hname := List.forall_mem_singleton.1 hname
    rw [Path.descend_concat] at hshort ⊢
    exact (ih hbelow (size_lt_of_join hname hshort)).join hname hshort

theorem followFor_append (row rest : List PathText) :
    files.followFor path (row ++ rest) = files.followFor path row >>= (files.follow · rest) := by
  unfold followFor
  split
  · exact follow_append _ row rest
  · rw [bind_assoc]
    exact congrArg _ (funext fun trail => follow_append trail row rest)

/-- The trail on which a path leads. -/
def trailTo (files : FileSystem) (path : PathText) : Except FileError Trail := do
  files.followFor path (← checkPath path)

theorem IsSpelled.trailTo (h : IsSpelled path) :
    files.trailTo path = files.followFor path (Path.parts path) := by
  rw [FileSystem.trailTo, h.checkPath]
  rfl

theorem isTrail_of_followFor {row : List PathText} (h : files.followFor path row = .ok trail) :
    files.IsTrail trail := by
  unfold followFor at h
  split at h
  · exact isTrail_nil.follow h
  · obtain ⟨start, hstart, h⟩ := bind_eq_ok.1 h
    exact (isTrail_nil.follow hstart).follow h

theorem Keeps.followFor {row : List PathText} (hkeeps : files.Keeps later)
    (h : files.followFor path row = .ok trail) :
    ∃ trail', later.followFor path row = .ok trail' ∧ placeOf trail' = placeOf trail := by
  unfold FileSystem.followFor at h ⊢
  split at h
  · rename_i habsolute
    rw [if_pos habsolute]
    exact hkeeps.follow isTrail_nil isTrail_nil rfl h
  · rename_i habsolute
    rw [if_neg habsolute]
    obtain ⟨start, hstart, h⟩ := bind_eq_ok.1 h
    rw [← hkeeps.current] at hstart
    obtain ⟨start', hstart', hplace⟩ := hkeeps.follow isTrail_nil isTrail_nil rfl hstart
    have htrail := isTrail_nil.follow hstart
    have htrail' := isTrail_nil.follow hstart'
    obtain ⟨trail', hrow, hsame⟩ := hkeeps.follow htrail htrail' hplace h
    exact ⟨trail', bind_eq_ok.2 ⟨start', hstart', hrow⟩, hsame⟩

/-- A path leads to a place. -/
def Leads (files : FileSystem) (path : PathText) (place : Place) : Prop :=
  ∃ trail, files.trailTo path = .ok trail ∧ placeOf trail = place

theorem isTrail_of_trailTo (h : files.trailTo path = .ok trail) : files.IsTrail trail := by
  obtain ⟨row, -, hrow⟩ := bind_eq_ok.1 h
  exact isTrail_of_followFor hrow

theorem Leads.isSpelled (h : files.Leads path place) : IsSpelled path := by
  obtain ⟨trail, htrail, -⟩ := h
  obtain ⟨row, hrow, -⟩ := bind_eq_ok.1 htrail
  exact isSpelled_of_checkPath hrow

/-- A path that leads to a place still does so where everything stays. -/
theorem Leads.keep (h : files.Leads path place) (hkeeps : files.Keeps later) :
    later.Leads path place := by
  have hspelled := h.isSpelled
  obtain ⟨trail, htrail, rfl⟩ := h
  rw [hspelled.trailTo] at htrail
  obtain ⟨trail', htrail', hplace⟩ := hkeeps.followFor htrail
  exact ⟨trail', by rw [hspelled.trailTo, htrail'], hplace⟩

theorem find_eq (path : PathText) : files.find path = files.endOf <$> files.trailTo path := by
  unfold find FileSystem.trailTo
  cases FileSystem.checkPath path <;> rfl

/-- At the end of a path is what is found at the place to which it leads. -/
theorem Leads.find (h : files.Leads path place) (hfound : files.root.at? place = some entry) :
    files.find path = .ok entry := by
  obtain ⟨trail, htrail, rfl⟩ := h
  rw [(isTrail_of_trailTo htrail).at?_place] at hfound
  rw [find_eq, htrail]
  exact congrArg Except.ok (Option.some.inj hfound)

theorem exists_leads (h : files.find path = .ok entry) :
    ∃ place, files.Leads path place ∧ files.root.at? place = some entry := by
  rw [find_eq] at h
  obtain ⟨trail, htrail, rfl⟩ := map_eq_ok.1 h
  exact ⟨placeOf trail, ⟨trail, htrail, rfl⟩, (isTrail_of_trailTo htrail).at?_place⟩

/-! ## Joined names -/

/-- Idle parts lead nowhere. -/
theorem follow_of_idle {idle : List PathText} (hidle : ∀ part ∈ idle, Path.isIdle part)
    (h : files.follow trail idle = .ok reached) : reached = trail := by
  induction idle generalizing trail with
  | nil =>
    cases h
    rfl
  | cons part idle ih =>
    obtain ⟨hpart, hidle⟩ := List.forall_mem_cons.1 hidle
    rw [follow_cons] at h
    obtain ⟨next, hnext, hrest⟩ := bind_eq_ok.1 h
    obtain ⟨entries, -, ⟨-, rfl⟩ | ⟨hnot, -⟩ | ⟨hnot, -⟩⟩ := follow_part_ok hnext
    · exact ih hidle hrest
    · exact absurd hpart hnot
    · exact absurd hpart hnot

/-- The beginning of a path, up to idle parts, leads to the directory to which the path leads. -/
theorem find_ofReversedParts {row idle : List PathText}
    (hparts : Path.parts path = row.reverse ++ idle) (hrow : row ≠ [])
    (hidle : ∀ part ∈ idle, Path.isIdle part)
    (h : files.find path = .ok (.directory entries)) :
    files.find (Path.ofReversedParts row) = .ok (.directory entries) := by
  rw [find_eq] at h ⊢
  obtain ⟨trail, htrail, hend⟩ := map_eq_ok.1 h
  have hspelled : IsSpelled path := Leads.isSpelled ⟨trail, htrail, rfl⟩
  obtain ⟨hne, ⟨tail, hpath⟩, hsame⟩ :=
    Path.exists_ofReversedParts hspelled.nonempty hrow hparts
  have hfront := hspelled.front hpath hne
  have hfollow : ∀ row', files.followFor path row' =
      files.followFor (Path.ofReversedParts row) row' := by
    intro row'
    unfold followFor
    rw [← Path.isAbsolute_append hne tail, ← hpath]
  rw [hspelled.trailTo, hparts, followFor_append] at htrail
  obtain ⟨reached, hreached, hrest⟩ := bind_eq_ok.1 htrail
  obtain rfl := follow_of_idle hidle hrest
  rw [hfollow] at hreached
  refine map_eq_ok.2 ⟨trail, ?_, hend⟩
  rw [hfront.trailTo]
  rcases hsame with hsame | hsame
  · rw [hsame, hreached]
  · rw [hsame, followFor_append, hreached]
    exact follow_idle rfl hend

/-- Of two slashes in a row one would do. -/
theorem follow_slash (trail : Trail) (part : PathText) (rest : List PathText) :
    files.follow trail ("" :: part :: rest) = files.follow trail (part :: rest) := by
  rw [follow_cons]
  cases hend : files.endOf trail with
  | file | special =>
    have hnone : ∀ part rest, files.follow trail (part :: rest) = .error .notADirectory := by
      intro part rest
      rw [follow, hend]
    rw [hnone, hnone]
    rfl
  | directory entries =>
    rw [follow_idle rfl hend]
    rfl

theorem followFor_join (hpath : path ≠ "") (hname : IsFileName name) (row : List PathText) :
    files.followFor (Path.join path name) row = files.followFor path row := by
  unfold followFor
  rw [Path.isAbsolute_join hpath (Path.IsFileName.isAbsolute hname)]

/-- A path with a name joined to it leads one step further. -/
theorem IsSpelled.trailTo_join (h : IsSpelled path) (hname : IsFileName name)
    (hshort : (Path.join path name).size < maxPath) :
    files.trailTo (Path.join path name) = files.trailTo path >>= (files.follow · [name]) := by
  obtain ⟨front, -, hjoin, hparts⟩ := Path.exists_parts_join h.nonempty hname.noSlash
  rw [(h.join hname hshort).trailTo, h.trailTo, hjoin, followFor_join h.nonempty hname,
    followFor_append]
  rcases hparts with hparts | hparts
  · rw [hparts]
  · rw [hparts, followFor_append, bind_assoc]
    refine congrArg _ (funext fun trail => ?_)
    rw [← follow_append, List.singleton_append, follow_slash]

theorem Leads.join (h : files.Leads path place)
    (hfound : files.root.at? place = some (.directory entries))
    (hlookup : entries.lookup name = some entry) (hname : IsFileName name)
    (hshort : (Path.join path name).size < maxPath) :
    files.Leads (Path.join path name) (place ++ [name]) := by
  have hspelled := h.isSpelled
  obtain ⟨trail, htrail, rfl⟩ := h
  rw [(isTrail_of_trailTo htrail).at?_place] at hfound
  have hend := Option.some.inj hfound
  refine ⟨(name, entry) :: trail, ?_, placeOf_cons name entry trail⟩
  rw [hspelled.trailTo_join hname hshort]
  refine bind_eq_ok.2 ⟨trail, htrail, ?_⟩
  rw [follow_name hname hend, hlookup]

/-- A path with a row of names joined to it leads to what is found under these names. -/
theorem Leads.descend {below : Place} (h : files.Leads path place)
    (hfound : files.root.at? (place ++ below) = some entry)
    (hnames : ∀ name ∈ below, IsFileName name)
    (hshort : (Path.descend path below).size < maxPath) :
    files.Leads (Path.descend path below) (place ++ below) := by
  induction below using List.reverseRecOn generalizing entry with
  | nil => rwa [List.append_nil]
  | append_singleton below name ih =>
    obtain ⟨hbelow, hname⟩ := List.forall_mem_append.1 hnames
    have hname := List.forall_mem_singleton.1 hname
    rw [Path.descend_concat] at hshort ⊢
    rw [← List.append_assoc, Entry.at?_concat] at hfound
    obtain ⟨above, habove, hchild⟩ := Option.bind_eq_some_iff.1 hfound
    cases above with
    | file | special => cases hchild
    | directory entries =>
      have hfront := ih habove hbelow (size_lt_of_join hname hshort)
      rw [← List.append_assoc]
      exact hfront.join habove hchild hname hshort

/-- Below what is missing nothing is found. -/
theorem trailTo_join_of_missing (hspelled : IsSpelled path)
    (h : files.trailTo path = .error .notFound) (hname : IsFileName name)
    (hshort : (Path.join path name).size < maxPath) :
    files.trailTo (Path.join path name) = .error .notFound := by
  rw [hspelled.trailTo_join hname hshort, h]
  rfl

theorem trailTo_descend_of_missing {below : Place} (hspelled : IsSpelled path)
    (h : files.trailTo path = .error .notFound) (hnames : ∀ name ∈ below, IsFileName name)
    (hshort : (Path.descend path below).size < maxPath) :
    files.trailTo (Path.descend path below) = .error .notFound := by
  induction below using List.reverseRecOn with
  | nil => exact h
  | append_singleton below name ih =>
    obtain ⟨hbelow, hname⟩ := List.forall_mem_append.1 hnames
    have hname := List.forall_mem_singleton.1 hname
    rw [Path.descend_concat] at hshort ⊢
    have hfront := size_lt_of_join hname hshort
    exact trailTo_join_of_missing (hspelled.descend hbelow hfront) (ih hbelow hfront) hname hshort

theorem Leads.join_missing (h : files.Leads path place)
    (hfound : files.root.at? place = some (.directory entries))
    (hlookup : entries.lookup name = none) (hname : IsFileName name)
    (hshort : (Path.join path name).size < maxPath) :
    files.trailTo (Path.join path name) = .error .notFound := by
  have hspelled := h.isSpelled
  obtain ⟨trail, htrail, rfl⟩ := h
  rw [(isTrail_of_trailTo htrail).at?_place] at hfound
  rw [hspelled.trailTo_join hname hshort, htrail]
  change files.follow trail [name] = _
  rw [follow_name hname (Option.some.inj hfound), hlookup]

/-- A path with a row of names joined to it leads to nothing if nothing is found under these names,
and nothing but directories is in the way. -/
theorem Leads.descend_missing {below : Place} (h : files.Leads path place)
    (hfound : files.root.at? place = some entry) (hallows : entry.Allows below)
    (hvacant : entry.at? below = none) (hnames : ∀ name ∈ below, IsFileName name)
    (hshort : (Path.descend path below).size < maxPath) :
    files.trailTo (Path.descend path below) = .error .notFound := by
  induction below using List.reverseRecOn with
  | nil => cases hvacant
  | append_singleton below name ih =>
    obtain ⟨hbelow, hname⟩ := List.forall_mem_append.1 hnames
    have hname := List.forall_mem_singleton.1 hname
    rw [Path.descend_concat] at hshort ⊢
    have hfront := size_lt_of_join hname hshort
    cases habove : entry.at? below with
    | none =>
      have hallowed : entry.Allows below := by
        intro above hfront hne
        refine hallows above (hfront.trans (List.prefix_append _ _)) ?_
        rintro rfl
        exact absurd hfront.length_le (by simp)
      have hspelled := h.isSpelled.descend hbelow hfront
      exact trailTo_join_of_missing hspelled (ih hallowed habove hbelow hfront) hname hshort
    | some above =>
      rw [Entry.at?_concat, habove] at hvacant
      have hplace : files.root.at? (place ++ below) = some above := by
        rw [Entry.at?_append, hfound]
        exact habove
      have hleads := h.descend hplace hbelow hfront
      have hdirectory := hallows below (List.prefix_append _ _) (by simp) above.kind
        (Entry.kindAt?_of_at? habove)
      cases above with
      | file | special => cases hdirectory
      | directory entries => exact hleads.join_missing hplace hvacant hname hshort

/-! ## Spots -/

theorem IsSpelled.spot (h : IsSpelled path) :
    files.spot path =
      match (Path.parts path).reverse.dropWhile (· = ("" : PathText)) with
      | name :: above => do
        let above ← files.followFor path (above.reverse ++ [("" : PathText)])
        return {
          above
          name
          slashed := (Path.parts path).reverse.head? == some ("" : PathText) }
      | [] =>
        .ok {
          above := []
          name := "."
          slashed := (Path.parts path).reverse.head? == some ("" : PathText) } := by
  rw [FileSystem.spot, h.checkPath]
  rfl

/-- The spot of a path is named by its last part that is not empty. -/
theorem IsSpelled.spot_eq {above empties : List PathText} {part : PathText} (h : IsSpelled path)
    (hparts : Path.parts path = above ++ part :: empties) (hpart : part ≠ "")
    (hempties : ∀ part ∈ empties, part = "") :
    files.spot path = do
      let above ← files.followFor path (above ++ [("" : PathText)])
      return { above, name := part, slashed := !empties.isEmpty } := by
  have hreversed : (Path.parts path).reverse = empties.reverse ++ part :: above.reverse := by
    rw [hparts]
    simp
  have hdrop : (empties.reverse ++ part :: above.reverse).dropWhile (· = ("" : PathText)) =
      part :: above.reverse := by
    rw [List.dropWhile_append_of_pos, List.dropWhile_cons_of_neg]
    · simpa using hpart
    · exact fun other hother => decide_eq_true (hempties other (List.mem_reverse.1 hother))
  have hslashed : ((empties.reverse ++ part :: above.reverse).head? == some ("" : PathText)) =
      !empties.isEmpty := by
    cases empties using List.reverseRecOn with
    | nil => simpa using hpart
    | append_singleton front last =>
      have hlast := hempties last List.mem_concat_self
      simp [hlast]
  rw [h.spot, hreversed, hdrop, hslashed]
  dsimp only
  rw [List.reverse_reverse]

/-- A path with a name joined to it names the spot of that name. -/
theorem IsSpelled.spot_join (h : IsSpelled path) (hname : IsFileName name)
    (hshort : (Path.join path name).size < maxPath) :
    files.spot (Path.join path name) = do
      let above ← files.trailTo path >>= (files.follow · [("" : PathText)])
      return { above, name, slashed := false } := by
  obtain ⟨front, -, hjoin, hparts⟩ := Path.exists_parts_join h.nonempty hname.noSlash
  have hsame : files.followFor (Path.join path name) (front ++ [("" : PathText)]) =
      files.trailTo path >>= (files.follow · [("" : PathText)]) := by
    rw [followFor_join h.nonempty hname, h.trailTo]
    rcases hparts with hparts | hparts
    · rw [hparts, followFor_append]
    · rw [hparts, followFor_append, bind_assoc]
      refine congrArg _ (funext fun trail => ?_)
      rw [← follow_append, List.singleton_append, follow_slash]
  rw [(h.join hname hshort).spot_eq hjoin hname.nonempty (List.forall_mem_nil _), hsame]
  rfl

/-- The spot of a name in a directory. -/
theorem Leads.exists_spot (h : files.Leads path place)
    (hfound : files.root.at? place = some (.directory entries)) (hname : IsFileName name)
    (hshort : (Path.join path name).size < maxPath) :
    ∃ spot, files.spot (Path.join path name) = .ok spot ∧ spot.name = name ∧ spot.slashed = false
      ∧ spot.isNamed ∧ spot.place = place ++ [name]
      ∧ files.occupant? spot = entries.lookup name := by
  have hspelled := h.isSpelled
  obtain ⟨trail, htrail, rfl⟩ := h
  rw [(isTrail_of_trailTo htrail).at?_place] at hfound
  have hend := Option.some.inj hfound
  refine ⟨{ above := trail, name, slashed := false }, ?_, rfl, rfl, ?_, rfl, ?_⟩
  · rw [hspelled.spot_join hname hshort, htrail]
    change (files.follow trail [("" : PathText)] >>= fun above => _) = _
    rw [follow_idle rfl hend]
    rfl
  · simp [Spot.isNamed, hname.notDot, hname.notDots]
  · rw [occupant?, hend]
    rfl

/-! ## Operations -/

/-- The files with an entry put at a place. -/
def putAt (files : FileSystem) (place : Place) (entry : Entry) : FileSystem :=
  { files with root := files.root.put entry place }

theorem makeDirectory_of_spot {spot : Spot} (h : files.spot path = .ok spot) :
    files.makeDirectory path = files.makeDirectoryAt spot := by
  rw [makeDirectory, h]
  rfl

theorem Leads.makeDirectory_join (h : files.Leads path place)
    (hfound : files.root.at? place = some (.directory entries)) (hname : IsFileName name)
    (hshort : (Path.join path name).size < maxPath) :
    files.makeDirectory (Path.join path name) =
      if (entries.lookup name).isSome then .error .alreadyExists
      else .ok (files.putAt (place ++ [name]) (.directory [])) := by
  obtain ⟨spot, hspot, rfl, -, hnamed, hplace, hoccupant⟩ := h.exists_spot hfound hname hshort
  rw [makeDirectory_of_spot hspot, makeDirectoryAt, hnamed, hoccupant,
    if_neg (Nat.not_lt.2 hname.size), put, hplace]
  rfl

theorem Leads.write_join (h : files.Leads path place)
    (hfound : files.root.at? place = some (.directory entries)) (hname : IsFileName name)
    (hshort : (Path.join path name).size < maxPath) {content : Bytes}
    (hlookup : ∀ entry, entries.lookup name = some entry → entry.kind = .file) :
    files.write (Path.join path name) content =
      .ok (files.putAt (place ++ [name]) (.file content)) := by
  obtain ⟨spot, hspot, rfl, hslashed, hnamed, hplace, hoccupant⟩ :=
    h.exists_spot hfound hname hshort
  have hwrite : files.write (Path.join path spot.name) content = files.writeAt spot content := by
    rw [write, hspot]
    rfl
  rw [hwrite, writeAt, hslashed, hnamed, hoccupant, if_neg (by decide),
    if_neg (Nat.not_lt.2 hname.size), put, hplace]
  cases hentry : entries.lookup spot.name with
  | none => rfl
  | some entry =>
    rw [Option.map_some, hlookup entry hentry]
    rfl

theorem makeDirectory_join_of_missing (hspelled : IsSpelled path)
    (h : files.trailTo path = .error .notFound) (hname : IsFileName name)
    (hshort : (Path.join path name).size < maxPath) :
    files.makeDirectory (Path.join path name) = .error .notFound := by
  unfold makeDirectory
  rw [hspelled.spot_join hname hshort, h]
  rfl

/-- A path to something names a spot that is taken, or a dot or two. -/
theorem exists_spot_of_find (h : files.find path = .ok entry) :
    ∃ spot, files.spot path = .ok spot ∧ (spot.isNamed →
      spot.name.size ≤ maxName ∧ (files.occupant? spot).isSome) := by
  obtain ⟨place, hleads, -⟩ := exists_leads h
  have hspelled := hleads.isSpelled
  obtain ⟨trail, htrail, -⟩ := hleads
  rw [hspelled.trailTo] at htrail
  rcases Path.exists_last (Path.parts path) with
    hall | ⟨above, part, empties, hparts, hpart, hempties⟩
  · have hdrop : (Path.parts path).reverse.dropWhile (· = ("" : PathText)) = [] := by
      rw [← List.append_nil (Path.parts path).reverse, List.dropWhile_append_of_pos, List.dropWhile]
      exact fun part hmem => decide_eq_true (hall part (List.mem_reverse.1 hmem))
    rw [hspelled.spot, hdrop]
    exact ⟨_, rfl, nofun⟩
  · rw [hparts, followFor_append] at htrail
    obtain ⟨reached, hreached, htrail⟩ := bind_eq_ok.1 htrail
    rw [follow_cons] at htrail
    obtain ⟨next, hnext, -⟩ := bind_eq_ok.1 htrail
    obtain ⟨entries, hend, hcases⟩ := follow_part_ok hnext
    have habove : files.followFor path (above ++ [("" : PathText)]) = .ok reached := by
      rw [followFor_append, hreached]
      exact follow_idle rfl hend
    refine ⟨_, by rw [hspelled.spot_eq hparts hpart hempties, habove]; rfl, fun hnamed => ?_⟩
    have hnamed : part ≠ "." ∧ part ≠ ".." := of_decide_eq_true hnamed
    obtain ⟨hidle, -⟩ | ⟨-, hdots, -⟩ | ⟨-, -, hsize, entry, hlookup, -⟩ := hcases
    · simp [Path.isIdle, hpart, hnamed.1] at hidle
    · exact absurd hdots hnamed.2
    · refine ⟨hsize, ?_⟩
      rw [occupant?, hend, Entry.child?, hlookup]
      rfl

/-- No directory is made where something is found already. -/
theorem makeDirectory_of_find (h : files.find path = .ok entry) :
    files.makeDirectory path = .error .alreadyExists := by
  obtain ⟨spot, hspot, htaken⟩ := exists_spot_of_find h
  rw [makeDirectory_of_spot hspot, makeDirectoryAt]
  cases hnamed : spot.isNamed with
  | false => rfl
  | true =>
    obtain ⟨hsize, hoccupant⟩ := htaken hnamed
    rw [if_neg (Nat.not_lt.2 hsize), hoccupant]
    rfl

end ClassStub.FileSystem
