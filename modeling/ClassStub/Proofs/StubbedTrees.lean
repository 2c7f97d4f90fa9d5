import ClassStub.Proofs.BatchWalks
import ClassStub.Proofs.HiddenParts
import ClassStub.Proofs.VerifiedReading

/-! # Stubbed trees

A batch stubs all class files of a tree, or those before the first one that it refuses. Behind it
the output holds the stubs and nothing else. -/

namespace ClassStub

/-- The files under a path, each with its place there. -/
def FileSystem.filesUnder (files : FileSystem) (path : PathText) : List (Place × Bytes) :=
  match files.find path with
  | .ok entry => entry.files
  | .error _ => []

namespace Batch

variable {config : Config} {classFiles before stubs : List (Place × Bytes)} {file : Place × Bytes}
  {content stub : Bytes} {error : StubError} {summary : BatchSummary}

/-! ## Accepted and refused class files -/

/-- A class can be read, and has a stub unless it is left out. -/
def Accepts (config : Config) (content : Bytes) : Prop :=
  (∃ surface, readSurface content = .ok surface)
    ∧ (isLeftOut config content = false → ∃ stub, stubClass content config = .ok stub)

/-- A class that is not left out has no stub. One that cannot be read is refused as well. -/
def Refuses (config : Config) (content : Bytes) (error : StubError) : Prop :=
  isLeftOut config content = false ∧ stubClass content config = .error error

theorem accepts_of_leftOut (h : isLeftOut config content = true) : Accepts config content := by
  refine ⟨?_, fun hkept => ?_⟩
  · cases hread : readSurface content with
    | ok surface => exact ⟨surface, rfl⟩
    | error error =>
      rw [isLeftOut_of_error hread] at h
      cases h
  · rw [hkept] at h
    cases h

theorem accepts_of_stub (h : stubClass content config = .ok stub) : Accepts config content := by
  obtain ⟨surface, hsurface, -⟩ := bind_eq_ok.1 h
  exact ⟨⟨surface, hsurface⟩, fun _ => ⟨stub, h⟩⟩

theorem Refuses.not_accepts (h : Refuses config content error) : ¬Accepts config content := by
  intro haccepts
  obtain ⟨stub, hstub⟩ := haccepts.2 h.1
  rw [h.2] at hstub
  cases hstub

/-! ## What a batch leaves -/

/-- These are the stubs of the class files that are not left out, each at the place of its class
file. -/
structure AreStubs (config : Config) (classFiles stubs : List (Place × Bytes)) : Prop where
  distinct : (stubs.map Prod.fst).Nodup
  mem_iff : ∀ place stub, (place, stub) ∈ stubs ↔
    ∃ content, (place, content) ∈ classFiles ∧ isLeftOut config content = false
      ∧ stubClass content config = .ok stub

/-- The summary of class files: all are counted, and those that are left out as skipped. -/
structure Counts (config : Config) (classFiles : List (Place × Bytes)) (summary : BatchSummary) :
    Prop where
  total : summary.written + summary.skipped = classFiles.length
  skipped : summary.skipped = classFiles.countP fun file => isLeftOut config file.2

theorem areStubs_nil (config : Config) : AreStubs config [] [] where
  distinct := .nil
  mem_iff _ _ := ⟨nofun, fun ⟨_, hmem, _⟩ => nomatch hmem⟩

theorem counts_nil (config : Config) : Counts config [] {} :=
  ⟨rfl, rfl⟩

/-- The stubs are determined by the class files, up to their order. -/
theorem AreStubs.perm_of_areStubs {others : List (Place × Bytes)}
    (h : AreStubs config classFiles stubs) (hothers : AreStubs config classFiles others) :
    stubs.Perm others :=
  (List.perm_ext_iff_of_nodup h.distinct.of_map hothers.distinct.of_map).2 fun (place, stub) =>
    (h.mem_iff place stub).trans (hothers.mem_iff place stub).symm

/-- The summary is determined by the class files. -/
theorem Counts.eq_of_counts {total : BatchSummary} (h : Counts config classFiles summary)
    (htotal : Counts config classFiles total) : summary = total := by
  have hskipped : summary.skipped = total.skipped := h.skipped.trans htotal.skipped.symm
  have hwritten : summary.written = total.written := by
    have hsum := h.total.trans htotal.total.symm
    omega
  cases summary
  cases total
  exact congrArg₂ BatchSummary.mk hwritten hskipped

theorem AreStubs.perm {others : List (Place × Bytes)} (h : AreStubs config classFiles stubs)
    (hperm : others.Perm stubs) : AreStubs config classFiles others where
  distinct := (hperm.map Prod.fst).nodup_iff.2 h.distinct
  mem_iff place stub := hperm.mem_iff.trans (h.mem_iff place stub)

theorem AreStubs.leaveOut (h : AreStubs config before stubs)
    (hleft : isLeftOut config file.2 = true) :
    AreStubs config (before ++ [file]) stubs where
  distinct := h.distinct
  mem_iff place stub := by
    rw [h.mem_iff]
    refine exists_congr fun content => ?_
    constructor
    · exact fun ⟨hmem, hrest⟩ => ⟨List.mem_append_left _ hmem, hrest⟩
    · rintro ⟨hmem, hkept, hstub⟩
      rcases List.mem_append.1 hmem with hmem | hmem
      · exact ⟨hmem, hkept, hstub⟩
      · obtain rfl := List.mem_singleton.1 hmem
        rw [hkept] at hleft
        cases hleft

theorem AreStubs.fresh (h : AreStubs config before stubs) (hfresh : file.1 ∉ before.map Prod.fst) :
    file.1 ∉ stubs.map Prod.fst := by
  intro hmem
  obtain ⟨other, hother, hplace⟩ := List.mem_map.1 hmem
  obtain ⟨content, hcontent, -⟩ := (h.mem_iff other.1 other.2).1 hother
  exact hfresh (List.mem_map.2 ⟨_, hcontent, hplace⟩)

theorem AreStubs.keep (h : AreStubs config before stubs) (hfresh : file.1 ∉ before.map Prod.fst)
    (hkept : isLeftOut config file.2 = false) (hstub : stubClass file.2 config = .ok stub) :
    AreStubs config (before ++ [file]) ((file.1, stub) :: stubs) where
  distinct := List.nodup_cons.2 ⟨h.fresh hfresh, h.distinct⟩
  mem_iff place other := by
    rw [List.mem_cons, h.mem_iff]
    constructor
    · rintro (heq | ⟨content, hmem, hrest⟩)
      · cases heq
        exact ⟨file.2, List.mem_concat_self .., hkept, hstub⟩
      · exact ⟨content, List.mem_append_left _ hmem, hrest⟩
    · rintro ⟨content, hmem, hrest, hother⟩
      rcases List.mem_append.1 hmem with hmem | hmem
      · exact .inr ⟨content, hmem, hrest, hother⟩
      · obtain rfl := List.mem_singleton.1 hmem
        rw [hstub] at hother
        cases hother
        exact .inl rfl

theorem Counts.leaveOut (h : Counts config before summary)
    (hleft : isLeftOut config file.2 = true) :
    Counts config (before ++ [file]) ⟨summary.written, summary.skipped + 1⟩ where
  total := by
    rw [List.length_append, ← h.total]
    rfl
  skipped := by
    rw [List.countP_append, ← h.skipped, List.countP_singleton, if_pos hleft]

theorem Counts.keep (h : Counts config before summary)
    (hkept : isLeftOut config file.2 = false) :
    Counts config (before ++ [file]) ⟨summary.written + 1, summary.skipped⟩ where
  total := by
    rw [List.length_append, ← h.total]
    exact Nat.add_right_comm ..
  skipped := by
    rw [List.countP_append, ← h.skipped, List.countP_singleton, if_neg (by simp [hkept])]
    rfl

/-! ## Taking class files one after the other -/

/-- A class file is left out, or its stub is kept, or it is refused. -/
theorem take_cases (config : Config) (summary : BatchSummary) (file : Place × Bytes)
    (stubs : List (Place × Bytes)) :
    (isLeftOut config file.2 = true
        ∧ take config summary file stubs = (.ok ⟨summary.written, summary.skipped + 1⟩, stubs))
      ∨ (∃ stub, isLeftOut config file.2 = false ∧ stubClass file.2 config = .ok stub
        ∧ take config summary file stubs =
          (.ok ⟨summary.written + 1, summary.skipped⟩,
            (file.1, stub) :: stubs.filter fun other => other.1 ≠ file.1))
      ∨ ∃ error, Refuses config file.2 error
        ∧ take config summary file stubs = (.error error, stubs) := by
  unfold take Refuses
  cases isLeftOut config file.2 with
  | true => exact .inl ⟨rfl, rfl⟩
  | false =>
    cases stubClass file.2 config with
    | ok stub => exact .inr (.inl ⟨stub, rfl, rfl, rfl⟩)
    | error error => exact .inr (.inr ⟨error, ⟨rfl, rfl⟩, rfl⟩)

theorem foldlM_cons_of_ok {rest : List (Place × Bytes)} {total : BatchSummary}
    {later : List (Place × Bytes)} (h : take config summary file stubs = (.ok total, later)) :
    (file :: rest).foldlM (take config) summary stubs =
      rest.foldlM (take config) total later := by
  rw [List.foldlM_cons, run_bind, h]

theorem foldlM_cons_of_error {rest : List (Place × Bytes)}
    (h : take config summary file stubs = (.error error, stubs)) :
    (file :: rest).foldlM (take config) summary stubs = (.error error, stubs) := by
  rw [List.foldlM_cons, run_bind, h]

/-- How it ends to take the rest of some class files: all are taken, or those before the first one
that is refused. -/
inductive Ends (config : Config) (before rest : List (Place × Bytes)) :
    Except StubError BatchSummary × List (Place × Bytes) → Prop where
  | taken {total : BatchSummary} {later : List (Place × Bytes)}
      (haccepts : ∀ file ∈ rest, Accepts config file.2)
      (hcounts : Counts config (before ++ rest) total)
      (hstubs : AreStubs config (before ++ rest) later) : Ends config before rest (.ok total, later)
  | refused {error : StubError} {front behind later : List (Place × Bytes)} {file : Place × Bytes}
      (hrest : rest = front ++ file :: behind) (haccepts : ∀ file ∈ front, Accepts config file.2)
      (hrefuses : Refuses config file.2 error) (hstubs : AreStubs config (before ++ front) later) :
      Ends config before rest (.error error, later)

theorem Ends.cons {rest : List (Place × Bytes)}
    {result : Except StubError BatchSummary × List (Place × Bytes)}
    (h : Ends config (before ++ [file]) rest result) (hfile : Accepts config file.2) :
    Ends config before (file :: rest) result := by
  cases h with
  | taken haccepts hcounts hstubs =>
    rw [← List.append_cons] at hcounts hstubs
    exact .taken (List.forall_mem_cons.2 ⟨hfile, haccepts⟩) hcounts hstubs
  | refused hrest haccepts hrefuses hstubs =>
    rw [← List.append_cons] at hstubs
    exact .refused (congrArg (file :: ·) hrest) (List.forall_mem_cons.2 ⟨hfile, haccepts⟩) hrefuses
      hstubs

theorem ends_foldlM {rest : List (Place × Bytes)}
    (hdistinct : ((before ++ rest).map Prod.fst).Nodup) (hstubs : AreStubs config before stubs)
    (hcounts : Counts config before summary) :
    Ends config before rest (rest.foldlM (take config) summary stubs) := by
  induction rest generalizing before summary stubs with
  | nil =>
    rw [← List.append_nil before] at hcounts hstubs
    exact .taken (List.forall_mem_nil _) hcounts hstubs
  | cons file rest ih =>
    have hfresh : file.1 ∉ before.map Prod.fst := by
      rw [List.map_append, List.nodup_append] at hdistinct
      exact fun hmem => hdistinct.2.2 _ hmem _ (List.mem_cons_self ..) rfl
    rw [List.append_cons] at hdistinct
    rcases take_cases config summary file stubs with
      ⟨hleft, htake⟩ | ⟨stub, hkept, hstub, htake⟩ | ⟨error, hrefuses, htake⟩
    · rw [foldlM_cons_of_ok htake]
      exact (ih hdistinct (hstubs.leaveOut hleft) (hcounts.leaveOut hleft)).cons
        (accepts_of_leftOut hleft)
    · -- No stub is replaced, because no class file before stands at the same place.
      have hothers : (stubs.filter fun other => other.1 ≠ file.1) = stubs := by
        refine List.filter_eq_self.2 fun other hother => decide_eq_true ?_
        intro hsame
        exact hstubs.fresh hfresh (hsame ▸ List.mem_map_of_mem hother)
      rw [hothers] at htake
      rw [foldlM_cons_of_ok htake]
      exact (ih hdistinct (hstubs.keep hfresh hkept hstub) (hcounts.keep hkept)).cons
        (accepts_of_stub hstub)
    · rw [foldlM_cons_of_error htake]
      rw [← List.append_nil before] at hstubs
      exact .refused rfl (List.forall_mem_nil _) hrefuses hstubs

/-! ## Whole batches -/

variable {files made : FileSystem} {input output : PathText} {inputPlace outputPlace : Place}
  {tree : Entry}

/-- A batch can read its whole input, and the output is outside of it and has no files yet. The
paths in the output are short enough. -/
structure IsReady (files : FileSystem) (input output : PathText) (tree : Entry) : Prop where
  isSound : files.IsSound
  shows : files.Shows input tree
  isDirectory : tree.kind = .directory
  isVacant : files.IsVacant input output
  short : ∀ file ∈ tree.classFiles, (Path.descend output file.1).size < FileSystem.maxPath

namespace IsReady

theorem find (h : IsReady files input output tree) : files.find input = .ok tree :=
  h.shows [] tree rfl

theorem leads (h : IsReady files input output tree) :
    files.Leads input (files.placeNamed input)
      ∧ files.root.at? (files.placeNamed input) = some tree := by
  obtain ⟨place, hleads, hfound⟩ := FileSystem.exists_leads h.find
  obtain rfl := hleads.eq_placeNamed
  exact ⟨hleads, hfound⟩

theorem isTree (h : IsReady files input output tree) : tree.IsTree :=
  h.isSound.isTree.of_at? h.leads.2

/-- There is nothing in the output yet, the input included. -/
theorem notAbove (h : IsReady files input output tree) :
    ¬files.placeNamed output <+: files.placeNamed input := by
  rintro ⟨rest, hrest⟩
  have hinput := h.leads.2
  rw [← hrest, Entry.at?_append] at hinput
  obtain ⟨above, habove, hbelow⟩ := Option.bind_eq_some_iff.1 hinput
  rw [h.isVacant.empty above habove] at hbelow
  cases rest with
  | nil =>
    rw [List.append_nil] at hrest
    exact h.isVacant.outside (hrest ▸ List.prefix_rfl)
  | cons name rest => cases hbelow

theorem inputShort (h : IsReady files input output tree) {place : Place} {kind : FileKind}
    (hkind : tree.kindAt? place = some kind) :
    (Path.descend input place).size < FileSystem.maxPath := by
  obtain ⟨found, hfound, -⟩ := Option.map_eq_some_iff.1 hkind
  obtain ⟨start, hleads, -⟩ := FileSystem.exists_leads (h.shows place found hfound)
  exact hleads.isSpelled.short

theorem setting (h : IsReady files input output tree)
    (hkeeps : files.Keeps made) (hleads : made.Leads output (files.placeNamed output))
    (hempty : made.root.at? (files.placeNamed output) = some (.directory []))
    (hkept : made.root.at? (files.placeNamed input) = some tree) :
    Setting files made input output (files.placeNamed input) (files.placeNamed output) tree where
  isOutput := ⟨hleads, hempty, h.isTree, congrArg some h.isDirectory⟩
  found := h.find
  leads := h.leads.1.keep hkeeps
  kept := hkept
  notBelow := h.isVacant.outside
  notAbove := h.notAbove
  inputShort _ _ _ hkind := h.inputShort hkind
  outputShort _ _ hfound hclass := h.short _ ((Entry.mem_classFiles h.isTree).2 ⟨hfound, hclass⟩)

/-- The output is there, or it is made as soon as there is a stub to be written. -/
theorem exists_setting (h : IsReady files input output tree) :
    ∃ made, Setting files made input output (files.placeNamed input) (files.placeNamed output) tree
      ∧ OutputHolds files made output (files.placeNamed output) tree files [] := by
  have hdirectory : tree.kindAt? [] = some .directory := congrArg some h.isDirectory
  have hspelled := h.isVacant.isSpelled
  rcases h.isVacant.follow_or_missing h.isSound List.prefix_rfl with ⟨trail, htrail⟩ | hmissing
  · have hleads : files.Leads output (files.placeNamed output) :=
      ⟨trail, by rw [hspelled.trailTo, htrail], FileSystem.placeOf_followFor htrail⟩
    have hfound := (FileSystem.isTrail_of_followFor htrail).at?_place
    rw [FileSystem.placeOf_followFor htrail] at hfound
    have hempty := hfound.trans (congrArg some (h.isVacant.empty _ hfound))
    exact ⟨files, h.setting (FileSystem.prepares_refl files output).toKeeps hleads hempty h.leads.2,
      .directory [], .grown (FileSystem.grown_self hempty hdirectory), .rfl⟩
  · obtain ⟨made, hmakes, hkeeps, hleads, hempty, hkept⟩ :=
      h.isVacant.exists_made h.isSound h.leads.2
    exact ⟨made, h.setting hkeeps hleads hempty hkept, .directory [],
      .missing (by rw [hspelled.trailTo, hmissing]) hmakes, .rfl⟩

end IsReady

/-- The files under the output are those of what has grown in it. -/
theorem filesUnder_of_holds {entry : Entry} {place : Place} (hout : made.IsOutput output place tree)
    {later : FileSystem} (h : FileSystem.Holds files made output place tree entry later) :
    later.filesUnder output = entry.files := by
  cases h with
  | missing hmissing hmakes =>
    rw [FileSystem.filesUnder, FileSystem.find_eq, hmissing]
    rfl
  | grown h => rw [FileSystem.filesUnder, (h.leads hout).find h.found]

/-- A batch over a tree of which it accepts all class files counts each of them, and behind it the
output holds the stubs of those that are not left out. Otherwise it fails as the first class file
that it refuses, and the output holds the stubs of those before. -/
theorem stubTree_of_isReady [walker : MonadWalk (StateM FileSystem)] (hwalk : walker.IsSorted)
    (h : IsReady files input output tree) (config : Config) :
    ∃ result after, (stubTree input output config : BatchT (StateM FileSystem) _) files =
        (result, after)
      ∧ ((∀ file ∈ tree.classFiles, Accepts config file.2) →
        ∃ summary, result = .ok summary ∧ Counts config tree.classFiles summary
          ∧ AreStubs config tree.classFiles (after.filesUnder output))
      ∧ ((¬∀ file ∈ tree.classFiles, Accepts config file.2) →
        ∃ before refused behind error, tree.classFiles = before ++ refused :: behind
          ∧ (∀ file ∈ before, Accepts config file.2) ∧ Refuses config refused.2 error
          ∧ result = .error error ∧ AreStubs config before (after.filesUnder output)) := by
  obtain ⟨made, hset, hholds⟩ := h.exists_setting
  have hmimics : Mimics (OutputHolds files made output (files.placeNamed output) tree)
      (stubTree input output config) (tree.classFiles.foldlM (take config) {}) :=
    hset.stubTree hwalk
  have hrun := hmimics files [] hholds
  have hends : Ends config [] tree.classFiles (tree.classFiles.foldlM (take config) {} []) :=
    ends_foldlM (Entry.nodup_classFiles h.isTree) (areStubs_nil config) (counts_nil config)
  generalize tree.classFiles.foldlM (take config) {} [] = taken at hrun hends
  generalize (stubTree input output config : BatchT (StateM FileSystem) _) files = ended at hrun ⊢
  obtain ⟨result, after⟩ := ended
  obtain ⟨hresult, entry, hentry, hperm⟩ := hrun
  obtain rfl : result = taken.1 := hresult
  rw [← filesUnder_of_holds hset.isOutput hentry] at hperm
  refine ⟨_, after, rfl, ?_⟩
  cases hends with
  | taken haccepts hcounts hstubs =>
    exact ⟨fun _ => ⟨_, rfl, hcounts, hstubs.perm hperm⟩, fun hnot => absurd haccepts hnot⟩
  | @refused error front behind later file hrest haccepts hrefuses hstubs =>
    refine ⟨fun hall => ?_, fun _ => ?_⟩
    · have hfile : file ∈ tree.classFiles := by
        rw [hrest]
        exact List.mem_append_right _ (List.mem_cons_self ..)
      exact absurd (hall file hfile) hrefuses.not_accepts
    · exact ⟨front, file, behind, error, hrest, haccepts, hrefuses, rfl, hstubs.perm hperm⟩

/-! ## A tree with two classes -/

/-- A directory with two class files. The second one has any content. -/
def packageWith (content : Bytes) : Entry :=
  .directory [("A.class", .file classWithPrivateField.toBytes), ("B.class", .file content)]

/-- A name of a directory that is not the UTF-8 form of a text. -/
def packageName : PathText :=
  ⟨[0xFF]⟩

/-- The directory in a tree. Beside it are a text file, and a pipe that is named as a class file. -/
def libraryWith (content : Bytes) : Entry :=
  .directory [("notes.txt", .file [0x0A]), ("pipe.class", .special),
    (packageName, packageWith content)]

/-- The tree in the current directory. -/
def filesWith (content : Bytes) : FileSystem :=
  { root := .directory [("in", libraryWith content)] }

theorem walkOrder_packageWith (content : Bytes) :
    (packageWith content).walkOrder =
      [([], packageWith content),
        ([("A.class" : PathText)], .file classWithPrivateField.toBytes),
        ([("B.class" : PathText)], .file content)] := by
  refine (Entry.walkOrder_of_names ?_).trans rfl
  change [("A.class" : PathText), "B.class"].Pairwise _
  decide

theorem walkOrder_libraryWith (content : Bytes) :
    (libraryWith content).walkOrder =
      [([], libraryWith content), ([("notes.txt" : PathText)], .file [0x0A]),
        ([("pipe.class" : PathText)], .special), ([packageName], packageWith content),
        ([packageName, ("A.class" : PathText)], .file classWithPrivateField.toBytes),
        ([packageName, ("B.class" : PathText)], .file content)] := by
  refine (Entry.walkOrder_of_names ?_).trans ?_
  · change [("notes.txt" : PathText), "pipe.class", packageName].Pairwise _
    decide
  · simp only [List.flatMap_cons, List.flatMap_nil, Entry.walkOrderFrom, walkOrder_packageWith]
    rfl

/-- The class files of the package with their places in the tree. -/
def firstClass : Place × Bytes :=
  ([packageName, "A.class"], classWithPrivateField.toBytes)

def secondClass (content : Bytes) : Place × Bytes :=
  ([packageName, "B.class"], content)

theorem classFiles_libraryWith (content : Bytes) :
    (libraryWith content).classFiles = [firstClass, secondClass content] := by
  rw [Entry.classFiles, walkOrder_libraryWith]
  rfl

theorem isTree_libraryWith (content : Bytes) : (libraryWith content).IsTree := by
  have hpackage : (packageWith content).IsTree := by
    refine .directory ?_ ?_ ?_
    · change [("A.class" : PathText), "B.class"].Nodup
      decide
    · simp only [List.forall_mem_cons]
      decide
    · simp only [List.forall_mem_cons]
      exact ⟨.file _, .file _, List.forall_mem_nil _⟩
  refine .directory ?_ ?_ ?_
  · change [("notes.txt" : PathText), "pipe.class", packageName].Nodup
    decide
  · simp only [List.forall_mem_cons]
    decide
  · simp only [List.forall_mem_cons]
    exact ⟨.file _, .special, hpackage, List.forall_mem_nil _⟩

theorem isReady_filesWith (content : Bytes) :
    IsReady (filesWith content) "in" "out" (libraryWith content) := by
  have htree := isTree_libraryWith content
  have hsound : (filesWith content).IsSound := by
    refine ⟨.directory (List.pairwise_singleton _ _) ?_ ?_, rfl⟩
    · have hname : IsFileName "in" := by decide
      exact List.forall_mem_singleton.2 hname
    · exact List.forall_mem_singleton.2 htree
  have hcurrent : ¬[("in" : PathText)] <+: [] := by decide
  have hshort : ∀ found ∈ (libraryWith content).walkOrder,
      (Path.descend "in" found.1).size < FileSystem.maxPath
        ∧ (Path.descend "out" found.1).size < FileSystem.maxPath := by
    rw [walkOrder_libraryWith]
    simp only [List.forall_mem_cons]
    decide
  exact {
    isSound := hsound
    shows := by
      refine FileSystem.shows_of_find htree rfl fun place kind _ hkind => ?_
      obtain ⟨found, hfound, -⟩ := Option.map_eq_some_iff.1 hkind
      exact (hshort _ ((Entry.mem_walkOrder htree).2 hfound)).1
    isDirectory := rfl
    isVacant := FileSystem.isVacant_of_name hsound (by decide) rfl rfl hcurrent
    short := fun file hfile => by
      obtain ⟨hfound, -⟩ := (Entry.mem_classFiles htree).1 hfile
      exact (hshort _ ((Entry.mem_walkOrder htree).2 hfound)).2 }

/-- The class `A` is local. -/
theorem isLeftOut_secondClass :
    isLeftOut ⟨.omit, false, true⟩ (secondClass classWithLinks.toBytes).2 = true := by
  have hparsed := ClassFile.parse_toBytes isEncodable_classWithLinks.isWritable
  have hlink : ({ name := "A", outerName := none, simpleName := some "A", access := ⟨9⟩ } :
      NestedLink) ∈ linkedClass.surface.nested.toList := by
    refine (CanonicalSet.mem_ofList_iff_mem ?_).2 (List.mem_singleton_self _)
    exact CanonicalSet.keysDistinct_of_pairwise (List.pairwise_singleton _ _)
  rw [secondClass, isLeftOut_of_ok (readSurface_of_describes hparsed describes_classWithLinks)]
  exact List.any_eq_true.2 ⟨_, hlink, rfl⟩

theorem isLeftOut_firstClass : isLeftOut ⟨.omit, false, true⟩ firstClass.2 = false := by
  rw [firstClass, isLeftOut_of_ok readSurface_classWithPrivateField]
  simp [Surface.isAnonymousOrLocal, isLocalShape, surfaceOfClassA]

/-- The first class is kept. -/
theorem areStubs_firstClass :
    AreStubs ⟨.omit, false, true⟩ [firstClass]
      [(firstClass.1, (Assembly.selfEnclosed .omit).build.toBytes)] :=
  (areStubs_nil _).keep List.not_mem_nil isLeftOut_firstClass stubClass_classWithPrivateField

/-- A batch over the tree ends well if the second class is local, and leaves it out. If that one is
cut off, the batch fails. Either way the output has the stub of the first class behind it. -/
theorem stubTree_of_isReady_library :
    (inferInstance : MonadWalk (StateM FileSystem)).IsSorted
      ∧ IsReady (filesWith classWithLinks.toBytes) "in" "out" (libraryWith classWithLinks.toBytes)
      ∧ (∃ after, (stubTree "in" "out" ⟨.omit, false, true⟩ : BatchT (StateM FileSystem) _)
            (filesWith classWithLinks.toBytes) = (.ok ⟨1, 1⟩, after)
        ∧ after.filesUnder "out" =
          [(firstClass.1, (Assembly.selfEnclosed .omit).build.toBytes)])
      ∧ IsReady (filesWith []) "in" "out" (libraryWith [])
      ∧ ∃ after, (stubTree "in" "out" ⟨.omit, false, true⟩ : BatchT (StateM FileSystem) _)
            (filesWith []) = (.error (.format (.truncated 0 4)), after)
        ∧ after.filesUnder "out" =
          [(firstClass.1, (Assembly.selfEnclosed .omit).build.toBytes)] := by
  have hwalk := FileSystem.isSorted_walk
  have haccepts : Accepts ⟨.omit, false, true⟩ firstClass.2 :=
    accepts_of_stub stubClass_classWithPrivateField
  refine ⟨hwalk, isReady_filesWith _, ?_, isReady_filesWith _, ?_⟩
  · obtain ⟨result, after, hrun, hends, -⟩ :=
      stubTree_of_isReady hwalk (isReady_filesWith classWithLinks.toBytes) ⟨.omit, false, true⟩
    rw [classFiles_libraryWith] at hends
    obtain ⟨summary, rfl, hcounts, hstubs⟩ := hends (List.forall_mem_cons.2
      ⟨haccepts, List.forall_mem_singleton.2 (accepts_of_leftOut isLeftOut_secondClass)⟩)
    have hexpected := ((counts_nil _).keep isLeftOut_firstClass).leaveOut isLeftOut_secondClass
    obtain rfl := hcounts.eq_of_counts hexpected
    have hperm := hstubs.perm_of_areStubs (areStubs_firstClass.leaveOut isLeftOut_secondClass)
    exact ⟨after, hrun, List.perm_singleton.1 hperm⟩
  · obtain ⟨result, after, hrun, -, hstops⟩ :=
      stubTree_of_isReady hwalk (isReady_filesWith []) ⟨.omit, false, true⟩
    have hrefused : Refuses ⟨.omit, false, true⟩ (secondClass []).2 (.format (.truncated 0 4)) :=
      ⟨rfl, rfl⟩
    rw [classFiles_libraryWith] at hstops
    obtain ⟨before, refused, behind, error, hrest, -, hrefuses, rfl, hstubs⟩ := hstops fun hall =>
      hrefused.not_accepts (hall (secondClass []) (by simp))
    rcases before with _ | ⟨first, _ | ⟨second, before⟩⟩
    · obtain ⟨rfl, -⟩ := List.cons.inj hrest
      exact absurd haccepts hrefuses.not_accepts
    · obtain ⟨hfirst, hbehind⟩ := List.cons.inj hrest
      obtain ⟨hsecond, -⟩ := List.cons.inj hbehind
      subst hfirst hsecond
      cases hrefused.2.symm.trans hrefuses.2
      exact ⟨after, hrun, List.perm_singleton.1 (hstubs.perm_of_areStubs areStubs_firstClass)⟩
    · have hlength := congrArg List.length hrest
      simp at hlength

end Batch

end ClassStub
