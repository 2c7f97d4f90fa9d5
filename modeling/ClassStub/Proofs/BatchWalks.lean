import ClassStub.Batch
import ClassStub.Proofs.GrownOutputs
import ClassStub.Proofs.SortedWalks
import ClassStub.Proofs.StubFailures

/-! # Walks of a batch

A batch whose walk is sorted does with the class files of a tree, in the order of the walk, what
`Batch.take` does with them: it adds up what was written and skipped, and keeps the stubs with their
places. The files under the output are these stubs at every moment, also behind a failure. -/

namespace ClassStub

/-! ## Class files -/

namespace Entry

/-- Whether a place is that of a class file. -/
def isClassPlace (place : Place) : Bool :=
  place.getLast?.bind Path.extension? == some ("class" : PathText)

/-- What is found at a place, if it is a regular file whose name is that of a class file. -/
def classFile? (found : Place × Entry) : Option (Place × Bytes) :=
  if isClassPlace found.1 then found.2.content?.map (found.1, ·) else none

/-- The class files of a tree in the order of a walk. -/
def classFiles (entry : Entry) : List (Place × Bytes) :=
  entry.walkOrder.filterMap classFile?

variable {entry found : Entry} {place : Place} {content : Bytes}

theorem content?_eq_some : entry.content? = some content ↔ entry = .file content := by
  cases entry with
  | file other => exact ⟨fun h => congrArg file (Option.some.inj h), fun h => by cases h; rfl⟩
  | directory entries => exact ⟨nofun, nofun⟩
  | special => exact ⟨nofun, nofun⟩

theorem classFile?_of_content?_eq_none (h : found.content? = none) :
    classFile? (place, found) = none := by
  rw [classFile?, h, Option.map_none, ite_self]

theorem classFile?_eq_some {file : Place × Bytes} :
    classFile? (place, found) = some file ↔
      isClassPlace place ∧ file.1 = place ∧ found = .file file.2 := by
  unfold classFile?
  cases isClassPlace place with
  | false => simp
  | true =>
    rw [if_pos rfl, Option.map_eq_some_iff]
    constructor
    · rintro ⟨content, hcontent, rfl⟩
      exact ⟨rfl, rfl, content?_eq_some.1 hcontent⟩
    · rintro ⟨-, rfl, rfl⟩
      exact ⟨file.2, rfl, rfl⟩

theorem mem_classFiles (h : entry.IsTree) :
    (place, content) ∈ entry.classFiles ↔
      entry.at? place = some (.file content) ∧ isClassPlace place := by
  rw [classFiles, List.mem_filterMap]
  constructor
  · rintro ⟨⟨other, found⟩, hfound, hfile⟩
    obtain ⟨hclass, rfl, rfl⟩ := classFile?_eq_some.1 hfile
    exact ⟨(mem_walkOrder h).1 hfound, hclass⟩
  · rintro ⟨hfound, hclass⟩
    exact ⟨_, (mem_walkOrder h).2 hfound, classFile?_eq_some.2 ⟨hclass, rfl, rfl⟩⟩

theorem nodup_classFiles (h : entry.IsTree) : (entry.classFiles.map Prod.fst).Nodup := by
  rw [classFiles, List.Nodup, List.pairwise_map, List.pairwise_filterMap]
  refine (List.pairwise_map.1 (nodup_walkOrder h)).imp fun hne => ?_
  intro file hfile file' hfile'
  obtain ⟨-, hplace, -⟩ := classFile?_eq_some.1 hfile
  obtain ⟨-, hplace', -⟩ := classFile?_eq_some.1 hfile'
  rwa [hplace, hplace']

end Entry

/-! ## Operations in a batch -/

namespace Batch

variable {α β : Type} {config : Config}

theorem run_ofExcept (result : Except StubError α) (files : FileSystem) :
    (ExceptT.mk (pure result) : BatchT (StateM FileSystem) α) files = (result, files) :=
  rfl

/-- A run goes on behind an operation that succeeds. -/
theorem run_attempt_bind {files after : FileSystem} {value : α}
    {operation : StateM FileSystem (Except FileError α)} (h : operation files = (.ok value, after))
    (wrap : FileError → StubError) (next : α → BatchT (StateM FileSystem) β) :
    (attempt wrap operation >>= next) files = next value after := by
  have hlift : (liftM operation : BatchT (StateM FileSystem) (Except FileError α)) files =
      (.ok (operation files).1, (operation files).2) := rfl
  have hattempt : (attempt wrap operation : BatchT (StateM FileSystem) α) files =
      (.ok value, after) := by
    rw [attempt, run_bind, hlift, h]
    rfl
  rw [run_bind, hattempt]

/-- An operation that succeeds and leaves the files as they are. -/
theorem mimics_attempt {σ : Type} {holds : FileSystem → σ → Prop} {wrap : FileError → StubError}
    {operation : StateM FileSystem (Except FileError α)} {value : α}
    {next : α → BatchT (StateM FileSystem) β} {other : BatchT (StateM σ) β}
    (hrun : ∀ files stubs, holds files stubs → operation files = (.ok value, files))
    (hnext : Mimics holds (next value) other) :
    Mimics holds (attempt wrap operation >>= next) other := by
  intro files stubs h
  rw [run_attempt_bind (hrun files stubs h)]
  exact hnext files stubs h

theorem run_read {files : FileSystem} {path : PathText} {content : Bytes}
    (h : files.find path = .ok (.file content)) :
    (MonadFiles.read path : StateM FileSystem _) files = (.ok content, files) := by
  change (files.read path, files) = _
  rw [FileSystem.read, h]
  rfl

/-! ## What becomes of a class file -/

/-- Whether a class is left out: an anonymous or local one, if these are not wanted. -/
def isLeftOut (config : Config) (content : Bytes) : Bool :=
  config.skipAnonymous &&
    match readSurface content with
    | .ok surface => surface.isAnonymousOrLocal
    | .error _ => false

/-- Count a class file, and keep its stub with its place unless it is left out. -/
def take (config : Config) (summary : BatchSummary) (file : Place × Bytes) :
    BatchT (StateM (List (Place × Bytes))) BatchSummary := fun stubs =>
  if isLeftOut config file.2 then (.ok { summary with skipped := summary.skipped + 1 }, stubs)
  else
    match stubClass file.2 config with
    | .ok stub =>
      (.ok { summary with written := summary.written + 1 },
        (file.1, stub) :: stubs.filter fun other => other.1 ≠ file.1)
    | .error error => (.error error, stubs)

/-- Take what a walk comes to, if it is a class file. -/
def takeFound (config : Config) (summary : BatchSummary) (found : Place × Entry) :
    BatchT (StateM (List (Place × Bytes))) BatchSummary :=
  match Entry.classFile? found with
  | some file => take config summary file
  | none => pure summary

theorem foldlM_classFiles (config : Config) (tree : Entry) (summary : BatchSummary) :
    tree.classFiles.foldlM (take config) summary =
      tree.walkOrder.foldlM (takeFound config) summary := by
  rw [Entry.classFiles, List.foldlM_filterMap]
  congr 1
  funext summary found
  unfold takeFound
  cases Entry.classFile? found <;> rfl

theorem isLeftOut_of_error {content : Bytes} {error : StubError}
    (h : readSurface content = .error error) (config : Config) :
    isLeftOut config content = false := by
  rw [isLeftOut, h, Bool.and_false]

theorem isLeftOut_of_ok {content : Bytes} {surface : Surface}
    (h : readSurface content = .ok surface) (config : Config) :
    isLeftOut config content = (config.skipAnonymous && surface.isAnonymousOrLocal) := by
  rw [isLeftOut, h]

/-- A batch whose output is an empty directory, or is missing and can be made, and is apart from its
input. -/
structure Setting (first made : FileSystem) (input output : PathText)
    (inputPlace outputPlace : Place) (tree : Entry) : Prop where
  isOutput : made.IsOutput output outputPlace tree
  found : first.find input = .ok tree
  leads : made.Leads input inputPlace
  kept : made.root.at? inputPlace = some tree
  notBelow : ¬inputPlace <+: outputPlace
  notAbove : ¬outputPlace <+: inputPlace
  inputShort : ∀ place kind, place ≠ [] → tree.kindAt? place = some kind →
    (Path.descend input place).size < FileSystem.maxPath
  outputShort : ∀ place content, tree.at? place = some (.file content) →
    Entry.isClassPlace place → (Path.descend output place).size < FileSystem.maxPath

/-- The files under the output are the stubs. -/
def OutputHolds (first made : FileSystem) (output : PathText) (outputPlace : Place) (tree : Entry)
    (files : FileSystem) (stubs : List (Place × Bytes)) : Prop :=
  ∃ entry, FileSystem.Holds first made output outputPlace tree entry files
    ∧ entry.files.Perm stubs

/-- A batch has begun, and has not yet ended. -/
def IsUnderway (first made : FileSystem) (output : PathText) (outputPlace : Place) (tree : Entry)
    (files : FileSystem) : Prop :=
  ∃ stubs, OutputHolds first made output outputPlace tree files stubs

variable {first made files : FileSystem} {input output : PathText} {inputPlace outputPlace : Place}
  {tree entry : Entry} {stubs : List (Place × Bytes)} {summary : BatchSummary}

/-- Everything in the input stays as it was. -/
theorem Setting.shows (hset : Setting first made input output inputPlace outputPlace tree)
    (h : FileSystem.Holds first made output outputPlace tree entry files) :
    files.Shows input tree := by
  refine FileSystem.shows_of_find hset.isOutput.isTree ?_ hset.inputShort
  cases h with
  | missing hmissing hmakes => exact hset.found
  | grown h =>
    refine (hset.leads.keep (h.keeps hset.isOutput.empty)).find ?_
    rw [h.apart _ hset.notAbove hset.notBelow]
    exact hset.kept

/-- A class file is stubbed into its place under the output. -/
theorem Setting.stubFile (hset : Setting first made input output inputPlace outputPlace tree)
    {place : Place} {content : Bytes} (hfound : tree.at? place = some (.file content))
    (hclass : Entry.isClassPlace place) :
    Mimics (OutputHolds first made output outputPlace tree)
      (Batch.stubFile config (Path.descend input place) (Path.descend output place) summary)
      (take config summary (place, content)) := by
  obtain rfl | ⟨above, name, rfl⟩ := List.eq_nil_or_concat' place
  · cases hclass
  have hkind : tree.kindAt? (above ++ [name]) = some .file := Entry.kindAt?_of_at? hfound
  unfold Batch.stubFile
  refine mimics_attempt
    (fun files stubs h => run_read (hset.shows h.choose_spec.1 _ _ hfound)) ?_
  rintro files stubs ⟨entry, h, hperm⟩
  unfold take
  rw [run_bind, run_ofExcept]
  cases hreads : readSurface content with
  | error error =>
    rw [isLeftOut_of_error hreads, stubClass_of_error hreads]
    exact ⟨rfl, entry, h, hperm⟩
  | ok surface =>
    rw [isLeftOut_of_ok hreads, stubClass_of_ok hreads]
    dsimp only
    cases config.skipAnonymous && surface.isAnonymousOrLocal with
    | true => exact ⟨rfl, entry, h, hperm⟩
    | false =>
      rw [if_neg Bool.false_ne_true, if_neg Bool.false_ne_true]
      have hshort := hset.outputShort _ _ hfound hclass
      obtain ⟨middle, grown, hensure, hmiddle, hdirectory, hsame⟩ :=
        h.exists_ensureParent hset.isOutput hkind hshort
      rw [run_attempt_bind hensure, run_bind, run_ofExcept]
      cases surface.toStub config with
      | error error => exact ⟨rfl, grown, .grown hmiddle, hsame.trans hperm⟩
      | ok stub =>
        obtain ⟨later, grown', hwrite, hlater, hfiles⟩ :=
          hmiddle.exists_write hset.isOutput hdirectory hkind hshort
        dsimp only
        rw [run_attempt_bind (Files.run_write_of_ok hwrite)]
        refine ⟨rfl, grown', .grown hlater, hfiles.trans ?_⟩
        exact ((hsame.trans hperm).filter _).cons _

theorem isClassFile_descend {place : Place} (hinput : input ≠ "")
    (hnames : ∀ name ∈ place, IsFileName name) (hne : place ≠ []) :
    isClassFile (Path.descend input place) = Entry.isClassPlace place := by
  cases place using List.reverseRecOn with
  | nil => exact absurd rfl hne
  | append_singleton above name =>
    obtain ⟨habove, hname⟩ := List.forall_mem_append.1 hnames
    have hname := List.forall_mem_singleton.1 hname
    rw [isClassFile, Path.descend_concat,
      Path.fileExtension?_join (Path.descend_ne_empty hinput habove) hname, Entry.isClassPlace,
      List.getLast?_concat, Option.bind_some]

/-- A class file stands below the directory where the walk begins. -/
theorem Setting.isClassFile (hset : Setting first made input output inputPlace outputPlace tree)
    {place : Place} {content : Bytes} (hfound : tree.at? place = some (.file content)) :
    place ≠ [] ∧ isClassFile (Path.descend input place) = Entry.isClassPlace place := by
  have hne : place ≠ [] := by
    rintro rfl
    cases hfound
    cases hset.isOutput.isDirectory
  exact ⟨hne, isClassFile_descend hset.leads.isSpelled.nonempty
    (hset.isOutput.isTree.isFileName hfound) hne⟩

/-- The path at which the stub of a class file is written. -/
theorem Setting.join_stripPrefix
    (hset : Setting first made input output inputPlace outputPlace tree) {place : Place}
    {found : Entry} (hfound : tree.at? place = some found) (hne : place ≠ []) :
    Path.join output ((Path.stripPrefix? (Path.descend input place) input).getD
      (Path.descend input place)) = Path.descend output place := by
  have hnames := hset.isOutput.isTree.isFileName hfound
  rw [Path.stripPrefix?_descend hset.leads.isSpelled.nonempty hnames, Option.getD_some,
    Path.join_ofParts hne hnames]

/-- A batch takes the class files that its walk comes to, and passes by everything else. -/
theorem Setting.visit (hset : Setting first made input output inputPlace outputPlace tree)
    {place : Place} {found : Entry} (hfound : tree.at? place = some found)
    (summary : BatchSummary) :
    Mimics (OutputHolds first made output outputPlace tree)
      (Batch.visit input output config summary (.ok ⟨Path.descend input place, found.kind⟩))
      (takeFound config summary (place, found)) := by
  rw [Batch.visit, takeFound]
  cases found with
  | directory | special =>
    rw [if_pos (.inl (by simp [Entry.kind])), Entry.classFile?_of_content?_eq_none rfl]
    exact .pure summary
  | file content =>
    obtain ⟨hne, hsame⟩ := hset.isClassFile hfound
    cases hclass : Entry.isClassPlace place with
    | false =>
      rw [if_pos (.inr (by simp [hsame, hclass])), Entry.classFile?, hclass,
        if_neg Bool.false_ne_true]
      exact .pure summary
    | true =>
      rw [if_neg (by simp [Entry.kind, hsame, hclass]), Entry.classFile?, hclass, if_pos rfl]
      dsimp only
      rw [hset.join_stripPrefix hfound hne]
      exact hset.stubFile hfound hclass

/-- A batch takes the class files of its input, one after the other. -/
theorem Setting.stubTree (hset : Setting first made input output inputPlace outputPlace tree)
    [walker : MonadWalk (StateM FileSystem)] (hwalk : walker.IsSorted) :
    Mimics (OutputHolds first made output outputPlace tree) (Batch.stubTree input output config)
      (tree.classFiles.foldlM (take config) {}) := by
  have htree := hset.isOutput.isTree
  have hvisit : ∀ summary, ∀ found ∈ tree.walkOrder,
      Mimics (OutputHolds first made output outputPlace tree)
        (Batch.visit input output config summary (.ok ⟨Path.descend input found.1, found.2.kind⟩))
        (takeFound config summary found) :=
    fun summary found hfound => hset.visit ((Entry.mem_walkOrder htree).1 hfound) summary
  have hshows : ∀ files, IsUnderway first made output outputPlace tree files →
      files.Shows input tree := fun files ⟨stubs, entry, hfiles, _⟩ => hset.shows hfiles
  have hstays : ∀ entry ∈ tree.walked input, ∀ summary files,
      IsUnderway first made output outputPlace tree files →
      IsUnderway first made output outputPlace tree
        ((Batch.visit input output config summary (.ok entry) : BatchT (StateM FileSystem) _)
          files).2 := by
    rintro entry hentry summary files ⟨stubs, hfiles⟩
    obtain ⟨found, hfound, rfl⟩ := List.mem_map.1 hentry
    exact ⟨_, (hvisit summary found hfound files stubs hfiles).2⟩
  have hfold : Mimics (OutputHolds first made output outputPlace tree)
      ((tree.walked input).foldlM
        (fun summary entry => Batch.visit input output config summary (.ok entry)) {})
      (tree.classFiles.foldlM (take config) {}) := by
    rw [Entry.walked, List.foldlM_map, foldlM_classFiles]
    exact .foldlM (fun found hfound summary => hvisit summary found hfound) _
  intro files stubs hfiles
  have hrun := hwalk.walk_eq htree hshows hstays ({} : BatchSummary) files ⟨stubs, hfiles⟩
  rw [Batch.stubTree, hrun]
  exact hfold files stubs hfiles

end Batch

end ClassStub
