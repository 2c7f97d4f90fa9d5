import Mathlib.Data.List.Nodup
import ClassStub.Files.Walk
import ClassStub.Proofs.FollowedPaths

/-! # Sorted walks

A sorted walk through a tree of files visits everything in it once: depth first, a directory before
what is in it, and the names in each directory in order. `MonadWalk.IsSorted` says this of walks
during which the tree stays what it is; the walks of file systems that are values are sorted. -/

namespace ClassStub

/-! ## The order of a walk -/

namespace Entry

mutual

/-- Everything in a tree with its place, in the order of a walk: depth first, a directory before
what is in it, and the names in each directory in order. -/
def walkOrder : Entry → List (Place × Entry)
  | file content => [([], file content)]
  | directory entries =>
    ([], directory entries) :: (sortByName (walkOrderIn entries)).flatMap fun item =>
      item.2.map fun found => (item.1 :: found.1, found.2)
  | special => [([], special)]

/-- Everything in some trees, by their names. -/
def walkOrderIn : List (PathText × Entry) → List (PathText × List (Place × Entry))
  | [] => []
  | (name, entry) :: rest => (name, entry.walkOrder) :: walkOrderIn rest

end

/-- Everything in a tree that stands at a place. -/
def walkOrderFrom (place : Place) (entry : Entry) : List (Place × Entry) :=
  entry.walkOrder.map fun found => (place ++ found.1, found.2)

/-- What a walk through a tree comes to that is found at a path. -/
def walked (path : PathText) (entry : Entry) : List WalkEntry :=
  entry.walkOrder.map fun found => ⟨Path.descend path found.1, found.2.kind⟩

variable {entry found : Entry} {entries : List (PathText × Entry)} {place : Place}

theorem walkOrderIn_eq (entries : List (PathText × Entry)) :
    walkOrderIn entries = entries.map fun item => (item.1, item.2.walkOrder) := by
  induction entries with
  | nil => rw [walkOrderIn]; rfl
  | cons item entries ih => rw [walkOrderIn, ih]; rfl

theorem walkOrder_directory (entries : List (PathText × Entry)) :
    (directory entries).walkOrder =
      ([], directory entries) :: (sortByName entries).flatMap fun item =>
        item.2.walkOrderFrom [item.1] := by
  have hsorted : sortByName (entries.map fun item => (item.1, item.2.walkOrder)) =
      (sortByName entries).map fun item => (item.1, item.2.walkOrder) :=
    (List.map_mergeSort (by intros; rfl)).symm
  rw [walkOrder, walkOrderIn_eq, hsorted, List.flatMap_map]
  rfl

theorem walkOrderFrom_append (place other : Place) (entry : Entry) :
    entry.walkOrderFrom (place ++ other) =
      (entry.walkOrderFrom other).map fun found => (place ++ found.1, found.2) := by
  simp [walkOrderFrom]

theorem walkOrderFrom_nil (entry : Entry) : entry.walkOrderFrom [] = entry.walkOrder := by
  simp [walkOrderFrom]

/-- A walk through a directory comes to what is in it in the order of the names. -/
theorem walkOrderFrom_directory (place : Place) (entries : List (PathText × Entry)) :
    (directory entries).walkOrderFrom place =
      (place, directory entries) :: (sortByName entries).flatMap fun item =>
        item.2.walkOrderFrom (place ++ [item.1]) := by
  have hrest : ((sortByName entries).flatMap fun item => item.2.walkOrderFrom [item.1]).map
      (fun found => (place ++ found.1, found.2)) =
      (sortByName entries).flatMap fun item => item.2.walkOrderFrom (place ++ [item.1]) := by
    rw [List.map_flatMap]
    exact List.flatMap_congr fun item _ => (walkOrderFrom_append ..).symm
  rw [walkOrderFrom, walkOrder_directory, List.map_cons, hrest, List.append_nil]

theorem mem_sortByName {α : Type} {items : List (PathText × α)} {item : PathText × α} :
    item ∈ sortByName items ↔ item ∈ items :=
  List.mem_mergeSort

/-- Names that are in order are walked as they stand. -/
theorem walkOrder_of_names
    (h : (entries.map Prod.fst).Pairwise fun name other => (compare name other).isLE) :
    (directory entries).walkOrder =
      ([], directory entries) :: entries.flatMap fun item => item.2.walkOrderFrom [item.1] := by
  have hsorted : sortByName entries = entries :=
    List.mergeSort_of_pairwise (List.pairwise_map.1 h)
  rw [walkOrder_directory, hsorted]

/-- A walk comes to everything that is found in a tree. -/
theorem mem_walkOrder (h : entry.IsTree) :
    (place, found) ∈ entry.walkOrder ↔ entry.at? place = some found := by
  induction h generalizing place with
  | file content | special =>
    rw [walkOrder, List.mem_singleton, Prod.mk.injEq]
    cases place with
    | nil => simp [eq_comm]
    | cons name place => simp [at?_cons, child?]
  | @directory entries hdistinct hnames htrees ih =>
    rw [walkOrder_directory, List.mem_cons, List.mem_flatMap, Prod.mk.injEq]
    cases place with
    | nil => simp [walkOrderFrom, eq_comm]
    | cons name place =>
      rw [at?_directory_iff hdistinct]
      constructor
      · rintro (⟨hnil, -⟩ | ⟨item, hitem, hmem⟩)
        · cases hnil
        · obtain ⟨⟨rest, entry⟩, hrest, heq⟩ := List.mem_map.1 hmem
          obtain ⟨hplace, rfl⟩ := Prod.mk.inj heq
          obtain ⟨rfl, rfl⟩ := List.cons.inj hplace
          have hitem := mem_sortByName.1 hitem
          exact ⟨item.2, hitem, (ih item hitem).1 hrest⟩
      · rintro ⟨child, hitem, hrest⟩
        refine .inr ⟨(name, child), mem_sortByName.2 hitem, ?_⟩
        exact List.mem_map.2 ⟨(place, found), (ih _ hitem).2 hrest, rfl⟩

/-- A walk comes to every place once. -/
theorem nodup_walkOrder (h : entry.IsTree) : (entry.walkOrder.map Prod.fst).Nodup := by
  induction h with
  | file content | special =>
    rw [walkOrder]
    exact List.pairwise_singleton _ _
  | @directory entries hdistinct hnames htrees ih =>
    have hplaces : (directory entries).walkOrder.map Prod.fst =
        [] :: (sortByName entries).flatMap fun item =>
          (item.2.walkOrder.map Prod.fst).map (item.1 :: ·) := by
      rw [walkOrder_directory, List.map_cons, List.map_flatMap]
      congr 1
      exact List.flatMap_congr fun item _ => by simp [walkOrderFrom]
    rw [hplaces, List.nodup_cons, List.nodup_flatMap]
    refine ⟨by simp, fun item hitem => ?_, ?_⟩
    · exact (ih item (mem_sortByName.1 hitem)).map fun _ _ heq => (List.cons.inj heq).2
    · have hsorted : ((sortByName entries).map Prod.fst).Nodup :=
        ((List.mergeSort_perm ..).map Prod.fst).nodup_iff.2 hdistinct
      refine (List.pairwise_map.1 hsorted).imp fun hne => ?_
      intro place hplace hplace'
      obtain ⟨rest, -, rfl⟩ := List.mem_map.1 hplace
      obtain ⟨rest', -, heq⟩ := List.mem_map.1 hplace'
      exact hne (List.cons.inj heq).1.symm

end Entry

/-- Everything in a tree is found below a path. -/
def FileSystem.Shows (files : FileSystem) (path : PathText) (tree : Entry) : Prop :=
  ∀ place entry, tree.at? place = some entry → files.find (Path.descend path place) = .ok entry

/-- A tree that is found at a path is shown there, unless paths in it are too long. -/
theorem FileSystem.shows_of_find {files : FileSystem} {path : PathText} {tree : Entry}
    (htree : tree.IsTree) (h : files.find path = .ok tree)
    (hshort : ∀ place kind, place ≠ [] → tree.kindAt? place = some kind →
      (Path.descend path place).size < maxPath) : files.Shows path tree := by
  intro place found hfound
  by_cases hplace : place = []
  · subst hplace
    cases hfound
    exact h
  · obtain ⟨start, hleads, hat⟩ := exists_leads h
    have hbelow : files.root.at? (start ++ place) = some found := by
      rw [Entry.at?_append, hat]
      exact hfound
    have hkind := Entry.kindAt?_of_at? hfound
    exact (hleads.descend hbelow (htree.isFileName hfound) (hshort place _ hplace hkind)).find
      hbelow

/-- What walks are relied on for. A path shows a tree in all files in which `stays` holds, and it
goes on to hold when one of the entries of the tree is visited. Then the walk visits the entries of
the tree one after the other in the order of a walk, until a visit fails. -/
structure MonadWalk.IsSorted (walker : MonadWalk (StateM FileSystem)) : Prop where
  walk_eq : ∀ {ε σ : Type} {path : PathText} {tree : Entry} {stays : FileSystem → Prop}
    {visit : σ → Except WalkError WalkEntry → ExceptT ε (StateM FileSystem) σ}, tree.IsTree →
    (∀ files, stays files → files.Shows path tree) →
    (∀ entry ∈ tree.walked path, ∀ state files, stays files →
      stays (visit state (.ok entry) files).2) →
    ∀ state files, stays files → walker.walk path visit state files =
      (tree.walked path).foldlM (fun state entry => visit state (.ok entry)) state files

/-! ## Runs that do the same -/

variable {ε σ τ α β : Type}

theorem run_bind (run : ExceptT ε (StateM σ) α) (next : α → ExceptT ε (StateM σ) β) (state : σ) :
    (run >>= next) state =
      match run state with
      | (.ok value, after) => next value after
      | (.error error, after) => (.error error, after) := by
  change ExceptT.bindCont next (run state).1 (run state).2 = _
  rcases run state with ⟨_ | _, after⟩ <;> rfl

theorem run_lift_bind (operation : StateM σ α) (next : α → ExceptT ε (StateM σ) β) (state : σ) :
    ((liftM operation : ExceptT ε (StateM σ) α) >>= next) state =
      next (operation state).1 (operation state).2 := by
  rw [run_bind]
  rfl

theorem foldlM_flatMap {m : Type → Type} [Monad m] [LawfulMonad m] {ι : Type} {items : List α}
    {parts : α → List β} {step : ι → β → m ι} (value : ι) :
    (items.flatMap parts).foldlM step value =
      items.foldlM (fun value item => (parts item).foldlM step value) value := by
  induction items generalizing value with
  | nil => rfl
  | cons item items ih =>
    rw [List.flatMap_cons, List.foldlM_append, List.foldlM_cons]
    exact bind_congr ih

/-- From states that are related, the runs end alike in states that are related. -/
def Mimics (related : σ → τ → Prop) (run : ExceptT ε (StateM σ) α)
    (other : ExceptT ε (StateM τ) α) : Prop :=
  ∀ state state', related state state' →
    (run state).1 = (other state').1 ∧ related (run state).2 (other state').2

variable {related : σ → τ → Prop}

namespace Mimics

theorem pure (value : α) : Mimics related (Pure.pure value : ExceptT ε (StateM σ) α)
    (Pure.pure value) :=
  fun _ _ h => ⟨rfl, h⟩

theorem bind {run : ExceptT ε (StateM σ) α} {other : ExceptT ε (StateM τ) α}
    {next : α → ExceptT ε (StateM σ) β} {others : α → ExceptT ε (StateM τ) β}
    (hrun : Mimics related run other)
    (hnext : ∀ value, Mimics related (next value) (others value)) :
    Mimics related (run >>= next) (other >>= others) := by
  intro state state' h
  have hfirst := hrun state state' h
  rw [run_bind, run_bind]
  generalize run state = ended at hfirst ⊢
  generalize other state' = ended' at hfirst ⊢
  obtain ⟨result, after⟩ := ended
  obtain ⟨result', after'⟩ := ended'
  obtain ⟨hsame, hafter⟩ := hfirst
  obtain rfl : result = result' := hsame
  cases result with
  | ok value => exact hnext value after after' hafter
  | error error => exact ⟨rfl, hafter⟩

theorem foldlM {ι : Type} {items : List ι} {step : α → ι → ExceptT ε (StateM σ) α}
    {other : α → ι → ExceptT ε (StateM τ) α}
    (hstep : ∀ item ∈ items, ∀ value, Mimics related (step value item) (other value item))
    (value : α) : Mimics related (items.foldlM step value) (items.foldlM other value) := by
  induction items generalizing value with
  | nil => exact .pure value
  | cons item items ih =>
    obtain ⟨hitem, hitems⟩ := List.forall_mem_cons.1 hstep
    rw [List.foldlM_cons, List.foldlM_cons]
    exact .bind (hitem value) fun next => ih hitems next

/-- An operation that does not change the state. -/
theorem lift_bind {operation : StateM σ α} {value : α} {next : α → ExceptT ε (StateM σ) β}
    {other : ExceptT ε (StateM τ) β}
    (hrun : ∀ state state', related state state' → operation state = (value, state))
    (hnext : Mimics related (next value) other) :
    Mimics related ((liftM operation : ExceptT ε (StateM σ) α) >>= next) other := by
  intro state state' h
  rw [run_lift_bind, hrun state state' h]
  exact hnext state state' h

end Mimics

/-- Both states are the same one, in which `stays` holds. -/
def BothIn (stays : σ → Prop) (state state' : σ) : Prop :=
  state = state' ∧ stays state

theorem mimics_self {stays : σ → Prop} {run : ExceptT ε (StateM σ) α}
    (h : ∀ state, stays state → stays (run state).2) : Mimics (BothIn stays) run run := by
  rintro state _ ⟨rfl, hstays⟩
  exact ⟨rfl, rfl, h state hstays⟩

/-! ## Walks through file systems -/

/-- What is no directory is visited alone. -/
theorem Files.walkEntry_of_ne {m : Type → Type} [Monad m]
    {list : PathText → m (Except FileError (List (PathText × FileKind)))}
    {visit : α → Except WalkError WalkEntry → ExceptT ε m α} {levels : Nat} {entry : WalkEntry}
    (h : entry.kind ≠ .directory) (state : α) :
    Files.walkEntry list visit levels entry state = visit state (.ok entry) := by
  obtain ⟨path, kind⟩ := entry
  cases kind with
  | directory => exact absurd rfl h
  | file | special => cases levels <;> rfl

namespace FileSystem

/-- The names in a directory as an operation. -/
abbrev listM (path : PathText) :
    StateM FileSystem (Except FileError (List (PathText × FileKind))) :=
  return (← get).list path

section

variable {path : PathText} {tree : Entry} {stays : FileSystem → Prop}
  {visit : α → Except WalkError WalkEntry → ExceptT ε (StateM FileSystem) α}

/-- No place in a tree is so deep that a walk does not come to it. -/
theorem Shows.length_lt {files : FileSystem} (h : files.Shows path tree) (htree : tree.IsTree)
    {place : Place} {entry : Entry} (hfound : tree.at? place = some entry) :
    place.length < maxPath := by
  obtain ⟨start, hleads, -⟩ := exists_leads (h place entry hfound)
  exact Nat.lt_of_le_of_lt (Path.length_le_descend (htree.isFileName hfound)) hleads.isSpelled.short

theorem run_listM {files : FileSystem} {entries : List (PathText × Entry)}
    (h : files.find path = .ok (.directory entries)) :
    listM path files = (.ok (entries.map fun item => (item.1, item.2.kind)), files) := by
  change (files.list path, files) = _
  rw [FileSystem.list, h]
  rfl

theorem run_walk {files : FileSystem} (h : files.find path = .ok tree)
    (visit : α → Except WalkError WalkEntry → ExceptT ε (StateM FileSystem) α) (state : α) :
    (MonadWalk.walk path visit state : ExceptT ε (StateM FileSystem) α) files =
      Files.walkEntry listM visit maxPath ⟨path, tree.kind⟩ state files := by
  change Files.walkSorted
    (fun path : PathText => (return ((← get).find path).map Entry.kind : StateM FileSystem _)) listM
    maxPath path visit state files = _
  have hkind : (return ((← get).find path).map Entry.kind : StateM FileSystem _) files =
      (.ok tree.kind, files) := by
    change ((files.find path).map Entry.kind, files) = _
    rw [h]
    rfl
  rw [Files.walkSorted, run_lift_bind, hkind]

/-- A walk that goes through a part of a tree visits what is in that part. -/
theorem mimics_walkEntry
    (hdeep : ∀ place entry, tree.at? place = some entry → place.length < maxPath)
    (hshows : ∀ files, stays files → files.Shows path tree)
    (hvisit : ∀ place entry, tree.at? place = some entry → ∀ state files, stays files →
      stays (visit state (.ok ⟨Path.descend path place, entry.kind⟩) files).2)
    {entry : Entry} (hentry : entry.IsTree) {place : Place} {levels : Nat}
    (hfound : tree.at? place = some entry) (hlevels : levels + place.length = maxPath) (state : α) :
    Mimics (BothIn stays)
      (Files.walkEntry listM visit levels ⟨Path.descend path place, entry.kind⟩ state)
      ((entry.walkOrderFrom place).foldlM (fun state found =>
        visit state (.ok ⟨Path.descend path found.1, found.2.kind⟩)) state) := by
  have hsole : ∀ {place : Place} {entry : Entry}, tree.at? place = some entry → ∀ state,
      Mimics (BothIn stays) (visit state (.ok ⟨Path.descend path place, entry.kind⟩))
        (visit state (.ok ⟨Path.descend path place, entry.kind⟩)) :=
    fun hfound state => mimics_self (hvisit _ _ hfound state)
  induction hentry generalizing place levels state with
  | file | special =>
    rw [Entry.walkOrderFrom, Entry.walkOrder, List.map_singleton, List.append_nil, List.foldlM_cons,
      Files.walkEntry_of_ne]
    · simpa only [List.foldlM_nil, bind_pure] using hsole hfound state
    · exact nofun
  | @directory entries hdistinct hnames htrees ih =>
    -- The levels are not used up, and the listing is that of the tree, whatever was visited.
    have hlevel := hdeep place _ hfound
    obtain ⟨levels, rfl⟩ : ∃ fewer, levels = fewer + 1 := ⟨levels - 1, by omega⟩
    rw [Entry.walkOrderFrom_directory, List.foldlM_cons, Entry.kind, Files.walkEntry]
    refine .lift_bind (fun files _ h => run_listM (hshows files h.2 place _ hfound)) ?_
    refine .bind (hsole hfound state) fun state => ?_
    have hsorted : sortByName (entries.map fun item => (item.1, item.2.kind)) =
        (sortByName entries).map fun item => (item.1, item.2.kind) :=
      (List.map_mergeSort (by intros; rfl)).symm
    dsimp only
    rw [hsorted, List.foldlM_map, foldlM_flatMap]
    refine .foldlM (fun item hitem state => ?_) state
    have hitem := Entry.mem_sortByName.1 hitem
    have hchild : tree.at? (place ++ [item.1]) = some item.2 := by
      rw [Entry.at?_concat, hfound]
      exact (Entry.lookup_eq_some_iff hdistinct).2 hitem
    have hdeeper : levels + (place ++ [item.1]).length = maxPath := by
      rw [List.length_append, List.length_singleton]
      omega
    rw [← Path.descend_concat]
    exact ih item hitem hchild hdeeper state

/-- The walks through file systems that are values are sorted. -/
theorem isSorted_walk : (inferInstance : MonadWalk (StateM FileSystem)).IsSorted where
  walk_eq {ε σ path tree stays visit} htree hshows hvisit state files hstays := by
    have hfound : files.find path = .ok tree := hshows files hstays [] tree rfl
    have hvisits : ∀ place entry, tree.at? place = some entry → ∀ state files, stays files →
        stays (visit state (.ok ⟨Path.descend path place, entry.kind⟩) files).2 :=
      fun place entry hfound =>
        hvisit _ (List.mem_map_of_mem ((Entry.mem_walkOrder htree).2 hfound))
    have hrun := mimics_walkEntry (fun place entry => (hshows files hstays).length_lt htree) hshows
      hvisits htree Entry.at?_nil (Nat.add_zero maxPath) state files files ⟨rfl, hstays⟩
    have hwalked : tree.walked path = (tree.walkOrderFrom []).map
        fun found => ⟨Path.descend path found.1, found.2.kind⟩ := by
      rw [Entry.walkOrderFrom_nil, Entry.walked]
    rw [hwalked, List.foldlM_map, run_walk hfound]
    exact Prod.ext hrun.1 hrun.2.1

end

end FileSystem

end ClassStub
