import ClassStub.Files

/-! # Sorted walks

A walk over files of which only the listings of directories are known: depth first, a directory
before what is in it, and the names in each directory in order. A directory is listed when the walk
comes to it, so that files which appear in directories still ahead are found. -/

namespace ClassStub

/-- Named items in the order of their names. -/
def sortByName {α : Type} (items : List (PathText × α)) : List (PathText × α) :=
  items.mergeSort fun a b => (compare a.1 b.1).isLE

namespace Files

variable {m : Type → Type} [Monad m] {ε σ : Type}

/-- Walk through an entry. `list` tells the names in a directory, each with the kind of what it
leads to, in any order. Every level of directories makes a path longer, so that `levels` need not
exceed the length of the longest path. -/
def walkEntry (list : PathText → m (Except FileError (List (PathText × FileKind))))
    (visit : σ → Except WalkError WalkEntry → ExceptT ε m σ) :
    Nat → WalkEntry → σ → ExceptT ε m σ
  | 0, ⟨path, .directory⟩, state => do
    visit (← visit state (.ok ⟨path, .directory⟩)) (.error ⟨path, .nameTooLong⟩)
  | levels + 1, ⟨path, .directory⟩, state => do
    let listing ← (list path : m _)
    let state ← visit state (.ok ⟨path, .directory⟩)
    match listing with
    | .ok names =>
      (sortByName names).foldlM (fun state item =>
        walkEntry list visit levels ⟨Path.join path item.1, item.2⟩ state) state
    | .error cause => visit state (.error ⟨path, cause⟩)
  | _, entry, state => visit state (.ok entry)

/-- Walk through what is found at `path`. -/
def walkSorted (kindOf : PathText → m (Except FileError FileKind))
    (list : PathText → m (Except FileError (List (PathText × FileKind)))) (levels : Nat)
    (path : PathText) (visit : σ → Except WalkError WalkEntry → ExceptT ε m σ) (state : σ) :
    ExceptT ε m σ := do
  match ← (kindOf path : m _) with
  | .ok kind => walkEntry list visit levels ⟨path, kind⟩ state
  | .error cause => visit state (.error ⟨path, cause⟩)

end Files

end ClassStub
