import AssetBundler.Failure
import AssetBundler.Name

/-!
# Search path

Logical paths are looked up below an ordered list of root folders. In one folder the name itself is
tried first, then the name with each extension, the preferred ones before the configured ones. A hit
that is a folder stands for its index file where it has one. Absolute paths are taken as they are.
-/

namespace AssetBundler

structure SearchPath where
  roots : List Path
  extensions : List String
  deriving DecidableEq, Repr

namespace SearchPath

/-- Adds normalised extensions that are not yet there. -/
def addExtensions (known exts : List String) : List String :=
  exts.foldl (fun acc e ↦
    let e := normalizeExtension e
    if acc.contains e then acc else acc ++ [e]) known

def appendExtensions (s : SearchPath) (exts : List String) : SearchPath :=
  { s with extensions := addExtensions s.extensions exts }

/-- A search path with canonical roots. -/
def create (here : List String) (roots : List Path) (exts : List String) : SearchPath :=
  ⟨roots.map (Path.resolve here), addExtensions [] exts⟩

/-- All extensions in the order in which they are tried. -/
def order (s : SearchPath) (preferred : List String) : List String :=
  let first := (preferred.filter fun e ↦ e ≠ "").map normalizeExtension
  first ++ s.extensions.filter fun e ↦ !first.contains e

/-- The first candidate that passes a test of the disk. -/
def firstSuch (test : Path → Except Disk.Error Bool) : List Path → Except Disk.Error (Option Path)
  | [] => .ok none
  | p :: ps => do
    if ← test p then return some p
    firstSuch test ps

def indexCandidates (s : SearchPath) (folder : Path) (preferred : List String) : List Path :=
  (s.order preferred).map fun e ↦ folder.join ("index" ++ e)

/-- The index file of a folder. -/
def findIndex (s : SearchPath) (d : Disk) (folder : Path) (preferred : List String) :
    Except Disk.Error (Option Path) :=
  firstSuch d.isFile (s.indexCandidates folder preferred)

def candidates (s : SearchPath) (base : Path) (name : String) (preferred : List String) :
    List Path :=
  base.join name :: (s.order preferred).map fun e ↦ base.join (name ++ e)

/-- The index file in the place of a folder that has one; any other path as it is. -/
def withIndex (s : SearchPath) (d : Disk) (found : Path) (preferred : List String) (index : Bool) :
    Except Disk.Error Path := do
  if index then
    if ← d.isFolder found then return (← s.findIndex d found preferred).getD found
  return found

/-- Looks a name up in one folder. -/
def resolveIn (s : SearchPath) (d : Disk) (base : Path) (name : String) (preferred : List String)
    (index : Bool) : Except Disk.Error (Option Path) := do
  match ← firstSuch d.exists? (s.candidates base name preferred) with
  | none => return none
  | some found => return some (d.resolve (← s.withIndex d found preferred index))

/-- Looks a name up in one folder after another. -/
def resolveInRoots (s : SearchPath) (d : Disk) (name : String) (preferred : List String)
    (index : Bool) : List Path → Except Disk.Error (Option Path)
  | [] => .ok none
  | root :: roots => do
    match ← s.resolveIn d root name preferred index with
    | some found => return some found
    | none => s.resolveInRoots d name preferred index roots

/-- The canonical path that a logical path stands for. -/
def resolve (s : SearchPath) (d : Disk) (logical : String) (preferred : List String)
    (index : Bool) : Except Disk.Error (Option Path) := do
  if isAbsolute logical then
    return some (d.resolve (← s.withIndex d (Path.ofText logical) preferred index))
  else s.resolveInRoots d logical preferred index s.roots

end SearchPath

end AssetBundler
