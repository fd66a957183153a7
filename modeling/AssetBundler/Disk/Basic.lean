import AssetBundler.Disk.Error
import AssetBundler.Disk.Node

/-!
# A disk and what can be read from it

A disk is the tree below its root folder, a working directory and the time that changes are stamped
with. There are no links, so a path is followed name by name: every name but the last has to lead to
a folder, and a double dot leads to the folder above. The reading operations answer for a path as it
is written; the writing ones are in `AssetBundler.Disk.Write`.
-/

namespace AssetBundler

structure Disk where
  top : Node
  /-- The working directory. -/
  here : List String
  now : Nat

namespace Disk

/-- Names of more than 255 bytes cannot exist. -/
def isTooLong (name : String) : Bool := 255 < name.utf8ByteSize

def node? (d : Disk) (place : List String) : Option Node := d.top.get? place

/-- The place that one name leads to from an existing place. -/
def enter (d : Disk) (place : List String) (name : String) : Except Refusal (List String) :=
  match d.node? place with
  | none => .error .notFound
  | some (.file ..) => .error .notFolder
  | some (.folder _ entries) =>
    if name = ".." then .ok place.dropLast
    else if isTooLong name then .error .nameTooLong
    else if (Node.Entries.get? entries name).isSome then .ok (place ++ [name])
    else .error .notFound

/-- The place of an existing file or folder. -/
def locate (d : Disk) (p : Path) : Except Refusal (List String) :=
  p.names.foldlM d.enter (if p.anchor = .none then d.here else [])

/-- The place that a path names or would name, if there is a folder to hold it. -/
def slot (d : Disk) (p : Path) : Except Refusal (List String) :=
  match p.names.getLast? with
  | none => d.locate p
  | some name =>
    if name = ".." then d.locate p
    else do
      let place ← d.locate p.parent
      match d.node? place with
      | some (.folder ..) => if isTooLong name then .error .nameTooLong else .ok (place ++ [name])
      | _ => .error .notFolder

def find (d : Disk) (p : Path) : Except Refusal Node := do
  let place ← d.locate p
  match d.node? place with
  | some n => .ok n
  | none => .error .notFound

/-- The node at a path, none if there is none; only a name that is too long is an error. -/
def find? (d : Disk) (p : Path) : Except Error (Option Node) :=
  match d.find p with
  | .ok n => .ok (some n)
  | .error .nameTooLong => .error (.refused .nameTooLong p)
  | .error _ => .ok none

def exists? (d : Disk) (p : Path) : Except Error Bool := return (← d.find? p).isSome

def isFile (d : Disk) (p : Path) : Except Error Bool := return (← d.find? p).any Node.isFile

def isFolder (d : Disk) (p : Path) : Except Error Bool := return (← d.find? p).any Node.isFolder

def time (d : Disk) (p : Path) : Except Error Nat :=
  match d.find p with
  | .ok n => .ok n.time
  | .error why => .error (.refused why p)

def readBytes (d : Disk) (p : Path) : Except Error ByteArray :=
  match d.find p with
  | .ok (.file bytes _) => .ok bytes
  | .ok (.folder ..) => .error (.refused .isFolder p)
  | .error why => .error (.refused why p)

structure Listed where
  name : String
  path : Path
  isFolder : Bool
  deriving Repr

/-- The entries of a folder, ordered by name. -/
def list (d : Disk) (p : Path) : Except Error (List Listed) :=
  match d.find p with
  | .ok (.folder _ entries) =>
    .ok ((entries.map fun e ↦ ⟨e.1, p.join e.1, e.2.isFolder⟩).mergeSort fun a b ↦ a.name ≤ b.name)
  | .ok (.file ..) => .error (.refused .notFolder p)
  | .error why => .error (.refused why p)

def resolve (d : Disk) (p : Path) : Path := p.resolve d.here

/-- The number of files on the disk. -/
def fileCount (d : Disk) : Nat := d.top.files.length

end Disk

end AssetBundler
