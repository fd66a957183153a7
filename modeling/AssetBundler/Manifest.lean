import AssetBundler.Disk.Text
import AssetBundler.Json.Printer
import AssetBundler.Json.Reader
import AssetBundler.Name
import AssetBundler.Table

/-!
# Manifests

A manifest maps the names of assets to the names they are published under. It is kept in memory in
the order of writing and on disk, beside the published files, as JSON with sorted keys. Names are
written with slashes as separators. Each change rewrites the whole file.
-/

namespace AssetBundler

structure Manifest where
  /-- The file, once a folder has been loaded. -/
  path : Option Path
  entries : Table String String
  deriving DecidableEq

namespace Manifest

def fileName : String := ".manifest.json"

def empty : Manifest := ⟨none, []⟩

/-- The text of the file that holds the entries. -/
def render (entries : Table String String) : String :=
  Json.print (.indented 2)
    (.map ((entries.mergeSort fun a b ↦ a.1 ≤ b.1).map fun e ↦ (.text e.1, .text e.2)))

/-- The entries that a file holds; names and values of any kind are read by their display form. -/
def entriesOf (path : Path) (text : String) : Except Failure (Table String String) :=
  match Json.read text with
  | .error .malformed => .error (.corruptManifest path)
  | .error .longInteger => .error (.notText path)
  | .ok (.map fields) => .ok (.ofEntries (fields.map fun f ↦ (f.1.display, f.2.display)))
  | .ok _ => .error (.manifestNotFields path)

/-- The entries of a file, none if there is no file. -/
def readEntries (d : Disk) (path : Path) : Except Failure (Table String String) := do
  if ← Disk.orFail (d.isFile path) then entriesOf path (← d.readText path) else return []

/-- The state of an action: a manifest and the disk that holds its file. -/
structure Store where
  disk : Disk
  manifest : Manifest

abbrev Action := EStateM Failure Store

/-- Turns to the manifest of a folder. The old entries are gone even if its file cannot be read. -/
def load (folder : Path) : Action Unit := do
  let path := folder.join fileName
  modify fun s ↦ { s with manifest := ⟨some path, []⟩ }
  match readEntries (← get).disk path with
  | .ok entries => modify fun s ↦ { s with manifest := ⟨some path, entries⟩ }
  | .error e => throw e

def get? (m : Manifest) (name : String) : Option String := m.entries.get? name

def contains (m : Manifest) (name : String) : Bool := m.entries.contains name

/-- Writes the file. -/
def save : Action Unit := fun s ↦
  match s.manifest.path with
  | none => .error .manifestNotLoaded s
  | some path =>
    match Disk.writeText path (render s.manifest.entries) s.disk with
    | .ok _ disk => .ok () { s with disk }
    | .error e disk => .error (.notWritten path e) { s with disk }

/-- Records the published name of an asset. -/
def add (name published : String) : Action Unit := do
  modify fun s ↦ { s with manifest :=
    { s.manifest with entries := s.manifest.entries.insert (toSlashes name) published } }
  save

/-- Forgets every entry, removes the file, and says whether there was one. -/
def delete : Action Bool := fun s ↦
  let s := { s with manifest := { s.manifest with entries := [] } }
  match s.manifest.path with
  | none => .ok false s
  | some path =>
    match Disk.remove path s.disk with
    | .ok removed disk => .ok removed { s with disk }
    | .error e disk => .error (.disk e) { s with disk }

end Manifest

end AssetBundler
