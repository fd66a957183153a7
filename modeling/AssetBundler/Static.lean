import AssetBundler.Asset.Publication

/-!
# Static files

The configuration lists files and folders whose content is published as it is, each below a
destination. A folder is walked through, each folder below it in the order of its entries, and names
that start with a dot are skipped. Ignore patterns leave files out by their path from there. In
production the names carry the digest of the bytes if the configuration says so, and the manifest
records them.
-/

namespace AssetBundler

namespace Static

/-- A file and the path that it is published under, below its destination. -/
structure Source where
  path : Path
  rel : String
  deriving DecidableEq, Repr

def isDotted (name : String) : Bool := name.toList.head? == some '.'

mutual

/-- The files below a node at `path`, the entries of each folder in the order of their names; `lead` is
what comes before the names in the relative paths. -/
def walk (path : Path) (lead : String) : Node → List Source
  | .file .. => []
  | .folder _ entries => ((visits path lead entries).mergeSort fun a b ↦ a.1 ≤ b.1).flatMap Prod.snd

/-- The files that each entry of a folder stands for, with the name of the entry. -/
def visits (path : Path) (lead : String) : List (String × Node) → List (String × List Source)
  | [] => []
  | (name, n) :: rest =>
    let place : Path := ⟨path.anchor, path.names ++ [name]⟩
    let files :=
      if isDotted name then []
      else if n.isFolder then walk place (lead ++ name ++ "/") n
      else [⟨place, lead ++ name⟩]
    (name, files) :: visits path lead rest

end

/-- The files that a source path stands for; none if there is nothing. -/
def sourcesAt (d : Disk) (p : Path) : Except Disk.Error (Option (List Source)) := do
  match ← d.find? p with
  | none => return none
  | some n => return some (if n.isFile then [⟨p, p.name⟩] else walk p "" n)

end Static

namespace Pipeline

/-- Whether static files are published with their digests. -/
def fingerprintsCopies (p : Pipeline) : Bool := p.inProduction && p.config.fingerprintsStaticFiles

/-- The path of a static file on disk. -/
def copyTarget (p : Pipeline) (destination filename : String) : Path :=
  if destination = "" then p.targetPath.join filename
  else (p.targetPath.join destination).join filename

end Pipeline

namespace Site

/-- The name that a static file is published under. A fingerprinted name is recorded. -/
def staticName (destination : String) (source : Static.Source) : Action String := do
  if (← get).pipeline.fingerprintsCopies then
    let bytes ← ask fun s ↦ Disk.orFail (s.disk.readBytes source.path)
    let filename := fingerprintedName source.rel (Sha1.hex bytes)
    ofManifest (Manifest.add (Pipeline.slashed [destination, source.rel])
      (Pipeline.slashed [destination, filename]))
    return filename
  else return source.rel

/-- Copies one file and answers with the path that it is published under. -/
def copyFile (destination : String) (source : Static.Source) : Action String := do
  let filename ← staticName destination source
  let target := (← get).pipeline.copyTarget destination filename
  ofDisk (Disk.copy source.path target) (.notWritten target)
  let url := Pipeline.slashed [destination, filename]
  say .info ("   Copying -> " ++ url)
  return url

/-- Copies everything that a source stands for, but for what is to be skipped. -/
def copySource (skips : String → Bool) (destination source : String) : Action (List String) := do
  let path := (← get).pipeline.root.join source
  match ← ask fun s ↦ Disk.orFail (Static.sourcesAt s.disk path) with
  | none =>
    say .warning ("Static source not found: " ++ path.text)
    return []
  | some files =>
    (files.filter fun f ↦ !skips f.rel).mapM (copyFile destination)

/-- The pairs of a destination and a source, in configuration order. -/
def staticPairs (p : Pipeline) : List (String × String) :=
  p.config.staticFiles.flatMap fun (destination, sources) ↦ sources.map fun s ↦ (destination, s)

def copyAll (skips : String → Bool) : Action (List String) := do
  return (← (staticPairs (← get).pipeline).mapM fun (destination, source) ↦
    copySource skips destination source).flatten

end Site

end AssetBundler
