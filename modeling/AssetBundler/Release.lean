import AssetBundler.Static

/-!
# Releases

A release empties the folder of published files, copies the static files and, if asked to, publishes
every stylesheet and script that lies directly in a root of the search path. The ignore patterns of
the configuration are read before anything is changed.
-/

namespace AssetBundler

/-- What a release did. -/
structure Report where
  production : Bool
  target : Path
  copied : List String
  compiled : List String
  deriving DecidableEq, Repr

namespace Report

def fields (r : Report) : Value.Fields :=
  [(.text "production", .bool r.production), (.text "target", .text r.target.text),
    (.text "copied", .list (r.copied.map .text)), (.text "compiled", .list (r.compiled.map .text))]

end Report

namespace Release

/-- The last suffixes of files that are compiled. -/
def compiledSuffixes : List String := [".css", ".less", ".js"]

def isCompiled (entry : Disk.Listed) : Bool :=
  !entry.isFolder && !Static.isDotted entry.name &&
    compiledSuffixes.contains (Text.lower (lastSuffix entry.name))

/-- The names of the files in a folder that are compiled; a missing folder has none. -/
def compiledNames (d : Disk) (root : Path) : Except Disk.Error (List String) := do
  if ← d.isFolder root then
    return ((← d.list root).filter isCompiled).map Disk.Listed.name
  else return []

end Release

namespace Site

/-- What the patterns of the configuration ignore. -/
def ignored : Action (String → Bool) :=
  ask fun s ↦ orRaise (s.pipeline.library.packages.ignores s.pipeline.config.staticIgnore)

/-- Forgets the manifest and removes everything that was published. -/
def clearTarget : Action Unit := do
  say .info "Clearing manifest and removing old assets"
  let _ ← ofManifest Manifest.delete
  ofDisk (Disk.clear (← get).pipeline.targetPath) .disk

def compileFile (name : String) : Action String := do
  say .info ("   Compiling -> " ++ name)
  let _ ← render name
  return name

def compileRoot (root : Path) : Action (List String) := do
  (← ask fun s ↦ Disk.orFail (Release.compiledNames s.disk root)).mapM compileFile

def compileAll : Action (List String) := do
  say .info "Precompiling assets"
  return (← (← get).pipeline.searchPath.roots.mapM compileRoot).flatten

def announce : Action Unit := do
  let p := (← get).pipeline
  if p.inProduction then
    say .info ("Publishing production assets" ++
      if p.fingerprintsCopies then " with fingerprints" else "")
  else say .info "Publishing development assets"

/-- A whole release. -/
def release (compiles : Bool) : Action Report := do
  let skips ← ignored
  let p := (← get).pipeline
  announce
  clearTarget
  let copied ← copyAll skips
  let compiled ← if compiles then compileAll else pure []
  return ⟨p.inProduction, p.targetPath, copied, compiled⟩

/-- Clears the target if the ignore patterns can be read. -/
def clean : Action Unit := do
  let _ ← ignored
  clearTarget

def copyStatic : Action (List String) := do copyAll (← ignored)

def compile : Action (List String) := do
  let _ ← ignored
  compileAll

end Site

end AssetBundler
