import AssetBundler.Pipeline

/-!
# Sites

A site is a pipeline and the disk it works on, with the notes that directives left and the messages
of publishing. Actions on a site keep their changes when they fail.
-/

namespace AssetBundler

inductive Level where
  | info
  | warning
  deriving DecidableEq, Repr

/-- A message of publishing. -/
structure Message where
  level : Level
  text : String
  deriving DecidableEq, Repr

/-- What a directive recorded; a field without a value is left open. -/
abbrev Note := List (Option String)

structure Site where
  disk : Disk
  pipeline : Pipeline
  notes : List Note
  messages : List Message

namespace Site

abbrev Action := EStateM Failure Site

def ofDisk {α : Type} (action : Disk.Action α) (fail : Disk.Error → Failure) : Action α := fun s ↦
  match action s.disk with
  | .ok a disk => .ok a { s with disk }
  | .error e disk => .error (fail e) { s with disk }

def ofManifest {α : Type} (action : Manifest.Action α) : Action α := fun s ↦
  match action ⟨s.disk, s.pipeline.manifest⟩ with
  | .ok a t => .ok a { s with disk := t.disk, pipeline := { s.pipeline with manifest := t.manifest } }
  | .error e t =>
    .error e { s with disk := t.disk, pipeline := { s.pipeline with manifest := t.manifest } }

/-- An answer about the site as it stands. -/
def ask {α : Type} (question : Site → Except Failure α) : Action α := fun s ↦
  match question s with
  | .ok a => .ok a s
  | .error e => .error e s

def say (level : Level) (text : String) : Action Unit :=
  modify fun s ↦ { s with messages := s.messages ++ [⟨level, text⟩] }

/-- Turns to an environment and loads the manifest of its asset folder. -/
def setEnvironment (environment : String) : Action Unit := do
  modify fun s ↦ { s with pipeline := { s.pipeline with environment } }
  ofManifest (Manifest.load (← get).pipeline.targetPath)

def setProduction : Action Unit := do setEnvironment (← get).pipeline.productionName

/-- A new pipeline on a disk, in the given environment. -/
def openPipeline (library : Library) (disk : Disk) (root : Path) (config : Config)
    (environment : String) : Except Failure Pipeline := do
  let pipeline ← Pipeline.assemble library disk.here root config
  match setEnvironment environment ⟨disk, pipeline, [], []⟩ with
  | .ok _ s => return s.pipeline
  | .error e _ => .error e

def isFile (s : Site) (p : Path) : Except Failure Bool := Disk.orFail (s.disk.isFile p)

/-- The file that a logical path stands for. -/
def findFile (s : Site) (logical : String) : Except Failure (Option Path) := do
  match ← Disk.orFail (s.pipeline.searchPath.resolve s.disk logical [] true) with
  | none => return none
  | some p => return if ← s.isFile p then some p else none

def getFile (s : Site) (logical : String) : Except Failure Path := do
  match ← s.findFile logical with
  | some p => return p
  | none => .error (.assetNotFound logical none)

/-- The rest of a path at or below a folder, without leading slashes. -/
def below? (folder path : String) : Option String :=
  if path = folder then some ""
  else if (folder ++ "/").toList.isPrefixOf path.toList then
    some (Pipeline.dropLeadingSlashes (String.ofList (path.toList.drop folder.length)))
  else none

/-- The first of some paths that is a file. -/
def firstFile (s : Site) : List Path → Except Failure (Option Path)
  | [] => .ok none
  | p :: ps => do if ← s.isFile p then return some p else s.firstFile ps

/-- All files that could have been published under a relative path, in configuration order. -/
def sourceCandidates (s : Site) (rel : String) : List Path :=
  s.pipeline.config.staticFiles.flatMap fun (destination, sources) ↦
    match if destination = "" then some rel else below? destination rel with
    | none => []
    | some sub => sources.map fun source ↦ (s.pipeline.root.join source).join sub

/-- The source of a published static file. -/
def assetSource (s : Site) (path : String) (assetDir : Option String) :
    Except Failure (Option Path) :=
  let folder := stripSlashes (assetDir.getD s.pipeline.assetDir)
  let rel := Pipeline.dropLeadingSlashes path
  let rel := if folder = "" then rel else (below? folder rel).getD rel
  s.firstFile (s.sourceCandidates rel)

end Site

end AssetBundler
