import AssetBundler.Site

/-!
# Build sessions

The state of one build. Marks, the chain of evaluations and the log of directives are shared by the
whole build; the dependencies and the included texts belong to the evaluation that is running and are
handed to the one around it when it ends well. Looking paths up starts from the current file: names that
start with one or two dots are looked up beside it, and its own extension is preferred.
-/

namespace AssetBundler

inductive Mark where
  | inProgress
  | done
  deriving DecidableEq, Repr

/-- A directive that was executed, as it is logged. -/
structure Execution where
  source : Option Path
  name : String
  arguments : List String
  deriving DecidableEq, Repr

structure Session where
  marks : Table Path Mark
  /-- The files that are being evaluated, outermost first. -/
  chain : List Path
  /-- Files and folders whose changes matter to the result. -/
  dependencies : List Path
  /-- The texts of required assets, in order. -/
  included : List String
  notes : List Note
  /-- The directives that were executed, in order. -/
  log : List Execution

/-- The place in the tree of files from which a build is looking. -/
structure Viewpoint where
  path : Option Path
  deriving DecidableEq, Repr

namespace Viewpoint

/-- The first extension of the current file. -/
def preferred (v : Viewpoint) : List String :=
  match v.path with
  | none => []
  | some p => (extensionsOf p.name).take 1

def resolve (v : Viewpoint) (site : Site) (path : String) (index : Bool) :
    Except Failure (Option Path) :=
  let found := match isRelativeMarker path, v.path with
    | true, some current =>
      site.pipeline.searchPath.resolveIn site.disk current.parent path v.preferred index
    | _, _ => site.pipeline.searchPath.resolve site.disk path v.preferred index
  Disk.orFail found

/-- The canonical path of something that has to be found. -/
def require (v : Viewpoint) (site : Site) (path : String) (index : Bool) : Except Failure Path := do
  match ← v.resolve site path index with
  | some p => return p
  | none => .error (.assetNotFound path v.path)

/-- The canonical path of something that has to be a file. -/
def requireFile (v : Viewpoint) (site : Site) (path : String) : Except Failure Path := do
  let p ← v.require site path true
  if ← site.isFile p then return p else .error (.assetNotFound path v.path)

end Viewpoint

namespace Session

abbrev Action := EStateM Failure Session

def empty : Session := ⟨[], [], [], [], [], []⟩

/-- The session of an asset, which is in progress for the whole build. -/
def forAsset (path : Path) : Session := { empty with marks := [(path, .inProgress)] }

def ofExcept {α : Type} : Except Failure α → Action α
  | .ok a => pure a
  | .error e => throw e

def setMark (path : Path) (m : Mark) : Action Unit :=
  modify fun s ↦ { s with marks := s.marks.insert path m }

def addDependency (path : Path) : Action Unit :=
  modify fun s ↦ { s with dependencies := s.dependencies ++ [path] }

def addText (text : String) : Action Unit :=
  modify fun s ↦ { s with included := s.included ++ [text] }

def addNote (note : Note) : Action Unit := modify fun s ↦ { s with notes := s.notes ++ [note] }

def logged (source : Option Path) (d : Directive) (s : Session) : Session :=
  { s with log := s.log ++ [⟨source, d.name, d.arguments⟩] }

/-- Logs a directive that is about to be executed. -/
def logDirective (source : Option Path) (d : Directive) : Action Unit := modify (logged source d)

/-- Runs an evaluation of a file inside the running one. The chain is restored in any case; what
the inner evaluation collected is kept only if it ends well. -/
def nested {α : Type} (path : Path) (inner : Action α) : Action α := fun s ↦
  match inner { s with chain := s.chain ++ [path], dependencies := [], included := [] } with
  | .ok a t =>
    .ok a { t with
      chain := s.chain
      dependencies := s.dependencies ++ t.dependencies
      included := s.included ++ t.included }
  | .error e t =>
    .error e { t with chain := s.chain, dependencies := s.dependencies, included := s.included }

end Session

end AssetBundler
