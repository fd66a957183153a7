import AssetBundler.Command.Invocation
import AssetBundler.Config.File
import AssetBundler.Release

/-!
# Running an invocation

An invocation opens the project, does its task and answers with an exit code and with what it wrote
on both outputs. A failure that the user can mend is written as one line and gives the code 2; any
other failure is handed on. The disk is answered in either case.
-/

namespace AssetBundler.Command

structure Outcome where
  code : Nat
  output : String
  messages : String
  deriving DecidableEq, Repr

/-- The name under which messages of publishing are written. -/
def channel : String := "assetpipe.publish"

def levelText : Level → String
  | .info => "INFO"
  | .warning => "WARNING"

def isShown (verbosity : Nat) (m : Message) : Bool := m.level == .warning || 0 < verbosity

def messageLine (m : Message) : String := levelText m.level ++ " " ++ channel ++ ": " ++ m.text ++ "\n"

def messagesText (verbosity : Nat) (ms : List Message) : String :=
  String.join ((ms.filter (isShown verbosity)).map messageLine)

def dropFinalNewlines (s : String) : String :=
  String.ofList (Text.dropEndWhile (· == '\n') s.toList)

def jsonText (v : Value) : String := Json.print (.indented 2) v ++ "\n"

/-- What a task writes on the output. -/
def perform : Task → Site.Action String
  | .render path => do return dropFinalNewlines (← Site.render path) ++ "\n"
  | .body path => Site.body path
  | .url path => do return (← get).pipeline.assetUrl path ++ "\n"
  | .release compiles => do return jsonText (.map (← Site.release compiles).fields)
  | .manifest => do
    return jsonText (.map ((← get).pipeline.manifest.entries.map fun e ↦ (.text e.1, .text e.2)))

/-- The folder that holds the project. -/
def rootOf (d : Disk) (i : Invocation) : Path := (i.root.map Path.ofText).getD (.absolute d.here)

/-- The pipeline of a project on disk, with the configuration of its file. -/
def openProject (library : Library) (d : Disk) (inherited : Option String) (i : Invocation) :
    Except Failure Pipeline := do
  let root := d.resolve (rootOf d i)
  let config ← Config.load d root library.packages
  Site.openPipeline library d root config (Pipeline.chooseEnvironment i.environment inherited)

def work (i : Invocation) : Site.Action String := do
  if i.production then Site.setProduction
  perform i.task

/-- The outcome of a reported failure. -/
def refusal (verbosity : Nat) (messages : List Message) (e : Failure) : Except Failure Outcome :=
  if e.isReported then
    .ok ⟨2, "", messagesText verbosity messages ++
      String.ofList (Text.trimRight e.message.toList) ++ "\n"⟩
  else .error e

/-- Runs an invocation where the environment variable has the value `inherited`. -/
def run (library : Library) (d : Disk) (inherited : Option String) (i : Invocation) :
    Except Failure Outcome × Disk :=
  match openProject library d inherited i with
  | .error e => (refusal i.verbosity [] e, d)
  | .ok pipeline =>
    match work i ⟨d, pipeline, [], []⟩ with
    | .ok output s => (.ok ⟨0, output, messagesText i.verbosity s.messages⟩, s.disk)
    | .error e s => (refusal i.verbosity s.messages e, s.disk)

end AssetBundler.Command
