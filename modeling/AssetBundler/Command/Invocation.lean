import AssetBundler.Command.Token

/-!
# Invocations

The command line names a task and its settings. Options and the path of a task come in any order, the
environment can be named or be production but not both, and the last value of an option counts. Help
is given as soon as it is asked for, even if other arguments are not understood.
-/

namespace AssetBundler.Command

inductive Task where
  /-- Publish an asset and show its tag. -/
  | render (path : String)
  | body (path : String)
  | url (path : String)
  | release (compiles : Bool)
  | manifest
  deriving DecidableEq, Repr

structure Invocation where
  task : Task
  root : Option String
  environment : Option String
  production : Bool
  verbosity : Nat
  deriving DecidableEq, Repr

/-- Why a command line ends the program before any work. -/
inductive Ending where
  | help
  | version
  | misuse
  deriving DecidableEq, Repr

namespace Ending

def code : Ending → Nat
  | .help | .version => 0
  | .misuse => 2

end Ending

/-- What has been read of the arguments of a task. -/
structure Settings where
  path : Option String
  root : Option String
  environment : Option String
  production : Bool
  verbosity : Nat
  compiles : Bool
  /-- Whether there were arguments that are not understood. -/
  hasExtras : Bool
  deriving DecidableEq, Repr

namespace Settings

def empty : Settings := ⟨none, none, none, false, 0, false, false⟩

def withExtras (s : Settings) : Settings := { s with hasExtras := true }

/-- Applies an option that has no value. -/
def apply (s : Settings) : Switch → Except Ending Settings
  | .help => .error .help
  | .version => .error .version
  | .production => if s.environment.isSome then .error .misuse else .ok { s with production := true }
  | .verbose => .ok { s with verbosity := s.verbosity + 1 }
  | .compile => .ok { s with compiles := true }
  | .root | .environment => .error .misuse

/-- Applies an option with its value. -/
def applyValue (s : Settings) (value : String) : Switch → Except Ending Settings
  | .root => .ok { s with root := some value }
  | .environment => if s.production then .error .misuse else .ok { s with environment := some value }
  | _ => .error .misuse

/-- Reads arguments that are all words. -/
def addWords (takesPath : Bool) (s : Settings) (args : List String) : Settings :=
  match args with
  | [] => s
  | w :: rest =>
    if takesPath ∧ s.path = none then { s with path := some w, hasExtras := s.hasExtras || !rest.isEmpty }
    else s.withExtras

/-- Reads the arguments of a task from one on. A separator that follows the path ends the
arguments. -/
def read (known : Spellings) (takesPath : Bool) (s : Settings) :
    List String → Except Ending Settings
  | [] => .ok s
  | arg :: rest =>
    match Token.ofArgument known arg with
    | .word w =>
      if takesPath ∧ s.path = none then
        match rest with
        | ["--"] => .ok { s with path := some w }
        | _ => read known takesPath { s with path := some w } rest
      else read known takesPath s.withExtras rest
    | .separator =>
      if takesPath ∧ s.path = none then .ok (addWords takesPath s rest) else .error .misuse
    | .unknown => read known takesPath s.withExtras rest
    | .malformed | .ambiguous => .error .misuse
    | .joined switches hasUnknown => do
      let s ← switches.foldlM apply s
      read known takesPath (if hasUnknown then s.withExtras else s) rest
    | .switch w (some value) => do read known takesPath (← s.applyValue value w) rest
    | .switch w none =>
      if w.takesValue then
        match rest with
        | [] => .error .misuse
        | value :: rest =>
          match Token.ofArgument known value with
          | .word value => do read known takesPath (← s.applyValue value w) rest
          | _ => .error .misuse
      else do read known takesPath (← s.apply w) rest

end Settings

/-- The arguments that a task takes. -/
structure Form where
  spellings : Spellings
  takesPath : Bool
  task : Settings → Option Task

namespace Form

/-- The options of every task. -/
def commonSpellings : Spellings :=
  [("-h", .help), ("--help", .help), ("--root", .root), ("--env", .environment),
    ("--prod", .production), ("-v", .verbose), ("--verbose", .verbose)]

def onPath (task : String → Task) : Form := ⟨commonSpellings, true, fun s ↦ s.path.map task⟩

def release : Form :=
  ⟨commonSpellings ++ [("-c", .compile), ("--compile", .compile)], false,
    fun s ↦ some (.release s.compiles)⟩

def manifest : Form := ⟨commonSpellings, false, fun _ ↦ some .manifest⟩

def all : Table String Form :=
  [("render", onPath .render), ("body", onPath .body), ("url", onPath .url), ("publish", release),
    ("manifest", manifest)]

/-- The invocation that the arguments after the name of the task make. -/
def invocation (form : Form) (args : List String) : Except Ending Invocation := do
  let s ← Settings.read form.spellings form.takesPath .empty args
  match form.task s with
  | some task =>
    if s.hasExtras then .error .misuse
    else return ⟨task, s.root, s.environment, s.production, s.verbosity⟩
  | none => .error .misuse

end Form

namespace Invocation

/-- The options before the name of the task. -/
def leadingSpellings : Spellings := [("-h", .help), ("--help", .help), ("--version", .version)]

/-- Reads a command line from one argument on. Unknown options before the task are refused after the
task was read. -/
def parseFrom : List String → Except Ending Invocation
  | [] => .error .misuse
  | arg :: rest =>
    match Token.ofArgument leadingSpellings arg with
    | .word name =>
      match Form.all.get? name with
      | some form => form.invocation rest
      | none => .error .misuse
    | .switch w none => do
      let _ ← Settings.empty.apply w
      .error .misuse
    | .joined switches _ => do
      let _ ← switches.foldlM Settings.apply .empty
      .error .misuse
    | .unknown => do
      let _ ← parseFrom rest
      .error .misuse
    | .switch _ (some _) | .separator | .malformed | .ambiguous => .error .misuse

/-- Reads a command line. Ambiguous options are refused before anything else is looked at. -/
def parse (args : List String) : Except Ending Invocation :=
  let options := args.takeWhile (· ≠ "--")
  if options.any fun arg ↦ Token.ofArgument leadingSpellings arg = .ambiguous then .error .misuse
  else parseFrom args

end Invocation

end AssetBundler.Command
