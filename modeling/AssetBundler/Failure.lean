import AssetBundler.Disk.Write

/-!
# Failures

Everything that can end an operation, with its cause. Failures that a user can mend in the assets or
in the configuration are reported with a message of one line (`Failure.isReported`); the others have
a cause outside the rules of the pipeline.
-/

namespace AssetBundler

inductive ConfigFault where
  | notMapping (key expected : String)
  | badAssetDir
  | unparsable (path : Path)
  | notFields (path : Path)
  deriving DecidableEq, Repr

inductive ArgumentFault where
  | unmatchedQuote
  | missing (parameter : String)
  | tooMany
  deriving DecidableEq, Repr

inductive ProcessorFault where
  /-- A mapping without a class, as it is shown. -/
  | noClass (shown : String)
  | badOptions (options : Value)
  | badReference (reference : String)
  | unknownModule (name : String)
  | unknownName (moduleName name : String)
  | notProcessor (name : String)
  /-- Something of which no processor can be made, as it is shown. -/
  | unsupported (shown : String)

inductive Failure where
  | config (fault : ConfigFault)
  | assetNotFound (path : String) (requiredFrom : Option Path)
  | undefinedDirective (name : String) (source : Option Path)
  | malformedArguments (line : String) (source : Option Path) (fault : ArgumentFault)
      (lineIndex : Option Int)
  | invalidProcessor (fault : ProcessorFault)
  | circular (chain : List Path)
  | notCompiled (path : Path)
  | notWritten (path : Path) (error : Disk.Error)
  | corruptManifest (path : Path)
  | manifestNotFields (path : Path)
  | manifestNotLoaded
  | notCallable (name : String)
  | disk (error : Disk.Error)
  /-- A file that is read as text is not UTF-8, or holds a number that is too long to be read. -/
  | notText (path : Path)
  /-- A processor that needs a build session or a table of directives was run without one. -/
  | noSession
  /-- A processor that should call a function has none that takes its input. -/
  | notFunction
  /-- A reference starts with a dot but there is no module to count from. -/
  | relativeReference (reference : String)
  | badPattern (pattern : String)
  /-- Evaluations are nested deeper than there are files to evaluate, or references lead in a circle. -/
  | nestedTooDeep

namespace ConfigFault

def message : ConfigFault → String
  | .notMapping key expected => "'" ++ key ++ "' must be a mapping of " ++ expected
  | .badAssetDir => "'asset_dir' must be a string or a \x7blocal, production\x7d mapping"
  | .unparsable path => "Failed to parse " ++ path.text
  | .notFields path => "YAML must be a mapping: " ++ path.text

end ConfigFault

namespace ArgumentFault

def reason : ArgumentFault → String
  | .unmatchedQuote => "Unmatched quote"
  | .missing parameter => "Bad arguments (missing a required argument: '" ++ parameter ++ "')"
  | .tooMany => "Bad arguments (too many positional arguments)"

end ArgumentFault

namespace ProcessorFault

def message : ProcessorFault → String
  | .noClass shown => "Processor mapping without 'class': " ++ shown
  | .badOptions options => "Processor options must be a mapping: " ++ options.quoted
  | .badReference reference => "Invalid processor reference '" ++ reference ++ "'"
  | .unknownModule name => "Cannot import processor module '" ++ name ++ "'"
  | .unknownName moduleName name =>
    "Module '" ++ moduleName ++ "' has no attribute '" ++ name ++ "'"
  | .notProcessor name => name ++ " is not a Processor subclass"
  | .unsupported shown => "Cannot build a processor from " ++ shown

end ProcessorFault

namespace Failure

def place (source : Option Path) (lead : String) : String :=
  match source with
  | some p => lead ++ p.text
  | none => ""

/-- The message of a reported failure and of the two misuses that have one; otherwise empty. -/
def message : Failure → String
  | .config fault => fault.message
  | .assetNotFound path requiredFrom =>
    "Asset '" ++ path ++ "' not found" ++
      (match requiredFrom with
        | some p => " (required from " ++ p.text ++ ")"
        | none => "")
  | .undefinedDirective name source =>
    "Undefined directive '" ++ name ++ "' in " ++ (source.map Path.text).getD "None"
  | .malformedArguments line source fault lineIndex =>
    fault.reason ++ " in directive arguments" ++ place source " in " ++
      (match lineIndex with
        | some i => " at line " ++ toString (i + 1)
        | none => "") ++
      ": '" ++ line ++ "'"
  | .invalidProcessor fault => fault.message
  | .circular chain => "Circular asset dependency: " ++ " -> ".intercalate (chain.map Path.text)
  | .notCompiled path => "Failed to compile " ++ path.text
  | .notWritten path error => "Failed to write asset " ++ path.text ++ ": " ++ error.message
  | .corruptManifest path => "Corrupt manifest " ++ path.text
  | .manifestNotFields path => "Manifest must be a JSON object: " ++ path.text
  | .manifestNotLoaded => "Manifest.save() called before load()"
  | .notCallable name => "Directive handler for '" ++ name ++ "' must be callable"
  | .disk _ | .notText _ | .noSession | .notFunction | .relativeReference _ | .badPattern _
  | .nestedTooDeep => ""

/-- Whether the user can mend the failure in the assets or in the configuration. -/
def isReported : Failure → Bool
  | .config _ | .assetNotFound .. | .undefinedDirective .. | .malformedArguments ..
  | .invalidProcessor _ | .circular _ | .notCompiled _ | .notWritten .. | .corruptManifest _
  | .manifestNotFields _ => true
  | .manifestNotLoaded | .notCallable _ | .disk _ | .notText _ | .noSession | .notFunction
  | .relativeReference _ | .badPattern _ | .nestedTooDeep => false

end Failure

/-- What code outside the pipeline raises. The depth of evaluations is the pipeline's own matter. -/
abbrev Raised := {e : Failure // e ≠ .nestedTooDeep}

namespace Disk

/-- An answer of the disk where any failure can be raised. -/
def orFail {α : Type} : Except Error α → Except Failure α
  | .ok a => .ok a
  | .error e => .error (.disk e)

end Disk

/-- An answer of code outside the pipeline where any failure can be raised. -/
def orRaise {α : Type} : Except Raised α → Except Failure α
  | .ok a => .ok a
  | .error e => .error e.1

theorem orRaise_eq_ok {α : Type} {x : Except Raised α} {a : α} : orRaise x = .ok a ↔ x = .ok a := by
  cases x <;> simp [orRaise]

theorem orRaise_eq_error {α : Type} {x : Except Raised α} {e : Failure} :
    orRaise x = .error e ↔ ∃ raised, x = .error raised ∧ raised.1 = e := by
  cases x <;> simp [orRaise]

end AssetBundler
