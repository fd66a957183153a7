import AssetBundler.Package
import AssetBundler.Processor.Entry

/-!
# Processor references

Configuration names processors by a module and a name in it, `module:name` or `module.name`. A library
has the modules that can be imported, each with what it exports, and the packages of others that the
pipeline calls. What a name stands for can be a reference again.
-/

namespace AssetBundler

inductive Module where
  | exports (names : Table String Entry)
  /-- Importing it raises something else than that it cannot be imported. -/
  | raises (e : Raised)

/-- The code outside the pipeline. -/
structure Library where
  modules : Table String Module
  packages : Packages

namespace Library

/-- A library with further modules. -/
@[default_instance]
instance : HAppend Library (Table String (Table String Entry)) Library where
  hAppend library more :=
    { library with modules := library.modules ++ more.map fun e ↦ (e.1, .exports e.2) }

def allProcessors : List Processor :=
  [.identity, .function, .cssCompressor, .jsCompressor, .cssUrls, .directives, .imports, .less,
    .safetyColons]

def exporting (ps : List Processor) : Table String Entry := ps.map fun p ↦ (p.name, .processor p)

/-- The processors, types and errors of the modules that come with the pipeline. -/
def standardModules : Table String (Table String Entry) :=
  [("assetpipe.processors", exporting allProcessors),
    ("assetpipe.processors.base", exporting [.identity, .function]),
    ("assetpipe.processors.safety", exporting [.safetyColons]),
    ("assetpipe.processors.compressors", exporting [.cssCompressor, .jsCompressor]),
    ("assetpipe.processors.css_urls", exporting [.cssUrls]),
    ("assetpipe.processors.directive", exporting [.directives]),
    ("assetpipe.processors.imports", exporting [.imports]),
    ("assetpipe.processors.less",
      exporting [.less] ++ [("LESS_EXTENSION", .reference ".less")]),
    ("assetpipe.tags",
      [("CSS", .reference "text/css"), ("JS", .reference "application/javascript")]),
    ("assetpipe.errors",
      ["AssetPipeError", "ConfigError", "AssetNotFoundError", "UndefinedDirectiveError",
        "MalformedArgumentsError", "InvalidProcessorSpecError", "CyclicDependencyError",
        "AssetCompileError", "AssetWriteError"].map fun name ↦
        (name, .otherClass ("assetpipe.errors." ++ name)))]

/-- A library with nothing but what comes with the pipeline. -/
def standard : Library := ⟨standardModules.map fun e ↦ (e.1, .exports e.2), .standard⟩

/-- Module and name of a reference: split at the first colon, without one at the last dot. -/
def splitReference (reference : String) : String × String :=
  let cs := reference.toList
  if cs.contains ':' then
    (String.ofList (cs.takeWhile (· ≠ ':')), String.ofList ((cs.dropWhile (· ≠ ':')).drop 1))
  else
    let name := (cs.reverse.takeWhile (· ≠ '.')).reverse
    (String.ofList (cs.take (cs.length - name.length - 1)), String.ofList name)

/-- What a reference stands for. -/
def lookup (library : Library) (reference : String) : Except Failure Entry :=
  let (moduleName, name) := splitReference reference
  if moduleName = "" ∨ name = "" then .error (.invalidProcessor (.badReference reference))
  else if moduleName.toList.head? = some '.' then .error (.relativeReference reference)
  else match library.modules.get? moduleName with
    | none => .error (.invalidProcessor (.unknownModule moduleName))
    | some (.raises e) => .error e.1
    | some (.exports names) =>
      match names.get? name with
      | none => .error (.invalidProcessor (.unknownName moduleName name))
      | some found => .ok found

/-- Follows a reference through at most `hops` lookups. -/
def follow (library : Library) : Nat → String → Value.Fields → Except Failure Assignment
  | 0, _, _ => .error .nestedTooDeep
  | hops + 1, reference, options => do
    (← library.lookup reference).coerceWith (follow library hops) options

end Library

/-- The reference that stands inside all mappings of an entry, if there is one. -/
def Entry.reference? : Entry → Option String
  | .reference text => some text
  | .mapping inner _ => inner.reference?
  | _ => none

/-- The references that a module exports. -/
def Module.references : Module → List String
  | .exports names => names.filterMap fun x ↦ x.2.reference?
  | .raises _ => []

/-- The number of references that a library exports; a longer run of them goes in a circle. -/
def Library.referenceCount (library : Library) : Nat :=
  (library.modules.flatMap fun e ↦ e.2.references).length

def Entry.coerce (library : Library) (entry : Entry) (options : Value.Fields) :
    Except Failure Assignment :=
  entry.coerceWith (library.follow (library.referenceCount + 1)) options

/-- Builds a spec from an entry of a configuration. -/
def Spec.ofEntry (library : Library) (entry : Value) (options : Value.Fields) : Except Failure Spec := do
  return (← (Entry.ofValue entry).coerce library options).spec

/-- Ordered processors by content type. -/
abbrev Registry := Table String (List Spec)

namespace Registry

/-- Appends a processor for a content type. -/
def add (r : Registry) (contentType : String) (s : Spec) : Registry :=
  r.insert contentType ((r.get? contentType).getD [] ++ [s])

abbrev Action := EStateM Failure Registry

/-- Appends a processor made of an entry. -/
def enter (library : Library) (contentType : String) (entry : Entry) (options : Value.Fields) :
    Action Spec :=
  match entry.coerce library options with
  | .error e => throw e
  | .ok assignment => do
    modify fun r ↦ r.add contentType assignment.spec
    return assignment.spec

def register (library : Library) (r : Registry) (contentType : String) (entry : Value)
    (options : Value.Fields) : Except Failure Registry := do
  return r.add contentType (← Spec.ofEntry library entry options)

/-- The processors for a content type; the empty type and no type have none. -/
def all (r : Registry) (contentType : Option String) : List Spec :=
  match contentType with
  | none => []
  | some t => if t = "" then [] else (r.get? t).getD []

end Registry

end AssetBundler
