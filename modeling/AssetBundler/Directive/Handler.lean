import AssetBundler.Directive.Basic
import AssetBundler.Table

/-!
# Directive handlers

A handler says which arguments a directive takes and what it asks of the build session. Handlers are
kept in a table by name; the default one holds the three directives that every pipeline knows.
-/

namespace AssetBundler

/-- What a note about the build can hold. -/
inductive NoteField where
  | text (s : String)
  /-- The name of the current file. -/
  | currentName
  | dataUri (path : String)
  | contentType (path : String)
  deriving DecidableEq, Repr

/-- What a directive asks of the session. -/
inductive Request where
  | require (path : String)
  | dependOn (path : String)
  | requireTree (path : String)
  /-- Adds a record to the notes of the build. -/
  | note (fields : List NoteField)
  deriving DecidableEq, Repr

structure Signature where
  required : List String
  optional : Nat
  /-- Any number of further arguments is taken. -/
  isOpen : Bool
  deriving DecidableEq, Repr

namespace Signature

/-- Why a number of arguments does not fit, if it does not. -/
def fault? (s : Signature) (count : Nat) : Option ArgumentFault :=
  match s.required.drop count with
  | parameter :: _ => some (.missing parameter)
  | [] => if !s.isOpen && s.required.length + s.optional < count then some .tooMany else none

end Signature

structure Handler where
  signature : Signature
  requests : List String → List Request

namespace Handler

def onePath (request : String → Request) : Handler :=
  ⟨⟨["path"], 0, false⟩, fun arguments ↦ arguments.map request⟩

def require : Handler := onePath .require

def dependOn : Handler := onePath .dependOn

def requireTree : Handler := onePath .requireTree

end Handler

abbrev DirectiveTable := Table String Handler

namespace DirectiveTable

def default : DirectiveTable :=
  [("require", .require), ("depend_on", .dependOn), ("require_tree", .requireTree)]

/-- What a directive asks for, if it is known and its arguments fit. -/
def requests (table : DirectiveTable) (source : Option Path) (d : Directive) :
    Except Failure (List Request) :=
  match table.get? d.name with
  | none => .error (.undefinedDirective d.name source)
  | some handler =>
    match handler.signature.fault? d.arguments.length with
    | some fault =>
      .error (.malformedArguments (" ".intercalate (d.name :: d.arguments)) source fault
        (some d.lineIndex))
    | none => .ok (handler.requests d.arguments)

/-- All names in order. -/
def names (table : DirectiveTable) : List String := table.keys.mergeSort fun a b ↦ a ≤ b

end DirectiveTable

end AssetBundler
