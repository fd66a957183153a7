import AssetBundler.Value.Literal

/-!
# Writing JSON

Values are written on one line or with one item a line. Characters outside ASCII stand for
themselves; quotes, backslashes and control characters are escaped.
-/

namespace AssetBundler.Json

def escapeChar (c : Char) : List Char :=
  if c = '"' ∨ c = '\\' then ['\\', c]
  else if c = '\n' then ['\\', 'n']
  else if c = '\r' then ['\\', 'r']
  else if c = '\t' then ['\\', 't']
  else if c = '\x08' then ['\\', 'b']
  else if c = '\x0c' then ['\\', 'f']
  else if c.toNat < 0x20 then '\\' :: 'u' :: hexDigits 4 c.toNat
  else [c]

def quote (s : String) : List Char := '"' :: s.toList.flatMap escapeChar ++ ['"']

def floatText (x : Float) : String :=
  if x.isNaN then "NaN"
  else if x.isInf then (if x < 0.0 then "-Infinity" else "Infinity")
  else Number.floatText x

def scalar : Value → List Char
  | .bool b => (if b then "true" else "false").toList
  | .int n => (toString n).toList
  | .float x => (floatText x).toList
  | .text s => quote s
  | _ => "null".toList

/-- The name of a field; a scalar that is no text is named by its own text. -/
def fieldName : Value → List Char
  | .text s => quote s
  | v => quote (String.ofList (scalar v))

/-- How items are set apart: on one line, or each on its own line, indented by a width a level. -/
inductive Layout where
  | oneLine
  | indented (width : Nat)

namespace Layout

def itemSeparator : Layout → List Char
  | .oneLine => [',', ' ']
  | .indented _ => [',']

def lineBreak : Layout → Nat → List Char
  | .oneLine, _ => []
  | .indented width, depth => '\n' :: List.replicate (width * depth) ' '

/-- Items between brackets; without items the brackets touch. -/
def enclose (layout : Layout) (depth : Nat) (opening closing : Char) (items : List (List Char)) :
    List Char :=
  if items.isEmpty then [opening, closing]
  else
    let gap := layout.itemSeparator ++ layout.lineBreak (depth + 1)
    opening :: layout.lineBreak (depth + 1) ++ gap.intercalate items ++
      layout.lineBreak depth ++ [closing]

end Layout

mutual

def render (layout : Layout) (depth : Nat) : Value → List Char
  | .list items => layout.enclose depth '[' ']' (renderItems layout (depth + 1) items)
  | .map fields => layout.enclose depth '{' '}' (renderFields layout (depth + 1) fields)
  | .null => scalar .null
  | .bool b => scalar (.bool b)
  | .int n => scalar (.int n)
  | .float x => scalar (.float x)
  | .text s => scalar (.text s)

def renderItems (layout : Layout) (depth : Nat) : List Value → List (List Char)
  | [] => []
  | v :: vs => render layout depth v :: renderItems layout depth vs

def renderFields (layout : Layout) (depth : Nat) : List (Value × Value) → List (List Char)
  | [] => []
  | (k, v) :: rest =>
    (fieldName k ++ ':' :: ' ' :: render layout depth v) :: renderFields layout depth rest

end

def print (layout : Layout) (v : Value) : String := String.ofList (render layout 0 v)

end AssetBundler.Json
