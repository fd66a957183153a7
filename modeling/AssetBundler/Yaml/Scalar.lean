import AssetBundler.Json.Reader
import AssetBundler.Text.Split

/-!
# YAML scalars

Plain scalars are null, truth values, integers and floats where their text says so, and texts
otherwise; `yes` and `no` are texts. Quoted scalars are always texts. A line break inside a scalar
is read as a blank, and empty lines inside one as line breaks.
-/

namespace AssetBundler.Yaml

def isBlank (c : Char) : Bool := c == ' ' || c == '\t'

def trimBlanks (cs : List Char) : List Char :=
  ((cs.dropWhile isBlank).reverse.dropWhile isBlank).reverse

/-- Splits off a sign. -/
def signed (cs : List Char) : Bool × List Char :=
  match cs with
  | '-' :: cs => (true, cs)
  | '+' :: cs => (false, cs)
  | cs => (false, cs)

def digitsIn? (base : Nat) (cs : List Char) : Option Nat :=
  let ds := cs.filter (· ≠ '_')
  if ds.isEmpty then none
  else ds.foldlM (fun n c ↦ do
    let d ← Json.hexValue? c
    if d < base then return base * n + d else none) 0

/-- A natural number in decimal, binary, octal or hexadecimal digits. -/
def natural? (cs : List Char) : Option Nat :=
  match cs with
  | '0' :: 'b' :: ds => digitsIn? 2 ds
  | '0' :: 'o' :: ds => digitsIn? 8 ds
  | '0' :: 'x' :: ds => digitsIn? 16 ds
  | _ => if cs.head? = some '_' then none else digitsIn? 10 cs

def integer? (cs : List Char) : Option Int :=
  let (negative, ds) := signed cs
  (natural? ds).map fun n ↦ if negative then -(n : Int) else n

def isInfinity (cs : List Char) : Bool := [".inf", ".Inf", ".INF"].contains (String.ofList cs)

/-- A decimal number with a point or an exponent. -/
def float? (cs : List Char) : Option Float :=
  let (negative, ds) := signed cs
  if isInfinity ds then some (if negative then -1.0 / 0.0 else 1.0 / 0.0)
  else if [".nan", ".NaN", ".NAN"].contains (String.ofList cs) then some (0.0 / 0.0)
  else
    let ds := ds.filter (· ≠ '_')
    let whole := ds.takeWhile Char.isDigit
    let rest := ds.drop whole.length
    let (hasPoint, frac, rest) := match rest with
      | '.' :: rest => (true, rest.takeWhile Char.isDigit, rest.dropWhile Char.isDigit)
      | rest => (false, [], rest)
    if whole.isEmpty && frac.isEmpty then none
    else match Json.exponent? rest with
      | some (e, []) =>
        some (Json.negateFloat negative
          (Number.floatOfDecimal (Json.decimal (whole ++ frac)) (e - frac.length)))
      | some _ => none
      | none =>
        if rest.isEmpty && hasPoint then
          some (Json.negateFloat negative
            (Number.floatOfDecimal (Json.decimal (whole ++ frac)) (-frac.length)))
        else none

/-- The value of a plain scalar. -/
def plain (cs : List Char) : Value :=
  let s := String.ofList cs
  if ["", "~", "null", "Null", "NULL"].contains s then .null
  else if ["true", "True", "TRUE"].contains s then .bool true
  else if ["false", "False", "FALSE"].contains s then .bool false
  else match integer? cs with
    | some n => .int n
    | none =>
      match float? cs with
      | some x => .float x
      | none => .text s

/-- Joins the lines of a scalar. -/
def fold : List (List Char) → List Char
  | [] => []
  | [l] => l
  | l :: [] :: ls =>
    let empty := ls.takeWhile List.isEmpty
    l ++ '\n' :: empty.map (fun _ ↦ '\n') ++ fold (ls.drop empty.length)
  | l :: ls => l ++ ' ' :: fold ls
  termination_by ls => ls.length
  decreasing_by
    · simp only [List.length_drop, List.length_cons]
      omega
    · simp

/-- Joins the lines of a text that may span several, without the blanks around line breaks. -/
def foldText (cs : List Char) : List Char :=
  match Text.split '\n' cs with
  | [] => []
  | [l] => l
  | first :: rest =>
    let ends := (first.reverse.dropWhile isBlank).reverse
    let inner := rest.dropLast.map trimBlanks
    fold (ends :: inner ++ [(rest.getLastD []).dropWhile isBlank])

/-- The raw text of a single-quoted scalar after its opening quote, and the rest. -/
def singleQuoted? : List Char → Option (List Char × List Char)
  | [] => none
  | '\'' :: '\'' :: cs => (singleQuoted? cs).map fun r ↦ ('\'' :: r.1, r.2)
  | '\'' :: cs => some ([], cs)
  | c :: cs => (singleQuoted? cs).map fun r ↦ (c :: r.1, r.2)

def escape? : Char → Option Char
  | '0' => some '\x00'
  | 'a' => some '\x07'
  | 'b' => some '\x08'
  | 't' => some '\t'
  | '\t' => some '\t'
  | 'n' => some '\n'
  | 'v' => some '\x0b'
  | 'f' => some '\x0c'
  | 'r' => some '\r'
  | 'e' => some '\x1b'
  | ' ' => some ' '
  | '"' => some '"'
  | '/' => some '/'
  | '\\' => some '\\'
  | 'N' => some '\u0085'
  | '_' => some '\u00a0'
  | 'L' => some '\u2028'
  | 'P' => some '\u2029'
  | _ => none

/-- The number of hexadecimal digits that an escape takes. -/
def escapeWidth : Char → Nat
  | 'x' => 2
  | 'u' => 4
  | 'U' => 8
  | _ => 0

/-- A part of a double-quoted scalar: escapes are literal, line breaks in the source are folded. -/
inductive QuotedPart where
  | literal (c : Char)
  | source (c : Char)

/-- A double-quoted scalar after its opening quote, and the rest. -/
def doubleQuoted? : Nat → List Char → Option (List QuotedPart × List Char)
  | 0, _ => none
  | _, [] => none
  | _, '"' :: cs => some ([], cs)
  | fuel + 1, '\\' :: '\n' :: cs => doubleQuoted? fuel (cs.dropWhile isBlank)
  | fuel + 1, '\\' :: c :: cs =>
    match escapeWidth c with
    | 0 => do
      let x ← escape? c
      let (parts, rest) ← doubleQuoted? fuel cs
      return (.literal x :: parts, rest)
    | width => do
      let ds := cs.take width
      if ds.length < width then none
      let n ← digitsIn? 16 ds
      let (parts, rest) ← doubleQuoted? fuel (cs.drop width)
      return (.literal (Char.ofNat n) :: parts, rest)
  | fuel + 1, c :: cs => do
    let (parts, rest) ← doubleQuoted? fuel cs
    return (.source c :: parts, rest)

/-- The parts of each source line. -/
def partLines : List QuotedPart → List (List QuotedPart)
  | [] => [[]]
  | .source '\n' :: ps => [] :: partLines ps
  | p :: ps =>
    match partLines ps with
    | [] => [[p]]
    | l :: ls => (p :: l) :: ls

def QuotedPart.isSourceBlank : QuotedPart → Bool
  | .source c => isBlank c
  | .literal _ => false

def QuotedPart.char : QuotedPart → Char
  | .source c => c
  | .literal c => c

/-- The text of a double-quoted scalar. -/
def foldParts (parts : List QuotedPart) : List Char :=
  match partLines parts with
  | [] => []
  | [l] => l.map QuotedPart.char
  | first :: rest =>
    let trimEnd (l : List QuotedPart) := (l.reverse.dropWhile QuotedPart.isSourceBlank).reverse
    let trimStart (l : List QuotedPart) := l.dropWhile QuotedPart.isSourceBlank
    let inner := rest.dropLast.map fun l ↦ (trimEnd (trimStart l)).map QuotedPart.char
    fold ((trimEnd first).map QuotedPart.char :: inner ++
      [(trimStart (rest.getLastD [])).map QuotedPart.char])

/-- A quoted scalar, with its quotes, at the start of a text, and the rest. -/
def quoted? (cs : List Char) : Option (Value × List Char) :=
  match cs with
  | '\'' :: cs =>
    (singleQuoted? cs).map fun r ↦ (.text (String.ofList (foldText r.1)), r.2)
  | '"' :: cs =>
    (doubleQuoted? (cs.length + 1) cs).map fun r ↦ (.text (String.ofList (foldParts r.1)), r.2)
  | _ => none

end AssetBundler.Yaml
