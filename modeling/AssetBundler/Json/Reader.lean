import AssetBundler.Number.Shortest
import AssetBundler.Value

/-!
# Reading JSON

A reader for standard JSON with the three extra number words `NaN`, `Infinity` and `-Infinity`.
Strings hold no control characters, the last of several fields with one name wins and keeps the
place of the first, and nothing but white space follows the value. A text is read up to the first
fault. Each nested value is read with less fuel than the one around it; the length of the text is
enough for any text.
-/

namespace AssetBundler.Json

/-- What ends the reading of a text. -/
inductive Fault where
  /-- The text is no JSON. -/
  | malformed
  /-- An integer has more digits than are converted. -/
  | longInteger

def isSpace (c : Char) : Bool := c == ' ' || c == '\t' || c == '\n' || c == '\r'

def skipSpace (cs : List Char) : List Char := cs.dropWhile isSpace

def hexValue? (c : Char) : Option Nat :=
  if c.isDigit then some (c.toNat - 48)
  else if 'A' ≤ c ∧ c ≤ 'F' then some (c.toNat - 55)
  else if 'a' ≤ c ∧ c ≤ 'f' then some (c.toNat - 87)
  else none

/-- The sixteen-bit unit of four hexadecimal digits. -/
def unit? (a b c d : Char) : Option Nat := do
  return (← hexValue? a) * 4096 + (← hexValue? b) * 256 + (← hexValue? c) * 16 + (← hexValue? d)

/-- The character of a pair of units, if they are a high and a low surrogate. -/
def pair? (high low : Nat) : Option Char :=
  if 0xD800 ≤ high ∧ high < 0xDC00 ∧ 0xDC00 ≤ low ∧ low < 0xE000 then
    some (Char.ofNat (0x10000 + (high - 0xD800) * 0x400 + (low - 0xDC00)))
  else none

/-- The character of one unit. A surrogate without the other one of its pair has none; it reads as the
replacement character. -/
def unitChar (n : Nat) : Char := if 0xD800 ≤ n ∧ n < 0xE000 then '\ufffd' else Char.ofNat n

def escaped? : Char → Option Char
  | '"' => some '"'
  | '\\' => some '\\'
  | '/' => some '/'
  | 'b' => some '\x08'
  | 'f' => some '\x0c'
  | 'n' => some '\n'
  | 'r' => some '\r'
  | 't' => some '\t'
  | _ => none

/-- One character of a string body and the text after it. -/
def stringChar? : List Char → Option (Char × List Char)
  | '\\' :: 'u' :: a :: b :: c :: d :: cs =>
    match unit? a b c d with
    | none => none
    | some n =>
      match cs with
      | '\\' :: 'u' :: e :: f :: g :: h :: rest =>
        match (unit? e f g h).bind (pair? n) with
        | some x => some (x, rest)
        | none => some (unitChar n, cs)
      | _ => some (unitChar n, cs)
  | '\\' :: c :: cs => (escaped? c).map fun x ↦ (x, cs)
  | c :: cs => if c.toNat < 0x20 ∨ c = '\\' then none else some (c, cs)
  | [] => none

/-- A string body up to its closing quote, and the text after the quote. -/
def string? : Nat → List Char → Option (List Char × List Char)
  | _, '"' :: cs => some ([], cs)
  | 0, _ => none
  | fuel + 1, cs => do
    let (c, rest) ← stringChar? cs
    let (s, rest) ← string? fuel rest
    return (c :: s, rest)

/-- The digits after a point, if a point and a digit follow. -/
def fraction (cs : List Char) : List Char × List Char :=
  match cs with
  | '.' :: rest =>
    let ds := rest.takeWhile Char.isDigit
    if ds.isEmpty then ([], cs) else (ds, rest.dropWhile Char.isDigit)
  | _ => ([], cs)

/-- The value of decimal digits. -/
def decimal (ds : List Char) : Nat := ds.foldl (fun n d ↦ 10 * n + (d.toNat - 48)) 0

/-- The exponent after a letter e, if digits follow its sign. -/
def exponent? (cs : List Char) : Option (Int × List Char) :=
  match cs with
  | e :: rest =>
    if e = 'e' ∨ e = 'E' then
      let (negative, rest) := match rest with
        | '-' :: r => (true, r)
        | '+' :: r => (false, r)
        | r => (false, r)
      let ds := rest.takeWhile Char.isDigit
      if ds.isEmpty then none
      else
        let n : Int := decimal ds
        some (if negative then -n else n, rest.dropWhile Char.isDigit)
    else none
  | [] => none

/-- The whole part of a number: zero alone, or digits that start with another one. -/
def wholePart? (cs : List Char) : Option (List Char × List Char) :=
  match cs with
  | '0' :: rest => some (['0'], rest)
  | _ =>
    let ds := cs.takeWhile Char.isDigit
    if ds.isEmpty then none else some (ds, cs.dropWhile Char.isDigit)

def negateFloat (negative : Bool) (x : Float) : Float := if negative then -x else x

/-- The most digits of which an integer is made. -/
def maxDigits : Nat := 4300

/-- A number without a fraction and an exponent is an integer. -/
def number (negative : Bool) (cs : List Char) : Except Fault (Value × List Char) :=
  match wholePart? cs with
  | none => .error .malformed
  | some (whole, rest) =>
    let (frac, rest) := fraction rest
    match exponent? rest with
    | some (e, rest) =>
      let x := Number.floatOfDecimal (decimal (whole ++ frac)) (e - frac.length)
      .ok (.float (negateFloat negative x), rest)
    | none =>
      if ¬frac.isEmpty then
        let x := Number.floatOfDecimal (decimal (whole ++ frac)) (-frac.length)
        .ok (.float (negateFloat negative x), rest)
      else if maxDigits < whole.length then .error .longInteger
      else
        let n : Int := decimal whole
        .ok (.int (if negative then -n else n), rest)

/-- A string after its opening quote. -/
def string (fuel : Nat) (cs : List Char) : Except Fault (String × List Char) :=
  match string? fuel cs with
  | some (s, rest) => .ok (String.ofList s, rest)
  | none => .error .malformed

mutual

def value : Nat → List Char → Except Fault (Value × List Char)
  | 0, _ => .error .malformed
  | fuel + 1, cs =>
    match cs with
    | '"' :: rest => do
      let (s, rest) ← string fuel rest
      return (.text s, rest)
    | '{' :: rest =>
      match skipSpace rest with
      | '}' :: rest => .ok (.map [], rest)
      | rest => fields fuel [] rest
    | '[' :: rest =>
      match skipSpace rest with
      | ']' :: rest => .ok (.list [], rest)
      | rest => items fuel [] rest
    | 'n' :: 'u' :: 'l' :: 'l' :: rest => .ok (.null, rest)
    | 't' :: 'r' :: 'u' :: 'e' :: rest => .ok (.bool true, rest)
    | 'f' :: 'a' :: 'l' :: 's' :: 'e' :: rest => .ok (.bool false, rest)
    | 'N' :: 'a' :: 'N' :: rest => .ok (.float (0.0 / 0.0), rest)
    | 'I' :: 'n' :: 'f' :: 'i' :: 'n' :: 'i' :: 't' :: 'y' :: rest => .ok (.float (1.0 / 0.0), rest)
    | '-' :: 'I' :: 'n' :: 'f' :: 'i' :: 'n' :: 'i' :: 't' :: 'y' :: rest =>
      .ok (.float (-1.0 / 0.0), rest)
    | '-' :: rest => number true rest
    | _ => number false cs

/-- The fields of a map from the name of one on; `read` are those before it. -/
def fields : Nat → Value.Fields → List Char → Except Fault (Value × List Char)
  | 0, _, _ => .error .malformed
  | fuel + 1, read, cs =>
    match cs with
    | '"' :: rest => do
      let (name, rest) ← string fuel rest
      match skipSpace rest with
      | ':' :: rest =>
        let (v, rest) ← value fuel (skipSpace rest)
        let read := read.insert (.text name) v
        match skipSpace rest with
        | ',' :: rest => fields fuel read (skipSpace rest)
        | '}' :: rest => .ok (.map read, rest)
        | _ => .error .malformed
      | _ => .error .malformed
    | _ => .error .malformed

/-- The items of a list from one on; `read` are those before it, latest first. -/
def items : Nat → List Value → List Char → Except Fault (Value × List Char)
  | 0, _, _ => .error .malformed
  | fuel + 1, read, cs => do
    let (v, rest) ← value fuel cs
    match skipSpace rest with
    | ',' :: rest => items fuel (v :: read) (skipSpace rest)
    | ']' :: rest => .ok (.list (v :: read).reverse, rest)
    | _ => .error .malformed

end

def read (s : String) : Except Fault Value := do
  let cs := s.toList
  let (v, rest) ← value (cs.length + 1) (skipSpace cs)
  if (skipSpace rest).isEmpty then return v else .error .malformed

/-- The value of a text without a fault. -/
def parse? (s : String) : Option Value := (read s).toOption

end AssetBundler.Json
