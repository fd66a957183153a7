import AssetBundler.Number.Shortest
import AssetBundler.Text.PrintableTable
import AssetBundler.Value

/-!
# Texts of values

A value has two texts. Its literal shows texts in quotes with escapes, as messages quote them; its
display form is the same but for a text on its own, which stands for itself.
-/

namespace AssetBundler

def isPrintable (c : Char) : Bool :=
  if c.toNat < 127 then 32 ≤ c.toNat else !Text.unprintableRanges.contains c

/-- The last `width` hexadecimal digits of `n`, in lower case. -/
def hexDigits (width n : Nat) : List Char :=
  (List.range width).map fun i ↦ (n >>> (4 * (width - 1 - i)) % 16).digitChar

/-- One character inside a literal that `quote` delimits. -/
def literalChar (quote c : Char) : List Char :=
  if c = quote ∨ c = '\\' then ['\\', c]
  else if c = '\n' then ['\\', 'n']
  else if c = '\r' then ['\\', 'r']
  else if c = '\t' then ['\\', 't']
  else if isPrintable c then [c]
  else if c.toNat < 0x100 then '\\' :: 'x' :: hexDigits 2 c.toNat
  else if c.toNat < 0x10000 then '\\' :: 'u' :: hexDigits 4 c.toNat
  else '\\' :: 'U' :: hexDigits 8 c.toNat

/-- Single quotes, or double ones for a text that holds single quotes and no double one. -/
def literalText (s : String) : List Char :=
  let quote := if s.toList.contains '\'' && !s.toList.contains '"' then '"' else '\''
  quote :: s.toList.flatMap (literalChar quote) ++ [quote]

namespace Value

mutual

def literal : Value → List Char
  | .null => "None".toList
  | .bool b => (if b then "True" else "False").toList
  | .int n => (toString n).toList
  | .float x => (Number.floatText x).toList
  | .text s => literalText s
  | .list items => '[' :: ", ".toList.intercalate (literalItems items) ++ [']']
  | .map fields => '{' :: ", ".toList.intercalate (literalFields fields) ++ ['}']

def literalItems : List Value → List (List Char)
  | [] => []
  | v :: vs => literal v :: literalItems vs

def literalFields : List (Value × Value) → List (List Char)
  | [] => []
  | (k, v) :: rest => (literal k ++ ':' :: ' ' :: literal v) :: literalFields rest

end

def quoted (v : Value) : String := String.ofList v.literal

def display : Value → String
  | .text s => s
  | v => v.quoted

end Value

/-- A text as messages quote it. -/
def quoteText (s : String) : String := String.ofList (literalText s)

end AssetBundler
