import AssetBundler.Text.Blank
import AssetBundler.Text.Split

/-!
# Nested stylesheets: reading

A nested stylesheet holds variables, rules within rules, and calls of rules as mixins. The reader
drops block and line comments and turns the source into statements, or finds it malformed. Each
statement is read with less fuel than the text around it.
-/

namespace AssetBundler.Stylesheet.Nested

inductive Statement where
  | assign (name value : List Char)
  | declare (property value : List Char)
  /-- Calls the rules of one selector. -/
  | mixin (selector : List Char)
  | rule (selectors : List (List Char)) (body : List Statement)
  /-- A block of rules or declarations under a keyword. -/
  | group (head : List Char) (body : List Statement)
  /-- A keyword statement without a block. -/
  | keep (text : List Char)

/-- The text without comments; strings are left alone. -/
def dropComments : Nat → List Char → List Char
  | fuel + 1, '/' :: '/' :: cs => dropComments fuel (cs.dropWhile (· ≠ '\n'))
  | fuel + 1, '/' :: '*' :: cs =>
    let rec afterCloser : List Char → List Char
      | '*' :: '/' :: cs => cs
      | _ :: cs => afterCloser cs
      | [] => []
    dropComments fuel (afterCloser cs)
  | fuel + 1, c :: cs =>
    if c = '"' ∨ c = '\'' then
      let inside := cs.takeWhile (· ≠ c)
      let rest := cs.dropWhile (· ≠ c)
      c :: inside ++ rest.take 1 ++ dropComments fuel (rest.drop 1)
    else c :: dropComments fuel cs
  | _, cs => cs

/-- The text up to a semicolon or brace outside of strings and parentheses, and the rest from it. -/
def head : Nat → List Char → List Char × List Char
  | _, [] => ([], [])
  | depth, c :: cs =>
    if depth = 0 ∧ (c = ';' ∨ c = '{' ∨ c = '}') then ([], c :: cs)
    else
      let depth := if c = '(' then depth + 1 else if c = ')' then depth - 1 else depth
      let (text, rest) := head depth cs
      (c :: text, rest)

/-- A selector starts with a name or with a mark that selectors know. -/
def isSelector (cs : List Char) : Bool :=
  match cs with
  | c :: _ => c.isAlpha || ".#*&[:>+~_-".toList.contains c || 0x80 ≤ c.toNat
  | [] => false

def splitSelectors (cs : List Char) : List (List Char) := (Text.split ',' cs).map Text.trim

/-- The selector that a mixin call names; empty parentheses may follow it. -/
def mixinName (cs : List Char) : List Char :=
  let cs := Text.trim cs
  if ['(', ')'].isSuffixOf cs then Text.trim (cs.take (cs.length - 2)) else cs

/-- A statement without a block. -/
def simple? (isTop : Bool) (text : List Char) : Option Statement :=
  let name := Text.trim (text.takeWhile (· ≠ ':'))
  let value := Text.trim ((text.dropWhile (· ≠ ':')).drop 1)
  let hasColon := text.contains ':'
  match text with
  | '@' :: _ =>
    if hasColon && !value.isEmpty && !name.any Text.isBlank then some (.assign (name.drop 1) value)
    else if hasColon then none
    else some (.keep text)
  | c :: _ =>
    if (c = '.' ∨ c = '#') ∧ !hasColon then some (.mixin (mixinName text))
    else if isTop || !hasColon || name.isEmpty || value.isEmpty then none
    else some (.declare name value)
  | [] => none

mutual

/-- The statements up to the end of the text, or of a block, and the rest. -/
def statements? (isTop : Bool) : Nat → List Char → Option (List Statement × List Char)
  | 0, _ => none
  | fuel + 1, cs =>
    match Text.trimLeft cs with
    | [] => if isTop then some ([], []) else none
    | '}' :: rest => if isTop then none else some ([], rest)
    | ';' :: rest => statements? isTop fuel rest
    | cs => do
      let (first, rest) ← statement? isTop fuel cs
      let (others, rest) ← statements? isTop fuel rest
      return (first :: others, rest)

def statement? (isTop : Bool) : Nat → List Char → Option (Statement × List Char)
  | 0, _ => none
  | fuel + 1, cs =>
    let (text, rest) := head 0 cs
    let text := Text.trim text
    match rest with
    | '{' :: rest => do
      let (body, rest) ← statements? false fuel rest
      match text with
      | '@' :: _ => some (.group text body, rest)
      | _ =>
        let selectors := splitSelectors text
        if selectors.all isSelector then some (.rule selectors body, rest) else none
    | ';' :: rest => (simple? isTop text).map fun s ↦ (s, rest)
    | '}' :: _ => (simple? isTop text).map fun s ↦ (s, rest)
    | _ => none

end

def parse? (text : List Char) : Option (List Statement) :=
  let cs := dropComments text.length text
  (statements? true (2 * cs.length + 2) cs).map Prod.fst

end AssetBundler.Stylesheet.Nested
