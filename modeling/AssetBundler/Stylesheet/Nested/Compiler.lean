import AssetBundler.Stylesheet.Nested.Reader

/-!
# Nested stylesheets: compiling

A nested stylesheet becomes a flat one: variables are replaced by their values, mixin calls by the
statements of the rules they name, and a rule inside a rule gets the selectors of both. Each rule is
written with one declaration a line or, minified, on one line. Unknown variables and mixins make the
source malformed.
-/

namespace AssetBundler.Stylesheet.Nested

/-- What can be named from inside a block, innermost first. -/
structure Scope where
  values : List (List Char × List Char)
  rules : List (List Char × List Statement)

namespace Scope

/-- The scope inside a block with the given statements; its last assignment of a name counts. -/
def enter (s : Scope) (body : List Statement) : Scope where
  values := (body.reverse.filterMap fun
    | .assign name value => some (name, value)
    | _ => none) ++ s.values
  rules := (body.flatMap fun
    | .rule selectors inner => selectors.map fun selector ↦ (selector, inner)
    | _ => []) ++ s.rules

end Scope

structure Style where
  isMinified : Bool

namespace Style

def space (st : Style) : List Char := if st.isMinified then [] else [' ']

def newline (st : Style) : List Char := if st.isMinified then [] else ['\n']

end Style

def isNameChar (c : Char) : Bool := c.isAlphanum || c == '-' || c == '_' || 0x80 ≤ c.toNat

def isHexDigit (c : Char) : Bool :=
  c.isDigit || ('a' ≤ c && c ≤ 'f') || ('A' ≤ c && c ≤ 'F')

/-- A colour in six lower-case digits; other names after a hash sign stay. -/
def colour (digits : List Char) : List Char :=
  if digits.all isHexDigit && digits.length == 3 then
    '#' :: (digits.map Char.toLower).flatMap fun c ↦ [c, c]
  else if digits.all isHexDigit && digits.length == 6 then '#' :: digits.map Char.toLower
  else '#' :: digits

/-- Replaces variables by their values, `fuel` bounds the depth of values in values. -/
def substitute (s : Scope) : Nat → List Char → Option (List Char)
  | 0, _ => none
  | _, [] => some []
  | fuel + 1, '@' :: cs => do
    let name := cs.takeWhile isNameChar
    let value ← (s.values.find? fun v ↦ v.1 == name).map Prod.snd
    let inserted ← substitute s fuel value
    let others ← substitute s fuel (cs.drop name.length)
    return inserted ++ others
  | fuel + 1, c :: cs =>
    if c = '"' ∨ c = '\'' then do
      let inside := cs.takeWhile (· ≠ c)
      let rest := cs.dropWhile (· ≠ c)
      let others ← substitute s fuel (rest.drop 1)
      return c :: inside ++ rest.take 1 ++ others
    else do
      let others ← substitute s fuel cs
      return c :: others

/-- Lays a value out: single blanks, a blank after each comma, colours in full. -/
def layout (st : Style) : Nat → List Char → List Char
  | 0, cs => cs
  | _, [] => []
  | fuel + 1, c :: cs =>
    if c = '"' ∨ c = '\'' then
      let inside := cs.takeWhile (· ≠ c)
      let rest := cs.dropWhile (· ≠ c)
      c :: inside ++ rest.take 1 ++ layout st fuel (rest.drop 1)
    else if c = '#' then
      let digits := cs.takeWhile isNameChar
      colour digits ++ layout st fuel (cs.drop digits.length)
    else if Text.isBlank c then
      match Text.trimLeft cs with
      | [] => []
      | ',' :: rest => layout st fuel (',' :: rest)
      | rest => ' ' :: layout st fuel rest
    else if c = ',' then ',' :: st.space ++ layout st fuel (Text.trimLeft cs)
    else c :: layout st fuel cs

def value? (st : Style) (s : Scope) (cs : List Char) : Option (List Char) :=
  (substitute s 1000 cs).map fun v ↦ layout st v.length (Text.trim v)

/-- A selector with single blanks and blanks around combinators. -/
def selectorText (st : Style) (cs : List Char) : List Char :=
  let spread := cs.flatMap fun c ↦ if c = '>' ∨ c = '+' ∨ c = '~' then [' ', c, ' '] else [c]
  let words := (Text.split ' ' (spread.map fun c ↦ if Text.isBlank c then ' ' else c)).filter
    fun w ↦ !w.isEmpty
  if st.isMinified then
    words.foldl (fun acc w ↦
      if acc.isEmpty || [['>'], ['+'], ['~']].contains w ||
          acc.getLast?.any fun c ↦ c == '>' || c == '+' || c == '~' then acc ++ w
      else acc ++ ' ' :: w) []
  else [' '].intercalate words

/-- The selectors of a rule inside a rule: an ampersand stands for the outer selector, which is
otherwise put in front. -/
def nestSelectors (outer inner : List (List Char)) : List (List Char) :=
  if outer.isEmpty then inner
  else inner.flatMap fun i ↦ outer.map fun o ↦
    if i.contains '&' then i.flatMap fun c ↦ if c = '&' then o else [c]
    else o ++ ' ' :: i

/-- A block of lines under a head. -/
def block (st : Style) (head body : List Char) : List Char :=
  head ++ st.space ++ '{' :: st.newline ++ body ++ ['}', '\n']

/-- Indents the lines of a block by one more blank. -/
def indent (cs : List Char) : List Char :=
  cs.flatMap fun c ↦ if c = '\n' then ['\n', ' '] else [c]

/-- The declarations of a block and the rules that follow it. -/
structure Output where
  declarations : List Char
  following : List Char

namespace Output

def empty : Output := ⟨[], []⟩

def append (a b : Output) : Output :=
  ⟨a.declarations ++ b.declarations, a.following ++ b.following⟩

end Output

mutual

/-- The output of the statements of a block under some selectors. -/
def compileAll (st : Style) (s : Scope) (selectors : List (List Char)) :
    Nat → List Statement → Option Output
  | 0, _ => none
  | _, [] => some .empty
  | fuel + 1, first :: others => do
    let a ← compileOne st s selectors fuel first
    let b ← compileAll st s selectors fuel others
    return a.append b

def compileOne (st : Style) (s : Scope) (selectors : List (List Char)) :
    Nat → Statement → Option Output
  | 0, _ => none
  | _, .assign .. => some .empty
  | _, .keep text => some ⟨[], text ++ [';', '\n']⟩
  | _, .declare property value => do
    let v ← value? st s value
    let margin := st.space
    return ⟨margin ++ property ++ ':' :: st.space ++ v ++ ';' :: st.newline, []⟩
  | fuel + 1, .mixin selector => do
    let bodies := (s.rules.filter fun r ↦ r.1 == selector).map Prod.snd
    if bodies.isEmpty then none
    compileAll st (s.enter bodies.flatten) selectors fuel bodies.flatten
  | fuel + 1, .rule inner body => do
    let all := nestSelectors selectors inner
    let out ← compileAll st (s.enter body) all fuel body
    let heads := all.map (selectorText st)
    let own := if out.declarations.isEmpty then []
      else block st ((',' :: st.newline).intercalate heads) out.declarations
    return ⟨[], own ++ out.following⟩
  | fuel + 1, .group head body => do
    let out ← compileAll st (s.enter body) selectors fuel body
    let keyword := '@' :: (head.drop 1).takeWhile isNameChar
    let condition ← value? st s (head.drop keyword.length)
    let head := keyword ++ (if condition.isEmpty then [] else ' ' :: condition)
    let rules :=
      if st.isMinified then Text.trim out.following
      else if out.following.isEmpty then []
      else ' ' :: (indent out.following).dropLast
    return ⟨[], block st head (out.declarations ++ rules)⟩

end

/-- The flat stylesheet, none if the source is malformed. -/
def compile? (isMinified : Bool) (text : String) : Option String := do
  let body ← parse? text.toList
  let s := Scope.enter ⟨[], []⟩ body
  let out ← compileAll ⟨isMinified⟩ s [] (2 * text.length + 50) body
  return String.ofList (Text.trim (out.declarations ++ out.following))

end AssetBundler.Stylesheet.Nested
