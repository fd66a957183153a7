import AssetBundler.Text.Blank
import AssetBundler.Text.Pieces

/-!
# Import statements

An import names its target in double quotes or as `url(…)`, where quotes may be left out, and ends in
a semicolon. Blanks may stand around each part. The path is the target without the blanks around it.
-/

namespace AssetBundler.Stylesheet

def isQuote (c : Char) : Bool := c == '\'' || c == '"'

/-- Characters that a target can hold between the parentheses of `url(…)`. -/
def isTargetChar (c : Char) : Bool := !isQuote c && c != ')'

def skipQuote : List Char → List Char
  | [] => []
  | c :: cs => if isQuote c then cs else c :: cs

namespace Import

/-- Blanks and the semicolon that ends a statement. -/
def ending? (cs : List Char) : Option (List Char) := Text.dropStart? [';'] (Text.trimLeft cs)

/-- The end of `url(…)` after its target, with the semicolon. -/
def urlEnding? (cs : List Char) : Option (List Char) :=
  (Text.dropStart? [')'] (Text.trimLeft (skipQuote cs))).bind ending?

/-- The target of `url(…)` and the rest after the statement. A target of blanks alone is empty. -/
def urlTarget? (cs : List Char) : Option (List Char × List Char) :=
  let inner := Text.trimLeft cs
  let opened := skipQuote inner
  let target := opened.takeWhile isTargetChar
  if !target.isEmpty then
    (urlEnding? (opened.dropWhile isTargetChar)).map fun rest ↦ (Text.trim target, rest)
  else if inner.length < cs.length then (urlEnding? inner).map fun rest ↦ ([], rest)
  else none

/-- The target in double quotes and the rest after the statement. -/
def quotedTarget? (cs : List Char) : Option (List Char × List Char) :=
  let target := cs.takeWhile (· ≠ '"')
  if target.isEmpty then none
  else
    ((Text.dropStart? ['"'] (cs.dropWhile (· ≠ '"'))).bind ending?).map fun rest ↦
      (Text.trim target, rest)

/-- The path of the statement at the start of a text and the rest after it. -/
def recognise (cs : List Char) : Option (String × List Char) :=
  match Text.dropStart? "@import".toList cs with
  | none => none
  | some rest =>
    let target := match Text.trimLeft rest with
      | '"' :: rest => quotedTarget? rest
      | rest => (Text.dropStart? "url(".toList rest).bind urlTarget?
    target.map fun r ↦ (String.ofList r.1, r.2)

end Import

/-- A stylesheet as import statements, each with its path, and the characters between them. -/
def imports (text : String) : List (Text.Piece String) := Text.pieces Import.recognise text.toList

end AssetBundler.Stylesheet
