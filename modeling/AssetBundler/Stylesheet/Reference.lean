import AssetBundler.Stylesheet.Import

/-!
# References of a stylesheet

A reference is `url(…)` with a target in single quotes, in double quotes or without quotes. Targets
with a scheme of their own, with an authority, and fragments are external: they name nothing that the
pipeline publishes.
-/

namespace AssetBundler.Stylesheet

/-- A target and the quote around it, if it has one. -/
structure Reference where
  quote : Option Char
  target : String
  deriving DecidableEq, Repr

namespace Reference

def isExternal (r : Reference) : Bool :=
  ["data:", "http:", "https:", "//", "#"].any fun start ↦ start.toList.isPrefixOf r.target.toList

/-- A target in quotes after its opening quote, and the rest after the closing parenthesis. -/
def quoted? (quote : Char) (cs : List Char) : Option (Reference × List Char) :=
  let target := cs.takeWhile isTargetChar
  if target.isEmpty then none
  else
    ((Text.dropStart? [quote] (cs.dropWhile isTargetChar)).bind fun rest ↦
        Text.dropStart? [')'] (Text.trimLeft rest)).map fun rest ↦
      (⟨some quote, String.ofList (Text.trim target)⟩, rest)

/-- A target without quotes; blanks alone make an empty one. -/
def plain? (cs : List Char) : Option (Reference × List Char) :=
  if (cs.takeWhile isTargetChar).isEmpty then none
  else
    (Text.dropStart? [')'] (cs.dropWhile isTargetChar)).map fun rest ↦
      (⟨none, String.ofList (Text.trim (cs.takeWhile isTargetChar))⟩, rest)

/-- The reference at the start of a text and the rest after it. -/
def recognise (cs : List Char) : Option (Reference × List Char) :=
  match Text.dropStart? "url(".toList cs with
  | none => none
  | some inner =>
    match Text.trimLeft inner with
    | [] => none
    | c :: rest => if isQuote c then quoted? c rest else plain? inner

/-- A reference with its target replaced by a URL; the quotes stay. -/
def rewritten (r : Reference) (url : String) : String :=
  let quote := String.ofList r.quote.toList
  "url(" ++ quote ++ url ++ quote ++ ")"

end Reference

/-- A stylesheet as references and the characters between them. -/
def references (text : String) : List (Text.Piece Reference) :=
  Text.pieces Reference.recognise text.toList

end AssetBundler.Stylesheet
