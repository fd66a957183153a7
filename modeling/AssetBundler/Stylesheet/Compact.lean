import AssetBundler.Stylesheet.Import

/-!
# Compact stylesheets

A stylesheet without what a browser does not need: comments, blanks next to punctuation, and the
last semicolon of a block. Strings stay as they are. A blank in front of a colon separates selectors
outside of rules, so there it stays as one space. Comments that start with an exclamation mark can
be kept. The comment pairs that hide rules from one old browser stay in their shortest form.
-/

namespace AssetBundler.Stylesheet.Compact

def isSpace (c : Char) : Bool :=
  c == '\r' || c == '\n' || c == '\x0c' || c == ' ' || c == '\t'

/-- Characters that can continue a name. -/
def isNameChar (c : Char) : Bool := c.isAlphanum || c == '-' || c == '_' || 0x80 ≤ c.toNat

/-- Characters that never start a construct of their own. -/
def isPlain (c : Char) : Bool :=
  !(isSpace c || c == '\\' || c == '"' || c == '\'' || c == 'u' || c == '>' || c == '@' ||
    c == '/' || c == ';' || c == ':' || c == '{' || c == '}' || c == '+')

/-- The text up to and with a comment closer, and the rest. -/
def throughCloser : List Char → Option (List Char × List Char)
  | '*' :: '/' :: cs => some (['*', '/'], cs)
  | c :: cs => (throughCloser cs).map fun r ↦ (c :: r.1, r.2)
  | [] => none

/-- The comment at the start of a text and the rest. -/
def comment? : List Char → Option (List Char × List Char)
  | '/' :: '*' :: cs => (throughCloser cs).map fun r ↦ ('/' :: '*' :: r.1, r.2)
  | _ => none

inductive GapItem where
  | space
  | comment (source : List Char)
  deriving DecidableEq, Repr

/-- The longest run of blanks and comments, and of semicolons if `semicolons`, and the rest. -/
def gap (semicolons : Bool) : Nat → List Char → List GapItem × List Char
  | fuel + 1, c :: cs =>
    if isSpace c || (semicolons && c == ';') then
      let (items, rest) := gap semicolons fuel cs
      (.space :: items, rest)
    else match comment? (c :: cs) with
      | some (source, rest) =>
        let (items, rest) := gap semicolons fuel rest
        (.comment source :: items, rest)
      | none => ([], c :: cs)
  | _, cs => ([], cs)

structure State where
  inRule : Bool
  /-- Blocks of groups of rules that were announced and not yet opened. -/
  groups : Nat
  /-- A pair of comments that hides rules has been opened. -/
  concealing : Bool

/-- Comments with nothing between them, and whether the last one is to be kept. -/
structure CommentRun where
  source : List Char
  isKept : Bool

def isBang (comment : List Char) : Bool := ['/', '*', '!'].isPrefixOf comment

/-- Joins comments that touch. -/
def commentRuns (keepBang : Bool) : List GapItem → List CommentRun
  | [] => []
  | .space :: items => commentRuns keepBang items
  | .comment source :: .space :: items =>
    ⟨source, keepBang && isBang source⟩ :: commentRuns keepBang items
  | .comment source :: items =>
    match commentRuns keepBang items with
    | [] => [⟨source, keepBang && isBang source⟩]
    | run :: runs => ⟨source ++ run.source, run.isKept⟩ :: runs

/-- What stays of a run of comments. -/
def keepRun (s : State) (run : CommentRun) : List Char × State :=
  let hides := ['\\', '*', '/'].isSuffixOf run.source
  if run.isKept then (run.source, { s with concealing := hides })
  else if hides then
    if s.concealing then ([], s) else (['/', '*', '\\', '*', '/'], { s with concealing := true })
  else if s.concealing then (['/', '*', '*', '/'], { s with concealing := false })
  else ([], s)

def keepRuns (s : State) : List CommentRun → List Char × State
  | [] => ([], s)
  | run :: runs =>
    let (kept, s) := keepRun s run
    let (others, s) := keepRuns s runs
    (kept ++ others, s)

/-- A string up to its closing quote; escaped line breaks are allowed if `breaks`. -/
def stringRest (quote : Char) (breaks : Bool) : List Char → Option (List Char × List Char)
  | [] => none
  | '\\' :: '\r' :: '\n' :: cs =>
    if breaks then (stringRest quote breaks cs).map fun r ↦ ('\\' :: '\r' :: '\n' :: r.1, r.2)
    else none
  | '\\' :: c :: cs =>
    if !breaks && (c == '\r' || c == '\n' || c == '\x0c') then none
    else (stringRest quote breaks cs).map fun r ↦ ('\\' :: c :: r.1, r.2)
  | c :: cs =>
    if c = quote then some ([c], cs)
    else if c = '\r' ∨ c = '\n' ∨ c = '\x0c' then none
    else (stringRest quote breaks cs).map fun r ↦ (c :: r.1, r.2)

/-- Takes out escaped line breaks. -/
def joinLines : List Char → List Char
  | '\\' :: '\r' :: '\n' :: cs => joinLines cs
  | '\\' :: c :: cs =>
    if c = '\r' ∨ c = '\n' ∨ c = '\x0c' then joinLines cs else '\\' :: c :: joinLines cs
  | c :: cs => c :: joinLines cs
  | [] => []

/-- A string and the rest. -/
def string? (quote : Char) (cs : List Char) : Option (List Char × List Char) :=
  match stringRest quote false cs with
  | some (s, rest) => some (quote :: s, rest)
  | none => (stringRest quote true cs).map fun r ↦ (quote :: joinLines r.1, r.2)

/-- A quoted address up to its closing quote; raw line breaks are allowed. -/
def quotedAddress (quote : Char) : List Char → Option (List Char × List Char)
  | [] => none
  | '\\' :: c :: cs => (quotedAddress quote cs).map fun r ↦ ('\\' :: c :: r.1, r.2)
  | c :: cs =>
    if c = quote then some ([c], cs) else (quotedAddress quote cs).map fun r ↦ (c :: r.1, r.2)

/-- Characters of an address without quotes. -/
def isAddressChar (c : Char) : Bool :=
  isSpace c || !(c.toNat ≤ 0x20 || c == '"' || c == '\'' || c == '(' || c == ')' || c.toNat == 0x7F)

def plainAddress : List Char → List Char × List Char
  | '\\' :: c :: cs =>
    let (s, rest) := plainAddress cs
    ('\\' :: c :: s, rest)
  | c :: cs =>
    if isAddressChar c then
      let (s, rest) := plainAddress cs
      (c :: s, rest)
    else ([], c :: cs)
  | [] => ([], [])

/-- Takes out blanks and escaped line breaks; other escapes stay. -/
def squeeze : List Char → List Char
  | '\\' :: c :: cs =>
    if c = '\r' ∨ c = '\n' ∨ c = '\x0c' then squeeze cs else '\\' :: c :: squeeze cs
  | c :: cs => if isSpace c then squeeze cs else c :: squeeze cs
  | [] => []

/-- Characters of the media type of a data address. -/
def isMediaTypeChar (c : Char) : Bool :=
  0x20 < c.toNat && c != '\\' && c != '"' && c != '\'' && c != ','

/-- Whether a media type up to its comma is one of plain data. -/
def isPlainMediaType (cs : List Char) : Bool :=
  (cs.dropWhile isMediaTypeChar).head? == some ',' &&
    !";base64".toList.isSuffixOf ((cs.takeWhile isMediaTypeChar).map Char.toLower)

/-- Whether a quoted address carries its data as plain text, where blanks count. -/
def isPlainData (address : List Char) : Bool :=
  isQuote (address.headD ' ') &&
    ((address.drop 1).take 5).map Char.toLower == "data:".toList &&
    isPlainMediaType (address.drop 6)

/-- The address of `url(…)` after the opening parenthesis, and the rest after the closing one. -/
def address? (cs : List Char) : Option (List Char × List Char) :=
  let inner := cs.dropWhile isSpace
  let closed (found : List Char × List Char) : Option (List Char × List Char) :=
    (Text.dropStart? [')'] (found.2.dropWhile isSpace)).map fun rest ↦ (found.1, rest)
  match inner with
  | '"' :: rest =>
    ((quotedAddress '"' rest).map fun r ↦ ('"' :: r.1, r.2)).bind closed
  | '\'' :: rest =>
    ((quotedAddress '\'' rest).map fun r ↦ ('\'' :: r.1, r.2)).bind closed
  | _ => closed (plainAddress inner)

/-- The keywords, in lower case, that announce a block of rules. -/
def groupKeywords : List (List Char) :=
  ["@media", "@supports", "@document", "@keyframes", "@-webkit-keyframes", "@-moz-keyframes",
    "@-o-keyframes", "@-ms-keyframes"].map String.toList

/-- The start of a text that spells one of some words in any letter case, and the rest. -/
def anyCase? (words : List (List Char)) (cs : List Char) : Option (List Char × List Char) :=
  (words.find? fun word ↦ word.isPrefixOf (cs.map Char.toLower)).map fun word ↦
    (cs.take word.length, cs.drop word.length)

def groupKeyword? (cs : List Char) : Option (List Char × List Char) :=
  match anyCase? groupKeywords cs with
  | some (word, rest) => if rest.head?.any isNameChar then none else some (word, rest)
  | none => none

def firstPart? (cs : List Char) : Option (List Char × List Char) :=
  anyCase? [":first-line".toList, ":first-letter".toList] cs

/-- The rest of an escape after its backslash: hexadecimal digits with one blank, or a character. -/
def escapeRest? (cs : List Char) : Option (List Char × List Char) :=
  let isHex (c : Char) := c.isDigit || ('a' ≤ c && c ≤ 'f') || ('A' ≤ c && c ≤ 'F')
  let digits := (cs.take 6).takeWhile isHex
  if !digits.isEmpty then
    match cs.drop digits.length with
    | '\r' :: '\n' :: rest => some (digits ++ [' '], rest)
    | c :: rest => if isSpace c then some (digits ++ [' '], rest) else some (digits, c :: rest)
    | [] => some (digits, [])
  else match cs with
    | c :: rest => if c = '\n' ∨ c = '\r' ∨ c = '\x0c' then none else some ([c], rest)
    | [] => none

/-- After one of these characters a gap is dropped. -/
def absorbsAfter (c : Char) : Bool := "\x7b\x7d(=:>[,!".toList.contains c

/-- In front of one of these characters a gap is dropped. -/
def absorbsBefore (c : Char) : Bool := ":\x7b\x7d);=>],!".toList.contains c

/-- What a gap leaves besides comments, between the character before it and the text after it. -/
def gapSpace (s : State) (before : Option Char) (rest : List Char) : List Char :=
  match before, rest.head? with
  | none, _ => []
  | _, none => []
  | some b, some c =>
    if absorbsAfter b then []
    else if c = ':' ∧ !s.inRule ∧ s.groups = 0 then [' ']
    else if absorbsBefore c then []
    else [' ']

/-- The output for the construct at the start of a text, and the rest. -/
def construct (keepBang : Bool) (s : State) (before : Option Char) (c : Char) (cs : List Char) :
    List Char × State × List Char :=
  let fuel := cs.length + 1
  let copied := ([c], s, cs)
  match gap false fuel (c :: cs) with
  | (item :: items, rest) =>
    let (kept, s') := keepRuns s (commentRuns keepBang (item :: items))
    (gapSpace s before rest ++ kept, s', rest)
  | ([], _) =>
    match c with
    | ';' =>
      let (items, rest) := gap true fuel cs
      let (kept, s') := keepRuns s (commentRuns keepBang items)
      if s.inRule ∧ rest.head? = some '}' then (kept, s', rest) else (';' :: kept, s', rest)
    | '{' =>
      if 0 < s.groups then (['{'], { s with groups := s.groups - 1 }, cs)
      else (['{'], { s with inRule := true }, cs)
    | '}' => (['}'], { s with inRule := false }, cs)
    | '"' | '\'' =>
      match string? c cs with
      | some (text, rest) => (text, s, rest)
      | none => copied
    | 'u' =>
      match if before.any isNameChar then none else Text.dropStart? "rl(".toList cs with
      | some inner =>
        match address? inner with
        | some (address, rest) =>
          let address := if isPlainData address then address else squeeze address
          ("url(".toList ++ address ++ [')'], s, rest)
        | none => copied
      | none => copied
    | '@' =>
      match groupKeyword? (c :: cs) with
      | some (word, rest) => (word, { s with groups := s.groups + 1 }, rest)
      | none => copied
    | '>' =>
      match Text.dropStart? "/**/".toList cs with
      | some rest =>
        let (items, rest) := gap false fuel rest
        if !s.inRule ∧ s.groups = 0 then
          let (kept, s') := keepRuns { s with concealing := false } (commentRuns keepBang items)
          (">/**/".toList ++ kept, s', rest)
        else
          let (kept, s') := keepRuns s (commentRuns keepBang items)
          ('>' :: kept, s', rest)
      | none => copied
    | ':' =>
      match firstPart? (c :: cs) with
      | some (word, rest) =>
        let (items, rest) := gap false fuel rest
        if rest.head? = some '{' ∨ rest.head? = some ',' then
          let (kept, s') := keepRuns s (commentRuns keepBang items)
          (word ++ ' ' :: kept, s', rest)
        else copied
      | none => copied
    | '\\' =>
      match escapeRest? cs with
      | some (text, rest) => ('\\' :: text ++ rest.takeWhile isPlain, s, rest.dropWhile isPlain)
      | none => copied
    | _ =>
      if isPlain c then (c :: cs.takeWhile isPlain, s, cs.dropWhile isPlain) else copied

/-- The last of the characters that were read when `cs` became `rest`. -/
def lastRead (c : Char) (cs rest : List Char) : Option Char :=
  (c :: cs.take (cs.length - rest.length)).getLast?

def run (keepBang : Bool) : Nat → State → Option Char → List Char → List Char
  | fuel + 1, s, before, c :: cs =>
    let (out, s, rest) := construct keepBang s before c cs
    out ++ run keepBang fuel s (lastRead c cs rest) rest
  | _, _, _, _ => []

end Compact

/-- The compact form of a stylesheet. -/
def compact (keepBang : Bool) (text : String) : String :=
  let cs := text.toList
  String.ofList (Compact.run keepBang cs.length ⟨false, 0, false⟩ none cs)

end AssetBundler.Stylesheet
