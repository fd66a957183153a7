import AssetBundler.Stylesheet.Compact
import AssetBundler.Text.Blank

/-!
# Compact scripts

A script without comments and without the blanks next to punctuation. A blank stays between name
characters and between equal signs of addition or subtraction, a line break stays where the
characters around it could end and start a statement. Strings and regular expressions stay as they
are. Comments that start with an exclamation mark can be kept.
-/

namespace AssetBundler.Script.Compact

def isNameChar (c : Char) : Bool := c.isAlphanum || c == '_' || c == '$' || 127 ≤ c.toNat

/-- Characters that can start a statement. -/
def canStart (c : Char) : Bool := isNameChar c || "\x7b[(!+-".toList.contains c

/-- Characters that can end a statement. -/
def canEnd (c : Char) : Bool := isNameChar c || "\x7d])\"'\x60+-".toList.contains c

/-- Characters after which a slash starts a regular expression. -/
def precedesPattern (c : Char) : Bool := "(,=:[!&|?\x7b\x7d;\r\n+*-".toList.contains c

/-- Characters that a regular expression in front of a line break does not run into. -/
def standsApart (c : Char) : Bool :=
  127 ≤ c.toNat || (0x20 < c.toNat && !"\x7d])?:|,;.&=+-".toList.contains c)

def isBlank (c : Char) : Bool := c.toNat ≤ 0x20 && c != '\n' && c != '\r'

/-- Characters without a meaning for the layout. -/
def isDull (c : Char) : Bool :=
  0x20 < c.toNat && c != '\'' && c != '"' && c != '\x60' && c != '/'

inductive GapItem where
  | blank
  | comment (source : List Char)
  /-- A line break with the line comment in front of it. -/
  | lineBreak
  deriving DecidableEq, Repr

/-- The rest after a line break or after a line comment and its line break. -/
def lineBreak? (cs : List Char) : Option (List Char) :=
  let rest := match cs with
    | '/' :: '/' :: cs => cs.dropWhile fun c ↦ c != '\n' && c != '\r'
    | cs => cs
  match rest with
  | c :: rest => if c = '\n' ∨ c = '\r' then some rest else none
  | [] => none

/-- The longest run of blanks and block comments, with line breaks if `breaks`, and the rest. -/
def gap (breaks : Bool) : Nat → List Char → List GapItem × List Char
  | fuel + 1, c :: cs =>
    if isBlank c then
      let (items, rest) := gap breaks fuel cs
      (.blank :: items, rest)
    else match Stylesheet.Compact.comment? (c :: cs) with
      | some (source, rest) =>
        let (items, rest) := gap breaks fuel rest
        (.comment source :: items, rest)
      | none =>
        match if breaks then lineBreak? (c :: cs) else none with
        | some rest =>
          let (items, rest) := gap breaks fuel rest
          (.lineBreak :: items, rest)
        | none => ([], c :: cs)
  | _, cs => ([], cs)

/-- The comments of a gap that are kept. -/
def kept (keepBang : Bool) (items : List GapItem) : List Char :=
  items.flatMap fun
    | .comment source => if keepBang && Stylesheet.Compact.isBang source then source else []
    | _ => []

def orElse (cs other : List Char) : List Char := if cs.isEmpty then other else cs

/-- A string up to its closing quote; only a template can hold raw line breaks. -/
def stringRest (quote : Char) : List Char → Option (List Char × List Char)
  | [] => none
  | '\\' :: '\r' :: '\n' :: cs =>
    (stringRest quote cs).map fun r ↦ ('\\' :: '\r' :: '\n' :: r.1, r.2)
  | '\\' :: c :: cs => (stringRest quote cs).map fun r ↦ ('\\' :: c :: r.1, r.2)
  | c :: cs =>
    if c = quote then some ([c], cs)
    else if quote ≠ '\x60' ∧ (c = '\r' ∨ c = '\n') then none
    else (stringRest quote cs).map fun r ↦ (c :: r.1, r.2)

/-- A character class of a regular expression after its opening bracket. -/
def classRest : List Char → Option (List Char × List Char)
  | [] => none
  | '\\' :: c :: cs =>
    if c = '\r' ∨ c = '\n' then none else (classRest cs).map fun r ↦ ('\\' :: c :: r.1, r.2)
  | c :: cs =>
    if c = ']' then some ([c], cs)
    else if c = '\r' ∨ c = '\n' ∨ c = '\\' then none
    else (classRest cs).map fun r ↦ (c :: r.1, r.2)

/-- A regular expression after its first slash, with the slash that ends it. -/
def patternRest : Nat → List Char → Option (List Char × List Char)
  | fuel + 1, c :: cs =>
    if c = '/' then some ([c], cs)
    else if c = '\r' ∨ c = '\n' then none
    else if c = '\\' then
      match cs with
      | d :: cs =>
        if d = '\r' ∨ d = '\n' then none
        else (patternRest fuel cs).map fun r ↦ (c :: d :: r.1, r.2)
      | [] => none
    else if c = '[' then
      match classRest cs with
      | some (text, rest) => (patternRest fuel rest).map fun r ↦ (c :: text ++ r.1, r.2)
      | none => none
    else (patternRest fuel cs).map fun r ↦ (c :: r.1, r.2)
  | _, _ => none

/-- A regular expression with its flags, and the rest. -/
def pattern? (cs : List Char) : Option (List Char × List Char) :=
  match cs with
  | '/' :: c :: cs =>
    if c = '\r' ∨ c = '\n' ∨ c = '/' ∨ c = '*' then none
    else (patternRest (cs.length + 1) (c :: cs)).map fun r ↦
      ('/' :: r.1 ++ r.2.takeWhile Char.isLower, r.2.dropWhile Char.isLower)
  | _ => none

/-- A call of a method follows. -/
def callsMethod (cs : List Char) : Bool :=
  match (gap true cs.length cs).2 with
  | '.' :: cs => (gap true cs.length cs).2.head?.any Char.isLower
  | _ => false

/-- The keyword `return` stands before, latest character first, as a word of its own. -/
def followsReturn (before : List Char) : Bool :=
  "nruter".toList.isPrefixOf before &&
    (before.drop 6).head?.any fun c ↦ c.toNat < 127 && !isNameChar c

/-- The line break after a regular expression that stays, with the comments in the gap. -/
def afterPattern (keepBang : Bool) (rest : List Char) : List Char × List Char :=
  let (items, rest') := gap true rest.length rest
  if items.contains .lineBreak && rest'.head?.any standsApart then
    ('\n' :: kept keepBang items, rest')
  else ([], rest)

/-- A regular expression after the gap at the start of a text, where one can stand. -/
def patternHere? (keepBang : Bool) (before cs : List Char) : Option (List Char × List Char) :=
  let (items, inner) := gap true cs.length cs
  match before.head?, pattern? inner with
  | some b, some (text, rest) =>
    if b = ')' ∧ callsMethod rest then some (kept keepBang items ++ text, rest)
    else if precedesPattern b then
      let (ending, rest) := afterPattern keepBang rest
      some (kept keepBang items ++ text ++ ending, rest)
    else if followsReturn before then
      let (ending, rest) := afterPattern keepBang rest
      some (kept keepBang items ++ (if items.contains .lineBreak then ['\n'] else []) ++ text ++
        ending, rest)
    else none
  | _, _ => none

/-- What stays of a gap, and the rest; none if there is no gap. -/
def gapHere? (keepBang : Bool) (before cs : List Char) : Option (List Char × List Char) :=
  let (items, rest) := gap true cs.length cs
  let (blanks, blankRest) := gap false cs.length cs
  if items.contains .lineBreak && before.head?.any canEnd && rest.head?.any canStart then
    some (orElse (kept keepBang items) ['\n'], rest)
  else if !blanks.isEmpty then
    let apart := match before.head?, blankRest.head? with
      | some b, some c => (isNameChar b && isNameChar c) || (b == '+' && c == '+') ||
          (b == '-' && c == '-')
      | _, _ => false
    some (if apart then orElse (kept keepBang blanks) [' '] else kept keepBang blanks, blankRest)
  else if !items.isEmpty then some (kept keepBang items, rest)
  else none

/-- The output for the construct at the start of a text, and the rest. -/
def construct (keepBang : Bool) (before : List Char) (c : Char) (cs : List Char) :
    List Char × List Char :=
  if isDull c then (c :: cs.takeWhile isDull, cs.dropWhile isDull)
  else
    let string := if c = '\'' ∨ c = '"' ∨ c = '\x60' then stringRest c cs else none
    match string with
    | some (text, rest) => (c :: text ++ rest.takeWhile isDull, rest.dropWhile isDull)
    | none =>
      match patternHere? keepBang before (c :: cs) with
      | some r => r
      | none => (gapHere? keepBang before (c :: cs)).getD ([c], cs)

/-- Works through a text; `before` is what has been read, latest character first. -/
def run (keepBang : Bool) : Nat → List Char → List Char → List Char
  | fuel + 1, before, c :: cs =>
    let (out, rest) := construct keepBang before c cs
    let read := c :: cs.take (cs.length - rest.length)
    out ++ run keepBang fuel (read.reverse ++ before) rest
  | _, _, _ => []

end Compact

/-- The compact form of a script. -/
def compact (keepBang : Bool) (text : String) : String :=
  let cs := '\n' :: text.toList ++ ['\n']
  String.ofList (Text.trim (Compact.run keepBang cs.length [] cs))

end AssetBundler.Script
