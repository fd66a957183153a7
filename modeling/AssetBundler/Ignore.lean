import AssetBundler.Failure
import AssetBundler.Text.Blank
import AssetBundler.Text.Split

/-!
# Ignore patterns

Patterns in the notation of ignore files, matched against the path of a file with slashes. Stars,
question marks and bracket expressions stay within a name, a double star stands for any number of
folders, a pattern with a slash before its end is anchored, and one that matches a folder matches
everything below it. The last pattern that matches decides; an exclamation mark takes files in again.
-/

namespace AssetBundler.Ignore

/-- The characters and intervals of a bracket expression. -/
structure CharSet where
  isNegated : Bool
  intervals : List (Char × Char)
  deriving DecidableEq, Repr

def CharSet.contains (s : CharSet) (c : Char) : Bool :=
  (s.intervals.any fun i ↦ i.1 ≤ c && c ≤ i.2) != s.isNegated

/-- A part of a pattern. -/
inductive Part where
  | char (c : Char)
  | oneOf (s : CharSet)
  /-- Any one character of a name. -/
  | any
  /-- Any characters of a name. -/
  | star
  /-- A whole path. -/
  | everything
  /-- Nothing, or any folders with the slash after them. -/
  | folders
  /-- Nothing, or a slash and any folders. -/
  | inner
  /-- The end, or a slash and anything below. -/
  | tail
  /-- A slash and anything below. -/
  | below
  deriving DecidableEq, Repr

def isNameChar (c : Char) : Bool := c != '/'

/-- Whether some end of the text satisfies `p`. -/
def anyEnd (p : List Char → Bool) : List Char → Bool
  | [] => p []
  | c :: cs => p (c :: cs) || anyEnd p cs

/-- Whether some end of the text, after characters of the class, satisfies `p`. -/
def anyEndAfter (cls : Char → Bool) (p : List Char → Bool) : List Char → Bool
  | [] => p []
  | c :: cs => p (c :: cs) || (cls c && anyEndAfter cls p cs)

def matchesParts : List Part → List Char → Bool
  | [], cs => cs.isEmpty
  | .char x :: ps, c :: cs => x == c && matchesParts ps cs
  | .oneOf s :: ps, c :: cs => s.contains c && matchesParts ps cs
  | .any :: ps, c :: cs => isNameChar c && matchesParts ps cs
  | .char _ :: _, [] => false
  | .oneOf _ :: _, [] => false
  | .any :: _, [] => false
  | .star :: ps, cs => anyEndAfter isNameChar (matchesParts ps) cs
  | .everything :: _, cs => !cs.isEmpty
  | .folders :: ps, cs =>
    matchesParts ps cs ||
      anyEnd (fun rest ↦ match rest with
        | '/' :: rest => matchesParts ps rest
        | _ => false) (cs.drop 1)
  | .inner :: ps, cs =>
    matchesParts ps cs ||
      (match cs with
        | '/' :: _ :: rest => anyEnd (matchesParts ps) rest
        | _ => false)
  | .tail :: _, cs => cs.isEmpty || cs.head? == some '/'
  | .below :: _, cs => cs.head? == some '/'

/-- The intervals of a bracket expression. -/
def intervals : List Char → List (Char × Char)
  | a :: '-' :: b :: cs => (a, b) :: intervals cs
  | a :: cs => (a, a) :: intervals cs
  | [] => []

/-- A bracket expression after its opening bracket, and the rest; a closing bracket in first place
stands for itself. -/
def charSet? (cs : List Char) : Option (CharSet × List Char) :=
  let (isNegated, body) := match cs with
    | '!' :: rest => (true, rest)
    | '^' :: rest => (true, rest)
    | rest => (false, rest)
  let (first, body) := match body with
    | ']' :: rest => ([']'], rest)
    | rest => ([], rest)
  match body.dropWhile (· ≠ ']') with
  | [] => none
  | _ :: rest => some (⟨isNegated, intervals (first ++ body.takeWhile (· ≠ ']'))⟩, rest)

/-- The parts of one name of a pattern; a backslash at its end makes it malformed. -/
def nameParts? : Nat → List Char → Option (List Part)
  | 0, _ => some []
  | _, [] => some []
  | fuel + 1, c :: cs =>
    match c with
    | '\\' =>
      match cs with
      | [] => none
      | d :: cs => (nameParts? fuel cs).map (.char d :: ·)
    | '*' => (nameParts? fuel cs).map (.star :: ·)
    | '?' => (nameParts? fuel cs).map (.any :: ·)
    | '[' =>
      match charSet? cs with
      | some (s, rest) => (nameParts? fuel rest).map (.oneOf s :: ·)
      | none => (nameParts? fuel cs).map (.char '[' :: ·)
    | _ => (nameParts? fuel cs).map (.char c :: ·)

structure Pattern where
  /-- Whether a match leaves the file out. -/
  ignores : Bool
  parts : List Part
  deriving DecidableEq, Repr

def doubleStar : List Char := ['*', '*']

/-- Collapses runs of double stars. -/
def collapse : List (List Char) → List (List Char)
  | a :: b :: names =>
    if a = doubleStar ∧ b = doubleStar then collapse (b :: names) else a :: collapse (b :: names)
  | names => names

/-- Anchors a pattern: without a slash before its end it can match below any folder. -/
def anchored (names : List (List Char)) : List (List Char) :=
  match names with
  | [] :: rest => rest
  | [name] => if name = doubleStar then [name] else [doubleStar, name]
  | [name, []] => if name = doubleStar then [name, []] else [doubleStar, name, []]
  | names => names

/-- A pattern that ends in a slash matches what is below folders only. -/
def folderTail (names : List (List Char)) : List (List Char) :=
  if 1 < names.length ∧ names.getLast? = some [] then names.dropLast ++ [doubleStar] else names

/-- The parts of the names of a pattern; `isFirst` at its start, `slash` if a slash has to come
before the next name. -/
def partsOf? (isFirst slash : Bool) : List (List Char) → Option (List Part)
  | [] => some []
  | name :: rest =>
    let lead : List Part := if slash then [.char '/'] else []
    if name = doubleStar then
      if isFirst ∧ rest.isEmpty then some [.everything]
      else if isFirst then (partsOf? false false rest).map (.folders :: ·)
      else if rest.isEmpty then some [.below]
      else (partsOf? false true rest).map (.inner :: ·)
    else do
      let own ← if name = ['*'] then some [.any, .star] else nameParts? name.length name
      let ending : List Part := if rest.isEmpty then [.tail] else []
      return lead ++ own ++ ending ++ (← partsOf? false true rest)

def trimBlanks (cs : List Char) : List Char :=
  if [' ', '\\'].isPrefixOf cs.reverse then Text.trimLeft cs else Text.trim cs

/-- Reads one pattern; comments and blank lines are none. -/
def parse (text : String) : Except Raised (Option Pattern) :=
  let bad : Raised := ⟨.badPattern text, Failure.noConfusion⟩
  let cs := trimBlanks text.toList
  if cs.isEmpty ∨ cs.head? = some '#' ∨ cs = ['/'] then .ok none
  else
    let (ignores, cs) := match cs with
      | '!' :: rest => (false, rest)
      | rest => (true, rest)
    let names := collapse (Text.split '/' cs)
    if names = [doubleStar, []] then .ok (some ⟨ignores, [.any, .star, .below]⟩)
    else
      let names := anchored names
      if names.isEmpty then .error bad
      else match partsOf? true false (folderTail names) with
        | some parts => .ok (some ⟨ignores, parts⟩)
        | none => .error bad

def parseAll (texts : List String) : Except Raised (List Pattern) := do
  return (← texts.mapM parse).filterMap id

/-- Whether the last pattern that matches a path leaves it out. -/
def isIgnored (patterns : List Pattern) (path : String) : Bool :=
  ((patterns.reverse.find? fun p ↦ matchesParts p.parts path.toList).map Pattern.ignores).getD false

end AssetBundler.Ignore
