import AssetBundler.Directive.Words
import AssetBundler.Failure
import AssetBundler.Header
import AssetBundler.Text.Word

/-!
# Directives

A directive is a line of the header. Its marker is the longest run of characters before the first
word character and has to end in an equals sign, blanks aside; the text after the marker, without a
block closer at its end, gives the name and the arguments. The processed source has an empty line in
the place of each directive.
-/

namespace AssetBundler

structure Directive where
  lineIndex : Nat
  name : String
  arguments : List String
  deriving DecidableEq, Repr

namespace Directive

/-- Takes one block closer off the end. -/
def dropCloser (cs : List Char) : List Char :=
  if Text.endsWith ['*', '/'] cs then cs.take (cs.length - 2) else cs

/-- Name and arguments of a directive line as one text. -/
def argumentText? (line : List Char) : Option (List Char) :=
  let marker := line.takeWhile fun c ↦ !Text.isWordChar c
  let rest := line.dropWhile fun c ↦ !Text.isWordChar c
  if rest.isEmpty || (Text.trimRight marker).getLast? != some '=' then none
  else some (dropCloser (Text.trimRight rest))

/-- The directive on a line, if there is one. -/
def ofLine (source : Option Path) (lineIndex : Nat) (line : List Char) :
    Except Failure (Option Directive) :=
  match argumentText? line with
  | none => .ok none
  | some text =>
    match words text with
    | none =>
      .error (.malformedArguments (String.ofList text) source .unmatchedQuote (some lineIndex))
    | some [] => .ok none
    | some (name :: arguments) =>
      .ok (some ⟨lineIndex, String.ofList name, arguments.map String.ofList⟩)

/-- The directives of lines that are numbered from `lineIndex`. -/
def ofLines (source : Option Path) : Nat → List Text.Line → Except Failure (List Directive)
  | _, [] => .ok []
  | lineIndex, l :: ls => do
    let found ← ofLine source lineIndex l.text
    let others ← ofLines source (lineIndex + 1) ls
    return found.toList ++ others

end Directive

/-- A source with its header taken apart. -/
structure ParsedSource where
  header : List Char
  body : List Char
  directives : List Directive
  deriving DecidableEq, Repr

namespace ParsedSource

def parse (source : Option Path) (text : List Char) : Except Failure ParsedSource := do
  let (header, body) := Header.split text
  return ⟨header, body, ← Directive.ofLines source 0 (Text.lines header)⟩

/-- A directive line becomes a line feed if it ends in one, and nothing otherwise. -/
def processedLine (directives : List Directive) (lineIndex : Nat) (l : Text.Line) : List Char :=
  if directives.any fun d ↦ d.lineIndex == lineIndex then
    if l.ending.getLast? = some '\n' then ['\n'] else []
  else l.full

def processedLines (directives : List Directive) : Nat → List Text.Line → List Char
  | _, [] => []
  | lineIndex, l :: ls =>
    processedLine directives lineIndex l ++ processedLines directives (lineIndex + 1) ls

def processedHeader (p : ParsedSource) : List Char :=
  processedLines p.directives 0 (Text.lines p.header)

def processedSource (p : ParsedSource) : List Char := p.processedHeader ++ p.body

end ParsedSource

end AssetBundler
