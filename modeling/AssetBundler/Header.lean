import AssetBundler.Text.Blank
import AssetBundler.Text.Lines
import AssetBundler.Text.Split

/-!
# Headers

The header of a source is the leading run of comments and the blank lines between them. Comments are
blocks `/* … */` and `### … ###` and the lines that start with `//` or `#`. Blank lines after the
last comment belong to the body, and a block that is never closed is no comment. Main statement:
header and body concatenate to the text (`split_append`).
-/

namespace AssetBundler.Header

open Text (Line)

/-- The number of lines up to the first one that holds `closer`. -/
def linesToCloser (closer : List Char) (ls : List Line) : Option Nat :=
  (ls.findIdx? fun l ↦ Text.occursIn closer l.text).map (· + 1)

/-- The number of lines of a block comment that `opener` opens on the first line. -/
def blockLength (opener closer : List Char) (first : Line) (rest : List Line) : Option Nat :=
  if Text.occursIn closer ((Text.trimLeft first.text).drop opener.length) then some 1
  else (linesToCloser closer rest).map (· + 1)

/-- The number of lines of the comment that starts on the first line, if one does. -/
def commentLength (first : Line) (rest : List Line) : Option Nat :=
  let start := Text.trimLeft first.text
  if Text.startsWith ['/', '*'] start then blockLength ['/', '*'] ['*', '/'] first rest
  else if Text.startsWith ['#', '#', '#'] start then
    blockLength ['#', '#', '#'] ['#', '#', '#'] first rest
  else if Text.startsWith ['/', '/'] start || Text.startsWith ['#'] start then some 1
  else none

/-- The number of lines up to the end of the last comment of the leading run. -/
def length : List Line → Nat
  | [] => 0
  | l :: ls =>
    if Text.isBlankText l.text then
      match length ls with
      | 0 => 0
      | n + 1 => n + 2
    else match commentLength l ls with
      | none => 0
      | some k => k + length (ls.drop (k - 1))
  termination_by ls => ls.length
  decreasing_by
    · simp
    · simp only [List.length_drop, List.length_cons]
      omega

/-- Header and body. -/
def split (text : List Char) : List Char × List Char :=
  let ls := Text.lines text
  let n := length ls
  (((ls.take n).map Line.full).flatten, ((ls.drop n).map Line.full).flatten)

theorem split_append (text : List Char) : (split text).1 ++ (split text).2 = text := by
  simp only [split]
  rw [← List.flatten_append, ← List.map_append, List.take_append_drop]
  exact Text.flatten_lines text

end AssetBundler.Header
