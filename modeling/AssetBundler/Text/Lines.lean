/-!
# Lines

A line is its text and the terminator that ends it. Terminators are the line feed, the carriage
return, the two together, the vertical tab, the form feed, the separators U+001C to U+001E, the next
line character and the two Unicode separators. Main statement: the lines of a text, each with its
terminator, concatenate to the text (`flatten_lines`).
-/

namespace AssetBundler.Text

def isLineEnd (c : Char) : Bool :=
  c == '\n' || c == '\r' || c == '\x0b' || c == '\x0c' || (0x1C ≤ c.toNat && c.toNat ≤ 0x1E) ||
    c == '\u0085' || c == '\u2028' || c == '\u2029'

structure Line where
  text : List Char
  ending : List Char
  deriving DecidableEq, Repr

namespace Line

def full (l : Line) : List Char := l.text ++ l.ending

end Line

/-- Only the last line can lack a terminator, and then it is not empty. -/
def lines : List Char → List Line
  | [] => []
  | '\r' :: '\n' :: cs => ⟨[], ['\r', '\n']⟩ :: lines cs
  | c :: cs =>
    if isLineEnd c then ⟨[], [c]⟩ :: lines cs
    else match lines cs with
      | [] => [⟨[c], []⟩]
      | l :: ls => ⟨c :: l.text, l.ending⟩ :: ls

theorem flatten_lines (cs : List Char) : ((lines cs).map Line.full).flatten = cs := by
  fun_induction lines cs with
  | case1 => rfl
  | case2 cs ih => simpa [Line.full] using ih
  | case3 c cs _ _ ih => simpa [Line.full] using ih
  | case4 c cs _ _ h ih => simp_all [Line.full]
  | case5 c cs _ _ l ls h ih => simp_all [Line.full]

/-- Reads carriage returns and carriage return, line feed pairs as line feeds. -/
def unifyNewlines : List Char → List Char
  | [] => []
  | '\r' :: '\n' :: cs => '\n' :: unifyNewlines cs
  | c :: cs => (if c = '\r' then '\n' else c) :: unifyNewlines cs

end AssetBundler.Text
