/-!
# Splitting text

The pieces of a text between the occurrences of one separator, and what is looked for and replaced in texts.
-/

namespace AssetBundler.Text

/-- Never empty: a text without the separator is its own single piece. -/
def split (sep : Char) : List Char → List (List Char)
  | [] => [[]]
  | c :: cs =>
    if c = sep then [] :: split sep cs
    else match split sep cs with
      | [] => [[c]]
      | piece :: pieces => (c :: piece) :: pieces

theorem split_ne_nil (sep : Char) (cs : List Char) : split sep cs ≠ [] := by
  cases cs with
  | nil => simp [split]
  | cons c cs =>
    simp only [split]
    split
    · simp
    · split <;> simp

/-- Replaces every `x` by `y`. -/
def replaceChar (x y : Char) (cs : List Char) : List Char := cs.map fun c ↦ if c = x then y else c

def startsWith (start cs : List Char) : Bool := start.isPrefixOf cs

def endsWith (ending cs : List Char) : Bool := ending.isSuffixOf cs

/-- Whether `part` occurs in the text as consecutive characters. -/
def occursIn (part : List Char) : List Char → Bool
  | [] => part.isEmpty
  | c :: cs => part.isPrefixOf (c :: cs) || occursIn part cs

end AssetBundler.Text
