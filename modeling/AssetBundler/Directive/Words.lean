import AssetBundler.Text.Blank

/-!
# Words of an argument text

Blanks separate words. Single quotes take their text as it is, in double quotes and outside quotes a
backslash makes the next character literal, and pieces without a blank between them form one word.
A text that ends inside quotes has no words.
-/

namespace AssetBundler.Directive

/-- The text up to a closing single quote, and the rest after the quote. -/
def singleQuoted : List Char → Option (List Char × List Char)
  | [] => none
  | c :: cs => if c = '\'' then some ([], cs) else (singleQuoted cs).map fun r ↦ (c :: r.1, r.2)

/-- The text up to a closing double quote without its escapes, and the rest after the quote. -/
def doubleQuoted : List Char → Option (List Char × List Char)
  | [] => none
  | '"' :: cs => some ([], cs)
  | '\\' :: c :: cs => (doubleQuoted cs).map fun r ↦ (c :: r.1, r.2)
  | c :: cs => (doubleQuoted cs).map fun r ↦ (c :: r.1, r.2)

theorem length_singleQuoted {cs : List Char} {r : List Char × List Char}
    (h : singleQuoted cs = some r) : r.2.length < cs.length := by
  induction cs generalizing r with
  | nil => simp [singleQuoted] at h
  | cons c cs ih =>
    by_cases hc : c = '\''
    · simp only [singleQuoted, hc, if_true, Option.some.injEq] at h
      simp [← h]
    · simp only [singleQuoted, hc, if_false, Option.map_eq_some_iff] at h
      obtain ⟨q, hq, rfl⟩ := h
      have hlt := ih hq
      exact Nat.lt_succ_of_lt hlt

theorem length_doubleQuoted {cs : List Char} {r : List Char × List Char}
    (h : doubleQuoted cs = some r) : r.2.length < cs.length := by
  fun_induction doubleQuoted cs generalizing r with
  | case1 => simp at h
  | case2 cs =>
    simp only [Option.some.injEq] at h
    simp [← h]
  | case3 c cs ih =>
    simp only [Option.map_eq_some_iff] at h
    obtain ⟨q, hq, rfl⟩ := h
    have := ih hq
    simp only [List.length_cons]
    omega
  | case4 c cs _ _ ih =>
    simp only [Option.map_eq_some_iff] at h
    obtain ⟨q, hq, rfl⟩ := h
    have hlt := ih hq
    exact Nat.lt_succ_of_lt hlt

/-- The words of a text that follows the beginning `current` of a word, if a word has begun. -/
def wordsAfter (current : Option (List Char)) : List Char → Option (List (List Char))
  | [] => some current.toList
  | c :: cs =>
    let begun := current.getD []
    if Text.isBlank c then (wordsAfter none cs).map (current.toList ++ ·)
    else if c = '\'' then
      match _h : singleQuoted cs with
      | none => none
      | some (piece, rest) => wordsAfter (some (begun ++ piece)) rest
    else if c = '"' then
      match _h : doubleQuoted cs with
      | none => none
      | some (piece, rest) => wordsAfter (some (begun ++ piece)) rest
    else if c = '\\' then
      match cs with
      | [] => some [begun ++ [c]]
      | d :: rest => wordsAfter (some (begun ++ [d])) rest
    else wordsAfter (some (begun ++ [c])) cs
  termination_by cs => cs.length
  decreasing_by
    · simp
    · exact Nat.lt_succ_of_lt (length_singleQuoted _h)
    · exact Nat.lt_succ_of_lt (length_doubleQuoted _h)
    · simp only [List.length_cons]
      omega
    · simp

def words (cs : List Char) : Option (List (List Char)) := wordsAfter none cs

end AssetBundler.Directive
