import AssetBundler.Proofs.Header
import Mathlib.Order.Bounds.Defs

/-!
# The header as a run of comments

A run of comments is a list of lines that hold comments and nothing else, with blank lines before and
between them but none after the last one. The header is the longest run that a text starts with. So it
is kept by a second splitting: the header has no body, and the body has no header (`split_exact`).
-/

namespace AssetBundler.Header

open Text (Line)

/-- The lines hold comments and nothing else, and the last of them is not blank. -/
structure IsRun (ls : List Line) : Prop where
  comments : ∃ Ks : List (List (List Char)), (∀ K ∈ Ks, IsComment K) ∧ inked ls = Ks.flatten
  last : ∀ l ∈ ls.getLast?, Text.isBlankText l.text = false

theorem isBlankText_getLast_take_length (ls : List Line) :
    ∀ l ∈ (ls.take (length ls)).getLast?, Text.isBlankText l.text = false := by
  induction ls using header_induction with
  | nil => simp
  | blank l ls hl ih =>
    rw [length_blank hl]
    split
    · simp
    · rename_i hpos
      have hne : ls.take (length ls) ≠ [] := by
        rw [ne_eq, List.take_eq_nil_iff, not_or]
        refine ⟨hpos, ?_⟩
        rintro rfl
        exact hpos length_nil
      rw [List.take_succ_cons, List.getLast?_cons_of_ne_nil hne]
      exact ih
  | comment l as ls hcomment ih =>
    rw [length_comment hcomment, Nat.add_right_comm, List.take_succ_cons, List.take_length_add_append,
      ← List.cons_append]
    intro m hm
    rw [List.getLast?_append, Option.mem_def, Option.or_eq_some_iff] at hm
    rcases hm with hm | ⟨-, hm⟩
    · exact ih m hm
    · refine isBlankText_getLast hcomment m.text ?_
      rw [List.getLast?_map, hm]
      rfl
  | code l ls hl hnone => simp [length_none hnone hl]

/-- The header is a run of comments. -/
theorem isRun_take_length (ls : List Line) : IsRun (ls.take (length ls)) where
  comments := ⟨comments ls, fun _ hK ↦ isComment_of_mem_comments hK, inked_take_length ls⟩
  last := isBlankText_getLast_take_length ls

theorem length_code_le (ls : List Line) : (code ls).length ≤ ls.length := by
  unfold code dropBlank
  exact (List.dropWhile_suffix _).length_le.trans (List.drop_suffix _ ls).length_le

/-- A line that is not blank stops the dropping of blank lines. -/
theorem lt_length_dropBlank (as : List Line) {l : Line} (hl : Text.isBlankText l.text = false)
    (ls : List Line) : ls.length < (dropBlank (as ++ l :: ls)).length := by
  induction as with
  | nil =>
    rw [List.nil_append, dropBlank, List.dropWhile_cons_of_neg (by simp [hl]), List.length_cons]
    exact Nat.lt_succ_self _
  | cons a as ih =>
    cases ha : Text.isBlankText a.text with
    | true => rwa [List.cons_append, dropBlank_blank ha]
    | false =>
      rw [List.cons_append, dropBlank, List.dropWhile_cons_of_neg (by simp [ha])]
      simp only [List.length_cons, List.length_append]
      omega

/-- A run that a text starts with lies in the header. -/
theorem length_le_of_isRun {hs : List Line} (h : IsRun hs) (ls : List Line) :
    hs.length ≤ length (hs ++ ls) := by
  obtain ⟨Ks, hKs, hinked⟩ := h.comments
  by_contra hlt
  have hdrop : (hs ++ ls).drop (length (hs ++ ls)) = hs.drop (length (hs ++ ls)) ++ ls :=
    List.drop_append_of_le_length (by omega)
  obtain ⟨as, l, hl⟩ : ∃ as l, hs.drop (length (hs ++ ls)) = as ++ [l] := by
    have hne : hs.drop (length (hs ++ ls)) ≠ [] := by
      rw [ne_eq, List.drop_eq_nil_iff]
      omega
    exact ⟨_, _, (List.dropLast_concat_getLast hne).symm⟩
  have hink : Text.isBlankText l.text = false := by
    refine h.last l ?_
    rw [← List.take_append_drop (length (hs ++ ls)) hs, hl, ← List.append_assoc, List.getLast?_concat]
    rfl
  have hcode : code (hs ++ ls) = code ls := (append_of_comments hKs hinked ls).2
  have hlong : ls.length < (code (hs ++ ls)).length := by
    rw [code, hdrop, hl, List.append_assoc]
    exact lt_length_dropBlank as hink ls
  rw [hcode] at hlong
  exact absurd (length_code_le ls) (Nat.not_le.2 hlong)

theorem isGreatest_length (ls : List Line) :
    IsGreatest {n | n ≤ ls.length ∧ IsRun (ls.take n)} (length ls) := by
  constructor
  · exact ⟨length_le ls, isRun_take_length ls⟩
  · rintro n ⟨hn, hrun⟩
    have hle := length_le_of_isRun hrun (ls.drop n)
    rwa [List.take_append_drop, List.length_take, Nat.min_eq_left hn] at hle

theorem length_take_length (ls : List Line) : length (ls.take (length ls)) = length ls := by
  have happend := length_take_append ls []
  rwa [List.append_nil, length_nil, Nat.add_zero] at happend

theorem length_drop_length (ls : List Line) : length (ls.drop (length ls)) = 0 := by
  have happend := length_take_append ls (ls.drop (length ls))
  rw [List.take_append_drop] at happend
  omega

theorem lines_header (text : List Char) :
    Text.lines (split text).1 = (Text.lines text).take (length (Text.lines text)) :=
  Text.lines_flatten_take text _

theorem lines_body (text : List Char) :
    Text.lines (split text).2 = (Text.lines text).drop (length (Text.lines text)) :=
  Text.lines_flatten_drop text _

/-- A text without a header is its own body. -/
theorem split_of_length_eq_zero {text : List Char} (h : length (Text.lines text) = 0) :
    split text = ([], text) := by
  simp only [split, h, List.take_zero, List.drop_zero, List.map_nil, List.flatten_nil,
    Text.flatten_lines]

/-- A text that is all header has no body. -/
theorem split_of_length_eq {text : List Char}
    (h : length (Text.lines text) = (Text.lines text).length) : split text = (text, []) := by
  simp only [split, h, List.take_length, List.drop_length, List.map_nil, List.flatten_nil,
    Text.flatten_lines]

/-- Header and body make up the text and are cut between two lines of it, where the longest run of
comments ends; splitting either of them again finds nothing new. -/
theorem split_exact (text : List Char) :
    (split text).1 ++ (split text).2 = text ∧
    (∃ n, IsGreatest {n | n ≤ (Text.lines text).length ∧ IsRun ((Text.lines text).take n)} n ∧
      Text.lines (split text).1 = (Text.lines text).take n ∧
      Text.lines (split text).2 = (Text.lines text).drop n) ∧
    split (split text).2 = ([], (split text).2) ∧
    split (split text).1 = ((split text).1, []) := by
  have hbody : length (Text.lines (split text).2) = 0 := by
    rw [lines_body, length_drop_length]
  have hheader : length (Text.lines (split text).1) = (Text.lines (split text).1).length := by
    rw [lines_header, length_take_length, List.length_take, Nat.min_eq_left (length_le _)]
  exact ⟨split_append text, ⟨_, isGreatest_length _, lines_header text, lines_body text⟩,
    split_of_length_eq_zero hbody, split_of_length_eq hheader⟩

end AssetBundler.Header
