import AssetBundler.Text.Lines

/-!
# Texts put together from lines

Reading lines undoes writing them, save that a carriage return takes in a line feed that comes after it.
The lemmas peel one line off a text; the last ones are about the lines before and after a cut at a line.
Main statements: a complete line in front of a text is read back (`lines_append`), and the lines before
and after a cut are those of the text (`lines_flatten_take`, `lines_flatten_drop`).
-/

namespace AssetBundler.Text

namespace Line

/-- The text of the line has no terminator in it and one terminator ends it. -/
structure IsComplete (l : Line) : Prop where
  text : ∀ c ∈ l.text, isLineEnd c = false
  ending : l.ending = ['\r', '\n'] ∨ ∃ c, isLineEnd c = true ∧ l.ending = [c]

/-- The line ends in a carriage return and a line feed comes after it, so the two are one terminator. -/
def TakesFeed (l : Line) (cs : List Char) : Prop := l.ending = ['\r'] ∧ ∃ rest, cs = '\n' :: rest

theorem isComplete_of_isLineEnd {c : Char} (hc : isLineEnd c = true) : IsComplete ⟨[], [c]⟩ :=
  ⟨by simp, .inr ⟨c, hc, rfl⟩⟩

end Line

theorem lines_pair (cs : List Char) : lines ('\r' :: '\n' :: cs) = ⟨[], ['\r', '\n']⟩ :: lines cs := by
  rw [lines]

theorem lines_cons_of_isLineEnd {c : Char} {cs : List Char} (hc : isLineEnd c = true)
    (hpair : ¬Line.TakesFeed ⟨[], [c]⟩ cs) : lines (c :: cs) = ⟨[], [c]⟩ :: lines cs := by
  rw [lines, if_pos hc]
  rintro rest rfl rfl
  exact hpair ⟨rfl, rest, rfl⟩

theorem lines_cons_of_not {c : Char} {cs : List Char} (hc : isLineEnd c = false) :
    lines (c :: cs) = match lines cs with
      | [] => [⟨[c], []⟩]
      | l :: ls => ⟨c :: l.text, l.ending⟩ :: ls := by
  rw [lines]
  · exact if_neg (by simp [hc])
  · rintro rest rfl -
    exact absurd hc (by decide)

/-- What a complete line without its text is read as, it is read as with its text. -/
theorem lines_append_of_ending {l : Line} (hl : l.IsComplete) {cs rest ending : List Char}
    (h : lines (l.ending ++ cs) = ⟨[], ending⟩ :: lines rest) :
    lines (l.full ++ cs) = ⟨l.text, ending⟩ :: lines rest := by
  obtain ⟨text, own⟩ := l
  have htext : ∀ c ∈ text, isLineEnd c = false := hl.text
  simp only [Line.full] at h ⊢
  clear hl
  induction text with
  | nil => exact h
  | cons a text ih =>
    rw [List.cons_append, List.cons_append, lines_cons_of_not (htext a (by simp)),
      ih fun c hc ↦ htext c (List.mem_cons_of_mem a hc)]

theorem lines_append {l : Line} (hl : l.IsComplete) {cs : List Char} (hcs : ¬l.TakesFeed cs) :
    lines (l.full ++ cs) = l :: lines cs := by
  refine lines_append_of_ending hl ?_
  obtain h | ⟨c, hc, h⟩ := hl.ending
  · rw [h]
    exact lines_pair cs
  · rw [h]
    exact lines_cons_of_isLineEnd hc fun hpair ↦ hcs ⟨h ▸ hpair.1, hpair.2⟩

theorem lines_append_feed {l : Line} (hl : l.IsComplete) (hcr : l.ending = ['\r'])
    (rest : List Char) :
    lines (l.full ++ '\n' :: rest) = ⟨l.text, ['\r', '\n']⟩ :: lines rest := by
  refine lines_append_of_ending hl ?_
  rw [hcr]
  exact lines_pair rest

/-- The first line of a text and what comes after it; only the last line can lack a terminator. -/
theorem lines_eq_cons {cs : List Char} {l : Line} {ls : List Line} (h : lines cs = l :: ls) :
    ∃ rest, cs = l.full ++ rest ∧ lines rest = ls ∧
      ((l.IsComplete ∧ ¬l.TakesFeed rest) ∨ (l.ending = [] ∧ rest = [])) := by
  fun_induction lines cs generalizing l ls with
  | case1 => cases h
  | case2 cs _ =>
    cases h
    refine ⟨cs, rfl, rfl, .inl ⟨⟨by simp, .inl rfl⟩, ?_⟩⟩
    rintro ⟨hcr, -⟩
    simp at hcr
  | case3 c cs hpair hc _ =>
    cases h
    refine ⟨cs, rfl, rfl, .inl ⟨Line.isComplete_of_isLineEnd hc, ?_⟩⟩
    rintro ⟨hcr, rest, rfl⟩
    exact hpair rest (by simpa using hcr) rfl
  | case4 c cs _ hc hnone _ =>
    cases h
    have hcs := flatten_lines cs
    rw [hnone] at hcs
    subst hcs
    exact ⟨[], rfl, rfl, .inr ⟨rfl, rfl⟩⟩
  | case5 c cs _ hc first others hcs ih =>
    cases h
    obtain ⟨rest, rfl, hrest, hl⟩ := ih hcs
    refine ⟨rest, by simp [Line.full], hrest, hl.imp (fun hl ↦ ⟨⟨?_, hl.1.ending⟩, hl.2⟩) id⟩
    intro d hd
    obtain rfl | hd := List.mem_cons.1 hd
    · simpa using hc
    · exact hl.1.text d hd

/-- The text of a line, complete or not, has no terminator in it. -/
theorem isLineEnd_of_mem_lines {cs : List Char} {l : Line} (hl : l ∈ lines cs) {c : Char}
    (hc : c ∈ l.text) : isLineEnd c = false := by
  fun_induction lines cs generalizing l c with
  | case1 => cases hl
  | case2 cs ih =>
    obtain rfl | hl := List.mem_cons.1 hl
    · cases hc
    · exact ih hl hc
  | case3 d cs _ _ ih =>
    obtain rfl | hl := List.mem_cons.1 hl
    · cases hc
    · exact ih hl hc
  | case4 d cs _ hd _ _ =>
    obtain rfl := List.mem_singleton.1 hl
    obtain rfl := List.mem_singleton.1 hc
    simpa using hd
  | case5 d cs _ hd first others heq ih =>
    rw [heq] at ih
    obtain rfl | hl := List.mem_cons.1 hl
    · obtain rfl | hc := List.mem_cons.1 hc
      · simpa using hd
      · exact ih List.mem_cons_self hc
    · exact ih (List.mem_cons_of_mem first hl) hc

theorem lines_flatten_drop (cs : List Char) (n : Nat) :
    lines (((lines cs).drop n).map Line.full).flatten = (lines cs).drop n := by
  induction n generalizing cs with
  | zero => rw [List.drop_zero, flatten_lines]
  | succ n ih =>
    cases h : lines cs with
    | nil => rfl
    | cons l ls =>
      obtain ⟨rest, -, rfl, -⟩ := lines_eq_cons h
      exact ih rest

theorem lines_flatten_take (cs : List Char) (n : Nat) :
    lines (((lines cs).take n).map Line.full).flatten = (lines cs).take n := by
  induction n generalizing cs with
  | zero => rfl
  | succ n ih =>
    cases h : lines cs with
    | nil => rfl
    | cons l ls =>
      obtain ⟨rest, rfl, rfl, ⟨hl, htake⟩ | ⟨-, rfl⟩⟩ := lines_eq_cons h
      · rw [List.take_succ_cons, List.map_cons, List.flatten_cons, lines_append hl, ih]
        rintro ⟨hcr, feed, hfeed⟩
        refine htake ⟨hcr, feed ++ (((lines rest).drop n).map Line.full).flatten, ?_⟩
        rw [← List.cons_append, ← hfeed, ← List.flatten_append, ← List.map_append,
          List.take_append_drop, flatten_lines]
      · rw [List.append_nil] at h
        simpa [lines] using h

/-- The lines before a cut are read back in front of any text, if there is no carriage return in them and
the last one is not left without a terminator. -/
theorem lines_take_append {cs tail : List Char} {n : Nat} (hcr : '\r' ∉ cs)
    (htail : (lines cs).drop n = [] → tail = []) :
    lines ((((lines cs).take n).map Line.full).flatten ++ tail) =
      (lines cs).take n ++ lines tail := by
  induction n generalizing cs with
  | zero => rfl
  | succ n ih =>
    cases h : lines cs with
    | nil =>
      rw [h] at htail
      rw [htail rfl]
      rfl
    | cons l ls =>
      rw [h] at htail
      obtain ⟨rest, rfl, rfl, ⟨hl, -⟩ | ⟨-, rfl⟩⟩ := lines_eq_cons h
      · have hnever : ∀ v, ¬l.TakesFeed v := fun v ⟨hending, _⟩ ↦
          hcr (List.mem_append_left _ (List.mem_append_right _ (by simp [hending])))
        rw [List.take_succ_cons, List.map_cons, List.flatten_cons, List.append_assoc,
          lines_append hl (hnever _), ih (fun h ↦ hcr (List.mem_append_right _ h)) htail]
        rfl
      · rw [List.append_nil] at h
        rw [htail (by simp [lines])]
        simpa [lines] using h

end AssetBundler.Text
