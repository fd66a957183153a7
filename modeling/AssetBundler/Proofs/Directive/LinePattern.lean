import AssetBundler.Proofs.Directive.Grammar
import AssetBundler.Proofs.Text.Pattern

/-!
# The pattern of directive lines

A pattern with a greedy start, a reluctant middle and two optional parts at its end picks out the directive
lines and keeps their texts. Read from the ends that a text can have, its first match is the direct one: the
text that it keeps is what the longest end leaves. Main statements: the pattern keeps the argument text of
each line (`keptText?_linePattern`), and a source has the directives of its header's grammar
(`ParsedSource.parse_grammar`).
-/

namespace AssetBundler

namespace Directive

open Text (Pattern)

/-- A word character, more of them, and any characters of the line. -/
def textPattern : Pattern :=
  .seq (.one Text.isWordChar) (.seq (.greedy Text.isWordChar) (.reluctant (· != '\n')))

/-- Blanks up to the end of the line, behind a block closer if there is one. -/
def endPattern : Pattern :=
  .seq (.optional (.seq (.one (· == '*')) (.one (· == '/')))) (.seq (.greedy Text.isBlank) .ending)

/-- Characters that are no word characters, an equals sign and blanks before the text. -/
def linePattern : Pattern :=
  .seq (.greedy fun c ↦ !Text.isWordChar c)
    (.seq (.one (· == '=')) (.seq (.greedy Text.isBlank) (.seq (.kept textPattern) endPattern)))

theorem head?_blanks_ending (cs : List Char) :
    ((Pattern.seq (.greedy Text.isBlank) .ending).outcomes cs).head? =
      if Text.isBlankText cs then some ⟨none, []⟩ else none := by
  induction cs with
  | nil => rfl
  | cons c cs ih =>
    have hall : Text.isBlankText (c :: cs) = (Text.isBlank c && Text.isBlankText cs) := List.all_cons
    rw [Pattern.head?_greedy_seq_cons, ih, hall]
    cases hc : Text.isBlank c with
    | false =>
      have hne : c ≠ '\n' := by
        rintro rfl
        exact absurd hc (by decide)
      simp [hne]
    | true =>
      cases hcs : Text.isBlankText cs with
      | true => simp
      | false =>
        have hne : cs ≠ [] := by
          rintro rfl
          cases hcs
        simp [hne]

/-- Nothing matches after a block closer where there is none. -/
theorem head?_closer_seq_of_ne (next : Pattern) {cs : List Char} (h : ∀ rest, cs ≠ '*' :: '/' :: rest) :
    ((Pattern.seq (.one (· == '*')) (.seq (.one (· == '/')) next)).outcomes cs).head? = none := by
  rcases cs with _ | ⟨c, _ | ⟨d, rest⟩⟩
  · rfl
  · rw [Pattern.head?_one_seq_cons, Pattern.head?_one_seq_nil, ite_self]
  · rw [Pattern.head?_one_seq_cons, Pattern.head?_one_seq_cons]
    by_cases hc : c = '*'
    · have hd : d ≠ '/' := by
        rintro rfl
        exact h rest (by rw [hc])
      simp [hd]
    · simp [hc]

theorem head?_endPattern (cs : List Char) :
    (endPattern.outcomes cs).head? = if isEnd cs then some ⟨none, []⟩ else none := by
  rw [endPattern, Pattern.head?_optional_seq, Pattern.outcomes_seq_assoc, head?_blanks_ending]
  fun_cases isEnd cs with
  | case1 rest =>
    have hstar : Text.isBlankText ('*' :: '/' :: rest) = false := rfl
    rw [Pattern.head?_one_seq_cons, Pattern.head?_one_seq_cons, head?_blanks_ending, hstar]
    simp
  | case2 _ hcloser => rw [head?_closer_seq_of_ne _ hcloser, Option.none_or]

/-- The text at the start of `rest`, if a word character starts it. -/
def startText? (rest : List Char) : Option (List Char) :=
  if rest.head?.any Text.isWordChar then some (dropCloser (Text.trimRight rest)) else none

/-- An end of a line lies behind every run of word characters before it. -/
theorem suffix_dropWhile {t cs : List Char} (ht : t <:+ cs) (hend : isEnd t = true) :
    t <:+ cs.dropWhile Text.isWordChar := by
  rcases List.suffix_or_suffix_of_suffix ht (List.dropWhile_suffix Text.isWordChar) with h | ⟨x, rfl⟩
  · exact h
  · have hx : ∀ c ∈ x, c ∈ cs.takeWhile Text.isWordChar := by
      obtain ⟨y, hy⟩ := ht
      have hwhole : y ++ x ++ cs.dropWhile Text.isWordChar =
          cs.takeWhile Text.isWordChar ++ cs.dropWhile Text.isWordChar := by
        rw [List.append_assoc, hy, List.takeWhile_append_dropWhile]
      have hfront : y ++ x = cs.takeWhile Text.isWordChar := List.append_cancel_right hwhole
      exact fun c hc ↦ hfront ▸ List.mem_append_right y hc
    cases x with
    | nil => exact List.suffix_rfl
    | cons c x =>
      have hword := List.mem_takeWhile_imp (hx c (by simp))
      rw [isWordChar_of_mem_isEnd hend (by simp)] at hword
      cases hword

/-- A text takes all the word characters at its start, then as little as possible; fewer word characters
come later. -/
theorem exists_rests_text {c : Char} {cs : List Char} (hc : Text.isWordChar c = true)
    (hfeed : '\n' ∉ c :: cs) :
    ∃ others, textPattern.rests (c :: cs) = (cs.dropWhile Text.isWordChar).tails ++ others := by
  obtain ⟨shorter, hruns⟩ := Pattern.exists_runs_eq Text.isWordChar cs
  have hone : (Pattern.one Text.isWordChar).rests (c :: cs) = [cs] := by
    simp [Pattern.rests, hc]
  have hany : ∀ d ∈ cs.dropWhile Text.isWordChar, (d != '\n') = true := fun d hd ↦ by
    have hmem : d ∈ c :: cs := List.mem_cons_of_mem c ((List.dropWhile_suffix _).subset hd)
    exact bne_iff_ne.2 fun heq ↦ hfeed (heq ▸ hmem)
  rw [textPattern, Pattern.rests_seq, hone, List.flatMap_singleton, Pattern.rests_seq, Pattern.rests_greedy,
    hruns, List.flatMap_cons, Pattern.rests_reluctant, Pattern.reverse_runs hany]
  exact ⟨_, rfl⟩

theorem head?_text_end {cs : List Char} (hfeed : '\n' ∉ cs) :
    ((Pattern.seq (.kept textPattern) endPattern).outcomes cs).head? =
      (startText? cs).map fun text ↦ ⟨some text, []⟩ := by
  cases cs with
  | nil => rfl
  | cons c cs =>
    rw [Pattern.head?_kept_seq]
    simp only [head?_endPattern, apply_ite, Option.map_some, Option.map_none, Option.none_or]
    cases hc : Text.isWordChar c with
    | false => simp [textPattern, Pattern.rests, Pattern.outcomes_seq, startText?, hc]
    | true =>
      obtain ⟨others, hrests⟩ := exists_rests_text hc hfeed
      obtain ⟨t, heq, hend, hlongest⟩ := (isTextOf_dropCloser (c :: cs)).exists_longest
      have ht : t <:+ cs := by
        refine (List.suffix_cons_iff.1 ⟨_, heq.symm⟩).resolve_left fun hall ↦ ?_
        have hhead := isWordChar_of_mem_isEnd hend (hall ▸ List.mem_cons_self)
        rw [hc] at hhead
        cases hhead
      have hkept : (c :: cs).take ((c :: cs).length - t.length) = dropCloser (Text.trimRight (c :: cs)) := by
        generalize dropCloser (Text.trimRight (c :: cs)) = text at heq ⊢
        rw [heq]
        simp
      have hfirst := Pattern.findSome?_tails (f := fun rest ↦ if isEnd rest then
        some (⟨some ((c :: cs).take ((c :: cs).length - rest.length)), []⟩ : Pattern.Outcome) else none)
        (suffix_dropWhile ht hend) (by simp [hend]) fun u hu hsome ↦ by
          refine hlongest u ((hu.trans (List.dropWhile_suffix _)).trans (List.suffix_cons c cs)) ?_
          by_contra hnot
          simp [hnot] at hsome
      rw [hrests, List.findSome?_append, hfirst, hkept]
      simp [hend, startText?, hc]

theorem head?_blanks_text {cs : List Char} (hfeed : '\n' ∉ cs) :
    ((Pattern.seq (.greedy Text.isBlank) (.seq (.kept textPattern) endPattern)).outcomes cs).head? =
      (startText? (Text.trimLeft cs)).map fun text ↦ ⟨some text, []⟩ := by
  induction cs with
  | nil => rw [Pattern.head?_greedy_seq_nil, head?_text_end hfeed]; rfl
  | cons c cs ih =>
    have hcs : '\n' ∉ cs := fun h ↦ hfeed (List.mem_cons_of_mem c h)
    rw [Pattern.head?_greedy_seq_cons, ih hcs, head?_text_end hfeed, Text.trimLeft, Text.trimLeft,
      List.dropWhile_cons]
    cases hc : Text.isBlank c with
    | false => simp
    | true =>
      have hnone : startText? (c :: cs) = none := by
        simp [startText?, Text.isWordChar_of_isBlank hc]
      simp [hnone]

theorem startText?_eq_some_iff {rest text : List Char} :
    startText? rest = some text ↔ (∃ c ∈ rest.head?, Text.isWordChar c = true) ∧ IsTextOf rest text := by
  unfold startText?
  rw [Option.ite_none_right_eq_some, Option.any_eq_true]
  refine and_congr Iff.rfl ⟨fun h ↦ ?_, fun h ↦ ?_⟩
  · cases h
    exact isTextOf_dropCloser rest
  · rw [(isTextOf_dropCloser rest).unique h]

/-- A character in front of a line goes into its marker, or is the equals sign of a marker of its own. -/
theorem isMarked_cons_iff {c : Char} {cs text : List Char} (hc : Text.isWordChar c = false) :
    IsMarked (c :: cs) text ↔
      IsMarked cs text ∨ c = '=' ∧ startText? (Text.trimLeft cs) = some text := by
  rw [startText?_eq_some_iff]
  constructor
  · rintro ⟨before, gap, rest, heq, hplain, hgap, hrest, htext⟩
    cases before with
    | nil =>
      obtain ⟨rfl, rfl⟩ := List.cons.inj heq
      have htrim : Text.trimLeft (gap ++ rest) = rest := by
        rw [Text.trimLeft_append hgap]
        obtain ⟨d, hd, hword⟩ := hrest
        cases rest with
        | nil => cases hd
        | cons e rest =>
          cases hd
          exact Text.trimLeft_cons (Text.isBlank_of_isWordChar hword) rest
      rw [htrim]
      exact .inr ⟨rfl, hrest, htext⟩
    | cons d before =>
      obtain ⟨rfl, rfl⟩ := List.cons.inj heq
      exact .inl ⟨before, gap, rest, rfl, fun e he ↦ hplain e (List.mem_cons_of_mem _ he), hgap, hrest, htext⟩
  · rintro (⟨before, gap, rest, rfl, hplain, hgap, hrest, htext⟩ | ⟨rfl, hrest, htext⟩)
    · refine ⟨c :: before, gap, rest, rfl, fun e he ↦ ?_, hgap, hrest, htext⟩
      rcases List.mem_cons.1 he with rfl | he
      · exact hc
      · exact hplain e he
    · obtain ⟨gap, hgap, heq⟩ := Text.exists_blanks cs
      refine ⟨[], gap, _, by rw [← heq]; rfl, fun e he ↦ ?_, hgap, hrest, htext⟩
      rcases List.mem_cons.1 he with rfl | he
      · decide
      · exact Text.isWordChar_of_isBlank (hgap e he)

theorem argumentText?_cons {c : Char} {cs : List Char} (hc : Text.isWordChar c = false) :
    argumentText? (c :: cs) =
      (argumentText? cs).or (if c = '=' then startText? (Text.trimLeft cs) else none) := by
  have hcons : ∀ text, argumentText? (c :: cs) = some text ↔
      argumentText? cs = some text ∨ c = '=' ∧ startText? (Text.trimLeft cs) = some text := fun text ↦ by
    rw [argumentText?_eq_some_iff, isMarked_cons_iff hc, argumentText?_eq_some_iff]
  refine Option.ext fun text ↦ ?_
  rw [Option.or_eq_some_iff, Option.ite_none_right_eq_some, hcons]
  constructor
  · rintro (hcs | hsign)
    · exact .inl hcs
    · cases hcs : argumentText? cs with
      | none => exact .inr ⟨rfl, hsign⟩
      | some other =>
        have hother := (hcons other).2 (.inl hcs)
        rw [(hcons text).2 (.inr hsign)] at hother
        exact .inl hother.symm
  · rintro (hcs | ⟨-, hsign⟩)
    · exact .inl hcs
    · exact .inr hsign

theorem argumentText?_of_isWordChar {c : Char} {cs : List Char} (hc : Text.isWordChar c = true) :
    argumentText? (c :: cs) = none := by
  simp [argumentText?, hc, Text.trimRight, Text.dropEndWhile]

/-- The match of the pattern keeps the argument text of the line. -/
theorem keptText?_linePattern {line : List Char} (hfeed : '\n' ∉ line) :
    linePattern.keptText? line = argumentText? line := by
  have hmatch : (linePattern.outcomes line).head? = (argumentText? line).map fun text ↦ ⟨some text, []⟩ := by
    unfold linePattern
    induction line with
    | nil => rfl
    | cons c cs ih =>
      have hcs : '\n' ∉ cs := fun h ↦ hfeed (List.mem_cons_of_mem c h)
      rw [Pattern.head?_greedy_seq_cons, ih hcs, Pattern.head?_one_seq_cons, head?_blanks_text hcs]
      cases hc : Text.isWordChar c with
      | true =>
        have hsign : c ≠ '=' := by
          rintro rfl
          exact absurd hc (by decide)
        simp [argumentText?_of_isWordChar hc, hsign]
      | false =>
        rw [argumentText?_cons hc, Option.map_or]
        by_cases hsign : c = '=' <;> simp [hsign]
  rw [Pattern.keptText?, hmatch]
  cases argumentText? line <;> rfl

/-- The text ends before the last block closer. -/
example : linePattern.keptText? " *= require a */ b */ ".toList = some "require a */ b ".toList := by
  decide +kernel

end Directive

namespace ParsedSource

open Directive

theorem parse_eq_map (source : Option Path) (text : List Char) : parse source text =
    (ofLines source 0 (Text.lines (Header.split text).1)).map
      fun ds ↦ ⟨(Header.split text).1, (Header.split text).2, ds⟩ := by
  simp only [parse]
  cases ofLines source 0 (Text.lines (Header.split text).1) <;> rfl

/-- On each line of a header the pattern keeps the text of the grammar, the directives are those of the
grammar unless a text ends inside quotes, and then the first such text is the failure. -/
theorem parse_grammar (source : Option Path) (text : List Char) :
    (∀ l ∈ Text.lines (Header.split text).1, ∀ cs,
      linePattern.keptText? l.text = some cs ↔ IsMarked l.text cs) ∧
    (∀ p, parse source text = .ok p ↔ (p.header, p.body) = Header.split text ∧
      AreOn 0 (Text.lines (Header.split text).1) p.directives) ∧
    ∀ e, parse source text = .error e ↔ FailsOn source 0 (Text.lines (Header.split text).1) e := by
  refine ⟨fun l hl cs ↦ ?_, fun p ↦ ?_, fun e ↦ ?_⟩
  · have hfeed : '\n' ∉ l.text := fun hmem ↦
      absurd (Text.isLineEnd_of_mem_lines hl hmem) (by decide)
    rw [keptText?_linePattern hfeed, argumentText?_eq_some_iff]
  · have hlines : ofLines source 0 (Text.lines (Header.split text).1) = .ok p.directives ↔ _ :=
      ofLines_eq_ok_iff
    rw [← hlines, parse_eq_map]
    obtain ⟨header, body, directives⟩ := p
    cases ofLines source 0 (Text.lines (Header.split text).1) with
    | error e => simp [Except.map]
    | ok ds => simp [Except.map, Prod.ext_iff, eq_comm, and_assoc]
  · rw [← ofLines_eq_error_iff, parse_eq_map]
    cases ofLines source 0 (Text.lines (Header.split text).1) with
    | error e' => simp [Except.map]
    | ok ds => simp [Except.map]

end ParsedSource

end AssetBundler
