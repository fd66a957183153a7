import AssetBundler.Proofs.Directive.Reader
import AssetBundler.Proofs.Stylesheet.Statement

/-!
# The grammar of directive lines

A line of a header is a directive if its longest prefix without word characters ends in an equals sign and
blanks, and something follows it: the text of the directive, up to the blanks at the end of the line and one
block closer before them. Main statements: the reader takes exactly the text of that grammar from a line
(`Directive.argumentText?_eq_some_iff`), a text is never without words, so the directives of a header are those
of its marked lines in order (`Directive.ofLines_eq_ok_iff`), and reading fails for the first marked line whose
quotes stay open (`Directive.ofLines_eq_error_iff`).
-/

namespace AssetBundler

open Text (IsBlanks Line)

namespace Text

/-- No interval of blanks meets one of letters and numbers. -/
theorem blankRanges_apart : (blankRanges.all fun r ↦ alphanumericRanges.all fun s ↦
    Nat.blt r.2 s.1 || Nat.blt s.2 r.1) = true := by
  decide +kernel

theorem isBlank_ascii : ∀ n < 128, isWordChar (Char.ofNat n) = true → isBlank (Char.ofNat n) = false := by
  decide +kernel

theorem isBlank_of_isWordChar {c : Char} (h : isWordChar c = true) : isBlank c = false := by
  by_cases hlt : c.toNat < 128
  · have hascii := isBlank_ascii c.toNat hlt
    rw [Char.ofNat_toNat] at hascii
    exact hascii h
  · rw [isWordChar, if_neg hlt, Ranges.contains_iff] at h
    obtain ⟨s, hs, hword⟩ := h
    rw [Bool.eq_false_iff, isBlank, ne_eq, Ranges.contains_iff]
    rintro ⟨r, hr, hblank⟩
    have hapart := List.all_eq_true.1 (List.all_eq_true.1 blankRanges_apart r hr) s hs
    rw [Bool.or_eq_true, Nat.blt_eq, Nat.blt_eq] at hapart
    omega

theorem isWordChar_of_isBlank {c : Char} (h : isBlank c = true) : isWordChar c = false := by
  refine Bool.eq_false_iff.2 fun hword ↦ ?_
  rw [isBlank_of_isWordChar hword] at h
  cases h

theorem isBlankText_iff {cs : List Char} : isBlankText cs = true ↔ IsBlanks cs := List.all_eq_true

end Text

namespace Directive

/-- The text of a directive stands before the blanks at the end of the line and before one block closer, if
there is one. -/
inductive IsTextOf : List Char → List Char → Prop where
  | closed {text blanks : List Char} (hblanks : IsBlanks blanks) :
    IsTextOf (text ++ '*' :: '/' :: blanks) text
  | plain {text blanks : List Char} (hblanks : IsBlanks blanks)
    (hlast : ∀ c ∈ text.getLast?, Text.isBlank c = false) (hcloser : ¬['*', '/'] <:+ text) :
    IsTextOf (text ++ blanks) text

/-- What can stand behind the text: blanks, or a block closer and blanks. -/
def isEnd : List Char → Bool
  | '*' :: '/' :: cs => Text.isBlankText cs
  | cs => Text.isBlankText cs

theorem isEnd_eq_true {cs : List Char} :
    isEnd cs = true ↔ IsBlanks cs ∨ ∃ blanks, cs = '*' :: '/' :: blanks ∧ IsBlanks blanks := by
  unfold isEnd
  split
  case h_1 cs =>
    rw [Text.isBlankText_iff]
    constructor
    · exact fun h ↦ .inr ⟨cs, rfl, h⟩
    · rintro (h | ⟨blanks, heq, hblanks⟩)
      · exact absurd (h '*' (by simp)) (by decide)
      · cases heq
        exact hblanks
  case h_2 cs hcloser =>
    rw [Text.isBlankText_iff]
    constructor
    · exact .inl
    · rintro (h | ⟨blanks, rfl, -⟩)
      · exact h
      · exact absurd rfl (hcloser blanks)

theorem isWordChar_of_mem_isEnd {t : List Char} (h : isEnd t = true) {c : Char} (hc : c ∈ t) :
    Text.isWordChar c = false := by
  rcases isEnd_eq_true.1 h with hblanks | ⟨blanks, rfl, hblanks⟩
  · exact Text.isWordChar_of_isBlank (hblanks c hc)
  · rcases List.mem_cons.1 hc with rfl | hc
    · decide
    rcases List.mem_cons.1 hc with rfl | hc
    · decide
    · exact Text.isWordChar_of_isBlank (hblanks c hc)

theorem not_isBlanks_of_mem {cs : List Char} {c : Char} (hc : c ∈ cs) (h : Text.isBlank c = false) :
    ¬IsBlanks cs := fun hcs ↦ by
  rw [hcs c hc] at h
  cases h

/-- What starts with its closer is no end with anything in front: only the closer of an end is not blank. -/
theorem eq_nil_of_isEnd_append_closer {x blanks : List Char} (h : isEnd (x ++ '*' :: '/' :: blanks) = true) :
    x = [] := by
  have hstar : Text.isBlank '*' = false := by decide
  rcases isEnd_eq_true.1 h with hall | ⟨more, heq, hmore⟩
  · exact absurd hall (not_isBlanks_of_mem (by simp) hstar)
  · rcases x with _ | ⟨c, _ | ⟨d, x⟩⟩
    · rfl
    · simp at heq
    · simp only [List.cons_append, List.cons.injEq] at heq
      rw [← heq.2.2] at hmore
      exact absurd hmore (not_isBlanks_of_mem (by simp) hstar)

/-- Blanks are no end with something in front that ends neither in a blank nor in a closer. -/
theorem eq_nil_of_isEnd_append_blanks {x blanks : List Char} (hblanks : IsBlanks blanks)
    (hlast : ∀ c ∈ x.getLast?, Text.isBlank c = false) (hcloser : ¬['*', '/'] <:+ x)
    (h : isEnd (x ++ blanks) = true) : x = [] := by
  rcases isEnd_eq_true.1 h with hall | ⟨more, heq, hmore⟩
  · rcases List.eq_nil_or_concat x with rfl | ⟨before, last, rfl⟩
    · rfl
    · exact absurd hall (not_isBlanks_of_mem (by simp) (hlast last (by simp)))
  · rcases x with _ | ⟨c, _ | ⟨d, x⟩⟩
    · rfl
    · simp only [List.singleton_append, List.cons.injEq] at heq
      rw [heq.2] at hblanks
      exact absurd hblanks (not_isBlanks_of_mem List.mem_cons_self (by decide))
    · simp only [List.cons_append, List.cons.injEq] at heq
      obtain ⟨rfl, rfl, rfl⟩ := heq
      rcases List.eq_nil_or_concat x with rfl | ⟨before, last, rfl⟩
      · exact absurd List.suffix_rfl hcloser
      · exact absurd hmore (not_isBlanks_of_mem (by simp) (hlast last (by simp [List.getLast?_cons])))

/-- The text is followed by the longest end of the line that is blank apart from a block closer at its
start. -/
theorem IsTextOf.exists_longest {rest text : List Char} (h : IsTextOf rest text) : ∃ t, rest = text ++ t ∧
    isEnd t = true ∧ ∀ u, u <:+ rest → isEnd u = true → u <:+ t := by
  cases h with
  | @closed text blanks hblanks =>
    refine ⟨'*' :: '/' :: blanks, rfl, isEnd_eq_true.2 (.inr ⟨blanks, rfl, hblanks⟩), fun u hu hend ↦ ?_⟩
    rcases List.suffix_or_suffix_of_suffix hu (List.suffix_append text _) with hle | ⟨x, rfl⟩
    · exact hle
    · rw [eq_nil_of_isEnd_append_closer hend]
      exact List.suffix_rfl
  | @plain text blanks hblanks hlast hcloser =>
    refine ⟨blanks, rfl, isEnd_eq_true.2 (.inl hblanks), fun u hu hend ↦ ?_⟩
    rcases List.suffix_or_suffix_of_suffix hu (List.suffix_append text _) with hle | ⟨x, rfl⟩
    · exact hle
    · -- the longer end takes the last characters of the text
      obtain ⟨front, rfl⟩ := ((List.suffix_append_inj_of_length_eq rfl).1 hu).1
      have hx : ∀ c ∈ x.getLast?, Text.isBlank c = false := by
        intro c hc
        refine hlast c ?_
        rw [List.getLast?_append, hc]
        rfl
      have hnone : x = [] := eq_nil_of_isEnd_append_blanks hblanks hx
        (fun hsuffix ↦ hcloser (hsuffix.trans (List.suffix_append front x))) hend
      rw [hnone]
      exact List.suffix_rfl

theorem IsTextOf.unique {rest text other : List Char} (h : IsTextOf rest text) (h' : IsTextOf rest other) :
    text = other := by
  obtain ⟨t, rfl, ht, hlongest⟩ := h.exists_longest
  obtain ⟨u, heq, hu, hlongest'⟩ := h'.exists_longest
  have hsame : t.length = u.length := by
    apply Nat.le_antisymm
    · exact (hlongest' t (List.suffix_append text t) ht).length_le
    · exact (hlongest u (heq ▸ List.suffix_append other u) hu).length_le
  exact (List.append_inj' heq hsame).1

theorem isTextOf_dropCloser (rest : List Char) : IsTextOf rest (dropCloser (Text.trimRight rest)) := by
  obtain ⟨blanks, hblanks, hrest⟩ : ∃ blanks, IsBlanks blanks ∧ rest = Text.trimRight rest ++ blanks := by
    refine ⟨(rest.reverse.takeWhile Text.isBlank).reverse, fun c hc ↦ ?_, ?_⟩
    · exact List.mem_takeWhile_imp (List.mem_reverse.1 hc)
    · rw [Text.trimRight, Text.dropEndWhile, ← List.reverse_append, List.takeWhile_append_dropWhile,
        List.reverse_reverse]
  have hlast : ∀ c ∈ (Text.trimRight rest).getLast?, Text.isBlank c = false := by
    intro c hc
    rw [Text.trimRight, Text.dropEndWhile, List.getLast?_reverse] at hc
    have hnot := List.head?_dropWhile_not Text.isBlank rest.reverse
    rw [hc] at hnot
    simpa using hnot
  generalize Text.trimRight rest = body at hrest hlast ⊢
  subst hrest
  unfold dropCloser
  split
  case isTrue hcloser =>
    obtain ⟨text, rfl⟩ := List.isSuffixOf_iff_suffix.1 hcloser
    have htake : (text ++ ['*', '/']).take ((text ++ ['*', '/']).length - 2) = text := by simp
    rw [htake, List.append_assoc]
    exact .closed hblanks
  case isFalse hcloser =>
    exact .plain hblanks hlast fun hsuffix ↦ hcloser (List.isSuffixOf_iff_suffix.2 hsuffix)

/-! ## Directive lines -/

/-- The line starts with a marker, its longest beginning without word characters. Blanks at most come after
the last equals sign of the marker, and the rest has the text. -/
def IsMarked (line text : List Char) : Prop :=
  ∃ before gap rest, line = before ++ '=' :: (gap ++ rest) ∧
    (∀ c ∈ before ++ '=' :: gap, Text.isWordChar c = false) ∧ IsBlanks gap ∧
    (∃ c ∈ rest.head?, Text.isWordChar c = true) ∧ IsTextOf rest text

/-- A marker and a rest are where they are separated. -/
theorem span_marker {marker rest : List Char} (hmarker : ∀ c ∈ marker, Text.isWordChar c = false)
    (hrest : ∃ c ∈ rest.head?, Text.isWordChar c = true) :
    (marker ++ rest).takeWhile (fun c ↦ !Text.isWordChar c) = marker ∧
      (marker ++ rest).dropWhile (fun c ↦ !Text.isWordChar c) = rest := by
  have hpass : ∀ c ∈ marker, (!Text.isWordChar c) = true := fun c hc ↦ by rw [hmarker c hc]; rfl
  obtain ⟨c, hc, hword⟩ := hrest
  cases rest with
  | nil => cases hc
  | cons d rest =>
    cases hc
    rw [List.takeWhile_append_of_pos hpass, List.dropWhile_append_of_pos hpass]
    simp [hword]

/-- The last character that is not blank. -/
theorem getLast?_trimRight_eq_some {marker : List Char} {c : Char} :
    (Text.trimRight marker).getLast? = some c ↔
      ∃ before gap, marker = before ++ c :: gap ∧ IsBlanks gap ∧ Text.isBlank c = false := by
  rw [Text.trimRight, Text.dropEndWhile, List.getLast?_reverse, ← List.find?_not_eq_head?_dropWhile,
    List.find?_eq_some_iff_append]
  simp only [Bool.not_eq_true', Bool.not_not]
  constructor
  · rintro ⟨hc, gap, before, hreverse, hgap⟩
    refine ⟨before.reverse, gap.reverse, ?_, fun d hd ↦ hgap d (List.mem_reverse.1 hd), hc⟩
    rw [← List.reverse_reverse marker, hreverse]
    simp
  · rintro ⟨before, gap, rfl, hgap, hc⟩
    exact ⟨hc, gap.reverse, before.reverse, by simp, fun d hd ↦ hgap d (List.mem_reverse.1 hd)⟩

/-- A line has an argument text exactly if it is marked with it. -/
theorem argumentText?_eq_some_iff {line text : List Char} :
    argumentText? line = some text ↔ IsMarked line text := by
  unfold argumentText?
  constructor
  · intro h
    extract_lets marker rest at h
    split at h
    · cases h
    · rename_i hmarked
      rw [Bool.not_eq_true, Bool.or_eq_false_iff, bne_eq_false_iff_eq] at hmarked
      obtain ⟨before, gap, hmarker, hgap, -⟩ := getLast?_trimRight_eq_some.1 hmarked.2
      cases h
      have hline : line = before ++ '=' :: (gap ++ rest) := by
        calc
          line = marker ++ rest := List.takeWhile_append_dropWhile.symm
          _ = before ++ '=' :: (gap ++ rest) := by rw [hmarker]; simp
      refine ⟨before, gap, rest, hline, fun c hc ↦ ?_, hgap, ?_, isTextOf_dropCloser rest⟩
      · rw [← hmarker] at hc
        simpa using List.mem_takeWhile_imp hc
      · have hhead := List.head?_dropWhile_not (fun c ↦ !Text.isWordChar c) line
        cases hrest : rest with
        | nil => simp [hrest] at hmarked
        | cons c cs =>
          rw [show line.dropWhile (fun c ↦ !Text.isWordChar c) = c :: cs from hrest] at hhead
          exact ⟨c, rfl, by simpa using hhead⟩
  · rintro ⟨before, gap, rest, rfl, hplain, hgap, hrest, htext⟩
    have hline : before ++ '=' :: (gap ++ rest) = (before ++ '=' :: gap) ++ rest := by simp
    have hspan := span_marker hplain hrest
    have hsign : (Text.trimRight (before ++ '=' :: gap)).getLast? = some '=' :=
      getLast?_trimRight_eq_some.2 ⟨before, gap, rfl, hgap, by decide⟩
    have hne : rest.isEmpty = false := by
      obtain ⟨c, hc, -⟩ := hrest
      cases rest with
      | nil => cases hc
      | cons => rfl
    rw [hline, hspan.1, hspan.2]
    dsimp only
    rw [hsign, hne, if_neg (by simp), (isTextOf_dropCloser rest).unique htext]

/-! ## Directives -/

/-- Only a text of blanks has no word, and it begins none. -/
theorem wordsAfter_eq_nil_iff {current : Option (List Char)} {cs : List Char} :
    wordsAfter current cs = some [] ↔ current = none ∧ IsBlanks cs := by
  fun_induction wordsAfter current cs with
  | case1 current => simp [IsBlanks]
  | case2 current c cs hblank ih =>
    simp only [Option.map_eq_some_iff, List.append_eq_nil_iff, Option.toList_eq_nil_iff]
    constructor
    · rintro ⟨ws, hws, hcurrent, rfl⟩
      exact ⟨hcurrent, List.forall_mem_cons.2 ⟨hblank, (ih.1 hws).2⟩⟩
    · rintro ⟨hcurrent, hcs⟩
      exact ⟨[], ih.2 ⟨rfl, (List.forall_mem_cons.1 hcs).2⟩, hcurrent, rfl⟩
  | case3 current cs hnone hblank => simp [IsBlanks, hblank]
  | case4 current cs _ piece rest hpiece hblank ih => simp [IsBlanks, hblank, ih]
  | case5 current cs hnone hblank hsingle => simp [IsBlanks, hblank]
  | case6 current cs _ piece rest hpiece hblank hsingle ih => simp [IsBlanks, hblank, ih]
  | case7 current _ hblank hsingle hdouble => simp [IsBlanks, hblank]
  | case8 current _ c cs hblank hsingle hdouble ih => simp [IsBlanks, hblank, ih]
  | case9 current c cs _ hblank hsingle hdouble hslash ih => simp [IsBlanks, hblank, ih]

/-- The text of a directive has a name at its start. -/
theorem IsMarked.words_ne_nil {line text : List Char} (h : IsMarked line text) : words text ≠ some [] := by
  obtain ⟨before, gap, rest, -, -, -, ⟨c, hc, hword⟩, htext⟩ := h
  obtain ⟨t, rfl, hend, -⟩ := htext.exists_longest
  intro hnil
  obtain ⟨-, hblanks⟩ := wordsAfter_eq_nil_iff.1 hnil
  cases text with
  | nil =>
    have hplain := isWordChar_of_mem_isEnd hend (List.mem_of_mem_head? hc)
    rw [hword] at hplain
    cases hplain
  | cons d text =>
    cases hc
    exact not_isBlanks_of_mem List.mem_cons_self (Text.isBlank_of_isWordChar hword) hblanks

variable {source : Option Path} {n : ℕ} {line text : List Char} {l : Line} {ls : List Line}

theorem ofLine_of_isMarked {name : List Char} {arguments : List (List Char)} (h : IsMarked line text)
    (hwords : words text = some (name :: arguments)) : ofLine source n line =
      .ok (some ⟨n, String.ofList name, arguments.map String.ofList⟩) := by
  simp only [ofLine, argumentText?_eq_some_iff.2 h, hwords]

theorem ofLine_of_open (h : IsMarked line text) (hwords : words text = none) : ofLine source n line =
    .error (.malformedArguments (String.ofList text) source .unmatchedQuote (some n)) :=
  (ofLine_eq_error_iff (argumentText?_eq_some_iff.2 h)).2 ⟨hwords, rfl⟩

theorem ofLine_of_not_isMarked (h : ∀ text, ¬IsMarked line text) : ofLine source n line = .ok none := by
  have hnone : argumentText? line = none :=
    Option.eq_none_iff_forall_ne_some.2 fun text htext ↦ h text (argumentText?_eq_some_iff.1 htext)
  simp only [ofLine, hnone]

/-- A line has a text with a name and arguments, or a text without words because it ends inside quotes, or no
text. -/
theorem line_cases (line : List Char) :
    (∃ text name arguments, IsMarked line text ∧ words text = some (name :: arguments)) ∨
      (∃ text, IsMarked line text ∧ words text = none) ∨ ∀ text, ¬IsMarked line text := by
  by_cases hmarked : ∃ text, IsMarked line text
  · obtain ⟨text, htext⟩ := hmarked
    cases hwords : words text with
    | none => exact .inr (.inl ⟨text, htext, hwords⟩)
    | some ws =>
      cases ws with
      | nil => exact absurd hwords htext.words_ne_nil
      | cons name arguments => exact .inl ⟨text, name, arguments, htext, hwords⟩
  · exact .inr (.inr (not_exists.1 hmarked))

/-- The directives of lines that are numbered from `n`: one for each line that has a text. -/
inductive AreOn : ℕ → List Line → List Directive → Prop where
  | nil (n : ℕ) : AreOn n [] []
  | directive {n : ℕ} {l : Line} {ls : List Line} {ds : List Directive} {text name : List Char}
    {arguments : List (List Char)} (hmarked : IsMarked l.text text)
    (hwords : words text = some (name :: arguments)) (hrest : AreOn (n + 1) ls ds) :
    AreOn n (l :: ls) (⟨n, String.ofList name, arguments.map String.ofList⟩ :: ds)
  | other {n : ℕ} {l : Line} {ls : List Line} {ds : List Directive} (hplain : ∀ text, ¬IsMarked l.text text)
    (hrest : AreOn (n + 1) ls ds) : AreOn n (l :: ls) ds

/-- The failure of lines that are numbered from `n`: the first text that ends inside quotes. -/
inductive FailsOn (source : Option Path) : ℕ → List Line → Failure → Prop where
  | here {n : ℕ} {l : Line} {ls : List Line} {text : List Char} (hmarked : IsMarked l.text text)
    (hquotes : (Reader.start.read text).IsInQuotes) :
    FailsOn source n (l :: ls)
      (.malformedArguments (String.ofList text) source .unmatchedQuote (some n))
  | later {n : ℕ} {l : Line} {ls : List Line} {e : Failure}
    (hclosed : ∀ text, IsMarked l.text text → ¬(Reader.start.read text).IsInQuotes)
    (hrest : FailsOn source (n + 1) ls e) : FailsOn source n (l :: ls) e

theorem ofLines_eq_ok_iff {ds : List Directive} : ofLines source n ls = .ok ds ↔ AreOn n ls ds := by
  constructor
  · intro h
    induction ls generalizing n ds with
    | nil =>
      cases h
      exact .nil n
    | cons l ls ih =>
      obtain ⟨found, others, hfound, hothers, rfl⟩ := ofLines_cons_eq_ok h
      obtain ⟨text, name, arguments, hmarked, hwords⟩ | ⟨text, hmarked, hwords⟩ | hplain := line_cases l.text
      · rw [ofLine_of_isMarked hmarked hwords] at hfound
        cases hfound
        exact .directive hmarked hwords (ih hothers)
      · rw [ofLine_of_open hmarked hwords] at hfound
        cases hfound
      · rw [ofLine_of_not_isMarked hplain] at hfound
        cases hfound
        exact .other hplain (ih hothers)
  · intro h
    induction h with
    | nil => rfl
    | directive hmarked hwords _ ih => exact ofLines_cons_of_ok (ofLine_of_isMarked hmarked hwords) ih
    | other hplain _ ih => exact ofLines_cons_of_ok (ofLine_of_not_isMarked hplain) ih

/-- A line fails exactly if its text ends inside quotes. -/
theorem ofLine_eq_error_iff_isMarked {e : Failure} : ofLine source n line = .error e ↔
    ∃ text, IsMarked line text ∧ (Reader.start.read text).IsInQuotes ∧
      e = .malformedArguments (String.ofList text) source .unmatchedQuote (some n) := by
  constructor
  · intro h
    obtain ⟨text, name, arguments, hmarked, hwords⟩ | ⟨text, hmarked, hwords⟩ | hplain := line_cases line
    · rw [ofLine_of_isMarked hmarked hwords] at h
      cases h
    · rw [ofLine_of_open hmarked hwords] at h
      cases h
      exact ⟨text, hmarked, (words_eq_none_iff text).1 hwords, rfl⟩
    · rw [ofLine_of_not_isMarked hplain] at h
      cases h
  · rintro ⟨text, hmarked, hquotes, rfl⟩
    exact ofLine_of_open hmarked ((words_eq_none_iff text).2 hquotes)

theorem ofLines_eq_error_iff {e : Failure} :
    ofLines source n ls = .error e ↔ FailsOn source n ls e := by
  constructor
  · intro h
    induction ls generalizing n with
    | nil => cases h
    | cons l ls ih =>
      rw [ofLines] at h
      cases hfound : ofLine source n l.text with
      | error e' =>
        rw [hfound] at h
        cases h
        obtain ⟨text, hmarked, hquotes, rfl⟩ := ofLine_eq_error_iff_isMarked.1 hfound
        exact .here hmarked hquotes
      | ok found =>
        have hclosed : ∀ text, IsMarked l.text text → ¬(Reader.start.read text).IsInQuotes := by
          intro text hmarked hquotes
          rw [ofLine_eq_error_iff_isMarked.2 ⟨text, hmarked, hquotes, rfl⟩] at hfound
          cases hfound
        cases hothers : ofLines source (n + 1) ls with
        | error e' =>
          rw [hfound, hothers] at h
          cases h
          exact .later hclosed (ih hothers)
        | ok others =>
          rw [hfound, hothers] at h
          cases h
  · intro h
    induction h with
    | here hmarked hquotes =>
      rw [ofLines, ofLine_of_open hmarked ((words_eq_none_iff _).2 hquotes)]
      rfl
    | @later n l ls e hclosed _ ih =>
      rw [ofLines]
      cases hfound : ofLine source n l.text with
      | error e' =>
        obtain ⟨text, hmarked, hquotes, -⟩ := ofLine_eq_error_iff_isMarked.1 hfound
        exact absurd hquotes (hclosed text hmarked)
      | ok found =>
        rw [ih]
        rfl

end Directive

end AssetBundler
