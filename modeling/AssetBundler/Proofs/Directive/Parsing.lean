import AssetBundler.Directive.Basic
import AssetBundler.Proofs.Action
import AssetBundler.Proofs.Header

/-!
# The directives of a header

Directives are read line by line, and where a line stands decides its number and nothing else. Main
statement: what is put after a header adds the directives of its own header (`parse_header_append`).
-/

namespace AssetBundler

open Text (Line)

namespace Directive

/-- The line is a directive. -/
def isOn (line : List Char) : Bool :=
  ((argumentText? line).bind words).any fun ws ↦ !ws.isEmpty

theorem ofLine_eq_ok {source : Option Path} {lineIndex : Nat} {line : List Char}
    {found : Option Directive} (h : ofLine source lineIndex line = .ok found) :
    found.isSome = isOn line ∧ ∀ d ∈ found, d.lineIndex = lineIndex := by
  simp only [ofLine] at h
  split at h
  · rename_i hnone
    cases h
    simp [isOn, hnone]
  · rename_i text htext
    split at h
    · cases h
    · rename_i hwords
      cases h
      simp [isOn, htext, hwords]
    · rename_i name arguments hwords
      cases h
      simp [isOn, htext, hwords]

/-- Whether a line is no directive does not depend on where it stands. -/
theorem ofLine_of_isOn {source : Option Path} {lineIndex : Nat} {line : List Char}
    {found : Option Directive} (h : ofLine source lineIndex line = .ok found)
    (hon : isOn line = false) (other : Nat) : ofLine source other line = .ok none := by
  have hnone : found = none := by
    rw [← (ofLine_eq_ok h).1] at hon
    simpa using hon
  subst hnone
  rw [ofLine] at h ⊢
  cases htext : argumentText? line with
  | none => rfl
  | some text =>
    simp only [htext] at h ⊢
    cases hwords : words text with
    | none => simp [hwords] at h
    | some ws =>
      cases ws with
      | nil => rfl
      | cons name arguments => simp [hwords] at h

/-- A blank line has no equals sign, so no marker. -/
theorem argumentText?_of_blank {line : List Char} (h : Text.isBlankText line = true) :
    argumentText? line = none := by
  have hmarker : Text.trimRight (line.takeWhile fun c ↦ !Text.isWordChar c) = [] := by
    have hblank : ∀ c ∈ (line.takeWhile fun c ↦ !Text.isWordChar c).reverse, Text.isBlank c :=
      fun c hc ↦ List.all_eq_true.1 h c
        ((List.takeWhile_prefix _).subset (List.mem_reverse.1 hc))
    rw [Text.trimRight, Text.dropEndWhile, List.dropWhile_eq_nil_iff.2 hblank, List.reverse_nil]
  simp only [argumentText?, hmarker]
  simp

theorem ofLine_of_blank {line : List Char} (h : Text.isBlankText line = true)
    (source : Option Path) (lineIndex : Nat) : ofLine source lineIndex line = .ok none := by
  rw [ofLine, argumentText?_of_blank h]

theorem isOn_of_blank {line : List Char} (h : Text.isBlankText line = true) : isOn line = false := by
  rw [isOn, argumentText?_of_blank h]
  rfl

theorem ofLines_cons_eq_ok {source : Option Path} {lineIndex : Nat} {l : Line} {ls : List Line}
    {ds : List Directive} (h : ofLines source lineIndex (l :: ls) = .ok ds) :
    ∃ found others, ofLine source lineIndex l.text = .ok found ∧
      ofLines source (lineIndex + 1) ls = .ok others ∧ ds = found.toList ++ others := by
  rw [ofLines] at h
  obtain ⟨found, hfound, h⟩ := Action.except_bind_eq_ok.1 h
  obtain ⟨others, hothers, h⟩ := Action.except_bind_eq_ok.1 h
  cases h
  exact ⟨found, others, hfound, hothers, rfl⟩

theorem exists_ofLine {source : Option Path} {lineIndex : Nat} {ls : List Line}
    {ds : List Directive} (h : ofLines source lineIndex ls = .ok ds) {l : Line} (hl : l ∈ ls) :
    ∃ i found, ofLine source i l.text = .ok found := by
  induction ls generalizing lineIndex ds with
  | nil => cases hl
  | cons first ls ih =>
    obtain ⟨found, others, hfound, hothers, -⟩ := ofLines_cons_eq_ok h
    obtain rfl | hl := List.mem_cons.1 hl
    · exact ⟨lineIndex, found, hfound⟩
    · exact ih hothers hl

theorem ofLines_eq_nil {source : Option Path} {ls : List Line}
    (h : ∀ l ∈ ls, ∀ i, ofLine source i l.text = .ok none) (lineIndex : Nat) :
    ofLines source lineIndex ls = .ok [] := by
  induction ls generalizing lineIndex with
  | nil => rfl
  | cons l ls ih =>
    rw [ofLines, h l (by simp), ih fun m hm ↦ h m (List.mem_cons_of_mem l hm)]
    rfl

/-- The words of a directive. -/
def call (d : Directive) : List String := d.name :: d.arguments

theorem ofLine_renumbered {source : Option Path} {lineIndex : Nat} {line : List Char}
    {found : Option Directive} (h : ofLine source lineIndex line = .ok found) (other : Nat) :
    ∃ found', ofLine source other line = .ok found' ∧ found'.map call = found.map call := by
  rw [ofLine] at h ⊢
  cases htext : argumentText? line with
  | none =>
    simp only [htext] at h
    cases h
    exact ⟨none, rfl, rfl⟩
  | some text =>
    simp only [htext] at h ⊢
    cases hwords : words text with
    | none => simp [hwords] at h
    | some ws =>
      simp only [hwords] at h ⊢
      cases ws with
      | nil =>
        cases h
        exact ⟨none, rfl, rfl⟩
      | cons name arguments =>
        cases h
        exact ⟨_, rfl, rfl⟩

theorem ofLines_cons_of_ok {source : Option Path} {lineIndex : Nat} {l : Line} {ls : List Line}
    {found : Option Directive} {others : List Directive}
    (hfound : ofLine source lineIndex l.text = .ok found)
    (hothers : ofLines source (lineIndex + 1) ls = .ok others) :
    ofLines source lineIndex (l :: ls) = .ok (found.toList ++ others) := by
  rw [ofLines, hfound, hothers]
  rfl

theorem ofLines_renumbered {source : Option Path} {lineIndex : Nat} {ls : List Line}
    {ds : List Directive} (h : ofLines source lineIndex ls = .ok ds) (other : Nat) :
    ∃ ds', ofLines source other ls = .ok ds' ∧ ds'.map call = ds.map call := by
  induction ls generalizing lineIndex other ds with
  | nil =>
    cases h
    exact ⟨[], rfl, rfl⟩
  | cons l ls ih =>
    obtain ⟨found, others, hfound, hothers, rfl⟩ := ofLines_cons_eq_ok h
    obtain ⟨found', hfound', hcall⟩ := ofLine_renumbered hfound other
    obtain ⟨others', hothers', hcalls⟩ := ih hothers (other + 1)
    refine ⟨found'.toList ++ others', ofLines_cons_of_ok hfound' hothers', ?_⟩
    rw [List.map_append, List.map_append, hcalls, ← Option.toList_map, ← Option.toList_map, hcall]

theorem ofLines_append {source : Option Path} {lineIndex : Nat} {ls others : List Line}
    {ds : List Directive} (h : ofLines source lineIndex (ls ++ others) = .ok ds) :
    ∃ first rest, ofLines source lineIndex ls = .ok first ∧
      ofLines source (lineIndex + ls.length) others = .ok rest ∧ ds = first ++ rest := by
  induction ls generalizing lineIndex ds with
  | nil => exact ⟨[], ds, rfl, h, rfl⟩
  | cons l ls ih =>
    obtain ⟨found, more, hfound, hmore, rfl⟩ := ofLines_cons_eq_ok h
    obtain ⟨first, rest, hfirst, hrest, rfl⟩ := ih hmore
    refine ⟨found.toList ++ first, rest, ofLines_cons_of_ok hfound hfirst, ?_, by simp⟩
    rw [List.length_cons, Nat.add_comm ls.length, ← Nat.add_assoc]
    exact hrest

end Directive

namespace ParsedSource

variable {source : Option Path} {text : List Char} {p : ParsedSource}

theorem parse_eq_ok (h : parse source text = .ok p) :
    p.header = (Header.split text).1 ∧ p.body = (Header.split text).2 ∧
      Directive.ofLines source 0 ((Text.lines text).take (Header.length (Text.lines text))) =
        .ok p.directives := by
  simp only [parse] at h
  obtain ⟨ds, hds, h⟩ := Action.except_bind_eq_ok.1 h
  cases h
  refine ⟨rfl, rfl, ?_⟩
  rw [← Text.lines_flatten_take]
  exact hds

theorem parse_of_ofLines {ds : List Directive} (h : Directive.ofLines source 0
    ((Text.lines text).take (Header.length (Text.lines text))) = .ok ds) :
    parse source text = .ok ⟨(Header.split text).1, (Header.split text).2, ds⟩ := by
  rw [← Text.lines_flatten_take] at h
  simp only [parse, Header.split, h]
  rfl

/-- A text without carriage returns that comes after a header adds its own directives to those of the
header. -/
theorem parse_header_append (hcr : '\r' ∉ text) {tail : List Char}
    (htail : (Header.split text).2 = [] → tail = [])
    (h : parse source ((Header.split text).1 ++ tail) = .ok p) : ∃ own more,
      parse source text = .ok own ∧ parse source tail = .ok more ∧
      p.directives.map Directive.call =
        own.directives.map Directive.call ++ more.directives.map Directive.call := by
  obtain ⟨-, -, hds⟩ := parse_eq_ok h
  have hlines := Text.lines_take_append hcr fun hdrop ↦ htail (by rw [Header.split, hdrop]; rfl)
  have hlength := List.length_take_of_le (Header.length_le (Text.lines text))
  rw [Header.split, hlines, Header.length_take_append, List.take_append, hlength,
    Nat.add_sub_cancel_left, List.take_of_length_le (by omega)] at hds
  obtain ⟨own, rest, hown, hrest, hsum⟩ := Directive.ofLines_append hds
  obtain ⟨more, hmore, hcalls⟩ := Directive.ofLines_renumbered hrest 0
  refine ⟨_, _, parse_of_ofLines hown, parse_of_ofLines hmore, ?_⟩
  rw [hsum, List.map_append, hcalls]

end ParsedSource

end AssetBundler
