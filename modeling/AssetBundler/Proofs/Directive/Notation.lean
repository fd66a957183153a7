import AssetBundler.Proofs.Directive.Grammar
import AssetBundler.Proofs.Directive.Stripping

/-!
# Written directives

A directive is written on a line of its own, with each argument in double quotes. Reading goes through the
comments of the header, the marker of the line and the words of its text, and none of these takes anything
away from a name of word characters or from an argument that stays on its line. Main statement: directives
that are written are read back in order, and stripping leaves one line feed for each
(`ParsedSource.parse_written`).
-/

namespace AssetBundler

open Text (Line)

namespace Text

/-- What ends a line is blank. -/
theorem isBlank_of_isLineEnd {c : Char} (h : isLineEnd c = true) : isBlank c = true := by
  simp only [isLineEnd, Bool.or_eq_true, Bool.and_eq_true, decide_eq_true_eq, beq_iff_eq] at h
  rcases h with ((((((rfl | rfl) | rfl) | rfl) | hrange) | rfl) | rfl) | rfl
  · decide
  · decide
  · decide
  · decide
  · exact Ranges.contains_iff.2 ⟨(0x1C, 0x20), by decide, hrange.1, hrange.2.trans (by decide)⟩
  · decide
  · decide
  · decide

theorem isLineEnd_of_isWordChar {c : Char} (h : isWordChar c = true) : isLineEnd c = false := by
  refine Bool.eq_false_iff.2 fun hend ↦ ?_
  rw [isWordChar_of_isBlank (isBlank_of_isLineEnd hend)] at h
  cases h

end Text

namespace Directive

/-- The name is one word and no argument leaves its line. -/
structure IsWritable (d : Directive) : Prop where
  name_ne : d.name.toList ≠ []
  name : ∀ c ∈ d.name.toList, Text.isWordChar c = true
  arguments : ∀ a ∈ d.arguments, ∀ c ∈ a.toList, Text.isLineEnd c = false

theorem isWritable_iff {d : Directive} : d.IsWritable ↔ d.name.toList ≠ [] ∧
    d.name.toList.all Text.isWordChar = true ∧
    (d.arguments.all fun a ↦ a.toList.all fun c ↦ !Text.isLineEnd c) = true := by
  simp only [List.all_eq_true, Bool.not_eq_true']
  exact ⟨fun h ↦ ⟨h.name_ne, h.name, h.arguments⟩, fun h ↦ ⟨h.1, h.2.1, h.2.2⟩⟩

instance (d : Directive) : Decidable d.IsWritable := decidable_of_iff _ isWritable_iff.symm

/-- A backslash in front of what double quotes do not take as it is. -/
def escaped (c : Char) : List Char := if c = '"' ∨ c = '\\' then ['\\', c] else [c]

def quoted (cs : List Char) : List Char := '"' :: (cs.flatMap escaped ++ ['"'])

/-- Name and arguments as one text. -/
def writtenText (d : Directive) : List Char :=
  d.name.toList ++ d.arguments.flatMap fun a ↦ ' ' :: quoted a.toList

def writtenLine (d : Directive) : Line := ⟨'/' :: '/' :: '=' :: ' ' :: d.writtenText, ['\n']⟩

/-- Directives on lines of their own. -/
def written (ds : List Directive) : List Char := ds.flatMap fun d ↦ d.writtenLine.full

namespace Reader

variable {word : List Char} {words : List (List Char)}

theorem read_append (r : Reader) (cs rest : List Char) : r.read (cs ++ rest) = (r.read cs).read rest :=
  List.foldl_append

theorem step_of_isWordChar {c : Char} (hc : Text.isWordChar c = true) (current : Option (List Char)) :
    (outside current words).step c = ⟨.plain, current.getD [] ++ [c], words⟩ := by
  have hsingle : c ≠ '\'' := by rintro rfl; exact absurd hc (by decide)
  have hdouble : c ≠ '"' := by rintro rfl; exact absurd hc (by decide)
  have hslash : c ≠ '\\' := by rintro rfl; exact absurd hc (by decide)
  rw [step_outside, if_neg (by simp [Text.isBlank_of_isWordChar hc]), if_neg hsingle, if_neg hdouble,
    if_neg hslash]
  rfl

theorem read_of_isWordChar {cs : List Char} (h : ∀ c ∈ cs, Text.isWordChar c = true) (word : List Char) :
    read ⟨.plain, word, words⟩ cs = ⟨.plain, word ++ cs, words⟩ := by
  induction cs generalizing word with
  | nil => rw [List.append_nil]; rfl
  | cons c cs ih =>
    rw [List.forall_mem_cons] at h
    have hstep : (outside (some word) words).step c = ⟨.plain, word ++ [c], words⟩ :=
      step_of_isWordChar h.1 (some word)
    rw [outside] at hstep
    rw [read_cons, hstep, ih h.2, List.append_assoc, List.singleton_append]

/-- Inside double quotes an escaped character is the character. -/
theorem read_escaped (c : Char) (word : List Char) :
    read ⟨.doubleQuotes, word, words⟩ (escaped c) = ⟨.doubleQuotes, word ++ [c], words⟩ := by
  unfold escaped
  split
  · rfl
  · rename_i hc
    rw [not_or] at hc
    simp only [read_cons, step, hc.1, hc.2, if_false]
    rfl

theorem read_flatMap_escaped (cs word : List Char) :
    read ⟨.doubleQuotes, word, words⟩ (cs.flatMap escaped) = ⟨.doubleQuotes, word ++ cs, words⟩ := by
  induction cs generalizing word with
  | nil => rw [List.append_nil]; rfl
  | cons c cs ih =>
    rw [List.flatMap_cons, read_append, read_escaped, ih, List.append_assoc, List.singleton_append]

/-- A blank and a text in quotes after a word end the word, and the text is the next one. -/
theorem read_quoted (word cs : List Char) :
    read ⟨.plain, word, words⟩ (' ' :: quoted cs) = ⟨.plain, cs, words ++ [word]⟩ := by
  calc
    read ⟨.plain, word, words⟩ (' ' :: quoted cs) =
        (read ⟨.doubleQuotes, [], words ++ [word]⟩ (cs.flatMap escaped)).read ['"'] := by
      rw [← read_append]
      rfl
    _ = read ⟨.doubleQuotes, cs, words ++ [word]⟩ ['"'] := by rw [read_flatMap_escaped, List.nil_append]
    _ = ⟨.plain, cs, words ++ [word]⟩ := rfl

theorem finish_read_arguments (arguments : List String) (word : List Char) :
    (read ⟨.plain, word, words⟩ (arguments.flatMap fun a ↦ ' ' :: quoted a.toList)).finish =
      some (words ++ word :: arguments.map String.toList) := by
  induction arguments generalizing word words with
  | nil => rfl
  | cons a arguments ih =>
    rw [List.flatMap_cons, read_append, read_quoted, ih, List.append_assoc]
    rfl

end Reader

variable {d : Directive} {ds : List Directive}

theorem words_writtenText (h : d.IsWritable) :
    words d.writtenText = some (d.name.toList :: d.arguments.map String.toList) := by
  obtain ⟨c, cs, hname⟩ := List.exists_cons_of_ne_nil h.name_ne
  have hword := h.name
  rw [hname, List.forall_mem_cons] at hword
  rw [words_eq_finish, writtenText, hname, Reader.read_append, Reader.read_cons]
  have hstep : Reader.start.step c = ⟨.plain, [c], []⟩ := Reader.step_of_isWordChar hword.1 none
  rw [hstep, Reader.read_of_isWordChar hword.2, Reader.finish_read_arguments]
  rfl

theorem mem_escaped {b c : Char} (h : c ∈ escaped b) : c = '\\' ∨ c = b := by
  unfold escaped at h
  split at h <;> simp_all

/-- The last character is one of the name or a quote. -/
theorem getLast_writtenText (h : d.IsWritable) :
    ∃ front last, d.writtenText = front ++ [last] ∧ (Text.isWordChar last = true ∨ last = '"') := by
  unfold writtenText
  rcases List.eq_nil_or_concat d.arguments with hnone | ⟨arguments, a, harguments⟩
  · rcases List.eq_nil_or_concat d.name.toList with hnil | ⟨front, last, hname⟩
    · exact absurd hnil h.name_ne
    · exact ⟨front, last, by simp [hnone, hname], .inl (h.name last (by simp [hname]))⟩
  · refine ⟨d.name.toList ++ (arguments.flatMap fun a ↦ ' ' :: quoted a.toList) ++
      ' ' :: '"' :: a.toList.flatMap escaped, '"', ?_, .inr rfl⟩
    simp [harguments, quoted]

theorem isTextOf_writtenText (h : d.IsWritable) : IsTextOf d.writtenText d.writtenText := by
  obtain ⟨front, last, heq, hlast⟩ := getLast_writtenText h
  have hblank : Text.isBlank last = false := by
    rcases hlast with hword | rfl
    · exact Text.isBlank_of_isWordChar hword
    · decide
  have hslash : last ≠ '/' := by
    rintro rfl
    rcases hlast with hword | hquote
    · exact absurd hword (by decide)
    · exact absurd hquote (by decide)
  have hplain : IsTextOf (d.writtenText ++ []) d.writtenText := .plain (by simp [Text.IsBlanks])
    (by simp [heq, hblank]) fun hcloser ↦ by
      obtain ⟨before, hbefore⟩ := hcloser
      rw [heq, show ['*', '/'] = ['*'] ++ ['/'] from rfl, ← List.append_assoc] at hbefore
      exact hslash (List.singleton_inj.1 (List.append_inj' hbefore rfl).2).symm
  rwa [List.append_nil] at hplain

theorem isMarked_writtenLine (h : d.IsWritable) : IsMarked d.writtenLine.text d.writtenText := by
  obtain ⟨c, cs, hname⟩ := List.exists_cons_of_ne_nil h.name_ne
  have hmarker : ∀ c ∈ ['/', '/', '=', ' '], Text.isWordChar c = false := by
    simp only [List.forall_mem_cons, List.not_mem_nil, false_implies, implies_true, and_true]
    decide
  refine ⟨['/', '/'], [' '], d.writtenText, rfl, hmarker, List.forall_mem_singleton.2 (by decide),
    ⟨c, ?_, ?_⟩, isTextOf_writtenText h⟩
  · rw [writtenText, hname]
    rfl
  · exact h.name c (by rw [hname]; exact List.mem_cons_self)

theorem isOn_writtenLine (h : d.IsWritable) : isOn d.writtenLine.text = true := by
  rw [isOn, argumentText?_eq_some_iff.2 (isMarked_writtenLine h), Option.bind_some, words_writtenText h]
  rfl

theorem isComplete_writtenLine (h : d.IsWritable) : d.writtenLine.IsComplete := by
  have harguments : ∀ a ∈ d.arguments, ∀ c ∈ ' ' :: quoted a.toList, Text.isLineEnd c = false := by
    intro a ha c hc
    simp only [quoted, List.mem_cons, List.mem_append, List.mem_flatMap, List.not_mem_nil, or_false] at hc
    rcases hc with rfl | rfl | ⟨b, hb, hc⟩ | rfl
    · rfl
    · rfl
    · rcases mem_escaped hc with rfl | rfl
      · rfl
      · exact h.arguments a ha _ hb
    · rfl
  refine ⟨fun c hc ↦ ?_, .inr ⟨'\n', rfl, rfl⟩⟩
  have hmarker : ∀ c ∈ ['/', '/', '=', ' '], Text.isLineEnd c = false := by
    simp only [List.forall_mem_cons, List.not_mem_nil, false_implies, implies_true, and_true]
    decide
  obtain hc | hc := List.mem_append.1 (show c ∈ ['/', '/', '=', ' '] ++ d.writtenText from hc)
  · exact hmarker c hc
  obtain hname | hc := List.mem_append.1 hc
  · exact Text.isLineEnd_of_isWordChar (h.name c hname)
  · obtain ⟨a, ha, hc⟩ := List.mem_flatMap.1 hc
    exact harguments a ha c hc

theorem lines_written (h : ∀ d ∈ ds, d.IsWritable) : Text.lines (written ds) = ds.map writtenLine := by
  induction ds with
  | nil => rw [written, List.flatMap_nil, Text.lines]; rfl
  | cons d ds ih =>
    rw [List.forall_mem_cons] at h
    have hfeed : ¬d.writtenLine.TakesFeed (written ds) := by
      intro htakes
      simpa [writtenLine] using htakes.1
    calc
      Text.lines (written (d :: ds)) = d.writtenLine :: Text.lines (written ds) :=
        Text.lines_append (isComplete_writtenLine h.1) hfeed
      _ = (d :: ds).map writtenLine := by rw [ih h.2, List.map_cons]

/-- Each line is a comment, so all of them are the header. -/
theorem length_writtenLines (ds : List Directive) : Header.length (ds.map writtenLine) = ds.length := by
  induction ds with
  | nil => exact Header.length_nil
  | cons d ds ih =>
    have hcomment : Header.IsComment ([d.writtenLine].map Line.text) := .line rfl
    have hlength : Header.length (d.writtenLine :: ([] ++ ds.map writtenLine)) =
        0 + 1 + Header.length (ds.map writtenLine) := Header.length_comment hcomment
    rw [List.nil_append, ih] at hlength
    rw [List.map_cons, hlength, List.length_cons]
    omega

theorem areOn_writtenLines (h : ∀ d ∈ ds, d.IsWritable) (n : ℕ) :
    AreOn n (ds.map writtenLine) (ds.mapIdx fun i d ↦ { d with lineIndex := n + i }) := by
  induction ds generalizing n with
  | nil => exact .nil n
  | cons d ds ih =>
    rw [List.forall_mem_cons] at h
    have hall := AreOn.directive (isMarked_writtenLine h.1) (words_writtenText h.1) (ih h.2 (n + 1))
    have hshift : (fun i (d : Directive) ↦ { d with lineIndex := n + 1 + i }) =
        fun i d ↦ { d with lineIndex := n + (i + 1) } := by
      funext i d
      rw [Nat.add_assoc, Nat.add_comm 1]
    rw [List.map_map, hshift] at hall
    simpa [List.mapIdx_cons, Function.comp_def] using hall

end Directive

namespace ParsedSource

open Directive

/-- Directives that are written are read back with their places as line numbers, and all that is left of the
text is its line feeds. -/
theorem parse_written (source : Option Path) (ds : List Directive) (h : ∀ d ∈ ds, d.IsWritable) :
    ∃ p, parse source (written ds) = .ok p ∧
      p.directives = (ds.mapIdx fun i d ↦ { d with lineIndex := i }) ∧
      p.processedSource = List.replicate ds.length '\n' := by
  have hlines := lines_written h
  have hlength : Header.length (Text.lines (written ds)) = (ds.map writtenLine).length := by
    rw [hlines, length_writtenLines, List.length_map]
  have hds : ofLines source 0 ((Text.lines (written ds)).take (Header.length (Text.lines (written ds)))) =
      .ok (ds.mapIdx fun i d ↦ { d with lineIndex := i }) := by
    rw [hlength, hlines, List.take_length, ofLines_eq_ok_iff]
    simpa using areOn_writtenLines h 0
  refine ⟨_, parse_of_ofLines hds, rfl, ?_⟩
  have hstrip : ds.map ((fun l ↦ (strip l).full) ∘ writtenLine) = ds.map fun _ ↦ ['\n'] := by
    refine List.map_congr_left fun d hd ↦ ?_
    rw [Function.comp_apply, strip, if_pos (isOn_writtenLine (h d hd))]
    rfl
  have hbody : (Header.split (written ds)).2 = [] := by
    rw [Header.split, hlength, hlines, List.drop_length]
    rfl
  rw [processedSource_eq (parse_of_ofLines hds), hlength, hlines, List.take_length, hbody, List.append_nil,
    List.map_map, hstrip, List.map_const', List.flatten_replicate_singleton]

/-- An empty argument, a blank, a quote, a block closer and a backslash. -/
def notes : List Directive := [⟨5, "require", ["", "a b"]⟩, ⟨0, "stop", []⟩, ⟨3, "note", ["\"*/\\"]⟩]

theorem parse_written_notes : ∃ p,
    parse none "//= require \"\" \"a b\"\n//= stop\n//= note \"\\\"*/\\\\\"\n".toList = .ok p ∧
      p.directives = [⟨0, "require", ["", "a b"]⟩, ⟨1, "stop", []⟩, ⟨2, "note", ["\"*/\\"]⟩] ∧
      p.processedSource = ['\n', '\n', '\n'] := by
  have hwritable : ∀ d ∈ notes, d.IsWritable := by decide +kernel
  have htext : "//= require \"\" \"a b\"\n//= stop\n//= note \"\\\"*/\\\\\"\n".toList = written notes := by
    decide +kernel
  rw [htext]
  exact parse_written none notes hwritable

end ParsedSource

end AssetBundler
