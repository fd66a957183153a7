import AssetBundler.Proofs.Directive.Parsing

/-!
# Words read one character at a time

A reader of words looks at each character once and keeps what it needs of the text before in one of five
modes. Main statement: the words of a text are those that the reader has when the text ends, and there are
none exactly if it ends inside quotes (`Directive.words_exact`).
-/

namespace AssetBundler.Directive

namespace Reader

/-- What the next character belongs to. -/
inductive Mode where
  | between
  | plain
  | singleQuotes
  | doubleQuotes
  | escaped (inQuotes : Bool)
  deriving DecidableEq, Repr

end Reader

/-- A reader between two characters, with the word that it is reading and the words before. -/
structure Reader where
  mode : Reader.Mode
  word : List Char
  words : List (List Char)
  deriving DecidableEq, Repr

namespace Reader

def start : Reader := ⟨.between, [], []⟩

/-- Ends the word, if one has begun. -/
def close (r : Reader) : Reader :=
  match r.mode with
  | .between => r
  | _ => ⟨.between, [], r.words ++ [r.word]⟩

def step (r : Reader) (c : Char) : Reader :=
  match r.mode with
  | .between | .plain =>
    if Text.isBlank c then r.close
    else if c = '\'' then { r with mode := .singleQuotes }
    else if c = '"' then { r with mode := .doubleQuotes }
    else if c = '\\' then { r with mode := .escaped false }
    else { r with mode := .plain, word := r.word ++ [c] }
  | .singleQuotes =>
    if c = '\'' then { r with mode := .plain } else { r with word := r.word ++ [c] }
  | .doubleQuotes =>
    if c = '"' then { r with mode := .plain }
    else if c = '\\' then { r with mode := .escaped true }
    else { r with word := r.word ++ [c] }
  | .escaped inQuotes =>
    { r with mode := if inQuotes then .doubleQuotes else .plain, word := r.word ++ [c] }

def read (r : Reader) (cs : List Char) : Reader := cs.foldl step r

def IsInQuotes (r : Reader) : Prop :=
  r.mode = .singleQuotes ∨ r.mode = .doubleQuotes ∨ r.mode = .escaped true

instance (r : Reader) : Decidable r.IsInQuotes :=
  inferInstanceAs (Decidable (r.mode = .singleQuotes ∨ r.mode = .doubleQuotes ∨ r.mode = .escaped true))

/-- The words at the end of a text; a backslash without a character after it stands for itself. -/
def finish (r : Reader) : Option (List (List Char)) :=
  match r.mode with
  | .between => some r.words
  | .plain => some (r.words ++ [r.word])
  | .escaped false => some (r.words ++ [r.word ++ ['\\']])
  | .singleQuotes | .doubleQuotes | .escaped true => none

theorem finish_eq_none_iff (r : Reader) : r.finish = none ↔ r.IsInQuotes := by
  obtain ⟨mode, word, words⟩ := r
  unfold finish IsInQuotes
  rcases mode with _ | _ | _ | _ | _ | _ <;> simp

variable {cs piece rest : List Char} {word : List Char} {words : List (List Char)}

theorem read_cons (r : Reader) (c : Char) (cs : List Char) : r.read (c :: cs) = (r.step c).read cs := rfl

theorem read_of_singleQuoted (h : singleQuoted cs = some (piece, rest)) (word : List Char) :
    read ⟨.singleQuotes, word, words⟩ cs = read ⟨.plain, word ++ piece, words⟩ rest := by
  induction cs generalizing piece word with
  | nil => cases h
  | cons c cs ih =>
    rw [read_cons]
    by_cases hc : c = '\''
    · simp only [singleQuoted, hc, if_true, Option.some.injEq, Prod.mk.injEq] at h
      obtain ⟨rfl, rfl⟩ := h
      simp [step, hc]
    · simp only [singleQuoted, hc, if_false, Option.map_eq_some_iff, Prod.mk.injEq] at h
      obtain ⟨⟨piece, rest⟩, hquoted, rfl, rfl⟩ := h
      simp only [step, hc, if_false]
      rw [ih hquoted, List.append_assoc, List.singleton_append]

theorem mode_read_of_singleQuoted (h : singleQuoted cs = none) (word : List Char) :
    (read ⟨.singleQuotes, word, words⟩ cs).mode = .singleQuotes := by
  induction cs generalizing word with
  | nil => rfl
  | cons c cs ih =>
    have hc : c ≠ '\'' := by
      rintro rfl
      simp [singleQuoted] at h
    simp only [singleQuoted, hc, if_false, Option.map_eq_none_iff] at h
    rw [read_cons]
    simp only [step, hc, if_false]
    exact ih h _

theorem read_of_doubleQuoted (h : doubleQuoted cs = some (piece, rest)) (word : List Char) :
    read ⟨.doubleQuotes, word, words⟩ cs = read ⟨.plain, word ++ piece, words⟩ rest := by
  fun_induction doubleQuoted cs generalizing piece word with
  | case1 => cases h
  | case2 cs =>
    cases h
    simp [read_cons, step]
  | case3 c cs ih =>
    obtain ⟨⟨piece, rest⟩, hquoted, heq⟩ := Option.map_eq_some_iff.1 h
    cases heq
    rw [read_cons, read_cons]
    simp only [step]
    simp [ih hquoted]
  | case4 c cs hquote hpair ih =>
    obtain ⟨⟨piece, rest⟩, hquoted, heq⟩ := Option.map_eq_some_iff.1 h
    cases heq
    have hslash : c ≠ '\\' := by
      rintro rfl
      cases cs with
      | nil => cases hquoted
      | cons d cs => exact hpair d cs rfl rfl
    rw [read_cons]
    simp only [step, hslash, if_false, if_neg hquote]
    simp [ih hquoted]

theorem isInQuotes_read_of_doubleQuoted (h : doubleQuoted cs = none) (word : List Char) :
    (read ⟨.doubleQuotes, word, words⟩ cs).IsInQuotes := by
  fun_induction doubleQuoted cs generalizing word with
  | case1 => exact .inr (.inl rfl)
  | case2 cs => cases h
  | case3 c cs ih =>
    rw [read_cons, read_cons]
    exact ih (Option.map_eq_none_iff.1 h) _
  | case4 c cs hquote hpair ih =>
    rw [read_cons]
    by_cases hslash : c = '\\'
    · -- a backslash that no character comes after
      subst hslash
      cases cs with
      | nil => exact .inr (.inr rfl)
      | cons d cs => exact absurd rfl (hpair d cs rfl)
    · simp only [step, hslash, if_false, if_neg hquote]
      exact ih (Option.map_eq_none_iff.1 h) _

/-- A reader outside quotes, with the beginning of a word if one has begun. -/
def outside (current : Option (List Char)) (words : List (List Char)) : Reader :=
  match current with
  | none => ⟨.between, [], words⟩
  | some word => ⟨.plain, word, words⟩

theorem step_outside (current : Option (List Char)) (words : List (List Char)) (c : Char) :
    (outside current words).step c =
      if Text.isBlank c then outside none (words ++ current.toList)
      else if c = '\'' then ⟨.singleQuotes, current.getD [], words⟩
      else if c = '"' then ⟨.doubleQuotes, current.getD [], words⟩
      else if c = '\\' then ⟨.escaped false, current.getD [], words⟩
      else outside (some (current.getD [] ++ [c])) words := by
  cases current with
  | none => simp [step, outside, close]
  | some word => simp [step, outside, close]

/-- From outside quotes the reader ends with the words of the text behind those that it has. -/
theorem finish_read_outside (current : Option (List Char)) (cs : List Char)
    (words : List (List Char)) :
    ((outside current words).read cs).finish = (wordsAfter current cs).map (words ++ ·) := by
  fun_induction wordsAfter current cs generalizing words with
  | case1 current => cases current <;> simp [read, outside, finish]
  | case2 current c cs hblank ih =>
    rw [read_cons, step_outside, if_pos hblank, ih, Option.map_map]
    simp [Function.comp_def]
  | case3 current cs hnone hblank =>
    rw [read_cons, step_outside, if_neg hblank, if_pos rfl, Option.map_none, finish_eq_none_iff]
    exact .inl (mode_read_of_singleQuoted hnone _)
  | case4 current cs _ piece rest hpiece hblank ih =>
    rw [read_cons, step_outside, if_neg hblank, if_pos rfl, read_of_singleQuoted hpiece]
    exact ih words
  | case5 current cs hnone hblank hsingle =>
    rw [read_cons, step_outside, if_neg hblank, if_neg hsingle, if_pos rfl, Option.map_none,
      finish_eq_none_iff]
    exact isInQuotes_read_of_doubleQuoted hnone _
  | case6 current cs _ piece rest hpiece hblank hsingle ih =>
    rw [read_cons, step_outside, if_neg hblank, if_neg hsingle, if_pos rfl, read_of_doubleQuoted hpiece]
    exact ih words
  | case7 current _ hblank hsingle hdouble =>
    rw [read_cons, step_outside, if_neg hblank, if_neg hsingle, if_neg hdouble, if_pos rfl]
    rfl
  | case8 current _ c cs hblank hsingle hdouble ih =>
    rw [read_cons, step_outside, if_neg hblank, if_neg hsingle, if_neg hdouble, if_pos rfl]
    exact ih words
  | case9 current c cs _ hblank hsingle hdouble hslash ih =>
    rw [read_cons, step_outside, if_neg hblank, if_neg hsingle, if_neg hdouble, if_neg hslash]
    exact ih words

end Reader

theorem words_eq_finish (text : List Char) : words text = (Reader.start.read text).finish := by
  have hread := Reader.finish_read_outside none text []
  simpa [Reader.outside, Reader.start, words] using hread.symm

theorem words_eq_none_iff (text : List Char) :
    words text = none ↔ (Reader.start.read text).IsInQuotes := by
  rw [words_eq_finish, Reader.finish_eq_none_iff]

/-- A directive line fails only for its quotes, and the failure names its text and its place. -/
theorem ofLine_eq_error_iff {source : Option Path} {lineIndex : Nat} {line text : List Char} {e : Failure}
    (h : argumentText? line = some text) :
    ofLine source lineIndex line = .error e ↔ words text = none ∧
      e = .malformedArguments (String.ofList text) source .unmatchedQuote (some lineIndex) := by
  rw [ofLine, h]
  cases hwords : words text with
  | none => simp [hwords, eq_comm]
  | some ws => cases ws <;> simp [hwords]

/-- The words of a text are those of the reader, which has them unless the text ends inside quotes; a line
with such a text fails. -/
theorem words_exact (text : List Char) :
    words text = (Reader.start.read text).finish ∧
      (words text = none ↔ (Reader.start.read text).IsInQuotes) ∧
      ∀ (source : Option Path) (lineIndex : Nat) (line : List Char) (e : Failure),
        argumentText? line = some text →
          (ofLine source lineIndex line = .error e ↔ (Reader.start.read text).IsInQuotes ∧
            e = .malformedArguments (String.ofList text) source .unmatchedQuote (some lineIndex)) := by
  refine ⟨words_eq_finish text, words_eq_none_iff text, fun source lineIndex line e h ↦ ?_⟩
  rw [ofLine_eq_error_iff h, words_eq_none_iff]

/-- A backslash before the last quote leaves the quotes open. -/
theorem words_exact_open_quotes :
    ofLine none 3 "//= require \"a\\\"".toList =
      .error (.malformedArguments "require \"a\\\"" none .unmatchedQuote (some 3)) := by
  have htext : argumentText? "//= require \"a\\\"".toList = some "require \"a\\\"".toList := by
    decide +kernel
  have hopen : (Reader.start.read "require \"a\\\"".toList).IsInQuotes := by decide +kernel
  exact ((words_exact _).2.2 none 3 _ _ htext).2 ⟨hopen, by rw [String.ofList_toList]; rfl⟩

/-- Pieces without a blank between them are one word, empty quotes are a word of their own, and a backslash
at the end stands for itself. -/
example : words "a'b c'\"d\\\"\" \"\" e\\".toList =
    some ["ab cd\"".toList, [], "e\\".toList] := by
  decide +kernel

end AssetBundler.Directive
