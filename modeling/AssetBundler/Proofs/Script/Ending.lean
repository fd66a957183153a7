import AssetBundler.Script.Terminator
import AssetBundler.Text.Split
import Mathlib.Data.List.Induction
import Mathlib.Data.List.TakeWhile

/-!
# Where the code of a script ends

Scripts are put one after another, so a line of the text can begin in one of them and end in another
one. The code of a line is what stands before its first two slashes; what of it belongs to a script is
told by marks on the characters. A script that is terminated looks at its last character, be it code or
not. Main statement: in a text the last code of a terminated script ends in a semicolon exactly if it
does so without being terminated, or if a semicolon is appended outside of comments
(`endsStatement_terminate`).
-/

namespace AssetBundler.Script

/-- Two slashes open a comment up to the end of the line. -/
def opensComment (c : Char) (next : Option Char) : Bool := c == '/' && next == some '/'

/-- The code of a line, whose characters are marked. -/
def lineCode : List (Char × Bool) → List (Char × Bool)
  | [] => []
  | m :: ms => if opensComment m.1 (ms.head?.map Prod.fst) then [] else m :: lineCode ms

def ownCode (line : List (Char × Bool)) : List Char := ((lineCode line).filter Prod.snd).map Prod.fst

def mark (own : Bool) (cs : List Char) : List (Char × Bool) := cs.map fun c ↦ (c, own)

/-- If a piece of a text has code there, the last of its lines with code ends in a semicolon. -/
def EndsStatement (isBreak : Char → Bool) (before piece after : List Char) : Prop :=
  let lines := (mark false before ++ mark true piece ++ mark false after).splitOnP fun m ↦ isBreak m.1
  ∀ line, ((lines.map ownCode).filter fun line ↦ !Text.isBlankText line).getLast? = some line →
    (Text.trimRight line).getLast? = some ';'

/-- Whether a character is in a comment, depending on the one before it. -/
def isInComment (isBreak : Char → Bool) (inComment : Bool) (c : Char) (next : Option Char) : Bool :=
  !isBreak c && (inComment || opensComment c next)

/-- The characters that are marked, not blank and not in a comment. -/
def code (isBreak : Char → Bool) : Bool → List (Char × Bool) → List Char
  | _, [] => []
  | inComment, m :: ms =>
    let here := isInComment isBreak inComment m.1 (ms.head?.map Prod.fst)
    if m.2 && !here && !Text.isBlank m.1 then m.1 :: code isBreak here ms else code isBreak here ms

/-- Whether a comment is open after a text. -/
def endsInComment (isBreak : Char → Bool) : Bool → List Char → Bool
  | inComment, [] => inComment
  | inComment, c :: cs =>
    endsInComment isBreak (isInComment isBreak inComment c cs.head?) cs

/-- The last code of a script is a semicolon, or it gets one that is not in a comment. -/
def Terminates (isBreak : Char → Bool) (inComment : Bool) (cs : List Char) : Prop :=
  (∀ c, (code isBreak inComment (mark true cs)).getLast? = some c → c = ';') ∨
    (isTerminated cs = false ∧ endsInComment isBreak inComment cs = false)

instance (isBreak : Char → Bool) (inComment : Bool) (cs : List Char) :
    Decidable (Terminates isBreak inComment cs) :=
  haveI : Decidable (∀ c, (code isBreak inComment (mark true cs)).getLast? = some c → c = ';') :=
    decidable_of_iff ((code isBreak inComment (mark true cs)).getLast?.all (· == ';') = true) <| by
      cases (code isBreak inComment (mark true cs)).getLast? <;> simp
  inferInstanceAs (Decidable (_ ∨ _))

section Blanks

/-- What is left of a text without its blanks. -/
def ink (cs : List Char) : List Char := cs.filter (!Text.isBlank ·)

theorem ink_eq_nil {cs : List Char} : ink cs = [] ↔ Text.isBlankText cs = true := by
  simp [ink, Text.isBlankText, List.filter_eq_nil_iff]

theorem getLast?_trimRight (cs : List Char) : (Text.trimRight cs).getLast? = (ink cs).getLast? := by
  unfold Text.trimRight Text.dropEndWhile ink
  rw [List.getLast?_reverse, List.getLast?_filter, List.find?_not_eq_head?_dropWhile]

/-- The end of the last line that is not blank is the end of all that is not blank. -/
theorem forall_getLast?_iff (lines : List (List Char)) (x : Char) :
    (∀ line, (lines.filter fun line ↦ !Text.isBlankText line).getLast? = some line →
      (Text.trimRight line).getLast? = some x) ↔
    ∀ c, (lines.map ink).flatten.getLast? = some c → c = x := by
  induction lines using List.reverseRecOn with
  | nil => simp
  | append_singleton lines l ih =>
    rw [List.filter_append, List.map_append, List.flatten_append]
    cases hl : Text.isBlankText l with
    | true => simpa [hl, ink_eq_nil.2 hl] using ih
    | false =>
      have hne : ink l ≠ [] := by
        rw [ne_eq, ink_eq_nil, hl]
        exact Bool.false_ne_true
      simp [hl, getLast?_trimRight, List.getLast?_append, List.getLast?_eq_some_getLast hne]

end Blanks

section Passes

variable {isBreak : Char → Bool}

theorem opensComment_blank {d : Char} (h : Text.isBlank d = true) (c : Char) :
    opensComment c (some d) = false := by
  have hd : d ≠ '/' := by
    rintro rfl
    exact absurd h (by decide)
  simp [opensComment, hd]

@[simp] theorem ownCode_nil : ownCode [] = [] := rfl

theorem ownCode_cons (m : Char × Bool) (line : List (Char × Bool)) :
    ownCode (m :: line) =
      if opensComment m.1 (line.head?.map Prod.fst) then []
      else if m.2 then m.1 :: ownCode line else ownCode line := by
  unfold ownCode
  rw [lineCode]
  split
  · rfl
  · cases hm : m.2 <;> simp [hm]

/-- One pass finds the code of all lines; if a comment is open, that of the first line is left out. -/
theorem code_eq_of_splitOnP (hblank : ∀ c, isBreak c = true → Text.isBlank c = true)
    (inComment : Bool) (ms : List (Char × Bool)) :
    ∃ line lines, ms.splitOnP (fun m ↦ isBreak m.1) = line :: lines ∧
      (∀ c, opensComment c (line.head?.map Prod.fst) = opensComment c (ms.head?.map Prod.fst)) ∧
      code isBreak inComment ms =
        (if inComment then [] else ink (ownCode line)) ++ (lines.map (ink ∘ ownCode)).flatten := by
  induction ms generalizing inComment with
  | nil => exact ⟨[], [], List.splitOnP_nil, fun _ ↦ rfl, by cases inComment <;> rfl⟩
  | cons m ms ih =>
    rw [List.splitOnP_cons_eq_if_modifyHead]
    cases hm : isBreak m.1 with
    | true =>
      obtain ⟨line, lines, hsplit, -, hcode⟩ := ih false
      refine ⟨[], line :: lines, by rw [if_pos rfl, hsplit], fun c ↦ ?_, ?_⟩
      · exact (opensComment_blank (hblank _ hm) c).symm ▸ by simp [opensComment]
      · cases inComment <;> simpa [code, isInComment, hm, hblank _ hm, ink] using hcode
    | false =>
      obtain ⟨line, lines, hsplit, hopens, hcode⟩ :=
        ih (isInComment isBreak inComment m.1 (ms.head?.map Prod.fst))
      refine ⟨m :: line, lines, by rw [hsplit]; rfl, fun _ ↦ rfl, ?_⟩
      rw [code, hcode, ownCode_cons, hopens]
      simp only [isInComment, hm]
      cases inComment <;> cases opensComment m.1 (ms.head?.map Prod.fst) <;> cases m.2 <;>
        cases hblank : Text.isBlank m.1 <;> simp [ink, hblank]

theorem endsStatement_iff_code (hblank : ∀ c, isBreak c = true → Text.isBlank c = true)
    (before piece after : List Char) :
    EndsStatement isBreak before piece after ↔
      ∀ c, (code isBreak false (mark false before ++ mark true piece ++
        mark false after)).getLast? = some c → c = ';' := by
  obtain ⟨line, lines, hsplit, -, hcode⟩ := code_eq_of_splitOnP hblank false
    (mark false before ++ mark true piece ++ mark false after)
  unfold EndsStatement
  rw [forall_getLast?_iff, hsplit, hcode, List.map_map]
  rfl

/-- Two slashes that meet where texts are joined. -/
def SlashesMeet (cs ds : List Char) : Prop := cs.getLast? = some '/' ∧ ds.head? = some '/'

/-- What follows a text opens no comment in it. -/
theorem isInComment_append (inComment : Bool) {c : Char} {cs ds : List Char}
    (h : ¬SlashesMeet (c :: cs) ds) :
    isInComment isBreak inComment c (cs ++ ds).head? = isInComment isBreak inComment c cs.head? := by
  cases cs with
  | nil =>
    have hopens : opensComment c ds.head? = false := by
      simpa [opensComment, SlashesMeet] using h
    have hnone : opensComment c none = false := by simp [opensComment]
    simp [isInComment, hopens, hnone]
  | cons d cs => rfl

theorem SlashesMeet.of_tail {c : Char} {cs ds : List Char} (h : SlashesMeet cs ds) :
    SlashesMeet (c :: cs) ds := by
  refine ⟨?_, h.2⟩
  rw [List.getLast?_cons, h.1]
  rfl

theorem map_fst_mark (own : Bool) (cs : List Char) : (mark own cs).map Prod.fst = cs := by
  unfold mark
  rw [List.map_map]
  exact List.map_id cs

theorem code_append (inComment : Bool) (own : Bool) {cs : List Char} {ms : List (Char × Bool)}
    (h : ¬SlashesMeet cs (ms.map Prod.fst)) :
    code isBreak inComment (mark own cs ++ ms) =
      code isBreak inComment (mark own cs) ++ code isBreak (endsInComment isBreak inComment cs) ms := by
  induction cs generalizing inComment with
  | nil => rfl
  | cons c cs ih =>
    have hnext : isInComment isBreak inComment c (cs ++ ms.map Prod.fst).head? =
        isInComment isBreak inComment c cs.head? := isInComment_append inComment h
    have hrest := ih (isInComment isBreak inComment c cs.head?) fun hmeet ↦ h hmeet.of_tail
    have hhead : (mark own cs ++ ms).head?.map Prod.fst = (cs ++ ms.map Prod.fst).head? := by
      rw [← List.head?_map, List.map_append, map_fst_mark]
    have hown : (mark own cs).head?.map Prod.fst = cs.head? := by
      rw [← List.head?_map, map_fst_mark]
    change code isBreak inComment ((c, own) :: (mark own cs ++ ms)) =
      code isBreak inComment ((c, own) :: mark own cs) ++ _
    rw [code, code, hhead, hown, hnext, hrest]
    dsimp only
    split <;> rfl

theorem endsInComment_append (inComment : Bool) {cs ds : List Char} (h : ¬SlashesMeet cs ds) :
    endsInComment isBreak inComment (cs ++ ds) =
      endsInComment isBreak (endsInComment isBreak inComment cs) ds := by
  induction cs generalizing inComment with
  | nil => rfl
  | cons c cs ih =>
    rw [List.cons_append, endsInComment, isInComment_append inComment h,
      ih _ fun hmeet ↦ h hmeet.of_tail]
    rfl

theorem code_mark_false (inComment : Bool) (cs : List Char) :
    code isBreak inComment (mark false cs) = [] := by
  induction cs generalizing inComment with
  | nil => rfl
  | cons c cs ih => exact ih _

/-- A line break closes a comment. -/
theorem endsInComment_break (inComment : Bool) {c : Char} (hc : isBreak c = true)
    (hblank : Text.isBlank c = true) (cs : List Char) :
    endsInComment isBreak inComment (cs ++ [c]) = false := by
  have hmeet : ¬SlashesMeet cs [c] := by
    rintro ⟨-, hslash⟩
    rw [Option.some.inj hslash] at hblank
    exact absurd hblank (by decide)
  rw [endsInComment_append inComment hmeet]
  simp [endsInComment, isInComment, hc]

end Passes

section Terminated

variable {isBreak : Char → Bool} {cs : List Char}

theorem isTerminated_eq (cs : List Char) : isTerminated cs = (ink cs).getLast?.all (· == ';') := by
  unfold isTerminated
  rw [getLast?_trimRight]
  cases (ink cs).getLast? <;> rfl

theorem getLast?_terminate_ne (cs : List Char) : (terminate cs).getLast? ≠ some '/' := by
  unfold terminate
  cases h : isTerminated cs with
  | true =>
    rintro hslash
    obtain ⟨front, rfl⟩ := List.getLast?_eq_some_iff.1 hslash
    have hink : (ink (front ++ ['/'])).getLast? = some '/' := by
      have hone : ink ['/'] = ['/'] := by decide
      unfold ink at hone ⊢
      rw [List.filter_append, hone, List.getLast?_concat]
    rw [isTerminated_eq, hink] at h
    exact absurd h (by decide)
  | false =>
    rw [if_neg Bool.false_ne_true, List.getLast?_append]
    exact fun hslash ↦ absurd (Option.some.inj hslash) (by decide)

/-- The code of a terminated script. -/
theorem code_terminate (hblank : ∀ c, isBreak c = true → Text.isBlank c = true) (inComment : Bool)
    (cs : List Char) :
    code isBreak inComment (mark true (terminate cs)) = code isBreak inComment (mark true cs) ++
      if isTerminated cs || endsInComment isBreak inComment cs then [] else [';'] := by
  unfold terminate
  cases h : isTerminated cs with
  | true => simp
  | false =>
    have hmeet : ¬SlashesMeet cs ((mark true [';', '\n']).map Prod.fst) := by
      rintro ⟨-, hslash⟩
      exact absurd hslash (by decide)
    have hbreak : isBreak ';' = false := by
      by_contra hbreak
      exact absurd (hblank ';' (by simpa using hbreak)) (by decide)
    have hlast : code isBreak (endsInComment isBreak inComment cs) (mark true [';', '\n']) =
        if endsInComment isBreak inComment cs then [] else [';'] := by
      have hcolon : Text.isBlank ';' = false := by decide
      have hfeed : Text.isBlank '\n' = true := by decide
      cases endsInComment isBreak inComment cs <;>
        simp [mark, code, isInComment, opensComment, hbreak, hcolon, hfeed]
    have hmark : mark true (cs ++ [';', '\n']) = mark true cs ++ mark true [';', '\n'] :=
      List.map_append
    rw [if_neg Bool.false_ne_true, hmark, code_append inComment true hmeet, hlast, Bool.false_or]

theorem endsInComment_terminate (hfeed : isBreak '\n' = true) (inComment : Bool) (cs : List Char) :
    endsInComment isBreak inComment (terminate cs) =
      (isTerminated cs && endsInComment isBreak inComment cs) := by
  unfold terminate
  cases h : isTerminated cs with
  | true => rfl
  | false =>
    have happend : cs ++ [';', '\n'] = (cs ++ [';']) ++ ['\n'] := by simp
    rw [if_neg Bool.false_ne_true, happend, endsInComment_break inComment hfeed (by decide)]
    rfl

/-- A terminated script ends in a semicolon in a text exactly if its last code is one, or if the one
that is appended is not in a comment. -/
theorem endsStatement_terminate (hblank : ∀ c, isBreak c = true → Text.isBlank c = true)
    {before : List Char} (hbefore : before.getLast? ≠ some '/') (cs after : List Char) :
    EndsStatement isBreak before (terminate cs) after ↔
      Terminates isBreak (endsInComment isBreak false before) cs := by
  have hown : code isBreak false (mark false before ++ mark true (terminate cs) ++ mark false after) =
      code isBreak (endsInComment isBreak false before) (mark true (terminate cs)) := by
    rw [List.append_assoc, code_append false false fun hmeet ↦ hbefore hmeet.1, code_mark_false,
      code_append _ true fun hmeet ↦ getLast?_terminate_ne cs hmeet.1, code_mark_false,
      List.append_nil, List.nil_append]
  rw [endsStatement_iff_code hblank, hown, code_terminate hblank, Terminates]
  cases isTerminated cs <;> cases endsInComment isBreak (endsInComment isBreak false before) cs <;>
    simp

end Terminated

end AssetBundler.Script
