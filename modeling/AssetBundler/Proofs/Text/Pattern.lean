import AssetBundler.Text.Blank
import Mathlib.Data.List.Infix

/-!
# Patterns

A pattern is matched at the start of a text. Its outcomes are listed in the order in which a matcher that
goes back after a failure tries them: how many characters a part takes is chosen anew, from the preferred
end, only if nothing matches after it. The match is the first outcome. Main statements: the match of a
sequence by its first part (`head?_one_seq_cons`, `head?_greedy_seq_cons`, `head?_optional_seq`), and that a
search among the ends of a text finds the longest one that gives something (`findSome?_tails`).
-/

namespace AssetBundler.Text

inductive Pattern where
  /-- One character of a class. -/
  | one (p : Char → Bool)
  /-- Characters of a class, as many as possible. -/
  | greedy (p : Char → Bool)
  /-- Characters of a class, as few as possible. -/
  | reluctant (p : Char → Bool)
  /-- A part that is taken if possible. -/
  | optional (part : Pattern)
  /-- A part whose text is kept. -/
  | kept (part : Pattern)
  /-- Nothing, at the end of the text or before the line feed that ends it. -/
  | ending
  | seq (first next : Pattern)

namespace Pattern

/-- The text that was kept on the way, and what is left over. -/
structure Outcome where
  kept : Option (List Char)
  rest : List Char
  deriving DecidableEq

/-- What runs of characters leave over, the longest run first. -/
def runs (p : Char → Bool) : List Char → List (List Char)
  | [] => [[]]
  | c :: cs => (if p c then runs p cs else []) ++ [c :: cs]

def outcomes : Pattern → List Char → List Outcome
  | .one _, [] => []
  | .one p, c :: cs => if p c then [⟨none, cs⟩] else []
  | .greedy p, cs => (runs p cs).map (⟨none, ·⟩)
  | .reluctant p, cs => (runs p cs).reverse.map (⟨none, ·⟩)
  | .optional part, cs => part.outcomes cs ++ [⟨none, cs⟩]
  | .kept part, cs =>
    (part.outcomes cs).map fun m ↦ ⟨some (cs.take (cs.length - m.rest.length)), m.rest⟩
  | .ending, cs => if cs = [] ∨ cs = ['\n'] then [⟨none, cs⟩] else []
  | .seq first next, cs =>
    (first.outcomes cs).flatMap fun m ↦
      (next.outcomes m.rest).map fun n ↦ ⟨n.kept.or m.kept, n.rest⟩

section Outcomes

variable (p : Char → Bool) (c : Char) (cs : List Char) (part first next : Pattern)

theorem runs_nil : runs p [] = [[]] := rfl

theorem runs_cons : runs p (c :: cs) = (if p c then runs p cs else []) ++ [c :: cs] := rfl

@[simp] theorem outcomes_one_nil : (one p).outcomes [] = [] := rfl

@[simp] theorem outcomes_one_cons : (one p).outcomes (c :: cs) = if p c then [⟨none, cs⟩] else [] := rfl

@[simp] theorem outcomes_greedy : (greedy p).outcomes cs = (runs p cs).map (⟨none, ·⟩) := rfl

@[simp] theorem outcomes_reluctant : (reluctant p).outcomes cs = (runs p cs).reverse.map (⟨none, ·⟩) := rfl

@[simp] theorem outcomes_optional : (optional part).outcomes cs = part.outcomes cs ++ [⟨none, cs⟩] := rfl

@[simp] theorem outcomes_kept : (kept part).outcomes cs =
    (part.outcomes cs).map fun m ↦ ⟨some (cs.take (cs.length - m.rest.length)), m.rest⟩ := rfl

@[simp] theorem outcomes_ending : ending.outcomes cs = if cs = [] ∨ cs = ['\n'] then [⟨none, cs⟩] else [] := rfl

theorem outcomes_seq : (seq first next).outcomes cs = (first.outcomes cs).flatMap fun m ↦
    (next.outcomes m.rest).map fun n ↦ ⟨n.kept.or m.kept, n.rest⟩ := rfl

end Outcomes

/-- What the outcomes leave over. -/
def rests (p : Pattern) (cs : List Char) : List (List Char) := (p.outcomes cs).map Outcome.rest

/-- The text that the match keeps. -/
def keptText? (p : Pattern) (cs : List Char) : Option (List Char) :=
  (p.outcomes cs).head?.bind Outcome.kept

/-- The match of a sequence is that of its second part after the first outcome of its first part that
leaves one. -/
theorem head?_seq (first next : Pattern) (cs : List Char) :
    ((seq first next).outcomes cs).head? = (first.outcomes cs).findSome? fun m ↦
      (next.outcomes m.rest).head?.map fun n ↦ ⟨n.kept.or m.kept, n.rest⟩ := by
  rw [outcomes_seq, List.head?_flatMap]
  simp only [List.head?_map]

theorem outcomes_seq_assoc (first next last : Pattern) (cs : List Char) :
    (seq (seq first next) last).outcomes cs = (seq first (seq next last)).outcomes cs := by
  simp only [outcomes_seq, List.flatMap_assoc, List.flatMap_map, List.map_flatMap, List.map_map,
    Function.comp_def, Option.or_assoc]

theorem head?_one_seq_nil (p : Char → Bool) (next : Pattern) :
    ((seq (one p) next).outcomes []).head? = none := rfl

theorem head?_one_seq_cons (p : Char → Bool) (next : Pattern) (c : Char) (cs : List Char) :
    ((seq (one p) next).outcomes (c :: cs)).head? =
      if p c then (next.outcomes cs).head? else none := by
  rw [head?_seq, outcomes_one_cons]
  cases p c with
  | true => simp
  | false => rfl

theorem head?_greedy_seq_nil (p : Char → Bool) (next : Pattern) :
    ((seq (greedy p) next).outcomes []).head? = (next.outcomes []).head? := by
  rw [head?_seq, outcomes_greedy, runs_nil]
  simp

/-- A run goes on if it can, and ends where it is only if nothing matches after a longer one. -/
theorem head?_greedy_seq_cons (p : Char → Bool) (next : Pattern) (c : Char) (cs : List Char) :
    ((seq (greedy p) next).outcomes (c :: cs)).head? =
      if p c then ((seq (greedy p) next).outcomes cs).head?.or (next.outcomes (c :: cs)).head?
      else (next.outcomes (c :: cs)).head? := by
  rw [head?_seq, head?_seq, outcomes_greedy, outcomes_greedy, runs_cons]
  cases p c <;> simp [List.findSome?_append]

theorem head?_optional_seq (part next : Pattern) (cs : List Char) :
    ((seq (optional part) next).outcomes cs).head? =
      ((seq part next).outcomes cs).head?.or (next.outcomes cs).head? := by
  rw [head?_seq, head?_seq, outcomes_optional]
  simp [List.findSome?_append]

theorem head?_kept_seq (part next : Pattern) (cs : List Char) :
    ((seq (kept part) next).outcomes cs).head? = (part.rests cs).findSome? fun rest ↦
      (next.outcomes rest).head?.map fun n ↦
        ⟨n.kept.or (some (cs.take (cs.length - rest.length))), n.rest⟩ := by
  rw [head?_seq, outcomes_kept, List.findSome?_map, rests, List.findSome?_map]
  rfl

theorem rests_seq (first next : Pattern) (cs : List Char) :
    (seq first next).rests cs = (first.rests cs).flatMap next.rests := by
  simp only [rests, outcomes_seq, List.map_flatMap, List.flatMap_map, List.map_map, Function.comp_def]

theorem rests_greedy (p : Char → Bool) (cs : List Char) : (greedy p).rests cs = runs p cs := by
  simp [rests, Function.comp_def]

theorem rests_reluctant (p : Char → Bool) (cs : List Char) :
    (reluctant p).rests cs = (runs p cs).reverse := by
  simp [rests, Function.comp_def]

/-- The longest run comes first. -/
theorem exists_runs_eq (p : Char → Bool) (cs : List Char) :
    ∃ others, runs p cs = cs.dropWhile p :: others := by
  induction cs with
  | nil => exact ⟨[], rfl⟩
  | cons c cs ih =>
    obtain ⟨others, hothers⟩ := ih
    rw [runs_cons, hothers]
    cases hc : p c with
    | true => exact ⟨others ++ [c :: cs], by simp [hc]⟩
    | false => exact ⟨[], by simp [hc]⟩

/-- The shortest run of any characters leaves the whole text over, the longest nothing. -/
theorem reverse_runs {p : Char → Bool} {cs : List Char} (h : ∀ c ∈ cs, p c = true) :
    (runs p cs).reverse = cs.tails := by
  induction cs with
  | nil => rfl
  | cons c cs ih =>
    rw [List.forall_mem_cons] at h
    rw [runs_cons, if_pos h.1, List.reverse_append, ih h.2]
    rfl

/-- Among the ends of a text a search finds the longest one that gives something. -/
theorem findSome?_tails {α β : Type} {f : List α → Option β} {t cs : List α} (ht : t <:+ cs)
    (hsome : (f t).isSome) (hlongest : ∀ u, u <:+ cs → (f u).isSome → u <:+ t) :
    cs.tails.findSome? f = f t := by
  obtain ⟨b, hb⟩ := Option.isSome_iff_exists.1 hsome
  induction cs with
  | nil =>
    rw [List.suffix_nil] at ht
    subst ht
    simp [hb]
  | cons c cs ih =>
    rw [List.tails_cons, List.findSome?_cons]
    rcases List.suffix_cons_iff.1 ht with rfl | ht
    · simp only [hb]
    · have hnone : f (c :: cs) = none := Option.not_isSome_iff_eq_none.1 fun hpass ↦ by
        have hle := (hlongest _ List.suffix_rfl hpass).length_le
        have hlt := ht.length_le
        rw [List.length_cons] at hle
        omega
      rw [hnone]
      exact ih ht fun u hu ↦ hlongest u (hu.trans (List.suffix_cons c cs))

end Pattern

end AssetBundler.Text
