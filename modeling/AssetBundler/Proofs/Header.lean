import AssetBundler.Header
import AssetBundler.Proofs.Text.Lines
import Mathlib.Data.List.TakeWhile

/-!
# The comments of a header

Where a header ends depends on the texts of the lines that are not blank and on nothing else: a header
is a run of comments, each of them a list of such texts (`IsComment`), and blank lines may stand anywhere
between and inside them. Main statements: the lines of a header are a run of its comments
(`inked_take_length`), and a run is read as its comments whatever comes after it (`append_of_comments`).
-/

namespace AssetBundler.Header

open Text (Line)

/-- The texts of the lines that are not blank. -/
def inked (ls : List Line) : List (List Char) :=
  (ls.map Line.text).filter fun cs ↦ !Text.isBlankText cs

@[simp] theorem inked_nil : inked [] = [] := rfl

@[simp] theorem inked_append (ls others : List Line) :
    inked (ls ++ others) = inked ls ++ inked others := by
  rw [inked, List.map_append, List.filter_append, inked, inked]

theorem inked_cons_of_blank {l : Line} (h : Text.isBlankText l.text = true) (ls : List Line) :
    inked (l :: ls) = inked ls := by
  simp [inked, h]

theorem inked_cons {l : Line} (h : Text.isBlankText l.text = false) (ls : List Line) :
    inked (l :: ls) = l.text :: inked ls := by
  simp [inked, h]

theorem inked_eq_nil {ls : List Line} :
    inked ls = [] ↔ ∀ l ∈ ls, Text.isBlankText l.text = true := by
  simp [inked]

theorem inked_eq_append {ls : List Line} {xs ys : List (List Char)} :
    inked ls = xs ++ ys ↔ ∃ as bs, ls = as ++ bs ∧ inked as = xs ∧ inked bs = ys := by
  constructor
  · intro h
    obtain ⟨as', bs', hls, rfl, rfl⟩ := List.filter_eq_append_iff.1 h
    obtain ⟨as, bs, rfl, rfl, rfl⟩ := List.map_eq_append_iff.1 hls
    exact ⟨as, bs, rfl, rfl, rfl⟩
  · rintro ⟨as, bs, rfl, rfl, rfl⟩
    exact inked_append as bs

theorem inked_eq_singleton {ls : List Line} {cs : List Char} (h : inked ls = [cs]) :
    ∃ as l bs, ls = as ++ l :: bs ∧ inked as = [] ∧ l.text = cs ∧ inked bs = [] := by
  obtain ⟨as', bs', hls, has, hcs, hbs⟩ := List.filter_eq_cons_iff.1 h
  obtain ⟨as, more, rfl, rfl, hmore⟩ := List.map_eq_append_iff.1 hls
  obtain ⟨l, bs, rfl, rfl, rfl⟩ := List.map_eq_cons_iff.1 hmore
  exact ⟨as, l, bs, rfl, List.filter_eq_nil_iff.2 has, rfl, hbs⟩

/-! ## Comments -/

inductive Opening where
  | line
  | block (opener closer : List Char)

/-- How a comment starts on a line, if one does. -/
def opening? (cs : List Char) : Option Opening :=
  let start := Text.trimLeft cs
  if Text.startsWith ['/', '*'] start then some (.block ['/', '*'] ['*', '/'])
  else if Text.startsWith ['#', '#', '#'] start then some (.block ['#', '#', '#'] ['#', '#', '#'])
  else if Text.startsWith ['/', '/'] start || Text.startsWith ['#'] start then some .line
  else none

/-- The line that opens a block closes it as well. -/
def closesAtOnce (opener closer cs : List Char) : Bool :=
  Text.occursIn closer ((Text.trimLeft cs).drop opener.length)

/-- A comment as the texts of its lines. -/
inductive IsComment : List (List Char) → Prop where
  | line {cs : List Char} (hopen : opening? cs = some .line) : IsComment [cs]
  | closed {cs opener closer : List Char} (hopen : opening? cs = some (.block opener closer))
      (hclose : closesAtOnce opener closer cs = true) : IsComment [cs]
  | block {cs opener closer last : List Char} {inner : List (List Char)}
      (hopen : opening? cs = some (.block opener closer))
      (hclose : closesAtOnce opener closer cs = false)
      (hinner : ∀ ds ∈ inner, Text.occursIn closer ds = false)
      (hlast : Text.occursIn closer last = true) : IsComment (cs :: (inner ++ [last]))

theorem commentLength_eq (first : Line) (rest : List Line) :
    commentLength first rest = match opening? first.text with
      | none => none
      | some .line => some 1
      | some (.block opener closer) =>
        if closesAtOnce opener closer first.text then some 1
        else (linesToCloser closer rest).map (· + 1) := by
  simp only [commentLength, opening?]
  split
  · rfl
  · split
    · rfl
    · split <;> rfl

theorem opening?_of_blank {cs : List Char} (h : Text.isBlankText cs = true) : opening? cs = none := by
  have hstart : Text.trimLeft cs = [] := List.dropWhile_eq_nil_iff.2 (List.all_eq_true.1 h)
  rw [opening?, hstart]
  rfl

theorem isBlankText_of_opening? {cs : List Char} {o : Opening} (h : opening? cs = some o) :
    Text.isBlankText cs = false := by
  refine Bool.eq_false_iff.2 fun hblank ↦ ?_
  rw [opening?_of_blank hblank] at h
  cases h

theorem isInfix_of_occursIn {part cs : List Char} (h : Text.occursIn part cs = true) : part <:+: cs := by
  induction cs with
  | nil =>
    have hnil : part = [] := List.isEmpty_iff.1 h
    exact hnil ▸ List.nil_infix
  | cons c cs ih =>
    simp only [Text.occursIn, Bool.or_eq_true] at h
    obtain h | h := h
    · exact (List.isPrefixOf_iff_prefix.1 h).isInfix
    · exact (ih h).trans (List.suffix_cons c cs).isInfix

theorem isBlankText_of_closer {cs ds opener closer : List Char}
    (hopen : opening? cs = some (.block opener closer)) (h : Text.occursIn closer ds = true) :
    Text.isBlankText ds = false := by
  have hcloser : ∃ c ∈ closer, Text.isBlank c = false := by
    simp only [opening?] at hopen
    split at hopen
    · cases hopen
      exact ⟨'*', by simp, by decide⟩
    · split at hopen
      · cases hopen
        exact ⟨'#', by simp, by decide⟩
      · split at hopen <;> cases hopen
  obtain ⟨c, hc, hblank⟩ := hcloser
  simp only [Text.isBlankText, List.all_eq_false]
  exact ⟨c, (isInfix_of_occursIn h).subset hc, by simp [hblank]⟩

theorem isBlankText_head {cs : List Char} {K : List (List Char)} (h : IsComment (cs :: K)) :
    Text.isBlankText cs = false := by
  cases h with
  | line hopen => exact isBlankText_of_opening? hopen
  | closed hopen _ => exact isBlankText_of_opening? hopen
  | block hopen _ _ _ => exact isBlankText_of_opening? hopen

theorem isBlankText_getLast {K : List (List Char)} (h : IsComment K) :
    ∀ cs ∈ K.getLast?, Text.isBlankText cs = false := by
  rintro cs hcs
  cases h with
  | line hopen =>
    cases hcs
    exact isBlankText_of_opening? hopen
  | closed hopen _ =>
    cases hcs
    exact isBlankText_of_opening? hopen
  | block hopen _ _ hlast =>
    rw [← List.cons_append, List.getLast?_concat] at hcs
    cases hcs
    exact isBlankText_of_closer hopen hlast

/-- What is left of a comment is one if its first and its last line are left. -/
theorem IsComment.filter {K : List (List Char)} (h : IsComment K) {q : List Char → Bool}
    (hfirst : ∀ cs ∈ K.head?, q cs = true) (hend : ∀ cs ∈ K.getLast?, q cs = true) :
    IsComment (K.filter q) := by
  cases h with
  | line hopen =>
    rw [List.filter_cons_of_pos (hfirst _ rfl), List.filter_nil]
    exact .line hopen
  | closed hopen hclose =>
    rw [List.filter_cons_of_pos (hfirst _ rfl), List.filter_nil]
    exact .closed hopen hclose
  | block hopen hclose hinner hlast =>
    rw [← List.cons_append, List.getLast?_concat] at hend
    rw [List.filter_cons_of_pos (hfirst _ rfl), List.filter_append,
      List.filter_cons_of_pos (hend _ rfl), List.filter_nil]
    exact .block hopen hclose (fun ds hds ↦ hinner ds (List.mem_filter.1 hds).1) hlast

theorem linesToCloser_append {closer : List Char} {inner : List Line} {last : Line}
    (hinner : ∀ m ∈ inner, Text.occursIn closer m.text = false)
    (hlast : Text.occursIn closer last.text = true) (ls : List Line) :
    linesToCloser closer (inner ++ last :: ls) = some (inner.length + 1) := by
  have hnone : inner.findIdx? (fun m ↦ Text.occursIn closer m.text) = none :=
    List.findIdx?_eq_none_iff.2 hinner
  rw [linesToCloser, List.findIdx?_append, hnone, List.findIdx?_cons]
  simp [hlast]

theorem exists_of_linesToCloser {closer : List Char} {ls : List Line} {n : Nat}
    (h : linesToCloser closer ls = some n) : ∃ inner last others, ls = inner ++ last :: others ∧
      n = inner.length + 1 ∧ (∀ m ∈ inner, Text.occursIn closer m.text = false) ∧
      Text.occursIn closer last.text = true := by
  obtain ⟨i, hi, rfl⟩ := Option.map_eq_some_iff.1 h
  obtain ⟨hlt, hlast, hinner⟩ := List.findIdx?_eq_some_iff_getElem.1 hi
  refine ⟨ls.take i, ls[i], ls.drop (i + 1), ?_, by simp; omega, ?_, hlast⟩
  · rw [← List.drop_eq_getElem_cons hlt, List.take_append_drop]
  · intro m hm
    obtain ⟨j, hj, rfl⟩ := List.mem_take_iff_getElem.1 hm
    simpa using hinner j (by omega)

/-- A comment is read from its first line on. -/
theorem commentLength_append {l : Line} {as : List Line}
    (h : IsComment ((l :: as).map Line.text)) (ls : List Line) :
    commentLength l (as ++ ls) = some (as.length + 1) := by
  rw [List.map_cons] at h
  rw [commentLength_eq]
  generalize hK : l.text :: as.map Line.text = K at h
  cases h with
  | line hopen =>
    obtain ⟨rfl, has⟩ := List.cons.inj hK
    rw [hopen, List.map_eq_nil_iff.1 has]
    rfl
  | closed hopen hclose =>
    obtain ⟨rfl, has⟩ := List.cons.inj hK
    rw [hopen, List.map_eq_nil_iff.1 has]
    simp [hclose]
  | block hopen hclose hinner hlast =>
    obtain ⟨rfl, has⟩ := List.cons.inj hK
    obtain ⟨inner, lasts, rfl, rfl, hlasts⟩ := List.map_eq_append_iff.1 has
    obtain ⟨last, nothing, rfl, rfl, hnothing⟩ := List.map_eq_cons_iff.1 hlasts
    rw [List.map_eq_nil_iff.1 hnothing, List.append_assoc, List.singleton_append, hopen]
    have hread := linesToCloser_append (fun m hm ↦ hinner _ (List.mem_map_of_mem hm)) hlast ls
    simp [hclose, hread]

/-- What is read as a comment is one. -/
theorem exists_of_commentLength {l : Line} {ls : List Line} {k : Nat}
    (h : commentLength l ls = some k) : ∃ as bs, ls = as ++ bs ∧ k = as.length + 1 ∧
      IsComment ((l :: as).map Line.text) := by
  rw [commentLength_eq] at h
  split at h
  · cases h
  · rename_i hopen
    cases h
    exact ⟨[], ls, rfl, rfl, .line hopen⟩
  · rename_i opener closer hopen
    split at h
    · rename_i hclose
      cases h
      exact ⟨[], ls, rfl, rfl, .closed hopen hclose⟩
    · rename_i hclose
      obtain ⟨n, hn, rfl⟩ := Option.map_eq_some_iff.1 h
      obtain ⟨inner, last, others, rfl, rfl, hinner, hlast⟩ := exists_of_linesToCloser hn
      refine ⟨inner ++ [last], others, by simp, by simp, ?_⟩
      rw [List.map_cons, List.map_append]
      refine .block hopen (by simpa using hclose) ?_ hlast
      intro ds hds
      obtain ⟨m, hm, rfl⟩ := List.mem_map.1 hds
      exact hinner m hm

theorem isComment_cons_iff {cs : List Char} {K : List (List Char)} : IsComment (cs :: K) ↔
    commentLength ⟨cs, []⟩ (K.map (Line.mk · [])) = some (K.length + 1) := by
  have htexts : ((⟨cs, []⟩ : Line) :: K.map (Line.mk · [])).map Line.text = cs :: K := by
    rw [List.map_cons, List.map_map]
    exact congrArg (cs :: ·) (List.map_id K)
  constructor
  · intro h
    have hread := commentLength_append (htexts.symm ▸ h) []
    rwa [List.append_nil, List.length_map] at hread
  · intro h
    obtain ⟨as, bs, hK, hlength, hcomment⟩ := exists_of_commentLength h
    have hbs : bs = [] := by
      have hsum := congrArg List.length hK
      rw [List.length_map, List.length_append] at hsum
      exact List.eq_nil_of_length_eq_zero (by omega)
    rw [hbs, List.append_nil] at hK
    rw [← hK, htexts] at hcomment
    exact hcomment

instance : DecidablePred IsComment
  | [] => .isFalse nofun
  | _ :: _ => decidable_of_iff _ isComment_cons_iff.symm

/-- The lines of a comment among lines that are blank otherwise. -/
theorem exists_of_inked {l : Line} {ls : List Line} {K rest : List (List Char)}
    (h : IsComment (l.text :: K)) (hls : inked ls = K ++ rest) : ∃ as bs, ls = as ++ bs ∧
      IsComment ((l :: as).map Line.text) ∧ inked as = K ∧ inked bs = rest := by
  generalize hK : l.text :: K = whole at h
  cases h with
  | line hopen =>
    obtain ⟨rfl, rfl⟩ := List.cons.inj hK
    exact ⟨[], ls, rfl, .line hopen, rfl, hls⟩
  | closed hopen hclose =>
    obtain ⟨rfl, rfl⟩ := List.cons.inj hK
    exact ⟨[], ls, rfl, .closed hopen hclose, rfl, hls⟩
  | @block cs opener closer last inner hopen hclose hinner hlast =>
    obtain ⟨rfl, rfl⟩ := List.cons.inj hK
    rw [List.append_assoc] at hls
    obtain ⟨as, more, rfl, has, hmore⟩ := inked_eq_append.1 hls
    obtain ⟨lasts, bs, rfl, hlasts, hbs⟩ := inked_eq_append.1 hmore
    obtain ⟨blanks, m, others, rfl, hblanks, rfl, hothers⟩ := inked_eq_singleton hlasts
    refine ⟨as ++ blanks ++ [m], others ++ bs, by simp, ?_, ?_, ?_⟩
    · rw [List.map_cons, List.map_append]
      refine .block hopen hclose ?_ hlast
      intro ds hds
      obtain ⟨d, hd, rfl⟩ := List.mem_map.1 hds
      refine Bool.eq_false_iff.2 fun hcloser ↦ ?_
      have hink := isBlankText_of_closer hopen hcloser
      have hmem : d.text ∈ inked (as ++ blanks) :=
        List.mem_filter.2 ⟨List.mem_map_of_mem hd, by simp [hink]⟩
      rw [inked_append, has, hblanks, List.append_nil] at hmem
      rw [hinner _ hmem] at hcloser
      cases hcloser
    · rw [inked_append, inked_append, has, hblanks,
        inked_cons (isBlankText_of_closer hopen hlast), inked_nil, List.append_nil]
    · rw [inked_append, hothers, hbs, List.nil_append]

/-! ## Runs of comments -/

/-- The comments of a header, each as the texts of its lines that are not blank. -/
def comments : List Line → List (List (List Char))
  | [] => []
  | l :: ls =>
    if Text.isBlankText l.text then comments ls
    else match commentLength l ls with
      | none => []
      | some k => inked (l :: ls.take (k - 1)) :: comments (ls.drop (k - 1))
  termination_by ls => ls.length
  decreasing_by
    · simp
    · simp only [List.length_drop, List.length_cons]
      omega

def dropBlank (ls : List Line) : List Line := ls.dropWhile fun l ↦ Text.isBlankText l.text

/-- What comes after the header and the blank lines that follow it. -/
def code (ls : List Line) : List Line := dropBlank (ls.drop (length ls))

@[simp] theorem comments_nil : comments [] = [] := by rw [comments]

@[simp] theorem length_nil : length [] = 0 := by rw [length]

@[simp] theorem code_nil : code [] = [] := by rw [code, List.drop_nil]; rfl

section Line

variable {l : Line} {ls : List Line}

theorem comments_blank (h : Text.isBlankText l.text = true) : comments (l :: ls) = comments ls := by
  rw [comments, if_pos h]

theorem length_blank (h : Text.isBlankText l.text = true) :
    length (l :: ls) = if length ls = 0 then 0 else length ls + 1 := by
  rw [length, if_pos h]
  cases length ls <;> rfl

theorem dropBlank_blank (h : Text.isBlankText l.text = true) : dropBlank (l :: ls) = dropBlank ls :=
  List.dropWhile_cons_of_pos h

theorem code_blank (h : Text.isBlankText l.text = true) : code (l :: ls) = code ls := by
  rw [code, code, length_blank h]
  split
  · rename_i hzero
    rw [hzero]
    exact dropBlank_blank h
  · rfl

theorem comments_none (h : commentLength l ls = none) (hl : Text.isBlankText l.text = false) :
    comments (l :: ls) = [] := by
  rw [comments, if_neg (by simp [hl]), h]

theorem length_none (h : commentLength l ls = none) (hl : Text.isBlankText l.text = false) :
    length (l :: ls) = 0 := by
  rw [length, if_neg (by simp [hl]), h]

theorem code_none (h : commentLength l ls = none) (hl : Text.isBlankText l.text = false) :
    code (l :: ls) = l :: ls := by
  rw [code, length_none h hl]
  exact List.dropWhile_cons_of_neg (by simp [hl])

variable {as : List Line}

theorem comments_comment (h : IsComment ((l :: as).map Line.text)) :
    comments (l :: (as ++ ls)) = inked (l :: as) :: comments ls := by
  rw [comments, if_neg (by simp [isBlankText_head h]), commentLength_append h]
  simp

theorem length_comment (h : IsComment ((l :: as).map Line.text)) :
    length (l :: (as ++ ls)) = as.length + 1 + length ls := by
  rw [length, if_neg (by simp [isBlankText_head h]), commentLength_append h]
  simp

theorem code_comment (h : IsComment ((l :: as).map Line.text)) :
    code (l :: (as ++ ls)) = code ls := by
  rw [code, length_comment h, code, Nat.add_right_comm, List.drop_succ_cons,
    List.drop_length_add_append]

end Line

/-- A text starts with a blank line, with a comment or with a line of code, if it is not over. -/
@[elab_as_elim]
theorem header_induction {motive : List Line → Prop} (nil : motive [])
    (blank : ∀ l ls, Text.isBlankText l.text = true → motive ls → motive (l :: ls))
    (comment : ∀ l as ls, IsComment ((l :: as).map Line.text) → motive ls →
      motive (l :: (as ++ ls)))
    (code : ∀ l ls, Text.isBlankText l.text = false → commentLength l ls = none → motive (l :: ls))
    (ls : List Line) : motive ls := by
  induction hn : ls.length using Nat.strong_induction_on generalizing ls with
  | _ n ih =>
    subst hn
    cases ls with
    | nil => exact nil
    | cons l ls =>
      cases hl : Text.isBlankText l.text with
      | true => exact blank l ls hl (ih _ (by simp) ls rfl)
      | false =>
        cases hlen : commentLength l ls with
        | none => exact code l ls hl hlen
        | some k =>
          obtain ⟨as, bs, rfl, -, hcomment⟩ := exists_of_commentLength hlen
          have hshorter : bs.length < (l :: (as ++ bs)).length := by
            rw [List.length_cons, List.length_append]
            omega
          exact comment l as bs hcomment (ih _ hshorter bs rfl)

theorem isComment_of_mem_comments {ls : List Line} {K : List (List Char)} (h : K ∈ comments ls) :
    IsComment K := by
  induction ls using header_induction with
  | nil => simp at h
  | blank l ls hl ih => exact ih (comments_blank hl ▸ h)
  | comment l as ls hcomment ih =>
    rw [comments_comment hcomment] at h
    obtain rfl | h := List.mem_cons.1 h
    · exact hcomment.filter (fun cs hcs ↦ by
        cases hcs
        simp [isBlankText_head hcomment]) (fun cs hcs ↦ by simp [isBlankText_getLast hcomment cs hcs])
    · exact ih h
  | code l ls hl hnone => simp [comments_none hnone hl] at h

/-- The lines of the header are those of its comments. -/
theorem inked_take_length (ls : List Line) :
    inked (ls.take (length ls)) = (comments ls).flatten := by
  induction ls using header_induction with
  | nil => simp
  | blank l ls hl ih =>
    rw [comments_blank hl, ← ih, length_blank hl]
    split
    · rename_i hzero
      rw [hzero]
      rfl
    · rw [List.take_succ_cons, inked_cons_of_blank hl]
  | comment l as ls hcomment ih =>
    rw [comments_comment hcomment, length_comment hcomment, List.flatten_cons, ← ih,
      Nat.add_right_comm, List.take_succ_cons, List.take_length_add_append, ← List.cons_append,
      inked_append]
  | code l ls hl hnone => rw [length_none hnone hl, comments_none hnone hl]; rfl

theorem length_le (ls : List Line) : length ls ≤ ls.length := by
  induction ls using header_induction with
  | nil => simp
  | blank l ls hl ih =>
    rw [length_blank hl, List.length_cons]
    split
    · exact Nat.zero_le _
    · exact Nat.succ_le_succ ih
  | comment l as ls hcomment ih =>
    rw [length_comment hcomment, List.length_cons, List.length_append]
    omega
  | code l ls hl hnone =>
    rw [length_none hnone hl]
    exact Nat.zero_le _

/-- What comes after a header continues it. -/
theorem length_take_append (ls others : List Line) :
    length (ls.take (length ls) ++ others) = length ls + length others := by
  induction ls using header_induction with
  | nil => simp
  | blank l ls hl ih =>
    rw [length_blank hl]
    split
    · simp
    · rename_i hpos
      rw [List.take_succ_cons, List.cons_append, length_blank hl, ih, if_neg (by omega)]
      omega
  | comment l as ls hcomment ih =>
    rw [length_comment hcomment, Nat.add_right_comm, List.take_succ_cons,
      List.take_length_add_append, List.cons_append, List.append_assoc, length_comment hcomment, ih]
    omega
  | code l ls hl hnone =>
    rw [length_none hnone hl]
    simp

theorem comments_dropBlank (ls : List Line) : comments (dropBlank ls) = comments ls := by
  induction ls with
  | nil => rfl
  | cons l ls ih =>
    cases hl : Text.isBlankText l.text with
    | true => rw [dropBlank_blank hl, comments_blank hl, ih]
    | false => rw [dropBlank, List.dropWhile_cons_of_neg (by simp [hl])]

theorem code_dropBlank (ls : List Line) : code (dropBlank ls) = code ls := by
  induction ls with
  | nil => rfl
  | cons l ls ih =>
    cases hl : Text.isBlankText l.text with
    | true => rw [dropBlank_blank hl, code_blank hl, ih]
    | false => rw [dropBlank, List.dropWhile_cons_of_neg (by simp [hl])]

/-- No comment starts where the code does. -/
theorem comments_code (ls : List Line) : comments (code ls) = [] ∧ code (code ls) = code ls := by
  induction ls using header_induction with
  | nil => simp
  | blank l ls hl ih => rwa [code_blank hl]
  | comment l as ls hcomment ih => rwa [code_comment hcomment]
  | code l ls hl hnone =>
    rw [code_none hnone hl]
    exact ⟨comments_none hnone hl, code_none hnone hl⟩

theorem append_of_blank {hs : List Line} (h : inked hs = []) (ls : List Line) :
    comments (hs ++ ls) = comments ls ∧ code (hs ++ ls) = code ls := by
  induction hs with
  | nil => exact ⟨rfl, rfl⟩
  | cons l hs ih =>
    have hl := inked_eq_nil.1 h l (by simp)
    rw [inked_cons_of_blank hl] at h
    rw [List.cons_append, comments_blank hl, code_blank hl]
    exact ih h

/-- A run of comments is read as these comments, whatever comes after it. -/
theorem append_of_comments {Ks : List (List (List Char))} (hKs : ∀ K ∈ Ks, IsComment K)
    {hs : List Line} (h : inked hs = Ks.flatten) (ls : List Line) :
    comments (hs ++ ls) = Ks ++ comments ls ∧ code (hs ++ ls) = code ls := by
  induction Ks generalizing hs with
  | nil => exact append_of_blank h ls
  | cons K Ks ih =>
    have hK : IsComment K := hKs K (by simp)
    cases K with
    | nil => cases hK
    | cons cs K =>
      rw [List.flatten_cons, List.cons_append, ← List.singleton_append] at h
      obtain ⟨firsts, others, rfl, hfirsts, hothers⟩ := inked_eq_append.1 h
      obtain ⟨blanks, l, more, rfl, hblanks, rfl, hmore⟩ := inked_eq_singleton hfirsts
      have hrest : inked (more ++ others) = K ++ Ks.flatten := by
        rw [inked_append, hmore, List.nil_append]
        exact hothers
      obtain ⟨as, bs, hsplit, hcomment, has, hbs⟩ := exists_of_inked hK hrest
      have htail : blanks ++ l :: more ++ others ++ ls = blanks ++ l :: (as ++ (bs ++ ls)) := by
        rw [← List.append_assoc as, ← hsplit]
        simp
      obtain ⟨hcomments, hcode⟩ := append_of_blank hblanks (l :: (as ++ (bs ++ ls)))
      obtain ⟨ihcomments, ihcode⟩ := ih (fun K hK ↦ hKs K (List.mem_cons_of_mem _ hK)) hbs
      rw [htail, hcomments, hcode, comments_comment hcomment, code_comment hcomment, ihcomments,
        ihcode, inked_cons (isBlankText_head hK), has]
      exact ⟨rfl, rfl⟩

end AssetBundler.Header
