import AssetBundler.Stylesheet.Import
import Mathlib.Data.List.TakeWhile

/-!
# The grammar of import statements

The statements as they may be written, with every choice of blanks and quotes, apart from how a text is
searched for them. Main statement: the recogniser reads exactly the statements of the grammar
(`recognise_eq_some_iff`), so a text starts with one statement at most.
-/

namespace AssetBundler

namespace Text

def IsBlanks (cs : List Char) : Prop := ∀ c ∈ cs, isBlank c = true

theorem exists_blanks (cs : List Char) : ∃ blanks, IsBlanks blanks ∧ cs = blanks ++ trimLeft cs :=
  ⟨cs.takeWhile isBlank, fun _ h ↦ List.mem_takeWhile_imp h, List.takeWhile_append_dropWhile.symm⟩

theorem trimLeft_append {blanks : List Char} (h : IsBlanks blanks) (cs : List Char) :
    trimLeft (blanks ++ cs) = trimLeft cs := List.dropWhile_append_of_pos h

theorem trimLeft_cons {c : Char} (h : isBlank c = false) (cs : List Char) :
    trimLeft (c :: cs) = c :: cs := List.dropWhile_cons_of_neg (by simp [h])

theorem trimLeft_eq_nil {cs : List Char} : trimLeft cs = [] ↔ IsBlanks cs :=
  List.dropWhile_eq_nil_iff

theorem trimRight_append {blanks : List Char} (h : IsBlanks blanks) (cs : List Char) :
    trimRight (cs ++ blanks) = trimRight cs := by
  have hreverse : ∀ c ∈ blanks.reverse, isBlank c = true := fun c hc ↦ h c (List.mem_reverse.1 hc)
  rw [trimRight, dropEndWhile, List.reverse_append, List.dropWhile_append_of_pos hreverse]
  rfl

theorem trimLeft_append_of_ne_nil {cs : List Char} (h : trimLeft cs ≠ []) (more : List Char) :
    trimLeft (cs ++ more) = trimLeft cs ++ more := by
  have hne : (cs.dropWhile isBlank).isEmpty = false := List.isEmpty_eq_false_iff.2 h
  rw [trimLeft, List.dropWhile_append, if_neg (by simp [hne])]
  rfl

/-- Blanks around a text do not count. -/
theorem trim_around {before after : List Char} (hbefore : IsBlanks before)
    (hafter : IsBlanks after) (cs : List Char) : trim (before ++ cs ++ after) = trim cs := by
  rw [trim, trim, List.append_assoc, trimLeft_append hbefore]
  by_cases hcs : IsBlanks cs
  · rw [trimLeft_append hcs, trimLeft_eq_nil.2 hafter, trimLeft_eq_nil.2 hcs]
  · rw [trimLeft_append_of_ne_nil fun h ↦ hcs (trimLeft_eq_nil.1 h), trimRight_append hafter]

theorem trim_of_blanks {blanks : List Char} (h : IsBlanks blanks) : trim blanks = [] := by
  rw [trim, trimLeft_eq_nil.2 h]
  rfl

/-- A text that neither starts nor ends with a blank stays as it is. -/
theorem trim_of_ends {first last : Char} {cs : List Char} (hfirst : isBlank first = false)
    (hlast : isBlank last = false) : trim (first :: (cs ++ [last])) = first :: (cs ++ [last]) := by
  rw [trim, trimLeft_cons hfirst, ← List.cons_append, trimRight, dropEndWhile,
    List.reverse_append, List.reverse_singleton, List.singleton_append,
    List.dropWhile_cons_of_neg (by simp [hlast])]
  simp

theorem dropStart?_eq_some {start cs rest : List Char} :
    dropStart? start cs = some rest ↔ cs = start ++ rest := by
  unfold dropStart?
  constructor
  · intro h
    split at h
    · rename_i hprefix
      obtain ⟨after, rfl⟩ := List.isPrefixOf_iff_prefix.1 hprefix
      rw [← Option.some.inj h, List.drop_left]
    · cases h
  · rintro rfl
    rw [if_pos (List.isPrefixOf_iff_prefix.2 (List.prefix_append start rest)), List.drop_left]

end Text

namespace Stylesheet

open Text (IsBlanks)

/-- A quote or nothing. -/
def IsOptionalQuote (q : List Char) : Prop := q = [] ∨ ∃ c, isQuote c = true ∧ q = [c]

/-- A statement with the path that it names. -/
inductive IsStatement : List Char → List Char → Prop where
  | quoted {before target after : List Char} (hbefore : IsBlanks before) (htarget : target ≠ [])
      (hquote : '"' ∉ target) (hafter : IsBlanks after) :
      IsStatement (Text.trim target)
        ("@import".toList ++ (before ++ '"' :: (target ++ '"' :: (after ++ [';']))))
  | url {before inner opening target closing outer after : List Char} (hbefore : IsBlanks before)
      (hinner : IsBlanks inner) (hopening : IsOptionalQuote opening) (htarget : target ≠ [])
      (hchars : ∀ c ∈ target, isTargetChar c = true) (hclosing : IsOptionalQuote closing)
      (houter : IsBlanks outer) (hafter : IsBlanks after) :
      IsStatement (Text.trim target)
        ("@import".toList ++ (before ++ "url(".toList ++ (inner ++ opening ++ target ++
          (closing ++ outer ++ ')' :: (after ++ [';'])))))

namespace Import

theorem ending?_eq_some {cs rest : List Char} :
    ending? cs = some rest ↔ ∃ after, IsBlanks after ∧ cs = after ++ ';' :: rest := by
  unfold ending?
  rw [Text.dropStart?_eq_some]
  constructor
  · intro h
    obtain ⟨after, hafter, hcs⟩ := Text.exists_blanks cs
    exact ⟨after, hafter, hcs.trans (by rw [h]; rfl)⟩
  · rintro ⟨after, hafter, rfl⟩
    rw [Text.trimLeft_append hafter, Text.trimLeft_cons (by decide)]
    rfl

theorem isBlank_of_isQuote {c : Char} (h : isQuote c = true) : Text.isBlank c = false := by
  simp only [isQuote, Bool.or_eq_true, beq_iff_eq] at h
  obtain rfl | rfl := h <;> decide

theorem isTargetChar_of_isBlank {c : Char} (h : Text.isBlank c = true) : isTargetChar c = true := by
  have hquote : isQuote c = false := Bool.eq_false_iff.2 fun hquote ↦ by
    rw [isBlank_of_isQuote hquote] at h
    cases h
  have hclose : c ≠ ')' := by
    rintro rfl
    exact absurd h (by decide)
  simp [isTargetChar, hquote, hclose]

theorem skipQuote_append {q cs : List Char} (hq : IsOptionalQuote q)
    (hcs : ∀ c ∈ cs.head?, isQuote c = false) : skipQuote (q ++ cs) = cs := by
  obtain rfl | ⟨c, hc, rfl⟩ := hq
  · cases cs with
    | nil => rfl
    | cons c cs =>
      have hc := hcs c rfl
      simp [skipQuote, hc]
  · simp [skipQuote, hc]

/-- Blanks before a closing parenthesis do not start with a quote. -/
theorem isQuote_head {blanks : List Char} (h : IsBlanks blanks) {cs : List Char} :
    ∀ c ∈ (blanks ++ ')' :: cs).head?, isQuote c = false := by
  intro c hc
  cases blanks with
  | nil =>
    cases hc
    decide
  | cons d blanks =>
    cases hc
    refine Bool.eq_false_iff.2 fun hquote ↦ ?_
    have hblank := h c (List.mem_cons_self ..)
    rw [isBlank_of_isQuote hquote] at hblank
    cases hblank

theorem exists_optionalQuote (cs : List Char) :
    ∃ q, IsOptionalQuote q ∧ cs = q ++ skipQuote cs := by
  cases cs with
  | nil => exact ⟨[], .inl rfl, rfl⟩
  | cons c cs =>
    by_cases hc : isQuote c = true
    · exact ⟨[c], .inr ⟨c, hc, rfl⟩, by simp [skipQuote, hc]⟩
    · exact ⟨[], .inl rfl, by simp [skipQuote, hc]⟩

theorem urlEnding?_eq_some {cs rest : List Char} : urlEnding? cs = some rest ↔
    ∃ closing outer after, IsOptionalQuote closing ∧ IsBlanks outer ∧ IsBlanks after ∧
      cs = closing ++ outer ++ ')' :: (after ++ ';' :: rest) := by
  unfold urlEnding?
  rw [Option.bind_eq_some_iff]
  constructor
  · rintro ⟨tail, htail, hending⟩
    obtain ⟨closing, hclosing, hcs⟩ := exists_optionalQuote cs
    obtain ⟨outer, houter, hskip⟩ := Text.exists_blanks (skipQuote cs)
    obtain ⟨after, hafter, rfl⟩ := ending?_eq_some.1 hending
    refine ⟨closing, outer, after, hclosing, houter, hafter, ?_⟩
    rw [Text.dropStart?_eq_some.1 htail] at hskip
    rw [List.append_assoc, ← List.singleton_append, ← hskip]
    exact hcs
  · rintro ⟨closing, outer, after, hclosing, houter, hafter, rfl⟩
    refine ⟨after ++ ';' :: rest, ?_, ending?_eq_some.2 ⟨after, hafter, rfl⟩⟩
    rw [Text.dropStart?_eq_some, List.append_assoc, skipQuote_append hclosing,
      Text.trimLeft_append houter, Text.trimLeft_cons (by decide)]
    · rfl
    · exact isQuote_head houter

/-- A target can be taken to reach as far as its characters do: blanks after it are no part of what comes
after. -/
theorem exists_of_urlEnding {tail rest : List Char} (h : urlEnding? tail = some rest) :
    ∃ extra end', IsBlanks extra ∧ tail = extra ++ end' ∧ urlEnding? end' = some rest ∧
      ∀ c ∈ end'.head?, isTargetChar c = false := by
  obtain ⟨closing, outer, after, hclosing, houter, hafter, rfl⟩ := urlEnding?_eq_some.1 h
  obtain rfl | ⟨c, hc, rfl⟩ := hclosing
  · refine ⟨outer, ')' :: (after ++ ';' :: rest), houter, rfl, ?_, ?_⟩
    · exact urlEnding?_eq_some.2 ⟨[], [], after, .inl rfl, List.forall_mem_nil _, hafter, rfl⟩
    · rintro c ⟨⟩
      decide
  · refine ⟨[], _, List.forall_mem_nil _, rfl, h, ?_⟩
    rintro d ⟨⟩
    simp [isTargetChar, hc]

theorem takeWhile_append {target tail : List Char} (htarget : ∀ c ∈ target, isTargetChar c = true)
    (htail : ∀ c ∈ tail.head?, isTargetChar c = false) :
    (target ++ tail).takeWhile isTargetChar = target ∧
      (target ++ tail).dropWhile isTargetChar = tail := by
  rw [List.takeWhile_append_of_pos htarget, List.dropWhile_append_of_pos htarget]
  cases tail with
  | nil => simp
  | cons c tail =>
    have hc := htail c rfl
    simp [hc]

/-- The target after the blanks and the quote before it. -/
theorem urlTarget?_of_opened {cs target tail rest : List Char} (hne : target ≠ [])
    (hcs : skipQuote (Text.trimLeft cs) = target ++ tail)
    (htarget : ∀ c ∈ target, isTargetChar c = true)
    (htail : ∀ c ∈ tail.head?, isTargetChar c = false) (hrest : urlEnding? tail = some rest) :
    urlTarget? cs = some (Text.trim target, rest) := by
  obtain ⟨htake, hdrop⟩ := takeWhile_append htarget htail
  simp only [urlTarget?, hcs, htake, hdrop, hrest]
  rw [if_pos (by simp [hne])]
  rfl

/-- Where the parenthesis closes at once, a blank before it is the target. -/
theorem urlTarget?_of_closed {cs more rest : List Char}
    (hcs : skipQuote (Text.trimLeft cs) = ')' :: more)
    (hshorter : (Text.trimLeft cs).length < cs.length)
    (hrest : urlEnding? (Text.trimLeft cs) = some rest) : urlTarget? cs = some ([], rest) := by
  have hnone : (')' :: more).takeWhile isTargetChar = [] :=
    List.takeWhile_cons_of_neg (by decide)
  simp only [urlTarget?, hcs, hnone, hrest]
  rw [if_neg (by simp), if_pos hshorter]
  rfl

/-- A target of blanks alone, which the blanks before a target would take in. -/
theorem urlTarget?_of_blanks {blanks tail rest : List Char} (hne : blanks ≠ [])
    (hblanks : IsBlanks blanks) (htail : ∀ c ∈ tail.head?, isTargetChar c = false)
    (hrest : urlEnding? tail = some rest) : urlTarget? (blanks ++ tail) = some ([], rest) := by
  have hstart : Text.trimLeft (blanks ++ tail) = tail := by
    rw [Text.trimLeft_append hblanks]
    cases tail with
    | nil => rfl
    | cons c tail =>
      refine Text.trimLeft_cons (Bool.eq_false_iff.2 fun hblank ↦ ?_) tail
      have hc := htail c rfl
      rw [isTargetChar_of_isBlank hblank] at hc
      cases hc
  have hshorter : (Text.trimLeft (blanks ++ tail)).length < (blanks ++ tail).length := by
    rw [hstart, List.length_append]
    have := List.length_pos_iff.2 hne
    omega
  obtain ⟨closing, outer, after, hclosing, houter, hafter, htaileq⟩ := urlEnding?_eq_some.1 hrest
  have hskip : skipQuote tail = outer ++ ')' :: (after ++ ';' :: rest) := by
    rw [htaileq, List.append_assoc]
    exact skipQuote_append hclosing (isQuote_head houter)
  cases outer with
  | nil =>
    have hclosed : skipQuote (Text.trimLeft (blanks ++ tail)) = ')' :: (after ++ ';' :: rest) := by
      rw [hstart, hskip]
      rfl
    exact urlTarget?_of_closed hclosed hshorter (by rw [hstart, hrest])
  | cons d outer =>
    have hended : urlEnding? (')' :: (after ++ ';' :: rest)) = some rest :=
      urlEnding?_eq_some.2 ⟨[], [], after, .inl rfl, List.forall_mem_nil _, hafter, rfl⟩
    rw [urlTarget?_of_opened (List.cons_ne_nil d outer) (by rw [hstart, hskip])
      (fun c hc ↦ isTargetChar_of_isBlank (houter c hc)) (by rintro c ⟨⟩; decide) hended,
      Text.trim_of_blanks houter]

theorem urlTarget?_of_chars {inner opening chars tail rest : List Char} (hinner : IsBlanks inner)
    (hopening : IsOptionalQuote opening) (hne : chars ≠ [])
    (hchars : ∀ c ∈ chars, isTargetChar c = true)
    (htail : ∀ c ∈ tail.head?, isTargetChar c = false) (hrest : urlEnding? tail = some rest) :
    urlTarget? (inner ++ opening ++ chars ++ tail) = some (Text.trim chars, rest) := by
  obtain rfl | ⟨c, hc, rfl⟩ := hopening
  · obtain ⟨blanks, hblanks, hsplit⟩ := Text.exists_blanks chars
    by_cases hall : Text.trimLeft chars = []
    · -- Without a quote the target is all blank, and looking for it starts after it.
      have hwhole : IsBlanks (inner ++ chars) :=
        List.forall_mem_append.2 ⟨hinner, Text.trimLeft_eq_nil.1 hall⟩
      rw [List.append_nil, urlTarget?_of_blanks (by simp [hne]) hwhole htail hrest,
        Text.trim_of_blanks (Text.trimLeft_eq_nil.1 hall)]
    · have htrim : Text.trim (Text.trimLeft chars) = Text.trim chars := by
        have haround := Text.trim_around hblanks (List.forall_mem_nil _) (Text.trimLeft chars)
        rw [List.append_nil, ← hsplit] at haround
        exact haround.symm
      have hsub : ∀ c ∈ Text.trimLeft chars, isTargetChar c = true :=
        fun c hc ↦ hchars c ((List.dropWhile_suffix _).subset hc)
      rw [← htrim]
      refine urlTarget?_of_opened hall ?_ hsub htail hrest
      rw [List.append_nil, List.append_assoc, Text.trimLeft_append hinner,
        Text.trimLeft_append_of_ne_nil hall]
      change skipQuote ([] ++ (Text.trimLeft chars ++ tail)) = _
      refine skipQuote_append (.inl rfl) fun c hc ↦ ?_
      rw [List.head?_append, List.head?_eq_some_head hall, Option.some_or] at hc
      cases hc
      have hchar := hsub _ (List.head_mem hall)
      simp only [isTargetChar, Bool.and_eq_true, Bool.not_eq_true'] at hchar
      exact hchar.1
  · refine urlTarget?_of_opened hne ?_ hchars htail hrest
    rw [List.append_assoc, List.append_assoc, Text.trimLeft_append hinner, List.singleton_append,
      Text.trimLeft_cons (isBlank_of_isQuote hc)]
    simp [skipQuote, hc]

theorem urlTarget?_eq_some {cs target rest : List Char} : urlTarget? cs = some (target, rest) ↔
    ∃ inner opening chars tail, IsBlanks inner ∧ IsOptionalQuote opening ∧ chars ≠ [] ∧
      (∀ c ∈ chars, isTargetChar c = true) ∧ cs = inner ++ opening ++ chars ++ tail ∧
      urlEnding? tail = some rest ∧ target = Text.trim chars := by
  constructor
  · intro h
    obtain ⟨inner, hinner, hcs⟩ := Text.exists_blanks cs
    obtain ⟨opening, hopening, hquote⟩ := exists_optionalQuote (Text.trimLeft cs)
    simp only [urlTarget?] at h
    split at h
    · rename_i hne
      obtain ⟨found, hfound, heq⟩ := Option.map_eq_some_iff.1 h
      cases heq
      refine ⟨inner, opening, _, _, hinner, hopening, by simpa using hne,
        fun c hc ↦ List.mem_takeWhile_imp hc, ?_, hfound, rfl⟩
      rw [List.append_assoc, List.takeWhile_append_dropWhile, List.append_assoc, ← hquote]
      exact hcs
    · split at h
      · rename_i hshorter
        obtain ⟨found, hfound, heq⟩ := Option.map_eq_some_iff.1 h
        cases heq
        have hne : inner ≠ [] := by
          rintro rfl
          rw [← hcs.trans (List.nil_append _)] at hshorter
          exact absurd hshorter (lt_irrefl _)
        exact ⟨[], [], inner, _, List.forall_mem_nil _, .inl rfl, hne,
          fun c hc ↦ isTargetChar_of_isBlank (hinner c hc), hcs, hfound,
          (Text.trim_of_blanks hinner).symm⟩
      · cases h
  · rintro ⟨inner, opening, chars, tail, hinner, hopening, hne, hchars, rfl, hrest, rfl⟩
    obtain ⟨extra, ends, hextra, rfl, hended, hboundary⟩ := exists_of_urlEnding hrest
    have hlonger : urlTarget? (inner ++ opening ++ (chars ++ extra) ++ ends) =
        some (Text.trim (chars ++ extra), rest) :=
      urlTarget?_of_chars hinner hopening (by simp [hne])
        (List.forall_mem_append.2 ⟨hchars, fun c hc ↦ isTargetChar_of_isBlank (hextra c hc)⟩)
        hboundary hended
    have htrim : Text.trim (chars ++ extra) = Text.trim chars :=
      Text.trim_around (List.forall_mem_nil _) hextra chars
    rw [htrim] at hlonger
    rw [← hlonger]
    simp

/-! ## Whole statements -/

theorem quotedTarget?_eq_some {cs target rest : List Char} :
    quotedTarget? cs = some (target, rest) ↔ ∃ chars after, chars ≠ [] ∧ '"' ∉ chars ∧
      IsBlanks after ∧ cs = chars ++ '"' :: (after ++ ';' :: rest) ∧ target = Text.trim chars := by
  simp only [quotedTarget?]
  constructor
  · intro h
    split at h
    · cases h
    · rename_i hne
      obtain ⟨found, hfound, heq⟩ := Option.map_eq_some_iff.1 h
      cases heq
      obtain ⟨tail, htail, hending⟩ := Option.bind_eq_some_iff.1 hfound
      obtain ⟨after, hafter, rfl⟩ := ending?_eq_some.1 hending
      refine ⟨_, after, by simpa using hne, ?_, hafter, ?_, rfl⟩
      · intro hmem
        simpa using List.mem_takeWhile_imp hmem
      · rw [Text.dropStart?_eq_some] at htail
        exact List.takeWhile_append_dropWhile.symm.trans (congrArg _ htail)
  · rintro ⟨chars, after, hne, hquote, hafter, rfl, rfl⟩
    have hinside : ∀ c ∈ chars, decide (c ≠ '"') = true := by
      intro c hc
      simpa using fun h : c = '"' ↦ hquote (h ▸ hc)
    have htake : (chars ++ '"' :: (after ++ ';' :: rest)).takeWhile (· ≠ '"') = chars := by
      rw [List.takeWhile_append_of_pos hinside, List.takeWhile_cons_of_neg (by simp),
        List.append_nil]
    have hdrop : (chars ++ '"' :: (after ++ ';' :: rest)).dropWhile (· ≠ '"') =
        ['"'] ++ (after ++ ';' :: rest) := by
      rw [List.dropWhile_append_of_pos hinside, List.dropWhile_cons_of_neg (by simp)]
      rfl
    rw [htake, hdrop, if_neg (by simp [hne]), Text.dropStart?_eq_some.2 rfl, Option.bind_some,
      ending?_eq_some.2 ⟨after, hafter, rfl⟩]
    rfl

/-- The recogniser reads only statements of the grammar. -/
theorem exists_statement_of_recognise {cs rest : List Char} {path : String}
    (h : recognise cs = some (path, rest)) : ∃ target source, IsStatement target source ∧
      path = String.ofList target ∧ cs = source ++ rest := by
  unfold recognise at h
  split at h
  · cases h
  · rename_i start hstart
    obtain ⟨found, hfound, heq⟩ := Option.map_eq_some_iff.1 h
    cases heq
    obtain ⟨before, hbefore, hsplit⟩ := Text.exists_blanks start
    rw [Text.dropStart?_eq_some] at hstart
    split at hfound
    · rename_i more hmore
      obtain ⟨target, after, hne, hquote, hafter, rfl, htarget⟩ :=
        quotedTarget?_eq_some.1 hfound
      refine ⟨_, _, .quoted hbefore hne hquote hafter, congrArg _ htarget, ?_⟩
      rw [hstart, hsplit, hmore]
      simp
    · obtain ⟨more, hmore, htarget⟩ := Option.bind_eq_some_iff.1 hfound
      obtain ⟨inner, opening, target, tail, hinner, hopening, hne, hchars, rfl, hending, heq⟩ :=
        urlTarget?_eq_some.1 htarget
      obtain ⟨closing, outer, after, hclosing, houter, hafter, rfl⟩ :=
        urlEnding?_eq_some.1 hending
      refine ⟨_, _, .url hbefore hinner hopening hne hchars hclosing houter hafter,
        congrArg _ heq, ?_⟩
      rw [hstart, hsplit, Text.dropStart?_eq_some.1 hmore]
      simp

/-- The recogniser reads every statement of the grammar, whatever comes after it. -/
theorem recognise_statement {target source : List Char} (h : IsStatement target source)
    (rest : List Char) : recognise (source ++ rest) = some (String.ofList target, rest) := by
  unfold recognise
  cases h with
  | @quoted before target after hbefore hne hquote hafter =>
    have hstart : Text.trimLeft (before ++ '"' :: (target ++ '"' :: (after ++ [';'])) ++ rest) =
        '"' :: (target ++ '"' :: (after ++ ';' :: rest)) := by
      rw [List.append_assoc, Text.trimLeft_append hbefore, List.cons_append,
        Text.trimLeft_cons (by decide)]
      simp
    rw [List.append_assoc, Text.dropStart?_eq_some.2 rfl]
    simp only [hstart]
    rw [quotedTarget?_eq_some.2 ⟨target, after, hne, hquote, hafter, rfl, rfl⟩]
    rfl
  | @url before inner opening target closing outer after hbefore hinner hopening hne hchars
      hclosing houter hafter =>
    have hurl : "url(".toList = 'u' :: "rl(".toList := rfl
    have hstart : Text.trimLeft (before ++ "url(".toList ++ (inner ++ opening ++ target ++
          (closing ++ outer ++ ')' :: (after ++ [';']))) ++ rest) =
        'u' :: ("rl(".toList ++ (inner ++ opening ++ target ++
          (closing ++ outer ++ ')' :: (after ++ ';' :: rest)))) := by
      rw [List.append_assoc, List.append_assoc, Text.trimLeft_append hbefore, hurl,
        List.cons_append, Text.trimLeft_cons (by decide), List.append_assoc]
      simp only [List.append_assoc, List.cons_append, List.nil_append]
    have hending : urlEnding? (closing ++ outer ++ ')' :: (after ++ ';' :: rest)) = some rest :=
      urlEnding?_eq_some.2 ⟨closing, outer, after, hclosing, houter, hafter, rfl⟩
    have htarget := urlTarget?_eq_some.2 ⟨inner, opening, target, _, hinner, hopening, hne,
      hchars, rfl, hending, rfl⟩
    rw [List.append_assoc, Text.dropStart?_eq_some.2 rfl]
    simp only [hstart]
    change Option.map _ ((Text.dropStart? "url(".toList _).bind urlTarget?) = _
    rw [← List.cons_append, ← hurl, Text.dropStart?_eq_some.2 rfl, Option.bind_some, htarget]
    rfl

/-- The recogniser reads the statements of the grammar and nothing else. -/
theorem recognise_eq_some_iff {cs rest : List Char} {path : String} :
    recognise cs = some (path, rest) ↔ ∃ target source, IsStatement target source ∧
      path = String.ofList target ∧ cs = source ++ rest := by
  constructor
  · exact exists_statement_of_recognise
  · rintro ⟨target, source, hsource, rfl, rfl⟩
    exact recognise_statement hsource rest

end Import

/-! ## Scanning -/

def StartsStatement (cs : List Char) : Prop :=
  ∃ target source rest, IsStatement target source ∧ cs = source ++ rest

theorem IsStatement.ne_nil {target source : List Char} (h : IsStatement target source) :
    source ≠ [] := by
  cases h <;> simp

/-- A text starts with one statement at most. -/
theorem IsStatement.unique {target target' source source' rest rest' : List Char}
    (h : IsStatement target source) (h' : IsStatement target' source')
    (htext : source ++ rest = source' ++ rest') :
    target = target' ∧ source = source' ∧ rest = rest' := by
  have hread := Import.recognise_statement h rest
  have hread' : Import.recognise (source ++ rest) = some (String.ofList target', rest') :=
    Import.recognise_eq_some_iff.2 ⟨target', source', h', rfl, htext⟩
  obtain ⟨htarget, hrest⟩ := Prod.mk.inj (Option.some.inj (hread.symm.trans hread'))
  rw [hrest] at htext
  exact ⟨String.ofList_injective htarget, List.append_cancel_right htext, hrest⟩

theorem recognise_eq_none {cs : List Char} (h : ¬StartsStatement cs) :
    Import.recognise cs = none := by
  rcases hread : Import.recognise cs with _ | ⟨path, rest⟩
  · rfl
  · obtain ⟨target, source, hsource, -, hcs⟩ := Import.recognise_eq_some_iff.1 hread
    exact absurd ⟨target, source, rest, hsource, hcs⟩ h

theorem pieces_statement {target source : List Char} (h : IsStatement target source)
    (rest : List Char) : Text.pieces Import.recognise (source ++ rest) =
      .found (String.ofList target) source :: Text.pieces Import.recognise rest := by
  have hread := Import.recognise_statement h rest
  obtain ⟨c, cs, rfl⟩ := List.exists_cons_of_ne_nil h.ne_nil
  rw [List.cons_append] at hread ⊢
  rw [Text.pieces, hread]
  simp

theorem pieces_plain {c : Char} {cs : List Char} (h : ¬StartsStatement (c :: cs)) :
    Text.pieces Import.recognise (c :: cs) = .plain c :: Text.pieces Import.recognise cs := by
  rw [Text.pieces, recognise_eq_none h]

/-- A text is over, starts with a statement, or starts with a character that is part of none. -/
theorem pieces_cases (cs : List Char) : cs = [] ∨
    (∃ target source rest, IsStatement target source ∧ cs = source ++ rest) ∨
    ∃ c rest, cs = c :: rest ∧ ¬StartsStatement (c :: rest) := by
  by_cases h : StartsStatement cs
  · exact .inr (.inl h)
  · cases cs with
    | nil => exact .inl rfl
    | cons c cs => exact .inr (.inr ⟨c, cs, rfl, h⟩)

theorem eq_nil_of_pieces {cs : List Char} (h : Text.pieces Import.recognise cs = []) : cs = [] := by
  obtain rfl | ⟨target, source, rest, hsource, rfl⟩ | ⟨c, rest, rfl, hstart⟩ := pieces_cases cs
  · rfl
  · rw [pieces_statement hsource] at h
    cases h
  · rw [pieces_plain hstart] at h
    cases h

theorem plain_of_pieces {cs : List Char} {c : Char} {pieces : List (Text.Piece String)}
    (h : Text.pieces Import.recognise cs = .plain c :: pieces) :
    ∃ rest, cs = c :: rest ∧ ¬StartsStatement (c :: rest) ∧
      Text.pieces Import.recognise rest = pieces := by
  obtain rfl | ⟨target, source, rest, hsource, rfl⟩ | ⟨c, rest, rfl, hstart⟩ := pieces_cases cs
  · rw [Text.pieces] at h
    cases h
  · rw [pieces_statement hsource] at h
    cases h
  · rw [pieces_plain hstart] at h
    cases h
    exact ⟨rest, rfl, hstart, rfl⟩

theorem statement_of_pieces {cs source : List Char} {name : String}
    {pieces : List (Text.Piece String)}
    (h : Text.pieces Import.recognise cs = .found name source :: pieces) :
    ∃ target rest, cs = source ++ rest ∧ IsStatement target source ∧
      name = String.ofList target ∧ Text.pieces Import.recognise rest = pieces := by
  obtain rfl | ⟨target, source, rest, hsource, rfl⟩ | ⟨c, rest, rfl, hstart⟩ := pieces_cases cs
  · rw [Text.pieces] at h
    cases h
  · rw [pieces_statement hsource] at h
    cases h
    exact ⟨target, rest, rfl, hsource, rfl, rfl⟩
  · rw [pieces_plain hstart] at h
    cases h

end Stylesheet

end AssetBundler
