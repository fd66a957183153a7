import AssetBundler.Proofs.Directive.Parsing

/-!
# What stripping the directives leaves

A directive is a whole line, also where that line opens a block comment or closes it. Stripping then
leaves a block without its opener or closer, and what is a comment and what is code changes. Main
statement: exactly when every comment is stripped whole or leaves a comment, the processed source has
the comments of the text without their directives, the code of the text and no directive
(`stripsCleanly_iff`).
-/

namespace AssetBundler

open Text (Line)

namespace ParsedSource

/-- A line without its directive. -/
def strip (l : Line) : Line :=
  if Directive.isOn l.text then ⟨[], if l.ending.getLast? = some '\n' then ['\n'] else []⟩ else l

theorem processedLine_eq {directives : List Directive} {lineIndex : Nat} {l : Line}
    (h : (directives.any fun d ↦ d.lineIndex == lineIndex) = Directive.isOn l.text) :
    processedLine directives lineIndex l = (strip l).full := by
  rw [processedLine, strip, h]
  split
  · split <;> rfl
  · rfl

theorem lineIndex_le_of_mem {source : Option Path} {lineIndex : Nat} {ls : List Line}
    {ds : List Directive} (h : Directive.ofLines source lineIndex ls = .ok ds) :
    ∀ d ∈ ds, lineIndex ≤ d.lineIndex := by
  induction ls generalizing lineIndex ds with
  | nil =>
    cases h
    simp
  | cons l ls ih =>
    obtain ⟨found, others, hfound, hothers, rfl⟩ := Directive.ofLines_cons_eq_ok h
    intro d hd
    obtain hd | hd := List.mem_append.1 hd
    · exact ((Directive.ofLine_eq_ok hfound).2 d (Option.mem_toList.1 hd)).ge
    · exact (Nat.le_succ lineIndex).trans (ih hothers d hd)

/-- The line numbers of the directives say which lines are directives. -/
theorem processedLines_eq {source : Option Path} {lineIndex : Nat} {ls : List Line}
    {ds : List Directive} (h : Directive.ofLines source lineIndex ls = .ok ds)
    (earlier : List Directive) (hearlier : ∀ d ∈ earlier, d.lineIndex < lineIndex) :
    processedLines (earlier ++ ds) lineIndex ls = (ls.map fun l ↦ (strip l).full).flatten := by
  induction ls generalizing lineIndex ds earlier with
  | nil => rfl
  | cons l ls ih =>
    obtain ⟨found, others, hfound, hothers, rfl⟩ := Directive.ofLines_cons_eq_ok h
    obtain ⟨hsome, hindex⟩ := Directive.ofLine_eq_ok hfound
    rw [processedLines, List.map_cons, List.flatten_cons, ← List.append_assoc,
      ih hothers (earlier ++ found.toList), List.append_assoc, processedLine_eq]
    · have hothers' := lineIndex_le_of_mem hothers
      rw [← hsome, List.any_append, List.any_append]
      have hbefore : (earlier.any fun d ↦ d.lineIndex == lineIndex) = false :=
        List.any_eq_false.2 fun d hd ↦ by simpa using (hearlier d hd).ne
      have hafter : (others.any fun d ↦ d.lineIndex == lineIndex) = false :=
        List.any_eq_false.2 fun d hd ↦ by simpa using (Nat.lt_of_succ_le (hothers' d hd)).ne'
      rw [hbefore, hafter, Bool.or_false, Bool.false_or]
      cases found with
      | none => rfl
      | some d => simp [hindex d rfl]
    · intro d hd
      obtain hd | hd := List.mem_append.1 hd
      · exact (hearlier d hd).trans (Nat.lt_succ_self lineIndex)
      · rw [hindex d (Option.mem_toList.1 hd)]
        exact Nat.lt_succ_self lineIndex

variable {source : Option Path} {text : List Char} {p : ParsedSource}

theorem processedSource_eq (h : parse source text = .ok p) :
    p.processedSource =
      (((Text.lines text).take (Header.length (Text.lines text))).map fun l ↦
        (strip l).full).flatten ++ (Header.split text).2 := by
  obtain ⟨hheader, hbody, hds⟩ := parse_eq_ok h
  rw [processedSource, processedHeader, hheader, hbody, Header.split, Text.lines_flatten_take]
  exact congrArg (· ++ _) (processedLines_eq hds [] (by simp))

/-- A line feed in front of a text is a blank line of its own. -/
theorem lines_lineFeed (cs : List Char) : Text.lines ('\n' :: cs) = ⟨[], ['\n']⟩ :: Text.lines cs :=
  Text.lines_cons_of_isLineEnd rfl fun ⟨hcr, _⟩ ↦ by simp at hcr

theorem inked_filter_cons (l : Line) (ls : List Line) :
    (Header.inked (l :: ls)).filter (!Directive.isOn ·) =
      Header.inked [strip l] ++ (Header.inked ls).filter (!Directive.isOn ·) := by
  cases hl : Text.isBlankText l.text with
  | true =>
    rw [Header.inked_cons_of_blank hl, strip, Directive.isOn_of_blank hl, if_neg (by simp),
      Header.inked_cons_of_blank hl]
    rfl
  | false =>
    rw [Header.inked_cons hl]
    cases hon : Directive.isOn l.text with
    | true => simp [strip, hon, Header.inked, Text.isBlankText]
    | false => simp [strip, hon, Header.inked, hl]

/-- A line that is kept is read in front of a text, of which it can take in the first blank line. -/
theorem lines_full_append {l : Line} (hl : l.IsComplete) {cs : List Char} {hs bs : List Line}
    (hcs : Text.lines cs = hs ++ bs) : ∃ hs' bs', Text.lines (l.full ++ cs) = hs' ++ bs' ∧
      Header.inked hs' = Header.inked [l] ++ Header.inked hs ∧
      Header.dropBlank bs' = Header.dropBlank bs := by
  by_cases htake : l.TakesFeed cs
  · obtain ⟨hcr, rest, rfl⟩ := htake
    rw [lines_lineFeed] at hcs
    rw [Text.lines_append_feed hl hcr, ← Header.inked_append]
    cases hs with
    | nil =>
      refine ⟨[⟨l.text, ['\r', '\n']⟩], Text.lines rest, rfl, rfl, ?_⟩
      rw [← List.nil_append bs, ← hcs]
      rfl
    | cons first hs =>
      obtain ⟨rfl, hrest⟩ := List.cons.inj hcs
      exact ⟨⟨l.text, ['\r', '\n']⟩ :: hs, bs, congrArg _ hrest, rfl, rfl⟩
  · exact ⟨l :: hs, bs, by rw [Text.lines_append hl htake, hcs, List.cons_append],
      Header.inked_append [l] hs, rfl⟩

/-- What lines without directives are read as in front of a text. Endings can merge, which takes blank
lines away, and nothing else does. -/
theorem lines_strip (cs : List Char) (n : Nat) : ∃ hs bs,
    Text.lines ((((Text.lines cs).take n).map fun l ↦ (strip l).full).flatten ++
      (((Text.lines cs).drop n).map Line.full).flatten) = hs ++ bs ∧
    Header.inked hs = (Header.inked ((Text.lines cs).take n)).filter (!Directive.isOn ·) ∧
    Header.dropBlank bs = Header.dropBlank ((Text.lines cs).drop n) := by
  induction n generalizing cs with
  | zero => exact ⟨[], Text.lines cs, by simp [Text.flatten_lines], rfl, rfl⟩
  | succ n ih =>
    cases hcs : Text.lines cs with
    | nil => exact ⟨[], [], rfl, rfl, rfl⟩
    | cons l ls =>
      obtain ⟨rest, rfl, rfl, hl⟩ := Text.lines_eq_cons hcs
      obtain ⟨hs, bs, hread, hhs, hbs⟩ := ih rest
      rw [List.take_succ_cons, List.drop_succ_cons, List.map_cons, List.flatten_cons,
        inked_filter_cons, ← hhs, List.append_assoc]
      generalize hstripped : (((Text.lines rest).take n).map fun l ↦ (strip l).full).flatten ++
        (((Text.lines rest).drop n).map Line.full).flatten = stripped at hread
      cases hon : Directive.isOn l.text with
      | true =>
        rw [strip, if_pos hon]
        split
        · exact ⟨⟨[], ['\n']⟩ :: hs, bs, by
            rw [List.cons_append, ← hread]; exact lines_lineFeed stripped, rfl, hbs⟩
        · exact ⟨hs, bs, hread, rfl, hbs⟩
      | false =>
        rw [strip, if_neg (by simp [hon])]
        obtain ⟨hl, -⟩ | ⟨hending, rfl⟩ := hl
        · obtain ⟨hs', bs', hread', hhs', hbs'⟩ := lines_full_append hl hread
          exact ⟨hs', bs', hread', hhs', hbs'.trans hbs⟩
        · subst hstripped
          obtain ⟨rfl, rfl⟩ : hs = [] ∧ bs = [] := by simpa [Text.lines] using hread
          exact ⟨[l], [], by simpa [Text.lines] using hcs, by simp, hbs⟩

/-- The lines of a comment that are no directives. -/
def withoutDirectives (K : List (List Char)) : List (List Char) := K.filter (!Directive.isOn ·)

/-- The text without the blank lines it starts with. -/
def dropBlankLines (cs : List Char) : List Char :=
  ((Header.dropBlank (Text.lines cs)).map Line.full).flatten

/-- Stripping the directives of a text takes these lines away and changes no more of what is a comment
and what is code. -/
structure StripsCleanly (source : Option Path) (text : List Char) (p : ParsedSource) : Prop where
  noDirective : ∃ q, parse source p.processedSource = .ok q ∧ q.directives = []
  body : dropBlankLines (Header.split p.processedSource).2 =
    dropBlankLines (Header.split text).2
  comments : Header.comments (Text.lines p.processedSource) =
    ((Header.comments (Text.lines text)).map withoutDirectives).filter (· ≠ [])

theorem dropBlankLines_split (cs : List Char) :
    dropBlankLines (Header.split cs).2 = ((Header.code (Text.lines cs)).map Line.full).flatten := by
  rw [dropBlankLines, Header.split, Text.lines_flatten_drop, Header.code]

/-- Comments that are stripped whole or leave a comment are read back without their directives. -/
theorem header_processedSource (h : parse source text = .ok p)
    (hKs : ∀ K ∈ Header.comments (Text.lines text),
      withoutDirectives K = [] ∨ Header.IsComment (withoutDirectives K)) :
    Header.comments (Text.lines p.processedSource) =
        ((Header.comments (Text.lines text)).map withoutDirectives).filter (· ≠ []) ∧
      Header.code (Text.lines p.processedSource) = Header.code (Text.lines text) := by
  obtain ⟨hs, bs, hread, hhs, hbs⟩ := lines_strip text (Header.length (Text.lines text))
  have hcomments : ∀ K ∈ ((Header.comments (Text.lines text)).map withoutDirectives).filter
      (· ≠ []), Header.IsComment K := by
    intro K hK
    obtain ⟨hmem, hne⟩ := List.mem_filter.1 hK
    obtain ⟨whole, hwhole, rfl⟩ := List.mem_map.1 hmem
    exact (hKs whole hwhole).resolve_left (by simpa using hne)
  have hrun : Header.inked hs =
      (((Header.comments (Text.lines text)).map withoutDirectives).filter (· ≠ [])).flatten := by
    rw [hhs, Header.inked_take_length, List.filter_flatten, List.flatten_filter_ne_nil]
    rfl
  obtain ⟨hread_comments, hread_code⟩ := Header.append_of_comments hcomments hrun bs
  have hcode : Header.dropBlank bs = Header.code (Text.lines text) := hbs
  obtain ⟨hnone, hself⟩ := Header.comments_code (Text.lines text)
  rw [processedSource_eq h, Header.split, hread, hread_comments, hread_code,
    ← Header.comments_dropBlank bs, ← Header.code_dropBlank bs, hcode, hnone, hself,
    List.append_nil]
  exact ⟨rfl, rfl⟩

/-- A header that keeps only lines without directives has no directive. -/
theorem parse_of_kept (h : parse source text = .ok p) {cs : List Char}
    (hcs : ∀ line ∈ (Header.comments (Text.lines cs)).flatten,
      line ∈ (Header.comments (Text.lines text)).flatten ∧ Directive.isOn line = false) :
    ∃ q, parse source cs = .ok q ∧ q.directives = [] := by
  have hlines : Directive.ofLines source 0 (Text.lines (Header.split cs).1) = .ok [] := by
    rw [Header.split, Text.lines_flatten_take]
    refine Directive.ofLines_eq_nil (fun l hl i ↦ ?_) 0
    cases hblank : Text.isBlankText l.text with
    | true => exact Directive.ofLine_of_blank hblank source i
    | false =>
      have hink : l.text ∈ Header.inked ((Text.lines cs).take (Header.length (Text.lines cs))) :=
        List.mem_filter.2 ⟨List.mem_map_of_mem hl, by simp [hblank]⟩
      rw [Header.inked_take_length] at hink
      obtain ⟨hkept, hon⟩ := hcs _ hink
      rw [← Header.inked_take_length] at hkept
      obtain ⟨m, hm, htext⟩ := List.mem_map.1 (List.mem_filter.1 hkept).1
      obtain ⟨j, found, hfound⟩ := Directive.exists_ofLine (parse_eq_ok h).2.2 hm
      rw [htext] at hfound
      exact Directive.ofLine_of_isOn hfound hon i
  refine ⟨⟨(Header.split cs).1, (Header.split cs).2, []⟩, ?_, rfl⟩
  simp only [parse, hlines]
  rfl

/-- Stripping changes nothing but the directives exactly if no comment loses its opener or its closer
and keeps other lines. -/
theorem stripsCleanly_iff (h : parse source text = .ok p) :
    StripsCleanly source text p ↔ ∀ K ∈ Header.comments (Text.lines text),
      withoutDirectives K = [] ∨ Header.IsComment (withoutDirectives K) := by
  constructor
  · intro hlaw K hK
    refine or_iff_not_imp_left.2 fun hne ↦ ?_
    have hmem : withoutDirectives K ∈ Header.comments (Text.lines p.processedSource) := by
      rw [hlaw.comments]
      exact List.mem_filter.2 ⟨List.mem_map_of_mem hK, by simpa using hne⟩
    exact Header.isComment_of_mem_comments hmem
  · intro hKs
    obtain ⟨hcomments, hcode⟩ := header_processedSource h hKs
    refine ⟨parse_of_kept h fun line hline ↦ ?_, ?_, hcomments⟩
    · rw [hcomments, List.flatten_filter_ne_nil] at hline
      obtain ⟨kept, hkept, hline⟩ := List.mem_flatten.1 hline
      obtain ⟨K, hK, rfl⟩ := List.mem_map.1 hkept
      obtain ⟨hmem, hon⟩ := List.mem_filter.1 hline
      exact ⟨List.mem_flatten.2 ⟨K, hK, hmem⟩, by simpa using hon⟩
    · rw [dropBlankLines_split, dropBlankLines_split, hcode]

/-- Directives inside a block and on a line of their own. -/
def insideBlock : List Char :=
  "/* theme\n *= require a\n */\n//= require b\n\nbody;\n".toList

theorem insideBlock_stripsCleanly : ∃ p, parse none insideBlock = .ok p ∧
    p.processedSource = "/* theme\n\n */\n\n\nbody;\n".toList ∧
      StripsCleanly none insideBlock p := by
  have hparse : parse none insideBlock =
      .ok ⟨"/* theme\n *= require a\n */\n//= require b\n".toList, "\nbody;\n".toList,
        [⟨1, "require", ["a"]⟩, ⟨3, "require", ["b"]⟩]⟩ :=
    Action.eq_ok_of_toOption (by decide +kernel)
  exact ⟨_, hparse, by decide +kernel, (stripsCleanly_iff hparse).2 (by decide +kernel)⟩

/-- The directive closes the block. -/
def closingBlock : List Char := "/* theme\n *= require a */\nbody;\n/* end */\n".toList

/-- The directive opens the block. -/
def openingBlock : List Char := "/*= require a\n * theme */\nbody;\n".toList

/-- Where a directive closes a block the code after it is commented out, and where one opens a block the
rest of the comment becomes code. -/
theorem stripping_moves_code :
    (∃ p, parse none closingBlock = .ok p ∧
      dropBlankLines (Header.split closingBlock).2 = "body;\n/* end */\n".toList ∧
      dropBlankLines (Header.split p.processedSource).2 = []) ∧
    ∃ p, parse none openingBlock = .ok p ∧
      dropBlankLines (Header.split openingBlock).2 = "body;\n".toList ∧
      dropBlankLines (Header.split p.processedSource).2 = " * theme */\nbody;\n".toList := by
  have hclosing : parse none closingBlock =
      .ok ⟨"/* theme\n *= require a */\n".toList, "body;\n/* end */\n".toList,
        [⟨1, "require", ["a"]⟩]⟩ := Action.eq_ok_of_toOption (by decide +kernel)
  have hopening : parse none openingBlock =
      .ok ⟨"/*= require a\n * theme */\n".toList, "body;\n".toList, [⟨0, "require", ["a"]⟩]⟩ :=
    Action.eq_ok_of_toOption (by decide +kernel)
  exact ⟨⟨_, hclosing, by decide +kernel, by decide +kernel⟩,
    ⟨_, hopening, by decide +kernel, by decide +kernel⟩⟩

end ParsedSource

end AssetBundler
