import AssetBundler.Json.Printer
import AssetBundler.Json.Reader
import Mathlib.Tactic.SplitIfs

/-!
# Texts in JSON

A map from texts to texts is read back from its printed form in any layout, in the order in which it was
printed, if no name occurs twice (`read_print`). Each escaped character is read back on its own, so a
quoted text is; and what stands between the fields is a comma and white space. Nothing that is printed
holds a carriage return.
-/

namespace AssetBundler.Json

/-- The escape of a control character is read as its code. -/
theorem exists_unit_of_control {n : Nat} (h : n < 32) :
    ∃ w x y z, hexDigits 4 n = [w, x, y, z] ∧ unit? w x y z = some n := by
  have hall : ∀ i : Fin 32, unit? ((hexDigits 4 i)[0]?.getD '0') ((hexDigits 4 i)[1]?.getD '0')
      ((hexDigits 4 i)[2]?.getD '0') ((hexDigits 4 i)[3]?.getD '0') = some i.1 := by decide
  exact ⟨_, _, _, _, rfl, hall ⟨n, h⟩⟩

theorem stringChar?_control {c : Char} (h : c.toNat < 32) (rest : List Char) :
    stringChar? ('\\' :: 'u' :: hexDigits 4 c.toNat ++ rest) = some (c, rest) := by
  obtain ⟨w, x, y, z, hdigits, hunit⟩ := exists_unit_of_control h
  have hpair : ∀ low, pair? c.toNat low = none := by
    intro low
    unfold pair?
    rw [if_neg]
    omega
  have hchar : unitChar c.toNat = c := by
    unfold unitChar
    rw [if_neg (by omega), Char.ofNat_toNat]
  rw [hdigits]
  simp only [List.cons_append, List.nil_append, stringChar?, hunit]
  split
  · rename_i e f g i more
    have hnone : (unit? e f g i).bind (pair? c.toNat) = none := by
      cases unit? e f g i with
      | none => rfl
      | some low => exact hpair low
    simp only [hnone, hchar]
  · rw [hchar]

theorem stringChar?_escapeChar (c : Char) (rest : List Char) :
    stringChar? (escapeChar c ++ rest) = some (c, rest) := by
  unfold escapeChar
  split_ifs with hquote hn hr ht hb hf hcontrol
  · rcases hquote with rfl | rfl <;> rfl
  · rw [hn]
    rfl
  · rw [hr]
    rfl
  · rw [ht]
    rfl
  · rw [hb]
    rfl
  · rw [hf]
    rfl
  · exact stringChar?_control hcontrol rest
  · rw [not_or] at hquote
    simp [stringChar?, hcontrol, hquote.2]

theorem head?_escapeChar (c : Char) : ∃ d ds, escapeChar c = d :: ds ∧ d ≠ '"' := by
  unfold escapeChar
  split_ifs with hquote
  case neg hcontrol =>
    rw [not_or] at hquote
    exact ⟨c, [], rfl, hquote.1⟩
  all_goals exact ⟨'\\', _, rfl, by decide⟩

theorem string?_succ {fuel : Nat} {c : Char} (h : c ≠ '"') (cs : List Char) :
    string? (fuel + 1) (c :: cs) = (stringChar? (c :: cs)).bind fun read ↦
      (string? fuel read.2).bind fun more ↦ some (read.1 :: more.1, more.2) := by
  rw [string?]
  · rfl
  · rintro _ ⟨⟩
    exact h rfl

/-- Escaped characters are read back up to the closing quote. -/
theorem string?_escaped (cs rest : List Char) {fuel : Nat} (h : cs.length ≤ fuel) :
    string? fuel (cs.flatMap escapeChar ++ '"' :: rest) = some (cs, rest) := by
  induction cs generalizing fuel with
  | nil => cases fuel <;> rfl
  | cons c cs ih =>
    cases fuel with
    | zero => simp at h
    | succ fuel =>
      obtain ⟨d, ds, hescape, hd⟩ := head?_escapeChar c
      have hread := stringChar?_escapeChar c (cs.flatMap escapeChar ++ '"' :: rest)
      rw [hescape, List.cons_append] at hread
      rw [List.flatMap_cons, hescape, List.append_assoc, List.cons_append, string?_succ hd, hread]
      simp only [Option.bind_some]
      rw [ih (by simpa using h)]
      rfl

theorem length_le_flatMap_escapeChar (cs : List Char) :
    cs.length ≤ (cs.flatMap escapeChar).length := by
  induction cs with
  | nil => exact Nat.le_refl 0
  | cons c cs ih =>
    obtain ⟨d, ds, hescape, -⟩ := head?_escapeChar c
    rw [List.flatMap_cons, List.length_append, hescape, List.length_cons, List.length_cons]
    omega

theorem quote_append (s : String) (rest : List Char) :
    quote s ++ rest = '"' :: (s.toList.flatMap escapeChar ++ '"' :: rest) := by
  simp [quote]

theorem length_lt_quote (s : String) : s.toList.length + 1 < (quote s).length := by
  have hle := length_le_flatMap_escapeChar s.toList
  simp only [quote, List.cons_append, List.length_cons, List.length_append, List.length_nil]
  omega

theorem string_escaped (s : String) (rest : List Char) {fuel : Nat} (h : s.toList.length ≤ fuel) :
    string fuel (s.toList.flatMap escapeChar ++ '"' :: rest) = .ok (s, rest) := by
  unfold string
  rw [string?_escaped _ _ h]
  simp

theorem value_quote (s : String) (rest : List Char) {fuel : Nat} (h : s.toList.length ≤ fuel) :
    value (fuel + 1) (quote s ++ rest) = .ok (.text s, rest) := by
  rw [quote_append, value, string_escaped s rest h]
  rfl

def IsBlank (cs : List Char) : Prop := ∀ c ∈ cs, isSpace c = true

theorem skipSpace_append {blank : List Char} (h : IsBlank blank) (rest : List Char) :
    skipSpace (blank ++ rest) = skipSpace rest :=
  List.dropWhile_append_of_pos h

theorem skipSpace_cons {c : Char} (h : isSpace c = false) (rest : List Char) :
    skipSpace (c :: rest) = c :: rest := List.dropWhile_cons_of_neg (by simp [h])

theorem isBlank_lineBreak (layout : Layout) (depth : Nat) : IsBlank (layout.lineBreak depth) := by
  intro c hc
  cases layout with
  | oneLine => cases hc
  | indented width =>
    rcases List.mem_cons.1 hc with rfl | hc
    · rfl
    · rw [(List.mem_replicate.1 hc).2]
      rfl

/-- Between items stand a comma and white space. -/
theorem exists_itemSeparator (layout : Layout) :
    ∃ blank, layout.itemSeparator = ',' :: blank ∧ IsBlank blank := by
  cases layout with
  | oneLine => exact ⟨[' '], rfl, by simp [IsBlank, isSpace]⟩
  | indented width => exact ⟨[], rfl, by simp [IsBlank]⟩

/-- Texts as the fields of a map. -/
def textFields (entries : List (String × String)) : Value.Fields :=
  entries.map fun e ↦ (.text e.1, .text e.2)

/-- The printed form of one field. -/
def fieldText (e : String × String) : List Char := quote e.1 ++ ':' :: ' ' :: quote e.2

theorem renderFields_textFields (layout : Layout) (depth : Nat) (entries : List (String × String)) :
    renderFields layout depth (textFields entries) = entries.map fieldText := by
  induction entries with
  | nil => simp [textFields, renderFields]
  | cons e entries ih =>
    have hcons : textFields (e :: entries) = (.text e.1, .text e.2) :: textFields entries := rfl
    rw [hcons, renderFields, ih]
    simp [fieldText, fieldName, render, scalar]

theorem text_beq (s t : String) : (Value.text s == Value.text t) = (s == t) := by
  simp [BEq.beq, Value.beq]

/-- A new name goes to the end. -/
theorem insert_textFields {entries : List (String × String)} {name : String}
    (h : name ∉ entries.map Prod.fst) (value : String) :
    (textFields entries).insert (.text name) (.text value) = textFields (entries ++ [(name, value)]) := by
  induction entries with
  | nil => rfl
  | cons e entries ih =>
    rw [List.map_cons, List.mem_cons, not_or] at h
    have hne : (Value.text e.1 == Value.text name) = false := by
      rw [text_beq]
      exact beq_eq_false_iff_ne.2 (Ne.symm h.1)
    have hcons : textFields (e :: entries) = (.text e.1, .text e.2) :: textFields entries := rfl
    rw [hcons, Value.Fields.insert]
    simp only [hne, Bool.false_eq_true, if_false]
    rw [ih h.2]
    rfl

/-- One field is read, and then what comes after it decides. -/
theorem fields_fieldText (e : String × String) (read : Value.Fields) (tail : List Char) {fuel : Nat}
    (h : (fieldText e).length ≤ fuel) :
    fields (fuel + 1) read (fieldText e ++ tail) = match skipSpace tail with
      | ',' :: rest => fields fuel (read.insert (.text e.1) (.text e.2)) (skipSpace rest)
      | '}' :: rest => .ok (.map (read.insert (.text e.1) (.text e.2)), rest)
      | _ => .error .malformed := by
  have hname := length_lt_quote e.1
  have hvalue := length_lt_quote e.2
  simp only [fieldText, List.length_append, List.length_cons] at h
  obtain ⟨fuel, rfl⟩ : ∃ n, fuel = n + 1 := ⟨fuel - 1, by omega⟩
  rw [fieldText, List.append_assoc, List.cons_append, List.cons_append, quote_append]
  rw [fields, string_escaped _ _ (by omega)]
  simp only [bind, Except.bind, skipSpace_cons (show isSpace ':' = false from rfl)]
  have hskip : skipSpace (' ' :: (quote e.2 ++ tail)) = quote e.2 ++ tail := by
    rw [quote_append]
    rfl
  rewrite [hskip, value_quote _ _ (by omega)]
  rfl

/-- The fields of a map as they stand between its braces. -/
def fieldsText (layout : Layout) (depth : Nat) (entries : List (String × String)) : List Char :=
  (layout.itemSeparator ++ layout.lineBreak depth).intercalate (entries.map fieldText)

theorem fieldsText_cons_cons (layout : Layout) (depth : Nat) (e next : String × String)
    (entries : List (String × String)) : fieldsText layout depth (e :: next :: entries) =
      fieldText e ++ (layout.itemSeparator ++ (layout.lineBreak depth ++
        fieldsText layout depth (next :: entries))) := by
  unfold fieldsText
  rw [List.map_cons, List.map_cons, List.intercalate_cons_cons, List.append_assoc, List.append_assoc]

/-- Fields start with the quote of the first name. -/
theorem exists_fieldsText_eq (layout : Layout) (depth : Nat) (e : String × String)
    (entries : List (String × String)) :
    ∃ more, fieldsText layout depth (e :: entries) = '"' :: more := by
  cases entries with
  | nil => exact ⟨_, List.intercalate_singleton⟩
  | cons next entries =>
    rw [fieldsText_cons_cons]
    exact ⟨_, rfl⟩

theorem skipSpace_fieldsText (layout : Layout) (depth : Nat) (e : String × String)
    (entries : List (String × String)) (tail : List Char) :
    skipSpace (fieldsText layout depth (e :: entries) ++ tail) =
      fieldsText layout depth (e :: entries) ++ tail := by
  obtain ⟨more, hmore⟩ := exists_fieldsText_eq layout depth e entries
  rw [hmore]
  rfl

/-- The fields after the opening brace are read back. -/
theorem fields_fieldsText (layout : Layout) (depth : Nat) (e : String × String)
    (entries before : List (String × String)) (rest : List Char)
    (hnodup : ((before ++ e :: entries).map Prod.fst).Nodup) {fuel : Nat}
    (h : (fieldsText layout (depth + 1) (e :: entries)).length < fuel) :
    fields fuel (textFields before)
      (fieldsText layout (depth + 1) (e :: entries) ++ (layout.lineBreak depth ++ '}' :: rest)) =
      .ok (.map (textFields (before ++ e :: entries)), rest) := by
  obtain ⟨fuel, rfl⟩ : ∃ n, fuel = n + 1 := ⟨fuel - 1, by omega⟩
  have hnew : e.1 ∉ before.map Prod.fst := by
    rw [List.map_append, List.map_cons] at hnodup
    intro hmem
    exact (List.nodup_append.1 hnodup).2.2 e.1 hmem e.1 (List.mem_cons_self ..) rfl
  induction entries generalizing e before fuel with
  | nil =>
    have hsingle : fieldsText layout (depth + 1) [e] = fieldText e := List.intercalate_singleton
    rw [hsingle] at h ⊢
    rw [fields_fieldText _ _ _ (by omega), skipSpace_append (isBlank_lineBreak layout depth),
      skipSpace_cons rfl, insert_textFields hnew]
    rfl
  | cons next entries ih =>
    obtain ⟨blank, hseparator, hblank⟩ := exists_itemSeparator layout
    rw [fieldsText_cons_cons] at h ⊢
    simp only [List.length_append] at h
    have hsplit : before ++ e :: next :: entries = (before ++ [e]) ++ next :: entries := by simp
    rw [hsplit] at hnodup ⊢
    rw [List.append_assoc, fields_fieldText _ _ _ (by omega), hseparator, List.append_assoc,
      List.cons_append, skipSpace_cons rfl]
    simp only
    rw [skipSpace_append hblank, List.append_assoc, skipSpace_append (isBlank_lineBreak _ _),
      skipSpace_fieldsText, insert_textFields hnew]
    have hseparatorLength : 0 < layout.itemSeparator.length := by simp [hseparator]
    obtain ⟨fuel, rfl⟩ : ∃ n, fuel = n + 1 := ⟨fuel - 1, by omega⟩
    have hnext : next.1 ∉ (before ++ [e]).map Prod.fst := by
      rw [List.map_append, List.map_cons] at hnodup
      intro hmem
      exact (List.nodup_append.1 hnodup).2.2 next.1 hmem next.1 (List.mem_cons_self ..) rfl
    exact ih next (before ++ [e]) hnodup fuel (by omega) hnext

theorem print_textFields (layout : Layout) (e : String × String) (entries : List (String × String)) :
    (print layout (.map (textFields (e :: entries)))).toList =
      '{' :: (layout.lineBreak 1 ++ (fieldsText layout 1 (e :: entries) ++
        (layout.lineBreak 0 ++ ['}']))) := by
  unfold print
  rw [String.toList_ofList, render, renderFields_textFields]
  simp [Layout.enclose, fieldsText]

/-- A map of texts is read back from what is printed, in any layout. -/
theorem read_print (layout : Layout) {entries : List (String × String)}
    (h : (entries.map Prod.fst).Nodup) :
    read (print layout (.map (textFields entries))) = .ok (.map (textFields entries)) := by
  cases entries with
  | nil =>
    have hempty : (print layout (.map (textFields []))).toList = ['{', '}'] := by
      simp [print, render, textFields, renderFields, Layout.enclose]
    unfold read
    rw [hempty]
    rfl
  | cons e entries =>
    unfold read
    rw [print_textFields]
    generalize htail : layout.lineBreak 0 ++ ['}'] = tail
    generalize htext : fieldsText layout 1 (e :: entries) = text
    have hskip : skipSpace (layout.lineBreak 1 ++ (text ++ tail)) = text ++ tail := by
      rw [skipSpace_append (isBlank_lineBreak _ _), ← htext, skipSpace_fieldsText]
    have hfields : fields ('{' :: (layout.lineBreak 1 ++ (text ++ tail))).length [] (text ++ tail) =
        .ok (.map (textFields (e :: entries)), []) := by
      rw [← htext, ← htail]
      refine fields_fieldsText layout 0 e entries [] [] h ?_
      simp only [List.length_cons, List.length_append, Nat.zero_add]
      omega
    obtain ⟨more, hmore⟩ : ∃ more, text ++ tail = '"' :: more := by
      obtain ⟨more, hmore⟩ := exists_fieldsText_eq layout 1 e entries
      exact ⟨more ++ tail, by rw [← htext, hmore, List.cons_append]⟩
    have hread : value (('{' :: (layout.lineBreak 1 ++ (text ++ tail))).length + 1)
        ('{' :: (layout.lineBreak 1 ++ (text ++ tail))) =
          .ok (.map (textFields (e :: entries)), []) := by
      simp only [value]
      rw [hskip, hmore]
      rwa [hmore] at hfields
    simp only
    rw [skipSpace_cons rfl, hread]
    rfl

/-! ## Carriage returns -/

theorem not_mem_escapeChar (c : Char) : '\r' ∉ escapeChar c := by
  have hdigits : ∀ i : Fin 32, '\r' ∉ hexDigits 4 i := by decide
  unfold escapeChar
  split_ifs with hquote hn hr ht hb hf hcontrol
  · rcases hquote with rfl | rfl <;> decide
  · decide
  · decide
  · decide
  · decide
  · decide
  · have hnot := hdigits ⟨c.toNat, hcontrol⟩
    simp only [List.mem_cons, not_or]
    exact ⟨by decide, by decide, hnot⟩
  · rw [List.mem_singleton]
    exact fun heq ↦ hr heq.symm

theorem not_mem_quote (s : String) : '\r' ∉ quote s := by
  have hbody : '\r' ∉ s.toList.flatMap escapeChar := by
    rw [List.mem_flatMap]
    rintro ⟨c, -, hc⟩
    exact not_mem_escapeChar c hc
  simp only [quote, List.cons_append, List.mem_cons, List.mem_append, List.not_mem_nil, or_false,
    not_or]
  exact ⟨by decide, hbody, by decide⟩

theorem not_mem_lineBreak (layout : Layout) (depth : Nat) : '\r' ∉ layout.lineBreak depth := by
  cases layout with
  | oneLine => exact List.not_mem_nil
  | indented width =>
    rw [Layout.lineBreak, List.mem_cons, not_or]
    refine ⟨by decide, fun hmem ↦ ?_⟩
    exact absurd (List.mem_replicate.1 hmem).2 (by decide)

theorem not_mem_itemSeparator (layout : Layout) : '\r' ∉ layout.itemSeparator := by
  cases layout with
  | oneLine => decide
  | indented width => exact (by decide : '\r' ∉ [','])

theorem not_mem_fieldText (e : String × String) : '\r' ∉ fieldText e := by
  simp only [fieldText, List.mem_append, List.mem_cons, not_or]
  exact ⟨not_mem_quote e.1, by decide, by decide, not_mem_quote e.2⟩

theorem not_mem_fieldsText (layout : Layout) (depth : Nat) (entries : List (String × String)) :
    '\r' ∉ fieldsText layout depth entries := by
  induction entries with
  | nil => exact List.not_mem_nil
  | cons e entries ih =>
    cases entries with
    | nil =>
      have hsingle : fieldsText layout depth [e] = fieldText e := List.intercalate_singleton
      rw [hsingle]
      exact not_mem_fieldText e
    | cons next entries =>
      rw [fieldsText_cons_cons]
      simp only [List.mem_append, not_or]
      exact ⟨not_mem_fieldText e, not_mem_itemSeparator layout, not_mem_lineBreak layout depth, ih⟩

/-- No carriage return is printed as such. -/
theorem not_mem_print (layout : Layout) (entries : List (String × String)) :
    '\r' ∉ (print layout (.map (textFields entries))).toList := by
  cases entries with
  | nil => simp [print, render, textFields, renderFields, Layout.enclose]
  | cons e entries =>
    rw [print_textFields]
    simp only [List.mem_cons, List.mem_append, List.not_mem_nil, or_false, not_or]
    exact ⟨by decide, not_mem_lineBreak layout 1, not_mem_fieldsText layout 1 _,
      not_mem_lineBreak layout 0, by decide⟩

end AssetBundler.Json
