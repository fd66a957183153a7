import AssetBundler.Proofs.Json.RoundTrip
import Mathlib.Data.List.Forall2

/-!
# The grammar of JSON objects

The standard grammar of JSON for objects whose fields are texts, as a relation between what is written and
the fields that it stands for. It knows neither the reader nor the printer. Main statement: what is printed
for a map of texts, in any layout, is an object with these fields in this order (`isObject_print`).
-/

namespace AssetBundler.Json

/-- The letters that stand for a character after a backslash. -/
def shortEscapes : List (Char × Char) :=
  [('"', '"'), ('\\', '\\'), ('/', '/'), ('b', '\x08'), ('f', '\x0c'), ('n', '\n'), ('r', '\r'),
    ('t', '\t')]

/-- The ways to write a character inside quotes. A code of four digits is no surrogate, since it is the
code of a character. -/
inductive IsCharacter : List Char → Char → Prop where
  | plain {c : Char} (hcontrol : 0x20 ≤ c.toNat) (hquote : c ≠ '"') (hescape : c ≠ '\\') :
      IsCharacter [c] c
  | short {letter c : Char} (h : (letter, c) ∈ shortEscapes) : IsCharacter ['\\', letter] c
  | code {x y z w c : Char} (h : unit? x y z w = some c.toNat) :
      IsCharacter ['\\', 'u', x, y, z, w] c
  | surrogates {x y z w x' y' z' w' c : Char} {high low : Nat} (hhigh : unit? x y z w = some high)
      (hlow : unit? x' y' z' w' = some low) (hhigh_range : 0xD800 ≤ high ∧ high < 0xDC00)
      (hlow_range : 0xDC00 ≤ low ∧ low < 0xE000)
      (hc : c.toNat = 0x10000 + (high - 0xD800) * 0x400 + (low - 0xDC00)) :
      IsCharacter ['\\', 'u', x, y, z, w, '\\', 'u', x', y', z', w'] c

/-- A text is written between quotes, one character after another. -/
inductive IsQuoted : List Char → String → Prop where
  | quotes {parts : List (List Char)} {s : String} (h : List.Forall₂ IsCharacter parts s.toList) :
      IsQuoted ('"' :: (parts.flatten ++ ['"'])) s

/-- A field is a name, a colon and a value, with white space around each of them. -/
inductive IsField : List Char → String × String → Prop where
  | colon {before gap gap' after name value : List Char} {e : String × String} (hname : IsQuoted name e.1)
      (hvalue : IsQuoted value e.2) (hbefore : IsBlank before) (hgap : IsBlank gap)
      (hgap' : IsBlank gap') (hafter : IsBlank after) :
      IsField (before ++ (name ++ (gap ++ ':' :: (gap' ++ (value ++ after))))) e

/-- An object is its fields with commas between them, in braces with white space around them. -/
inductive IsObject : List Char → List (String × String) → Prop where
  | empty {before gap after : List Char} (hbefore : IsBlank before) (hgap : IsBlank gap)
      (hafter : IsBlank after) : IsObject (before ++ '{' :: (gap ++ '}' :: after)) []
  | fields {before after : List Char} {texts : List (List Char)} {e : String × String}
      {entries : List (String × String)} (h : List.Forall₂ IsField texts (e :: entries))
      (hbefore : IsBlank before) (hafter : IsBlank after) :
      IsObject (before ++ '{' :: ([','].intercalate texts ++ '}' :: after)) (e :: entries)

theorem isBlank_nil : IsBlank [] := fun _ hc ↦ nomatch hc

theorem IsBlank.append {cs ds : List Char} (hcs : IsBlank cs) (hds : IsBlank ds) : IsBlank (cs ++ ds) := by
  intro c hc
  rcases List.mem_append.1 hc with hc | hc
  · exact hcs c hc
  · exact hds c hc

theorem isCharacter_escapeChar (c : Char) : IsCharacter (escapeChar c) c := by
  unfold escapeChar
  split_ifs with hquote hn hr ht hb hf hcontrol
  · rcases hquote with rfl | rfl <;> exact .short (by decide)
  · exact .short (hn ▸ by decide)
  · exact .short (hr ▸ by decide)
  · exact .short (ht ▸ by decide)
  · exact .short (hb ▸ by decide)
  · exact .short (hf ▸ by decide)
  · obtain ⟨x, y, z, w, hdigits, hunit⟩ := exists_unit_of_control hcontrol
    rw [hdigits]
    exact .code hunit
  · rw [not_or] at hquote
    exact .plain (Nat.le_of_not_lt hcontrol) hquote.1 hquote.2

theorem isQuoted_quote (s : String) : IsQuoted (quote s) s := by
  have hparts : List.Forall₂ IsCharacter (s.toList.map escapeChar) s.toList :=
    List.forall₂_map_left_iff.2 (List.forall₂_same.2 fun c _ ↦ isCharacter_escapeChar c)
  have hquote : quote s = '"' :: ((s.toList.map escapeChar).flatten ++ ['"']) := by
    rw [← List.flatMap_def]
    rfl
  rw [hquote]
  exact .quotes hparts

/-- A printed field is one with any white space around it. -/
theorem isField_around {before after : List Char} (hbefore : IsBlank before) (hafter : IsBlank after)
    (e : String × String) : IsField (before ++ (fieldText e ++ after)) e := by
  have hblank : IsBlank [' '] := by simp [IsBlank, isSpace]
  have hfield := IsField.colon (isQuoted_quote e.1) (isQuoted_quote e.2) hbefore isBlank_nil hblank hafter
  simpa [fieldText] using hfield

/-- What is printed between braces are fields with commas between them: the white space after a comma
belongs to the next field, and what stands before and after all of them to the first and the last. -/
theorem exists_fields (layout : Layout) (depth : Nat) {before after : List Char} (hbefore : IsBlank before)
    (hafter : IsBlank after) (e : String × String) (entries : List (String × String)) :
    ∃ texts, List.Forall₂ IsField texts (e :: entries) ∧
      [','].intercalate texts = before ++ (fieldsText layout depth (e :: entries) ++ after) := by
  induction entries generalizing e before with
  | nil =>
    have hsingle : fieldsText layout depth [e] = fieldText e := List.intercalate_singleton
    refine ⟨[before ++ (fieldText e ++ after)], ?_, ?_⟩
    · exact .cons (isField_around hbefore hafter e) .nil
    · rw [hsingle, List.intercalate_singleton]
  | cons next entries ih =>
    obtain ⟨blank, hseparator, hblank⟩ := exists_itemSeparator layout
    obtain ⟨texts, htexts, hrest⟩ := ih (hblank.append (isBlank_lineBreak layout depth)) next
    cases htexts with
    | @cons text _ texts _ htext htexts =>
      refine ⟨(before ++ (fieldText e ++ [])) :: text :: texts, ?_, ?_⟩
      · exact .cons (isField_around hbefore isBlank_nil e) (.cons htext htexts)
      · rw [List.intercalate_cons_cons, hrest, fieldsText_cons_cons, hseparator]
        simp only [List.append_assoc, List.cons_append, List.nil_append]

/-- A map of texts is printed as an object with these fields. -/
theorem isObject_print (layout : Layout) (entries : List (String × String)) :
    IsObject (print layout (.map (textFields entries))).toList entries := by
  cases entries with
  | nil =>
    have hempty : (print layout (.map (textFields []))).toList = ['{', '}'] := by
      simp [print, render, textFields, renderFields, Layout.enclose]
    rw [hempty]
    exact .empty isBlank_nil isBlank_nil isBlank_nil
  | cons e entries =>
    obtain ⟨texts, htexts, hprinted⟩ := exists_fields layout 1 (isBlank_lineBreak layout 1)
      (isBlank_lineBreak layout 0) e entries
    have hobject := IsObject.fields htexts isBlank_nil isBlank_nil
    rw [hprinted] at hobject
    rw [print_textFields]
    simpa using hobject

end AssetBundler.Json
