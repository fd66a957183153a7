import AssetBundler.Path
import Mathlib.Tactic.Tauto

/-!
# The text of a path

A name is a text that can stand between the slashes of a path. Texts joined by a slash spell the names
of both, so a path of names is read back from its text (`ofText_text`), and joining a text below a
path puts the names it spells there.
-/

namespace AssetBundler

namespace Text

theorem split_append_cons (sep : Char) (cs ds : List Char) :
    split sep (cs ++ sep :: ds) = split sep cs ++ split sep ds := by
  induction cs with
  | nil => simp [split]
  | cons c cs ih =>
    by_cases hc : c = sep
    · simp [split, hc, ih]
    · cases hs : split sep cs with
      | nil => exact absurd hs (split_ne_nil sep cs)
      | cons piece pieces => simp [split, hc, ih, hs]

theorem split_of_not_mem {sep : Char} {cs : List Char} (h : sep ∉ cs) : split sep cs = [cs] := by
  induction cs with
  | nil => rfl
  | cons c cs ih =>
    rw [List.mem_cons, not_or] at h
    simp [split, Ne.symm h.1, ih h.2]

theorem not_mem_of_mem_split {sep : Char} {cs piece : List Char} (h : piece ∈ split sep cs) :
    sep ∉ piece := by
  induction cs generalizing piece with
  | nil =>
    simp only [split, List.mem_singleton] at h
    simp [h]
  | cons c cs ih =>
    by_cases hc : c = sep
    · simp only [split, hc, if_true, List.mem_cons] at h
      rcases h with rfl | h
      · simp
      · exact ih h
    · cases hs : split sep cs with
      | nil => exact absurd hs (split_ne_nil sep cs)
      | cons first pieces =>
        simp only [split, hc, if_false, hs, List.mem_cons] at h
        rw [hs] at ih
        rcases h with rfl | h
        · rw [List.mem_cons, not_or]
          exact ⟨fun heq ↦ hc heq.symm, ih (List.mem_cons_self ..)⟩
        · exact ih (List.mem_cons_of_mem _ h)

theorem exists_mem_split {sep c : Char} {cs : List Char} (hc : c ∈ cs) (hne : c ≠ sep) :
    ∃ piece ∈ split sep cs, c ∈ piece := by
  induction cs with
  | nil => cases hc
  | cons first cs ih =>
    by_cases hfirst : first = sep
    · have hrest : c ∈ cs := (List.mem_cons.1 hc).resolve_left fun heq ↦ hne (heq.trans hfirst)
      obtain ⟨piece, hpiece, hmem⟩ := ih hrest
      refine ⟨piece, ?_, hmem⟩
      simp only [split, hfirst, if_true]
      exact List.mem_cons_of_mem _ hpiece
    · cases hs : split sep cs with
      | nil => exact absurd hs (split_ne_nil sep cs)
      | cons next pieces =>
        simp only [split, hfirst, if_false, hs]
        rcases List.mem_cons.1 hc with rfl | hrest
        · exact ⟨c :: next, List.mem_cons_self .., List.mem_cons_self ..⟩
        · obtain ⟨piece, hpiece, hmem⟩ := ih hrest
          rw [hs] at hpiece
          rcases List.mem_cons.1 hpiece with rfl | hpiece
          · exact ⟨first :: piece, List.mem_cons_self .., List.mem_cons_of_mem _ hmem⟩
          · exact ⟨piece, List.mem_cons_of_mem _ hpiece, hmem⟩

end Text

namespace Path

structure IsName (s : String) : Prop where
  ne_empty : s ≠ ""
  ne_dot : s ≠ "."
  no_slash : '/' ∉ s.toList

theorem namesOf_append_slash (s t : String) : namesOf (s ++ "/" ++ t) = namesOf s ++ namesOf t := by
  have hsplit : Text.split '/' (s ++ "/" ++ t).toList =
      Text.split '/' s.toList ++ Text.split '/' t.toList := by
    rw [← Text.split_append_cons]
    simp
  unfold namesOf
  rw [hsplit, List.filter_append, List.map_append]

theorem namesOf_of_isName {s : String} (h : IsName s) : namesOf s = [s] := by
  unfold namesOf
  rw [Text.split_of_not_mem h.no_slash, List.filter_cons_of_pos, List.filter_nil, List.map_singleton,
    String.ofList_toList]
  have hdot : s.toList ≠ ['.'] := by
    intro heq
    exact h.ne_dot (String.toList_inj.1 heq)
  simp [h.ne_empty, hdot]

theorem isName_of_mem_namesOf {s name : String} (h : name ∈ namesOf s) : IsName name := by
  unfold namesOf at h
  obtain ⟨piece, hpiece, rfl⟩ := List.mem_map.1 h
  obtain ⟨hmem, hkeep⟩ := List.mem_filter.1 hpiece
  simp only [Bool.and_eq_true, Bool.not_eq_true', List.isEmpty_eq_false_iff, bne_iff_ne] at hkeep
  refine ⟨?_, ?_, ?_⟩
  · intro heq
    exact hkeep.1 (by simpa using congrArg String.toList heq)
  · intro heq
    exact hkeep.2 (by simpa using congrArg String.toList heq)
  · rw [String.toList_ofList]
    exact Text.not_mem_of_mem_split hmem

theorem namesOf_intercalate {names : List String} (h : ∀ name ∈ names, IsName name) :
    namesOf ("/".intercalate names) = names := by
  induction names with
  | nil => rfl
  | cons name names ih =>
    have hname := namesOf_of_isName (h name (List.mem_cons_self ..))
    cases names with
    | nil => rw [String.intercalate_singleton, hname]
    | cons next names =>
      calc
        namesOf ("/".intercalate (name :: next :: names))
          = namesOf name ++ namesOf ("/".intercalate (next :: names)) := by
            rw [String.intercalate_cons_cons, namesOf_append_slash]
        _ = [name] ++ (next :: names) := by
            rw [hname, ih fun n hn ↦ h n (List.mem_cons_of_mem _ hn)]

/-- A text with a character that is neither a slash nor a dot spells a name. -/
theorem namesOf_ne_nil {s : String} {c : Char} (hc : c ∈ s.toList) (hslash : c ≠ '/') (hdot : c ≠ '.') :
    namesOf s ≠ [] := by
  obtain ⟨piece, hpiece, hmem⟩ := Text.exists_mem_split hc hslash
  refine List.ne_nil_of_mem (a := String.ofList piece) ?_
  unfold namesOf
  refine List.mem_map_of_mem (List.mem_filter.2 ⟨hpiece, ?_⟩)
  simp only [Bool.and_eq_true, Bool.not_eq_true', List.isEmpty_eq_false_iff, bne_iff_ne]
  refine ⟨List.ne_nil_of_mem hmem, ?_⟩
  rintro rfl
  exact hdot (List.mem_singleton.1 hmem)

theorem namesOf_slash_append (s : String) : namesOf ("/" ++ s) = namesOf s := by
  have h := namesOf_append_slash "" s
  rwa [String.empty_append] at h

theorem namesOf_anchor_append (a : Anchor) (s : String) : namesOf (a.text ++ s) = namesOf s := by
  cases a with
  | none => rw [Anchor.text, String.empty_append]
  | slash => exact namesOf_slash_append s
  | doubleSlash =>
    calc
      namesOf ("//" ++ s) = namesOf ("/" ++ ("/" ++ s)) := by
        rw [← String.append_assoc, show "/" ++ "/" = "//" by decide]
      _ = namesOf ("/" ++ s) := namesOf_slash_append _
      _ = namesOf s := namesOf_slash_append s

/-- The anchor of a text that does not go on with a slash after it. -/
theorem ofText_anchor_append (a : Anchor) {cs : List Char} (h : cs.head? ≠ some '/') :
    Anchor.ofText (a.text.toList ++ cs) = a := by
  cases cs with
  | nil => cases a <;> decide
  | cons c cs =>
    have hc : c ≠ '/' := fun heq ↦ h (by simp [heq])
    cases a <;> simp [Anchor.text, Anchor.ofText, hc]

theorem anchor_ofText_of_head {s : String} (h : s.toList.head? ≠ some '/') :
    (ofText s).anchor = .none := ofText_anchor_append .none h

theorem exists_head_intercalate {names : List String} (h : ∀ name ∈ names, IsName name)
    (hne : names ≠ []) : ∃ c, ("/".intercalate names).toList.head? = some c ∧ c ≠ '/' := by
  cases names with
  | nil => exact absurd rfl hne
  | cons name names =>
    have hname := h name (List.mem_cons_self ..)
    cases hchars : name.toList with
    | nil => exact absurd (String.toList_eq_nil_iff.1 hchars) hname.ne_empty
    | cons c cs =>
      have hslash := hname.no_slash
      rw [hchars, List.mem_cons, not_or] at hslash
      refine ⟨c, ?_, fun heq ↦ hslash.1 heq.symm⟩
      cases names with
      | nil => rw [String.intercalate_singleton, hchars, List.head?_cons]
      | cons next names =>
        rw [String.intercalate_cons_cons, String.toList_append, String.toList_append, hchars]
        rfl

theorem head_intercalate {names : List String} (h : ∀ name ∈ names, IsName name) :
    ("/".intercalate names).toList.head? ≠ some '/' := by
  by_cases hne : names = []
  · simp [hne]
  · obtain ⟨c, hc, hslash⟩ := exists_head_intercalate h hne
    rw [hc, ne_eq, Option.some.injEq]
    exact hslash

theorem text_eq_append {p : Path} (h : p.anchor ≠ .none ∨ p.names ≠ []) :
    p.text = p.anchor.text ++ "/".intercalate p.names := by
  unfold text
  rw [if_neg]
  rintro ⟨ha, hn⟩
  rcases h with h | h
  · exact h ha
  · exact h hn

theorem namesOf_text {p : Path} (h : ∀ name ∈ p.names, IsName name) : namesOf p.text = p.names := by
  by_cases hempty : p.anchor = .none ∧ p.names = []
  · unfold text
    rw [if_pos hempty, hempty.2]
    decide
  · rw [text_eq_append (by tauto), namesOf_anchor_append, namesOf_intercalate h]

/-- A path of names is the one that its text spells. -/
theorem ofText_text {p : Path} (h : ∀ name ∈ p.names, IsName name) : ofText p.text = p := by
  have hanchor : Anchor.ofText p.text.toList = p.anchor := by
    by_cases hempty : p.anchor = .none ∧ p.names = []
    · unfold text
      rw [if_pos hempty, hempty.1]
      decide
    · rw [text_eq_append (by tauto), String.toList_append]
      exact ofText_anchor_append p.anchor (head_intercalate h)
  unfold ofText
  rw [hanchor, namesOf_text h]

theorem join_of_head {p : Path} {s : String} (h : s.toList.head? ≠ some '/') :
    p.join s = ⟨p.anchor, p.names ++ namesOf s⟩ := by
  unfold join
  simp only [anchor_ofText_of_head h, if_true]
  rfl

theorem join_of_isName {p : Path} {s : String} (h : IsName s) :
    p.join s = ⟨p.anchor, p.names ++ [s]⟩ := by
  rw [join_of_head, namesOf_of_isName h]
  intro heq
  exact h.no_slash (List.mem_of_mem_head? heq)

end Path

end AssetBundler
