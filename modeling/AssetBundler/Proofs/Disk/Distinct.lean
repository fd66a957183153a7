import AssetBundler.Proofs.Disk.Heritable

/-!
# Trees without two entries of one name

In a tree where the entries of each folder have different names, what is met when everything below a node
is gone through is what the place of it leads to (`Node.get?_of_mem_descendants`). No operation gives a
folder a second entry of a name (`Node.isHeritable_hasDistinctNames`).
-/

namespace AssetBundler.Node

mutual

/-- No folder has two entries of one name. -/
def HasDistinctNames : Node → Prop
  | .file .. => True
  | .folder _ entries => AreDistinct entries

def AreDistinct : List (String × Node) → Prop
  | [] => True
  | (name, n) :: rest => (∀ e ∈ rest, e.1 ≠ name) ∧ HasDistinctNames n ∧ AreDistinct rest

end

mutual

def decideHasDistinctNames : (n : Node) → Decidable n.HasDistinctNames
  | .file .. => .isTrue trivial
  | .folder _ entries => decideAreDistinct entries

def decideAreDistinct : (entries : List (String × Node)) → Decidable (AreDistinct entries)
  | [] => .isTrue trivial
  | (_, n) :: rest =>
    have := decideHasDistinctNames n
    have := decideAreDistinct rest
    inferInstanceAs (Decidable (_ ∧ _ ∧ _))

end

instance (n : Node) : Decidable n.HasDistinctNames := decideHasDistinctNames n

theorem areDistinct_filter {entries : Entries} (h : AreDistinct entries)
    (keep : String × Node → Bool) : AreDistinct (entries.filter keep) := by
  induction entries with
  | nil => exact h
  | cons e rest ih =>
    rw [List.filter_cons]
    split
    · exact ⟨fun d hd ↦ h.1 d (List.mem_filter.1 hd).1, h.2.1, ih h.2.2⟩
    · exact ih h.2.2

theorem hasDistinctNames_of_get? {entries : Entries} (h : AreDistinct entries) (name : String) :
    ∀ n ∈ Entries.get? entries name, n.HasDistinctNames := by
  induction entries with
  | nil => exact fun _ hn ↦ nomatch hn
  | cons e rest ih =>
    rw [Entries.get?_cons]
    split
    · exact fun n hn ↦ Option.some.inj hn ▸ h.2.1
    · exact ih h.2.2

/-- Rewriting an entry brings no name but its own. -/
theorem name_of_mem_alter {f : Option Node → Option Node} {name : String} {entries : Entries}
    {e : String × Node} (he : e ∈ Entries.alter name f entries) :
    e.1 = name ∨ ∃ d ∈ entries, d.1 = e.1 := by
  induction entries with
  | nil =>
    obtain ⟨n, -, rfl⟩ := Option.map_eq_some_iff.1 (Option.mem_toList.1 he)
    exact .inl rfl
  | cons first rest ih =>
    have hrest : (∃ d ∈ rest, d.1 = e.1) → ∃ d ∈ first :: rest, d.1 = e.1 :=
      fun ⟨d, hd, hname⟩ ↦ ⟨d, List.mem_cons_of_mem _ hd, hname⟩
    rw [Entries.alter] at he
    split at he
    · split at he
      · rcases List.mem_cons.1 he with rfl | he
        · exact .inl rfl
        · exact .inr (hrest ⟨e, he, rfl⟩)
      · exact .inr (hrest ⟨e, (List.mem_filter.1 he).1, rfl⟩)
    · rcases List.mem_cons.1 he with rfl | he
      · exact .inr ⟨e, List.mem_cons_self .., rfl⟩
      · exact (ih he).imp_right hrest

theorem areDistinct_alter {f : Option Node → Option Node} (hf : Keeps HasDistinctNames f)
    (name : String) {entries : Entries} (h : AreDistinct entries) :
    AreDistinct (Entries.alter name f entries) := by
  induction entries with
  | nil =>
    rw [Entries.alter]
    cases hmade : f none with
    | none => exact h
    | some n => exact ⟨List.forall_mem_nil _, hf none (by simp) n hmade, trivial⟩
  | cons e rest ih =>
    rw [Entries.alter]
    split
    · next hname =>
      subst hname
      split
      · next n hmade =>
        exact ⟨h.1, hf (some e.2) (fun m hm ↦ Option.some.inj hm ▸ h.2.1) n hmade, h.2.2⟩
      · exact areDistinct_filter h.2.2 _
    · next hname =>
      refine ⟨fun d hd ↦ ?_, h.2.1, ih h.2.2⟩
      rcases name_of_mem_alter hd with hd | ⟨c, hc, hd⟩
      · rw [hd]
        exact Ne.symm hname
      · rw [← hd]
        exact h.1 c hc

theorem isHeritable_hasDistinctNames : IsHeritable (fun _ ↦ True) HasDistinctNames where
  file _ _ := trivial
  empty _ := trivial
  time _ _ _ h := h
  entry h := hasDistinctNames_of_get? h
  alter h hf _ := areDistinct_alter hf _ h

mutual

theorem get?_of_mem_descendants : ∀ {n : Node}, n.HasDistinctNames → ∀ e ∈ n.descendants,
    get? e.1 n = some e.2
  | .file .., _, _, he => nomatch he
  | .folder _ _, h, e, he => by
    obtain ⟨name, below, hplace, -, hget⟩ := get?_of_mem_descendantsOf h e he
    rw [hplace]
    exact hget

/-- An entry is met below the first name of its place, which is one of the names of the folder. -/
theorem get?_of_mem_descendantsOf : ∀ {entries : List (String × Node)}, AreDistinct entries →
    ∀ e ∈ descendantsOf entries, ∃ name below, e.1 = name :: below ∧
      (∃ d ∈ entries, d.1 = name) ∧ (Entries.get? entries name).bind (get? below) = some e.2
  | [], _, _, he => nomatch he
  | (first, n) :: rest, h, e, he => by
    have hself : Entries.get? ((first, n) :: rest) first = some n := by
      rw [Entries.get?_cons, if_pos rfl]
    rw [descendantsOf, List.cons_append, List.mem_cons, List.mem_append, List.mem_map] at he
    rcases he with rfl | ⟨below, hbelow, rfl⟩ | hrest
    · exact ⟨first, [], rfl, ⟨_, List.mem_cons_self .., rfl⟩, by rw [hself]; rfl⟩
    · refine ⟨first, below.1, rfl, ⟨_, List.mem_cons_self .., rfl⟩, ?_⟩
      rw [hself]
      exact get?_of_mem_descendants h.2.1 below hbelow
    · obtain ⟨name, below, hplace, ⟨d, hd, hname⟩, hget⟩ := get?_of_mem_descendantsOf h.2.2 e hrest
      refine ⟨name, below, hplace, ⟨d, List.mem_cons_of_mem _ hd, hname⟩, ?_⟩
      rw [Entries.get?_cons, if_neg (hname ▸ (h.1 d hd).symm)]
      exact hget

end

end AssetBundler.Node
