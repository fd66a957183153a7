import AssetBundler.Proofs.Disk.Heritable

/-!
# Trees of proper names

On a proper disk every entry has a name that a path can spell. This is heritable
(`Node.isHeritable_isProper`), so what follows paths of such names keeps the disk proper, whether it
succeeds or fails; and the path of a file below a folder is relative and can be written and read back.
-/

namespace AssetBundler

open AssetBundler.Action

namespace Node

mutual

/-- Every entry has a name that a path can spell. -/
def IsProper : Node → Prop
  | .file .. => True
  | .folder _ entries => AreProper entries

def AreProper : List (String × Node) → Prop
  | [] => True
  | (name, n) :: rest => Path.IsName name ∧ IsProper n ∧ AreProper rest

end

instance (name : String) : Decidable (Path.IsName name) :=
  decidable_of_iff (name ≠ "" ∧ name ≠ "." ∧ '/' ∉ name.toList)
    ⟨fun h ↦ ⟨h.1, h.2.1, h.2.2⟩, fun h ↦ ⟨h.ne_empty, h.ne_dot, h.no_slash⟩⟩

mutual

def decideIsProper : (n : Node) → Decidable n.IsProper
  | .file .. => .isTrue trivial
  | .folder _ entries => decideAreProper entries

def decideAreProper : (entries : List (String × Node)) → Decidable (AreProper entries)
  | [] => .isTrue trivial
  | (_, n) :: rest =>
    have := decideIsProper n
    have := decideAreProper rest
    inferInstanceAs (Decidable (_ ∧ _ ∧ _))

end

instance (n : Node) : Decidable n.IsProper := decideIsProper n

/-- Nothing, or a proper node. -/
def IsProper? (m : Option Node) : Prop := ∀ n ∈ m, n.IsProper

theorem isProper?_none : IsProper? none := fun _ h ↦ nomatch h

theorem isProper?_some {n : Node} : IsProper? (some n) ↔ n.IsProper := by
  simp [IsProper?]

theorem areProper_filter {entries : Entries} (h : AreProper entries) (keep : String × Node → Bool) :
    AreProper (entries.filter keep) := by
  induction entries with
  | nil => exact h
  | cons e rest ih =>
    rw [List.filter_cons]
    split
    · exact ⟨h.1, h.2.1, ih h.2.2⟩
    · exact ih h.2.2

theorem isProper_of_get? {entries : Entries} (h : AreProper entries) (name : String) :
    IsProper? (Entries.get? entries name) := by
  induction entries with
  | nil => exact isProper?_none
  | cons e rest ih =>
    rw [Entries.get?_cons]
    split
    · exact isProper?_some.2 h.2.1
    · exact ih h.2.2

theorem areProper_alter {f : Option Node → Option Node} (hf : Keeps IsProper f)
    {name : String} (hname : Path.IsName name) {entries : Entries} (h : AreProper entries) :
    AreProper (Entries.alter name f entries) := by
  induction entries with
  | nil =>
    rw [Entries.alter]
    cases hmade : f none with
    | none => exact h
    | some n => exact ⟨hname, hf none isProper?_none n hmade, trivial⟩
  | cons e rest ih =>
    rw [Entries.alter]
    split
    · split
      · next n hmade => exact ⟨hname, hf (some e.2) (isProper?_some.2 h.2.1) n hmade, h.2.2⟩
      · exact areProper_filter h.2.2 _
    · exact ⟨h.1, h.2.1, ih h.2.2⟩

theorem isHeritable_isProper : IsHeritable Path.IsName IsProper where
  file _ _ := trivial
  empty _ := trivial
  time _ _ _ h := h
  entry h := isProper_of_get? h
  alter h hf hname := areProper_alter hf hname h

/-- Below a proper node there are proper nodes. -/
theorem isProper_get? {n : Node} (h : n.IsProper) (place : List String) :
    IsProper? (get? place n) := isHeritable_isProper.of_get? h place

mutual

theorem isName_of_mem_descendants : ∀ {n : Node}, n.IsProper → ∀ e ∈ n.descendants,
    e.1 ≠ [] ∧ ∀ name ∈ e.1, Path.IsName name
  | .file .., _, _, he => nomatch he
  | .folder _ _, h, e, he => isName_of_mem_descendantsOf h e he

theorem isName_of_mem_descendantsOf : ∀ {entries : List (String × Node)}, AreProper entries →
    ∀ e ∈ descendantsOf entries, e.1 ≠ [] ∧ ∀ name ∈ e.1, Path.IsName name
  | [], _, _, he => nomatch he
  | (first, n) :: rest, h, e, he => by
    rw [descendantsOf, List.cons_append, List.mem_cons, List.mem_append, List.mem_map] at he
    rcases he with rfl | ⟨below, hbelow, rfl⟩ | hrest
    · exact ⟨by simp, List.forall_mem_singleton.2 h.1⟩
    · exact ⟨by simp, List.forall_mem_cons.2 ⟨h.1, (isName_of_mem_descendants h.2.1 below hbelow).2⟩⟩
    · exact isName_of_mem_descendantsOf h.2.2 e hrest

end

end Node

namespace Disk

/-- The working directory and the tree are made of names. -/
structure IsProper (d : Disk) : Prop where
  here : ∀ name ∈ d.here, Path.IsName name
  top : d.top.IsProper

def KeepsProper (d e : Disk) : Prop := d.IsProper → e.IsProper

instance : IsPreorder Disk KeepsProper where
  refl _ h := h
  trans _ _ _ h h' := fun hc ↦ h' (h hc)

theorem inherits_iff_isProper {d : Disk} : d.Inherits Path.IsName Node.IsProper ↔ d.IsProper :=
  ⟨fun h ↦ ⟨h.here, h.top⟩, fun h ↦ ⟨h.here, h.top⟩⟩

theorem keepsProper_of_inherited {α : Type} {action : Action α}
    (h : MovesAlong (KeepsInherited Path.IsName Node.IsProper) action) :
    MovesAlong KeepsProper action :=
  fun d hd ↦ inherits_iff_isProper.1 (h d (inherits_iff_isProper.2 hd))

theorem isProper_temporary {p : Path} (hp : p.IsProper) : (temporary p).IsProper := by
  intro name hname
  rcases List.mem_append.1 hname with hname | hname
  · exact hp name ((List.dropLast_sublist _).subset hname)
  · rw [List.mem_singleton.1 hname]
    refine ⟨by simp, fun hdot ↦ ?_, ?_⟩
    · have hlength : p.name.length + 4 = 1 := by
        rw [show 4 = ".tmp".length from rfl, ← String.length_append, hdot]
        rfl
      omega
    · rw [String.toList_append, List.mem_append, not_or]
      exact ⟨hp.no_slash_name, by decide⟩

theorem keepsProper_writeText {p : Path} (hp : p.IsProper) (text : String) :
    MovesAlong KeepsProper (writeText p text) :=
  keepsProper_of_inherited (Node.isHeritable_isProper.writeText hp (isProper_temporary hp) text)

theorem keepsProper_remove {p : Path} (hp : p.IsProper) : MovesAlong KeepsProper (remove p) :=
  keepsProper_of_inherited (Node.isHeritable_isProper.remove hp)

theorem keepsProper_clear {p : Path} (hp : p.IsProper) : MovesAlong KeepsProper (clear p) :=
  keepsProper_of_inherited (Node.isHeritable_isProper.clear hp)

end Disk

end AssetBundler
