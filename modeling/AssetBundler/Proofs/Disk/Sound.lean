import AssetBundler.Proofs.Disk.Copying
import AssetBundler.Proofs.Disk.Distinct
import AssetBundler.Proofs.Disk.Refusal

/-!
# Sound disks

On a sound disk the root is a folder and no folder has two entries of one name. Writing, copying, removing
and clearing keep the disk sound and the working directory where it is, whether they succeed or fail. Two
failures of theirs are named here: a name that is too long, and a folder where a file was to be removed.
-/

namespace AssetBundler.Disk

open AssetBundler.Action

structure IsSound (d : Disk) : Prop where
  root : d.kindAt [] = some none
  distinct : d.top.HasDistinctNames

structure KeepsSound (d e : Disk) : Prop where
  here_eq : e.here = d.here
  sound : d.IsSound → e.IsSound

instance : IsPreorder Disk KeepsSound where
  refl _ := ⟨rfl, fun h ↦ h⟩
  trans _ _ _ h h' := ⟨h'.here_eq.trans h.here_eq, fun hsound ↦ h'.sound (h.sound hsound)⟩

variable {d e : Disk} {p : Path} {α : Type} {action : Action α}

theorem isFolder_top_of_isSound (h : d.IsSound) : d.top.isFolder = true := by
  obtain ⟨t, entries, hnode⟩ := kindAt_eq_folder.1 h.root
  rw [show d.top = .folder t entries from Option.some.inj hnode]
  rfl

/-- It is enough to keep the kind of the root and the tree without double names. -/
theorem KeepsSound.of_inherited (hhere : e.here = d.here)
    (hroot : d.kindAt [] = some none → e.kindAt [] = some none)
    (hdistinct : KeepsInherited (fun _ ↦ True) Node.HasDistinctNames d e) : KeepsSound d e where
  here_eq := hhere
  sound h := ⟨hroot h.root, (hdistinct ⟨fun _ _ ↦ trivial, h.distinct⟩).top⟩

theorem keepsSound_of_keepsFiles (hfiles : MovesAlong KeepsFiles action)
    (hdistinct : MovesAlong (KeepsInherited (fun _ ↦ True) Node.HasDistinctNames) action) :
    MovesAlong KeepsSound action :=
  fun d ↦ .of_inherited (hfiles d).here_eq ((hfiles d).folder []) (hdistinct d)

theorem keepsSound_writeText (p : Path) (text : String) : MovesAlong KeepsSound (writeText p text) :=
  keepsSound_of_keepsFiles (keepsFiles_writeText p text)
    (Node.isHeritable_hasDistinctNames.writeText (fun _ _ ↦ trivial) (fun _ _ ↦ trivial) text)

theorem keepsSound_copy (source target : Path) : MovesAlong KeepsSound (copy source target) :=
  keepsSound_of_keepsFiles (keepsFiles_copy source target)
    (keepsInherited_copy Node.isHeritable_hasDistinctNames source (fun _ _ ↦ trivial)
      fun _ _ ↦ trivial)

theorem keepsSound_remove (p : Path) : MovesAlong KeepsSound (remove p) := by
  intro d
  have hdistinct := Node.isHeritable_hasDistinctNames.remove (p := p) (fun _ _ ↦ trivial) d
  rcases remove_cases p d with
    ⟨hremove, -⟩ | ⟨place, bytes, hlocate, hkind, hremove⟩ | ⟨hremove, -⟩ | ⟨hremove, -⟩
  case inr.inl =>
    rw [hremove] at hdistinct ⊢
    refine .of_inherited rfl (fun hroot ↦ ?_) hdistinct
    rcases List.eq_nil_or_concat place with rfl | ⟨above, name, rfl⟩
    · rw [hroot] at hkind
      cases hkind
    · rw [List.concat_eq_append] at hkind ⊢
      have hfolder := kindAt_dropLast (by simp [hkind] : d.kindAt (above ++ [name]) ≠ none) (by simp)
      rw [List.dropLast_concat] at hfolder
      change (d.detach (above ++ [name])).kindAt [] = some none
      rw [kindAt_detach d hfolder name (by simp [hkind]), Function.update_of_ne (by simp)]
      exact hroot
  all_goals
    rw [hremove]
    exact refl_of KeepsSound d

theorem keepsSound_clear (p : Path) : MovesAlong KeepsSound (clear p) := by
  intro d
  have hdistinct := Node.isHeritable_hasDistinctNames.clear (p := p) (fun _ _ ↦ trivial) d
  rcases clear_cases p d with
    ⟨hclear, -⟩ | ⟨place, e, -, -, hclear, hhere, -, hafter⟩ | ⟨hclear, -⟩
  case inr.inl =>
    rw [hclear] at hdistinct ⊢
    refine .of_inherited hhere (fun hroot ↦ ?_) hdistinct
    change e.kindAt [] = some none
    rw [hafter]
    simp only
    rw [if_neg]
    · exact hroot
    · rintro ⟨hbelow, hne⟩
      exact hne (List.prefix_nil.1 hbelow)
  all_goals
    rw [hclear]
    exact refl_of KeepsSound d

/-- Removing a file fails for a name that is too long or for a folder, and changes nothing then. -/
theorem remove_error {why : Error} (h : remove p d = .error why e) : e = d ∧
    (why.IsTooLong ∨ why = .refused .isFolder p ∧ d.isFolder p = .ok true) := by
  rcases remove_cases p d with
    ⟨hremove, -⟩ | ⟨place, bytes, -, -, hremove⟩ | ⟨hremove, -, hfolder⟩ | ⟨hremove, hlong⟩
  · rw [hremove] at h
    cases h
  · rw [hremove] at h
    cases h
  · rw [hremove] at h
    cases h
    exact ⟨rfl, .inr ⟨rfl, hfolder⟩⟩
  · rw [hremove] at h
    cases h
    exact ⟨rfl, .inl (failsOnly_isFile d p _ hlong)⟩

theorem clear_error {why : Error} (h : clear p d = .error why e) : e = d ∧ why.IsTooLong := by
  rcases clear_cases p d with ⟨hclear, -⟩ | ⟨place, e, -, -, hclear, -, -, -⟩ | ⟨hclear, hlong⟩
  · rw [hclear] at h
    cases h
  · rw [hclear] at h
    cases h
  · rw [hclear] at h
    cases h
    exact ⟨rfl, failsOnly_isFolder d p _ hlong⟩

end AssetBundler.Disk
