import AssetBundler.Proofs.Disk.Frame

/-!
# Temporary files

A text is written to a temporary file beside its target first, whatever that name held before, and the
temporary file then becomes the target. So a sequence of writings leaves all other files alone, but of the
files that stood under the temporary names nothing is left: the writings spare everything but their targets
exactly if those names were free (`Rewrites.spares_iff`). A writing that fails touches the temporary name at
most, and its target is read as before.
-/

namespace AssetBundler.Disk

open AssetBundler.Action

/-- Apart from the files at some paths, nothing changes. -/
def Spares (files : List Path) (d e : Disk) : Prop :=
  ∀ place, ¬d.Spelled files place → e.bytesAt place = d.bytesAt place

/-- Apart from the files at some paths, the temporary files beside them are gone and nothing else
changes. -/
structure Rewrites (files : List Path) (d e : Disk) : Prop where
  here_eq : e.here = d.here
  kept : ∀ place, ¬d.Spelled files place → ¬d.Spelled (files.map temporary) place →
    e.bytesAt place = d.bytesAt place
  gone : ∀ place, ¬d.Spelled files place → d.Spelled (files.map temporary) place →
    e.bytesAt place = none

/-- No file stands where the temporary files go, unless it is one of those written. -/
def HasRoom (files : List Path) (d : Disk) : Prop :=
  ∀ place, ¬d.Spelled files place → d.Spelled (files.map temporary) place → d.bytesAt place = none

variable {files more : List Path} {c d e : Disk}

theorem spelled_append {place : List String} :
    d.Spelled (files ++ more) place ↔ d.Spelled files place ∨ d.Spelled more place := by
  constructor
  · rintro ⟨p, hp, hplace⟩
    exact (List.mem_append.1 hp).imp (⟨p, ·, hplace⟩) (⟨p, ·, hplace⟩)
  · rintro (⟨p, hp, hplace⟩ | ⟨p, hp, hplace⟩)
    · exact ⟨p, List.mem_append_left _ hp, hplace⟩
    · exact ⟨p, List.mem_append_right _ hp, hplace⟩

theorem spelled_congr (h : e.here = d.here) {place : List String} :
    e.Spelled files place ↔ d.Spelled files place := by
  unfold Spelled
  rw [h]

namespace Rewrites

theorem nil (d : Disk) : Rewrites [] d d where
  here_eq := rfl
  kept _ _ _ := rfl
  gone := by
    rintro place - ⟨p, ⟨⟩, -⟩

theorem append (h : Rewrites files c d) (h' : Rewrites more d e) : Rewrites (files ++ more) c e where
  here_eq := h'.here_eq.trans h.here_eq
  kept := by
    intro place hfiles htemporary
    rw [List.map_append] at htemporary
    rw [spelled_append, not_or] at hfiles htemporary
    rw [h'.kept place (mt (spelled_congr h.here_eq).1 hfiles.2)
        (mt (spelled_congr h.here_eq).1 htemporary.2), h.kept place hfiles.1 htemporary.1]
  gone := by
    intro place hfiles htemporary
    rw [List.map_append, spelled_append] at htemporary
    rw [spelled_append, not_or] at hfiles
    have hlater : ¬d.Spelled more place := mt (spelled_congr h.here_eq).1 hfiles.2
    by_cases hmore : d.Spelled (more.map temporary) place
    · exact h'.gone place hlater hmore
    · rw [h'.kept place hlater hmore]
      refine h.gone place hfiles.1 (htemporary.resolve_right fun hspelled ↦ ?_)
      exact hmore ((spelled_congr h.here_eq).2 hspelled)

/-- Writings spare everything but their targets exactly if nothing stood under the temporary names. -/
theorem spares_iff (h : Rewrites files d e) : Spares files d e ↔ HasRoom files d := by
  constructor
  · intro hspares place hplace htemporary
    rw [← hspares place hplace, h.gone place hplace htemporary]
  · intro hroom place hplace
    by_cases htemporary : d.Spelled (files.map temporary) place
    · rw [h.gone place hplace htemporary, hroom place hplace htemporary]
    · exact h.kept place hplace htemporary

end Rewrites

variable {p : Path} {text : String}

theorem rewrites_of_writeText (h : writeText p text d = .ok () e) : Rewrites [p] d e := by
  have hwritten := written_of_ok h
  refine ⟨hwritten.changes.here_eq, fun place hplace htemporary ↦ ?_, ?_⟩
  · refine hwritten.changes.leavesBut.bytes place fun q hq heq ↦ ?_
    rcases List.mem_cons.1 hq with rfl | hq
    · exact htemporary ⟨_, List.mem_singleton_self _, heq⟩
    · exact hplace ⟨q, hq, heq⟩
  · rintro place - ⟨q, hq, rfl⟩
    rw [List.mem_singleton.1 hq]
    exact hwritten.gone

theorem spares_of_unwritten {why : Error} (h : writeText p text d = .error why e) :
    Spares [temporary p] d e :=
  fun place hplace ↦ (writeText_error h).bytes place fun q hq heq ↦ hplace ⟨q, hq, heq⟩

theorem place_temporary_ne_of_ne_up (h : p.names.getLast? ≠ some "..") (here : List String) :
    (temporary p).place here ≠ p.place here := by
  cases hlast : p.names.getLast? with
  | some name => exact place_temporary_ne hlast (fun heq ↦ h (heq ▸ hlast)) here
  | none =>
    have hparent : p.parent = p := by
      unfold Path.parent
      rw [List.getLast?_eq_none_iff.1 hlast, List.dropLast_nil, ← List.getLast?_eq_none_iff.1 hlast]
    rw [place_eq_append (getLast?_temporary p) (temporaryName_ne_up p), parent_temporary, hparent]
    simp

/-- A file that could not be written is read as before. -/
theorem readBytes_of_unwritten {why : Error} (h : writeText p text d = .error why e) {bytes : ByteArray}
    (hread : d.readBytes p = .ok bytes) : e.readBytes p = .ok bytes := by
  have hleaves := writeText_error h
  obtain ⟨place, hlocate, hkind⟩ := readBytes_eq_ok.1 hread
  have hup := getLast?_ne_up_of_locate hlocate (by simp [hkind])
  have hplace : place = p.place d.here := locate_eq_place hlocate
  have hbytes : e.bytesAt place = some bytes := by
    rw [hleaves.bytes place fun q hq heq ↦ ?_, bytesAt_eq_some]
    · exact hkind
    · rw [List.mem_singleton.1 hq, hplace] at heq
      exact place_temporary_ne_of_ne_up hup d.here heq.symm
  have hkind' := bytesAt_eq_some.1 hbytes
  have hlocate' := locate_persists hleaves.here_eq hleaves.folder hlocate (by simp [hkind'])
  exact readBytes_eq_ok.2 ⟨place, hlocate', hkind'⟩

end AssetBundler.Disk
