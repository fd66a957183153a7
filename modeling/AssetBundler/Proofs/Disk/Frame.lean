import AssetBundler.Proofs.Disk.Change

/-!
# What writing leaves alone

Two disks are related if one leaves the other alone but for some paths: folders stay folders, and no
file appears, disappears or changes at any place that none of the paths spells. Main statements: writing
text touches the target and the temporary file beside it, only the latter if it fails, and what has been
written is read back while nobody touches its place.
-/

namespace AssetBundler

namespace Disk

open AssetBundler.Action

/-- Everything but the files at some paths is as it was, up to new folders. -/
structure LeavesBut (touched : List Path) (d e : Disk) : Prop where
  here_eq : e.here = d.here
  now_eq : e.now = d.now
  folder : ∀ place, d.kindAt place = some none → e.kindAt place = some none
  bytes : ∀ place, (∀ p ∈ touched, place ≠ p.place d.here) → e.bytesAt place = d.bytesAt place

namespace LeavesBut

variable {touched more : List Path} {c d e : Disk}

protected theorem refl (touched : List Path) (d : Disk) : LeavesBut touched d d :=
  ⟨rfl, rfl, fun _ h ↦ h, fun _ _ ↦ rfl⟩

protected theorem trans (h : LeavesBut touched c d) (h' : LeavesBut touched d e) :
    LeavesBut touched c e where
  here_eq := h'.here_eq.trans h.here_eq
  now_eq := h'.now_eq.trans h.now_eq
  folder := fun place hk ↦ h'.folder place (h.folder place hk)
  bytes := by
    intro place hplace
    rw [h'.bytes place, h.bytes place hplace]
    intro p hp
    rw [h.here_eq]
    exact hplace p hp

instance (touched : List Path) : IsPreorder Disk (LeavesBut touched) where
  refl := LeavesBut.refl touched
  trans _ _ _ := LeavesBut.trans

theorem mono (h : LeavesBut touched d e) (hsub : ∀ p ∈ touched, p ∈ more) :
    LeavesBut more d e :=
  ⟨h.here_eq, h.now_eq, h.folder, fun place hplace ↦
    h.bytes place fun p hp ↦ hplace p (hsub p hp)⟩

/-- Files with other names than those touched are as they were. -/
theorem bytesAt_of_name (h : LeavesBut touched d e) {p : Path} {name : String}
    (hlast : p.names.getLast? = some name) (hup : name ≠ "..")
    (hapart : ∀ q ∈ touched, ∃ other, q.names.getLast? = some other ∧ other ≠ ".." ∧ other ≠ name) :
    e.bytesAt (p.place d.here) = d.bytesAt (p.place d.here) := by
  apply h.bytes
  intro q hq heq
  obtain ⟨other, hother, hother_up, hne⟩ := hapart q hq
  rw [place_eq_append hlast hup, place_eq_append hother hother_up] at heq
  exact hne (eq_of_concat_eq heq).symm

end LeavesBut

/-- What changes at some paths only leaves the rest alone. -/
theorem ChangesOnly.leavesBut {folders files : List Path} {d e : Disk}
    (h : ChangesOnly folders files d e) : LeavesBut files d e where
  here_eq := h.here_eq
  now_eq := h.now_eq
  folder _ := h.folder
  bytes _ hplace := h.bytesAt fun ⟨p, hp, heq⟩ ↦ hplace p hp heq

theorem writeText_ok {p : Path} {text : String} {d e : Disk}
    (h : writeText p text d = .ok () e) :
    LeavesBut [temporary p, p] d e ∧ ∃ place name, p.names.getLast? = some name ∧ name ≠ ".." ∧
      e.slot p = .ok place ∧ e.bytesAt place = some text.toUTF8 := by
  have hwritten := written_of_ok h
  obtain ⟨name, hlast, hup⟩ := hwritten.name
  exact ⟨hwritten.changes.leavesBut, _, name, hlast, hup, hwritten.slot, hwritten.holds⟩

/-- A text that could not be written leaves its target as it was. -/
theorem writeText_error {p : Path} {text : String} {d e : Disk} {why : Error}
    (h : writeText p text d = .error why e) : LeavesBut [temporary p] d e :=
  (changes_of_unwritten h).leavesBut

/-- What has been written under a path is read back from it while folders stay and nobody touches
its place. -/
theorem readBytes_of_bytesAt {d e : Disk} (hhere : e.here = d.here)
    (hfolder : ∀ place, d.kindAt place = some none → e.kindAt place = some none)
    {p : Path} {name : String} (hlast : p.names.getLast? = some name) (hup : name ≠ "..")
    {place : List String} (hslot : d.slot p = .ok place) {bytes : ByteArray}
    (hbytes : e.bytesAt place = some bytes) : e.readBytes p = .ok bytes := by
  rw [bytesAt_eq_some] at hbytes
  rw [readBytes_eq_ok]
  exact ⟨place, locate_of_slot hlast hup (slot_persists hhere hfolder hlast hup hslot)
    (by simp [hbytes]), hbytes⟩

end Disk

end AssetBundler
