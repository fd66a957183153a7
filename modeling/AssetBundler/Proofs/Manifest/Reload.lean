import AssetBundler.Proofs.Asset.Production
import AssetBundler.Proofs.Disk.Clearing
import AssetBundler.Proofs.Json.RoundTrip
import AssetBundler.Proofs.Table

/-!
# A manifest and its file

What a manifest writes is read back as the same entries, ordered by name. So after any sequence of calls a
call that returns leaves a manifest that agrees with its file: a new manifest of the same folder has the
same entries. Recording changes the entries before the file is written, so a call that raises keeps the
new entry although the file is as it was; and turning to a folder or deleting forgets the entries first.
Main statement: `Manifest.reload_exact`.
-/

namespace AssetBundler

open AssetBundler.Action

namespace Manifest

/-- The entries in the order in which they are written. -/
def sorted (entries : Table String String) : Table String String :=
  entries.mergeSort fun a b ↦ a.1 ≤ b.1

theorem sorted_perm (entries : Table String String) : (sorted entries).Perm entries :=
  List.mergeSort_perm ..

theorem nodup_keys_sorted {entries : Table String String} (h : entries.keys.Nodup) :
    (sorted entries).keys.Nodup :=
  ((sorted_perm entries).map Prod.fst).nodup_iff.2 h

theorem render_eq (entries : Table String String) :
    render entries = Json.print (.indented 2) (.map (Json.textFields (sorted entries))) := rfl

theorem unifyNewlines_render (entries : Table String String) :
    unifyNewlines (render entries) = render entries := by
  rw [unifyNewlines_eq_self_iff, render_eq]
  exact Json.not_mem_print _ _

theorem entriesOf_render (path : Path) {entries : Table String String} (h : entries.keys.Nodup) :
    entriesOf path (render entries) = .ok (sorted entries) := by
  have hfields : (Json.textFields (sorted entries)).map (fun f ↦ (f.1.display, f.2.display)) =
      sorted entries := by
    unfold Json.textFields
    rw [List.map_map]
    exact List.map_id _
  unfold entriesOf
  rw [render_eq, Json.read_print _ (nodup_keys_sorted h)]
  simp only
  rw [hfields, Table.ofEntries_of_nodup (nodup_keys_sorted h)]

section Read

variable {d e : Disk} {path : Path}

theorem readEntries_of_no_file (h : d.isFile path = .ok false) : readEntries d path = .ok [] := by
  unfold readEntries
  rw [h]
  rfl

theorem readEntries_of_refused {why : Disk.Error} (h : d.isFile path = .error why) :
    readEntries d path = .error (.disk why) := by
  unfold readEntries
  rw [h]
  rfl

theorem readEntries_of_readBytes {bytes : ByteArray} (h : d.readBytes path = .ok bytes) :
    readEntries d path = match String.fromUTF8? bytes with
      | some text => entriesOf path (unifyNewlines text)
      | none => .error (.notText path) := by
  obtain ⟨t, hfind⟩ := Disk.find_of_readBytes h
  unfold readEntries
  rw [Disk.isFile_of_readBytes h, Disk.readText_of_find hfind]
  cases String.fromUTF8? bytes <;> rfl

/-- A file that has been written is read as the entries in their order. -/
theorem readEntries_of_write {entries : Table String String} (hnodup : entries.keys.Nodup)
    (h : Disk.writeText path (render entries) d = .ok () e) :
    readEntries e path = .ok (sorted entries) := by
  obtain ⟨-, place, name, hlast, hup, hslot, hbytes⟩ := Disk.writeText_ok h
  rw [readEntries_of_readBytes (Disk.readBytes_of_bytesAt rfl (fun _ hk ↦ hk) hlast hup hslot hbytes),
    fromUTF8?_eq_some.2 rfl]
  simp only
  rw [unifyNewlines_render, entriesOf_render path hnodup]

theorem nodup_keys_readEntries {entries : Table String String}
    (h : readEntries d path = .ok entries) : entries.keys.Nodup := by
  rcases Disk.isFile_cases d path with ⟨bytes, hbytes⟩ | hnone | hrefused
  · rw [readEntries_of_readBytes hbytes] at h
    cases hdecode : String.fromUTF8? bytes with
    | none =>
      rw [hdecode] at h
      cases h
    | some text =>
      rw [hdecode] at h
      simp only [entriesOf] at h
      split at h
      · cases h
      · cases h
      · cases h
        exact Table.nodup_keys_ofEntries _
      · cases h
  · rw [readEntries_of_no_file hnone] at h
    cases h
    exact List.nodup_nil
  · rw [readEntries_of_refused hrefused] at h
    cases h

end Read

inductive Call where
  | load (folder : Path)
  | add (name published : String)
  | delete

def Call.perform : Call → Action Unit
  | .load folder => Manifest.load folder
  | .add name published => Manifest.add name published
  | .delete => do
    let _ ← Manifest.delete

/-- One call after another; one that raises keeps what it did before. -/
def run (s : Store) (calls : List Call) : Store :=
  calls.foldl (fun s call ↦ finalState (call.perform s)) s

/-- A new manifest of the same folder has the same entries, up to their order. -/
def Store.InSync (s : Store) : Prop :=
  ∃ folder t, s.manifest.path = some (folder.join fileName) ∧
    load folder ⟨s.disk, .empty⟩ = .ok () t ∧ t.manifest.entries.Perm s.manifest.entries

/-- No name is recorded twice, and the file is that of a folder. -/
structure Store.IsSound (s : Store) : Prop where
  nodup : s.manifest.entries.keys.Nodup
  path : ∀ path, s.manifest.path = some path → ∃ folder : Path, path = folder.join fileName

theorem load_eq (folder : Path) (s : Store) :
    load folder s = match readEntries s.disk (folder.join fileName) with
      | .ok entries => .ok () ⟨s.disk, ⟨some (folder.join fileName), entries⟩⟩
      | .error e => .error e ⟨s.disk, ⟨some (folder.join fileName), []⟩⟩ := by
  unfold load
  rw [bind_of_ok (modify_apply _ s), bind_of_ok (get_apply _)]
  dsimp only
  cases readEntries s.disk (folder.join fileName) <;> rfl

theorem load_eq_ok {folder : Path} {s t : Store} :
    load folder s = .ok () t ↔ ∃ entries, readEntries s.disk (folder.join fileName) = .ok entries ∧
      t = ⟨s.disk, ⟨some (folder.join fileName), entries⟩⟩ := by
  rw [load_eq]
  cases readEntries s.disk (folder.join fileName) with
  | error e => exact ⟨fun h ↦ (nomatch h), fun ⟨_, h, _⟩ ↦ nomatch h⟩
  | ok entries =>
    constructor
    · intro h
      cases h
      exact ⟨entries, rfl, rfl⟩
    · rintro ⟨_, ⟨⟩, rfl⟩
      rfl

theorem join_fileName (folder : Path) :
    folder.join fileName = ⟨folder.anchor, folder.names ++ [fileName]⟩ :=
  Path.join_of_isName ⟨by decide, by decide, by decide⟩

theorem join_fileName_inj {folder other : Path} :
    folder.join fileName = other.join fileName ↔ folder = other := by
  rw [join_fileName, join_fileName]
  cases folder
  cases other
  simp

theorem getLast?_join_fileName (folder : Path) :
    (folder.join fileName).names.getLast? = some fileName := by
  rw [join_fileName]
  exact List.getLast?_concat

theorem inSync_iff (folder : Path) {s : Store} (hpath : s.manifest.path = some (folder.join fileName)) :
    s.InSync ↔ ∃ entries, readEntries s.disk (folder.join fileName) = .ok entries ∧
      entries.Perm s.manifest.entries := by
  constructor
  · rintro ⟨other, t, hother, hload, hperm⟩
    obtain rfl : folder = other := join_fileName_inj.1 (Option.some.inj (hpath.symm.trans hother))
    obtain ⟨entries, hread, rfl⟩ := load_eq_ok.1 hload
    exact ⟨entries, hread, hperm⟩
  · rintro ⟨entries, hread, hperm⟩
    exact ⟨folder, _, hpath, load_eq_ok.2 ⟨entries, hread, rfl⟩, hperm⟩

theorem add_eq {s : Store} {path : Path} (hpath : s.manifest.path = some path)
    (name published : String) :
    add name published s = match Disk.writeText path
        (render (s.manifest.recording name published).entries) s.disk with
      | .ok _ disk => .ok () ⟨disk, s.manifest.recording name published⟩
      | .error why disk => .error (.notWritten path why) ⟨disk, s.manifest.recording name published⟩ := by
  have hpath' : (s.manifest.recording name published).path = some path := hpath
  rw [add_apply]
  unfold save
  rcases hwrite : Disk.writeText path (render (s.manifest.recording name published).entries) s.disk with
    ⟨_, disk⟩ | ⟨why, disk⟩
  · simp only [hpath', hwrite]
  · simp only [hpath', hwrite]

theorem finalState_add {s : Store} {path : Path} (hpath : s.manifest.path = some path)
    (name published : String) : finalState (add name published s) =
      ⟨finalState (Disk.writeText path (render (s.manifest.recording name published).entries) s.disk),
        s.manifest.recording name published⟩ := by
  rw [add_eq hpath]
  rcases Disk.writeText path (render (s.manifest.recording name published).entries) s.disk with
    ⟨_, disk⟩ | ⟨why, disk⟩ <;> rfl

theorem manifest_of_add {s t : Store} {name published : String} (h : add name published s = .ok () t) :
    t.manifest = s.manifest.recording name published := by
  have hmanifest := manifest_add name published s
  rwa [h] at hmanifest

/-- A recording that ends well has written all entries. -/
theorem written_of_add {s t : Store} {path : Path} {name published : String}
    (hpath : s.manifest.path = some path) (h : add name published s = .ok () t) :
    Disk.writeText path (render t.manifest.entries) s.disk = .ok () t.disk := by
  rw [manifest_of_add h]
  rw [add_eq hpath] at h
  rcases hwrite : Disk.writeText path (render (s.manifest.recording name published).entries) s.disk with
    ⟨_, disk⟩ | ⟨why, disk⟩
  · rw [hwrite] at h
    cases h
    rfl
  · rw [hwrite] at h
    cases h

theorem delete_eq {s : Store} {path : Path} (hpath : s.manifest.path = some path) :
    delete s = match Disk.remove path s.disk with
      | .ok removed disk => .ok removed ⟨disk, { s.manifest with entries := [] }⟩
      | .error why disk => .error (.disk why) ⟨disk, { s.manifest with entries := [] }⟩ := by
  unfold delete
  rcases hremove : Disk.remove path s.disk with ⟨removed, disk⟩ | ⟨why, disk⟩
  · simp only [hpath, hremove]
  · simp only [hpath, hremove]

theorem manifest_delete (s : Store) :
    (finalState (delete s)).manifest = { s.manifest with entries := [] } := by
  cases hpath : s.manifest.path with
  | none =>
    unfold delete
    simp only [hpath]
    rfl
  | some path =>
    rw [delete_eq hpath]
    rcases Disk.remove path s.disk with ⟨removed, disk⟩ | ⟨why, disk⟩ <;> rfl

theorem finalState_perform_delete (s : Store) :
    finalState (Call.delete.perform s) = finalState (delete s) := by
  change finalState ((delete >>= fun _ ↦ pure ()) s) = _
  rcases hdelete : delete s with ⟨removed, t⟩ | ⟨e, t⟩
  · rw [bind_of_ok hdelete]
    rfl
  · rw [bind_of_error hdelete]
    rfl

/-! ## Any sequence of calls -/

theorem isSound_perform {s : Store} (h : s.IsSound) (call : Call) :
    (finalState (call.perform s)).IsSound := by
  cases call with
  | load folder =>
    change (finalState (load folder s)).IsSound
    rw [load_eq]
    cases hread : readEntries s.disk (folder.join fileName) with
    | ok entries =>
      exact ⟨nodup_keys_readEntries hread, fun path hpath ↦ ⟨folder, (Option.some.inj hpath).symm⟩⟩
    | error e => exact ⟨List.nodup_nil, fun path hpath ↦ ⟨folder, (Option.some.inj hpath).symm⟩⟩
  | add name published =>
    have hmanifest := manifest_add name published s
    refine ⟨?_, ?_⟩
    · change (finalState (add name published s)).manifest.entries.keys.Nodup
      rw [hmanifest]
      exact Table.nodup_keys_insert _ _ h.nodup
    · intro path hpath
      change (finalState (add name published s)).manifest.path = some path at hpath
      rw [hmanifest] at hpath
      exact h.path path hpath
  | delete =>
    rw [finalState_perform_delete]
    have hmanifest := manifest_delete s
    refine ⟨?_, ?_⟩
    · rw [hmanifest]
      exact List.nodup_nil
    · intro path hpath
      rw [hmanifest] at hpath
      exact h.path path hpath

theorem isSound_run {s : Store} (h : s.IsSound) (calls : List Call) : (run s calls).IsSound := by
  induction calls generalizing s with
  | nil => exact h
  | cons call calls ih => exact ih (isSound_perform h call)

theorem isSound_new (disk : Disk) : Store.IsSound ⟨disk, .empty⟩ :=
  ⟨List.nodup_nil, fun _ h ↦ nomatch h⟩

section Return

variable {s t : Store}

theorem inSync_of_load {folder : Path} (h : load folder s = .ok () t) : t.InSync := by
  obtain ⟨entries, hread, rfl⟩ := load_eq_ok.1 h
  exact (inSync_iff folder rfl).2 ⟨entries, hread, List.Perm.refl _⟩

variable {folder : Path} (hs : s.IsSound) (hpath : s.manifest.path = some (folder.join fileName))

include hpath

include hs in
theorem inSync_of_add {name published : String} (h : add name published s = .ok () t) : t.InSync := by
  have hmanifest := manifest_of_add h
  have hnodup : t.manifest.entries.keys.Nodup := by
    rw [hmanifest]
    exact Table.nodup_keys_insert _ _ hs.nodup
  have hpath' : t.manifest.path = some (folder.join fileName) := by
    rw [hmanifest]
    exact hpath
  exact (inSync_iff folder hpath').2
    ⟨_, readEntries_of_write hnodup (written_of_add hpath h), sorted_perm _⟩

theorem inSync_of_delete {removed : Bool} (h : delete s = .ok removed t) : t.InSync := by
  rw [delete_eq hpath] at h
  have hno_file : ∀ e : Disk, e.isFile (folder.join fileName) = .ok false →
      Store.InSync ⟨e, { s.manifest with entries := [] }⟩ := by
    intro e he
    exact (inSync_iff folder (s := ⟨e, { s.manifest with entries := [] }⟩) hpath).2
      ⟨[], readEntries_of_no_file he, List.Perm.refl _⟩
  rcases Disk.remove_cases (folder.join fileName) s.disk with
    ⟨hremove, hfile⟩ | ⟨place, bytes, hlocate, hkind, hremove⟩ | ⟨hremove, -⟩ | ⟨hremove, -⟩
  · rw [hremove] at h
    cases h
    exact hno_file _ hfile
  · rw [hremove] at h
    cases h
    exact hno_file _
      (Disk.isFile_detach (getLast?_join_fileName folder) (by decide) hlocate hkind)
  · rw [hremove] at h
    cases h
  · rw [hremove] at h
    cases h

end Return

/-! ## Calls that raise -/

section Raise

variable {d e : Disk} {path : Path} {text : String} {why : Disk.Error}

theorem bytesAt_of_unwritten {name : String} (hlast : path.names.getLast? = some name)
    (h : Disk.writeText path text d = .error why e) (hup : name ≠ "..") :
    e.bytesAt (path.place d.here) = d.bytesAt (path.place d.here) := by
  refine (Disk.changes_of_unwritten h).bytesAt ?_
  rintro ⟨q, hq, heq⟩
  rw [List.mem_singleton.1 hq] at heq
  exact Disk.place_temporary_ne hlast hup d.here heq.symm

/-- A text that could not be written leaves what was read under the path. -/
theorem readBytes_of_unwritten {name : String} (hlast : path.names.getLast? = some name)
    (hup : name ≠ "..") (h : Disk.writeText path text d = .error why e) {bytes : ByteArray}
    (hread : d.readBytes path = .ok bytes) : e.readBytes path = .ok bytes := by
  have hframe := Disk.writeText_error h
  obtain ⟨place, hlocate, hkind⟩ := Disk.readBytes_eq_ok.1 hread
  have hbytes : e.bytesAt place = some bytes := by
    rw [Disk.locate_eq_place hlocate, bytesAt_of_unwritten hlast h hup,
      ← Disk.locate_eq_place hlocate]
    exact Disk.bytesAt_eq_some.2 hkind
  rw [Disk.bytesAt_eq_some] at hbytes
  exact Disk.readBytes_eq_ok.2 ⟨place,
    Disk.locate_persists hframe.here_eq hframe.folder hlocate (by simp [hbytes]), hbytes⟩

/-- A text that could not be written makes no file appear under a path without double dots. -/
theorem readBytes_before_unwritten {name : String} (hlast : path.names.getLast? = some name)
    (hup : ".." ∉ path.names) (h : Disk.writeText path text d = .error why e) {bytes : ByteArray}
    (hread : e.readBytes path = .ok bytes) : d.readBytes path = .ok bytes := by
  have hframe := Disk.writeText_error h
  obtain ⟨place, hlocate, hkind⟩ := Disk.readBytes_eq_ok.1 hread
  have hbytes : d.bytesAt place = some bytes := by
    rw [Disk.locate_eq_place hlocate, hframe.here_eq, ← bytesAt_of_unwritten hlast h,
      ← hframe.here_eq, ← Disk.locate_eq_place hlocate]
    · exact Disk.bytesAt_eq_some.2 hkind
    · rintro rfl
      exact hup (List.mem_of_getLast? hlast)
  rw [Disk.bytesAt_eq_some] at hbytes
  exact Disk.readBytes_eq_ok.2 ⟨place,
    Disk.locate_of_no_up hup hframe.here_eq hlocate (by simp [hbytes]), hbytes⟩

end Raise

section Law

variable {s t : Store} {folder : Path}

theorem exists_of_add_error {name published : String} {e : Failure}
    (hpath : s.manifest.path = some (folder.join fileName)) (h : add name published s = .error e t) :
    ∃ text why, Disk.writeText (folder.join fileName) text s.disk = .error why t.disk ∧
      t.manifest = s.manifest.recording name published := by
  rw [add_eq hpath] at h
  rcases hwrite : Disk.writeText (folder.join fileName)
    (render (s.manifest.recording name published).entries) s.disk with ⟨_, disk⟩ | ⟨why, disk⟩
  · rw [hwrite] at h
    cases h
  · rw [hwrite] at h
    cases h
    exact ⟨_, why, hwrite, rfl⟩

/-- Entries that a new manifest would have are in a file. -/
theorem exists_file_of_inSync (hpath : s.manifest.path = some (folder.join fileName))
    (h : s.InSync) (hne : s.manifest.entries ≠ []) :
    ∃ bytes, s.disk.readBytes (folder.join fileName) = .ok bytes := by
  obtain ⟨entries, hread, hperm⟩ := (inSync_iff folder hpath).1 h
  rcases Disk.isFile_cases s.disk (folder.join fileName) with hfile | hnone | hrefused
  · exact hfile
  · rw [readEntries_of_no_file hnone] at hread
    cases hread
    exact absurd hperm.symm.eq_nil hne
  · rw [readEntries_of_refused hrefused] at hread
    cases hread

/-- A manifest that agreed with its file agrees with it after a failure exactly if nothing new was to be
recorded. -/
theorem inSync_of_add_error_iff (hs : s.IsSound)
    (hpath : s.manifest.path = some (folder.join fileName)) (hup : ".." ∉ folder.names)
    (hsync : s.InSync) {name published : String} {e : Failure}
    (h : add name published s = .error e t) :
    t.InSync ↔ s.manifest.get? (toSlashes name) = some published := by
  obtain ⟨text, why, hwrite, hmanifest⟩ := exists_of_add_error hpath h
  have hlast := getLast?_join_fileName folder
  have hpath' : t.manifest.path = some (folder.join fileName) := by
    rw [hmanifest]
    exact hpath
  have hup' : ".." ∉ (folder.join fileName).names := by
    rw [join_fileName, List.mem_append, List.mem_singleton, not_or]
    exact ⟨hup, by decide⟩
  have hentries : t.manifest.entries = s.manifest.entries.insert (toSlashes name) published := by
    rw [hmanifest]
    rfl
  have hsame : ∀ bytes, s.disk.readBytes (folder.join fileName) = .ok bytes →
      readEntries t.disk (folder.join fileName) = readEntries s.disk (folder.join fileName) := by
    intro bytes hbytes
    rw [readEntries_of_readBytes hbytes,
      readEntries_of_readBytes (readBytes_of_unwritten hlast (by decide) hwrite hbytes)]
  obtain ⟨entries, hread, hperm⟩ := (inSync_iff folder hpath).1 hsync
  constructor
  · intro h'
    have hne : t.manifest.entries ≠ [] := by
      rw [hentries]
      exact Table.insert_ne_nil s.manifest.entries (toSlashes name) published
    obtain ⟨bytes, hbytes⟩ := exists_file_of_inSync hpath' h' hne
    obtain ⟨found, hfound, hperm'⟩ := (inSync_iff folder hpath').1 h'
    rw [hsame bytes (readBytes_before_unwritten hlast hup' hwrite hbytes), hread] at hfound
    cases hfound
    rw [hentries] at hperm'
    refine Table.get?_of_perm (hperm'.symm.trans hperm) hs.nodup ?_
    rw [Table.get?_insert, if_pos rfl]
  · intro hget
    have hne : s.manifest.entries ≠ [] := by
      intro hnil
      unfold get? at hget
      rw [hnil] at hget
      cases hget
    obtain ⟨bytes, hbytes⟩ := exists_file_of_inSync hpath hsync hne
    refine (inSync_iff folder hpath').2 ⟨entries, (hsame bytes hbytes).trans hread, ?_⟩
    rw [hentries, Table.insert_of_get? hget]
    exact hperm

theorem delete_error {e : Failure} (hpath : s.manifest.path = some (folder.join fileName))
    (h : delete s = .error e t) : t = ⟨s.disk, { s.manifest with entries := [] }⟩ ∧
      (t.InSync ∨ ∃ u, load folder ⟨t.disk, .empty⟩ = .error e u) := by
  rw [delete_eq hpath] at h
  rcases Disk.remove_cases (folder.join fileName) s.disk with
    ⟨hremove, -⟩ | ⟨place, bytes, -, -, hremove⟩ | ⟨hremove, hfile, -⟩ | ⟨hremove, hfile⟩
  · rw [hremove] at h
    cases h
  · rw [hremove] at h
    cases h
  · rw [hremove] at h
    cases h
    refine ⟨rfl, .inl ?_⟩
    exact (inSync_iff folder (s := ⟨s.disk, { s.manifest with entries := [] }⟩) hpath).2
      ⟨[], readEntries_of_no_file hfile, List.Perm.refl _⟩
  · rw [hremove] at h
    cases h
    refine ⟨rfl, .inr ⟨⟨s.disk, ⟨some (folder.join fileName), []⟩⟩, ?_⟩⟩
    rw [load_eq, readEntries_of_refused hfile]

end Law

/-- After any calls on a manifest, one more that returns leaves it in agreement with its file. One that
raises has changed the entries all the same: turning to a folder or deleting forgets them, recording keeps
the new one while the file holds what it held. -/
theorem reload_exact (disk : Disk) (calls : List Call) {s : Store} (hs : s = run ⟨disk, .empty⟩ calls) :
    (∀ (call : Call) (t : Store), (∃ folder, call = .load folder) ∨ s.manifest.path ≠ none →
      call.perform s = .ok () t → t.InSync) ∧
    (∀ (folder : Path) (e : Failure) (t : Store), load folder s = .error e t →
      t = ⟨s.disk, ⟨some (folder.join fileName), []⟩⟩ ∧
        ∃ u, load folder ⟨t.disk, .empty⟩ = .error e u) ∧
    ∀ folder : Path, s.manifest.path = some (folder.join fileName) →
      (∀ (name published : String) (e : Failure) (t : Store), add name published s = .error e t →
        t.manifest = s.manifest.recording name published ∧
        (∀ bytes, s.disk.readBytes (folder.join fileName) = .ok bytes →
          t.disk.readBytes (folder.join fileName) = .ok bytes) ∧
        (t.manifest.entries = s.manifest.entries ↔
          s.manifest.get? (toSlashes name) = some published) ∧
        (".." ∉ folder.names → s.InSync →
          (t.InSync ↔ s.manifest.get? (toSlashes name) = some published))) ∧
      ∀ (e : Failure) (t : Store), delete s = .error e t → t = ⟨s.disk, { s.manifest with entries := [] }⟩ ∧
        (t.InSync ∨ ∃ u, load folder ⟨t.disk, .empty⟩ = .error e u) := by
  have hsound : s.IsSound := by
    rw [hs]
    exact isSound_run (isSound_new disk) calls
  refine ⟨fun call t hloaded hcall ↦ ?_, fun folder e t hload ↦ ?_, fun folder hpath ↦
    ⟨fun name published e t hadd ↦ ?_, fun e t ↦ delete_error hpath⟩⟩
  · have hfolder : (∃ folder, call = .load folder) ∨
        ∃ folder : Path, s.manifest.path = some (folder.join fileName) := by
      refine hloaded.imp_right fun hsome ↦ ?_
      obtain ⟨path, hpath⟩ := Option.ne_none_iff_exists'.1 hsome
      obtain ⟨folder, rfl⟩ := hsound.path path hpath
      exact ⟨folder, hpath⟩
    cases call with
    | load folder => exact inSync_of_load hcall
    | add name published =>
      obtain ⟨folder, hpath⟩ := hfolder.resolve_left (by rintro ⟨_, ⟨⟩⟩)
      exact inSync_of_add hsound hpath hcall
    | delete =>
      obtain ⟨folder, hpath⟩ := hfolder.resolve_left (by rintro ⟨_, ⟨⟩⟩)
      obtain ⟨removed, u, hdelete, hrest⟩ := bind_eq_ok.1 hcall
      cases hrest
      exact inSync_of_delete hpath hdelete
  · rw [load_eq] at hload
    cases hread : readEntries s.disk (folder.join fileName) with
    | ok entries =>
      rw [hread] at hload
      cases hload
    | error why =>
      rw [hread] at hload
      cases hload
      refine ⟨rfl, ⟨s.disk, ⟨some (folder.join fileName), []⟩⟩, ?_⟩
      rw [load_eq]
      simp only [hread]
  · obtain ⟨text, why, hwrite, hmanifest⟩ := exists_of_add_error hpath hadd
    refine ⟨hmanifest, fun bytes ↦
      readBytes_of_unwritten (getLast?_join_fileName folder) (by decide) hwrite, ?_,
      fun hup hsync ↦ inSync_of_add_error_iff hsound hpath hup hsync hadd⟩
    rw [hmanifest]
    exact Table.insert_eq_self_iff

/-- The folder of published files on a small disk. -/
def pad (entries : Node.Entries) : Store :=
  run ⟨⟨.folder 0 entries, [], 0⟩, .empty⟩ [.load (.absolute ["public", "assets"])]

theorem pad_in_sync :
    ∃ t, (Call.add "a.js" "a-1.js").perform (pad []) = .ok () t ∧ t.InSync := by
  have hadd := eq_ok_of_result? (show result? ((Call.add "a.js" "a-1.js").perform (pad [])) =
    some () by decide +kernel)
  exact ⟨_, hadd, (reload_exact _ _ rfl).1 _ _ (.inr (by decide +kernel)) hadd⟩

/-- With a file where the folder should be nothing can be written, and the entry stays all the same. -/
theorem pad_out_of_sync :
    let s := pad [("public", .file "x".toUTF8 0)]
    s.manifest.entries = [] ∧ s.InSync ∧ result? (add "a" "b" s) = none ∧
      (finalState (add "a" "b" s)).manifest.entries = [("a", "b")] ∧
      ¬(finalState (add "a" "b" s)).InSync := by
  intro s
  have hload : load (.absolute ["public", "assets"])
      ⟨⟨.folder 0 [("public", .file "x".toUTF8 0)], [], 0⟩, .empty⟩ = .ok () s :=
    eq_ok_of_result? (by decide +kernel)
  have hentries : (finalState (add "a" "b" s)).manifest.entries = [("a", "b")] := by decide +kernel
  have hread : readEntries (finalState (add "a" "b" s)).disk
      (.absolute ["public", "assets", ".manifest.json"]) = .ok [] := eq_ok_of_toOption (by decide +kernel)
  refine ⟨by decide +kernel, inSync_of_load hload, by decide +kernel, hentries, fun hsync ↦ ?_⟩
  obtain ⟨entries, hfound, hperm⟩ :=
    (inSync_iff (.absolute ["public", "assets"]) (by decide +kernel)).1 hsync
  obtain rfl : [] = entries := Except.ok.inj (hread.symm.trans hfound)
  rw [hentries] at hperm
  exact absurd hperm.symm.eq_nil (by decide)

end Manifest

end AssetBundler
