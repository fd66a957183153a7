import AssetBundler.Proofs.Json.Grammar
import AssetBundler.Proofs.Manifest.Lookup
import Mathlib.Data.String.Basic

/-!
# What a manifest leaves on the disk

Names are recorded one after another from a folder without a manifest on. The file is then an object of
JSON that holds the last value of each name, ordered by name, and a new manifest of the folder loads just
that. The fields of the object, and with them the bytes of the file, depend on the last values only: not on
the order of the recordings, nor on the disk. Main statement: `Manifest.persisted_exact`.
-/

namespace AssetBundler

open AssetBundler.Action

theorem Disk.readBytes_of_writeText {d e : Disk} {path : Path} {text : String}
    (h : writeText path text d = .ok () e) : e.readBytes path = .ok text.toUTF8 := by
  obtain ⟨-, place, name, hlast, hup, hslot, hbytes⟩ := writeText_ok h
  exact readBytes_of_bytesAt rfl (fun _ hk ↦ hk) hlast hup hslot hbytes

namespace Table

variable {κ α : Type} [DecidableEq κ] {t u : Table κ α}

theorem get?_eq_some_iff (h : t.keys.Nodup) {k : κ} {v : α} : t.get? k = some v ↔ (k, v) ∈ t :=
  ⟨mem_of_get?, get?_of_mem h⟩

theorem get?_eq_of_perm (hperm : t.Perm u) (ht : t.keys.Nodup) (hu : u.keys.Nodup) (k : κ) :
    t.get? k = u.get? k := by
  refine Option.ext fun v ↦ ?_
  rw [get?_eq_some_iff ht, get?_eq_some_iff hu, hperm.mem_iff]

/-- Tables that lead from each key to the same value have the same entries. -/
theorem perm_of_get?_eq (ht : t.keys.Nodup) (hu : u.keys.Nodup) (h : ∀ k, t.get? k = u.get? k) :
    t.Perm u := by
  rw [List.perm_ext_iff_of_nodup ht.of_map hu.of_map]
  rintro ⟨k, v⟩
  rw [← get?_eq_some_iff ht, ← get?_eq_some_iff hu, h]

end Table

namespace Manifest

theorem pairwise_sorted {entries : Table String String} (h : entries.keys.Nodup) :
    (sorted entries).Pairwise fun a b ↦ a.1 < b.1 := by
  have hordered : (sorted entries).Pairwise fun a b ↦ decide (a.1 ≤ b.1) = true := by
    apply List.pairwise_mergeSort
    · intro a b c hab hbc
      rw [decide_eq_true_eq] at hab hbc ⊢
      exact hab.trans hbc
    · intro a b
      rw [Bool.or_eq_true, decide_eq_true_eq, decide_eq_true_eq]
      exact le_total a.1 b.1
  have hapart : (sorted entries).Pairwise fun a b ↦ a.1 ≠ b.1 :=
    List.pairwise_map.1 (nodup_keys_sorted h)
  exact (hordered.and hapart).imp fun hboth ↦ lt_of_le_of_ne (of_decide_eq_true hboth.1) hboth.2

theorem get?_sorted {entries : Table String String} (h : entries.keys.Nodup) (name : String) :
    Table.get? (sorted entries) name = Table.get? entries name :=
  Table.get?_eq_of_perm (sorted_perm entries) (nodup_keys_sorted h) h name

/-- The order of the file does not depend on the order of writing. -/
theorem sorted_eq_of_get?_eq {t u : Table String String} (ht : t.keys.Nodup) (hu : u.keys.Nodup)
    (h : ∀ name, t.get? name = u.get? name) : sorted t = sorted u := by
  have hperm : (sorted t).Perm (sorted u) :=
    (sorted_perm t).trans ((Table.perm_of_get?_eq ht hu h).trans (sorted_perm u).symm)
  exact hperm.eq_of_pairwise (fun _ _ _ _ hab hba ↦ absurd hab (lt_asymm hba)) (pairwise_sorted ht)
    (pairwise_sorted hu)

section Add

variable {s t : Store} {path : Path}

theorem path_of_add {name published : String} (h : add name published s = .ok () t) :
    t.manifest.path = s.manifest.path := by
  rw [manifest_of_add h]
  rfl

/-- The last recording writes all entries. -/
theorem exists_written_of_addAll {adds : List (String × String)} (hpath : s.manifest.path = some path)
    (hne : adds ≠ []) (h : addAll adds s = .ok () t) :
    ∃ before, Disk.writeText path (render t.manifest.entries) before = .ok () t.disk := by
  induction adds generalizing s with
  | nil => exact absurd rfl hne
  | cons e adds ih =>
    obtain ⟨u, hadd, hrest⟩ := addAll_cons.1 h
    cases adds with
    | nil =>
      cases hrest
      exact ⟨s.disk, written_of_add hpath hadd⟩
    | cons next adds => exact ih ((path_of_add hadd).trans hpath) (List.cons_ne_nil next adds) hrest

end Add

/-- Turns to a folder and records one name after another. -/
def recordIn (folder : Path) (adds : List (String × String)) : Action Unit := do
  load folder
  addAll adds

theorem slashed_of_plain {adds : List (String × String)} (h : ∀ e ∈ adds, '\\' ∉ e.1.toList) :
    slashed adds = adds := by
  refine (List.map_congr_left fun e he ↦ ?_).trans (List.map_id adds)
  rw [toSlashes_of_not_mem (h e he)]
  rfl

/-- Names without backslashes were recorded one after another from a folder without a manifest on. -/
structure IsRecorded (folder : Path) (adds : List (String × String)) (s : Store) : Prop where
  names : ∀ e ∈ adds, '\\' ∉ e.1.toList
  recorded : ∃ (disk : Disk) (old : Manifest), disk.isFile (folder.join fileName) = .ok false ∧
    recordIn folder adds ⟨disk, old⟩ = .ok () s

namespace IsRecorded

variable {folder : Path} {adds : List (String × String)} {s : Store}

theorem exists_addAll (h : IsRecorded folder adds s) : ∃ disk : Disk,
    disk.isFile (folder.join fileName) = .ok false ∧
      addAll adds ⟨disk, ⟨some (folder.join fileName), []⟩⟩ = .ok () s := by
  obtain ⟨disk, old, hempty, hrecord⟩ := h.recorded
  obtain ⟨_, u, hload, hadds⟩ := bind_eq_ok.1 hrecord
  obtain ⟨_, hread, rfl⟩ := load_eq_ok.1 hload
  cases (readEntries_of_no_file hempty).symm.trans hread
  exact ⟨disk, hempty, hadds⟩

theorem manifest_eq (h : IsRecorded folder adds s) :
    s.manifest = ⟨some (folder.join fileName), Table.ofEntries adds⟩ := by
  obtain ⟨disk, -, hadds⟩ := h.exists_addAll
  rw [manifest_of_addAll hadds, slashed_of_plain h.names]
  rfl

theorem nodup (h : IsRecorded folder adds s) : s.manifest.entries.keys.Nodup := by
  rw [h.manifest_eq]
  exact Table.nodup_keys_ofEntries adds

theorem get?_eq (h : IsRecorded folder adds s) (name : String) :
    s.manifest.entries.get? name = Table.last? adds name := by
  rw [h.manifest_eq]
  exact (Table.get?_foldl_insert adds [] name).trans Option.or_none

theorem exists_written (h : IsRecorded folder adds s) (hne : adds ≠ []) : ∃ before,
    Disk.writeText (folder.join fileName) (render s.manifest.entries) before = .ok () s.disk := by
  obtain ⟨disk, -, hadds⟩ := h.exists_addAll
  exact exists_written_of_addAll rfl hne hadds

/-- A new manifest of the folder reads what was recorded. -/
theorem readEntries_eq (h : IsRecorded folder adds s) :
    readEntries s.disk (folder.join fileName) = .ok (sorted s.manifest.entries) := by
  by_cases hne : adds = []
  · subst hne
    obtain ⟨disk, hempty, hadds⟩ := h.exists_addAll
    cases hadds
    have hnil : sorted [] = [] := List.mergeSort_nil
    rw [hnil]
    exact readEntries_of_no_file hempty
  · obtain ⟨before, hwritten⟩ := h.exists_written hne
    exact readEntries_of_write h.nodup hwritten

end IsRecorded

/-- A new manifest of the folder loads the last value of each name and nothing else. The file is an object
of JSON with just these fields, and any other recordings with the same last values, in any folder of any
disk, leave a file with the same bytes. -/
theorem persisted_exact {folder : Path} {adds : List (String × String)} {s : Store}
    (h : IsRecorded folder adds s) : ∃ fields : Table String String,
      fields.Pairwise (fun a b ↦ a.1 < b.1) ∧ (∀ name, fields.get? name = Table.last? adds name) ∧
      load folder ⟨s.disk, .empty⟩ = .ok () ⟨s.disk, ⟨some (folder.join fileName), fields⟩⟩ ∧
      (adds ≠ [] → ∃ text : String, s.disk.readBytes (folder.join fileName) = .ok text.toUTF8 ∧
        Json.IsObject text.toList fields ∧
        ∀ (folder' : Path) (adds' : List (String × String)) (s' : Store), IsRecorded folder' adds' s' →
          (∀ name, Table.last? adds' name = Table.last? adds name) →
            s'.disk.readBytes (folder'.join fileName) = .ok text.toUTF8) := by
  refine ⟨sorted s.manifest.entries, pairwise_sorted h.nodup, fun name ↦ ?_, ?_, fun hne ↦ ?_⟩
  · rw [get?_sorted h.nodup, h.get?_eq]
  · rw [load_eq, h.readEntries_eq]
  · obtain ⟨before, hwritten⟩ := h.exists_written hne
    refine ⟨_, Disk.readBytes_of_writeText hwritten, ?_, fun folder' adds' s' h' hsame ↦ ?_⟩
    · rw [render_eq]
      exact Json.isObject_print _ _
    · have hne' : adds' ≠ [] := by
        rintro rfl
        obtain ⟨e, adds, rfl⟩ := List.exists_cons_of_ne_nil hne
        have hnone := hsame e.1
        rw [Table.last?_nil, Table.last?_cons, if_pos rfl, eq_comm, Option.or_eq_none_iff] at hnone
        exact nomatch hnone.2
      obtain ⟨before', hwritten'⟩ := h'.exists_written hne'
      have hsorted : sorted s'.manifest.entries = sorted s.manifest.entries := by
        refine sorted_eq_of_get?_eq h'.nodup h.nodup fun name ↦ ?_
        rw [h'.get?_eq, h.get?_eq, hsame]
      have hrender : render s'.manifest.entries = render s.manifest.entries := by
        rw [render_eq, render_eq, hsorted]
      rw [← hrender]
      exact Disk.readBytes_of_writeText hwritten'

/-- Names and values with quotes, separators of lines, a control character and one of two units, some of
them recorded twice. -/
def ledger : List (String × String) :=
  [("zoë \"😀\".js", "a\u2028b\x85\r\n"), ("a.js", "a-1.js"), ("tab\t\x01", "\\"), ("a.js", "a-2.js")]

theorem ledger_is_persisted : ∃ s, IsRecorded (.absolute ["public", "assets"]) ledger s ∧
    ∃ fields, load (.absolute ["public", "assets"]) ⟨s.disk, .empty⟩ =
        .ok () ⟨s.disk, ⟨some (.absolute ["public", "assets", ".manifest.json"]), fields⟩⟩ ∧
      Table.get? fields "a.js" = some "a-2.js" ∧
      Table.get? fields "zoë \"😀\".js" = some "a\u2028b\x85\r\n" ∧ Table.get? fields "b.js" = none ∧
      ∃ text, s.disk.readBytes (.absolute ["public", "assets", ".manifest.json"]) =
        .ok (String.toUTF8 text) ∧ Json.IsObject text.toList fields := by
  let disk : Disk := ⟨.folder 0 [("public", .folder 0 [("assets", .folder 0 [])])], [], 0⟩
  have hrecord := eq_ok_of_result? (show
    result? (recordIn (.absolute ["public", "assets"]) ledger ⟨disk, .empty⟩) = some () by decide +kernel)
  have hrecorded := IsRecorded.mk (show ∀ e ∈ ledger, '\\' ∉ e.1.toList by decide)
    ⟨disk, .empty, eq_ok_of_toOption (by decide +kernel), hrecord⟩
  obtain ⟨fields, -, hlast, hload, hfile⟩ := persisted_exact hrecorded
  obtain ⟨text, hbytes, hobject, -⟩ := hfile (by decide)
  refine ⟨_, hrecorded, fields, hload, ?_, ?_, ?_, text, hbytes, hobject⟩
  · rw [hlast]
    decide
  · rw [hlast]
    decide
  · rw [hlast]
    decide

end Manifest

end AssetBundler
