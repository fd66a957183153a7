import AssetBundler.Table
import Mathlib.Data.List.Nodup

/-!
# Entries of tables

A table without repeated keys is known by its entries: what stands under a key is the value of the one
entry with that key, in whichever order the entries are (`get?_of_perm`), and entries without a repeated
key are a table as they stand (`ofEntries_of_nodup`).
-/

namespace AssetBundler

namespace Table

variable {κ α : Type} [DecidableEq κ]

theorem insert_of_not_mem {t : Table κ α} {k : κ} (v : α) (h : k ∉ t.keys) :
    t.insert k v = t ++ [(k, v)] := by
  induction t with
  | nil => rfl
  | cons e t ih =>
    simp only [keys, List.map_cons, List.mem_cons, not_or] at h
    rw [insert, if_neg (fun he ↦ h.1 he.symm), ih h.2, List.cons_append]

/-- A value that is there already is written without a change. -/
theorem insert_of_get? {t : Table κ α} {k : κ} {v : α} (h : t.get? k = some v) :
    t.insert k v = t := by
  induction t with
  | nil => cases h
  | cons e t ih =>
    rw [get?_cons] at h
    by_cases he : e.1 = k
    · rw [if_pos he] at h
      rw [insert, if_pos he, ← he, ← Option.some.inj h]
    · rw [if_neg he] at h
      rw [insert, if_neg he, ih h]

theorem foldl_insert_of_nodup (more : List (κ × α)) {t : Table κ α} (h : (t ++ more).keys.Nodup) :
    more.foldl (fun t e ↦ t.insert e.1 e.2) t = t ++ more := by
  induction more generalizing t with
  | nil => simp
  | cons e more ih =>
    have hnew : e.1 ∉ t.keys := by
      intro hmem
      rw [keys, List.map_append, List.map_cons] at h
      exact (List.nodup_append.1 h).2.2 e.1 hmem e.1 (List.mem_cons_self ..) rfl
    have hsplit : t ++ e :: more = (t ++ [(e.1, e.2)]) ++ more := by simp
    rw [hsplit] at h ⊢
    rw [List.foldl_cons, insert_of_not_mem e.2 hnew, ih h]

/-- Entries without a repeated key are a table as they stand. -/
theorem ofEntries_of_nodup {entries : List (κ × α)} (h : (entries.map Prod.fst).Nodup) :
    ofEntries entries = entries := foldl_insert_of_nodup entries (t := []) h

theorem nodup_keys_foldl_insert (entries : List (κ × α)) {t : Table κ α} (h : t.keys.Nodup) :
    (entries.foldl (fun t e ↦ t.insert e.1 e.2) t).keys.Nodup := by
  induction entries generalizing t with
  | nil => exact h
  | cons e entries ih => exact ih (nodup_keys_insert e.1 e.2 h)

theorem nodup_keys_ofEntries (entries : List (κ × α)) : (ofEntries entries).keys.Nodup :=
  nodup_keys_foldl_insert entries List.nodup_nil

theorem mem_of_get? {t : Table κ α} {k : κ} {v : α} (h : t.get? k = some v) : (k, v) ∈ t := by
  unfold get? at h
  obtain ⟨e, he, rfl⟩ := Option.map_eq_some_iff.1 h
  have hkey : e.1 = k := by simpa using List.find?_some he
  exact hkey ▸ List.mem_of_find?_eq_some he

theorem get?_of_mem {t : Table κ α} (h : t.keys.Nodup) {k : κ} {v : α} (hmem : (k, v) ∈ t) :
    t.get? k = some v := by
  induction t with
  | nil => cases hmem
  | cons e t ih =>
    rw [keys, List.map_cons, List.nodup_cons] at h
    rw [get?_cons]
    rcases List.mem_cons.1 hmem with rfl | hmem
    · exact if_pos rfl
    · rw [if_neg, ih h.2 hmem]
      rintro rfl
      exact h.1 (List.mem_map.2 ⟨(e.1, v), hmem, rfl⟩)

theorem get?_of_perm {t u : Table κ α} (hperm : t.Perm u) (hnodup : u.keys.Nodup) {k : κ} {v : α}
    (h : t.get? k = some v) : u.get? k = some v :=
  get?_of_mem hnodup (hperm.mem_iff.1 (mem_of_get? h))

theorem insert_ne_nil (t : Table κ α) (k : κ) (v : α) : t.insert k v ≠ [] := by
  intro h
  have hget := get?_insert t k k v
  rw [h, if_pos rfl] at hget
  cases hget

theorem insert_eq_self_iff {t : Table κ α} {k : κ} {v : α} : t.insert k v = t ↔ t.get? k = some v := by
  constructor
  · intro h
    rw [← h, get?_insert, if_pos rfl]
  · exact insert_of_get?

end Table

end AssetBundler
