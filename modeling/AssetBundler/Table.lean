/-!
# Tables in insertion order

A table is a list of keyed entries. Writing to a key that is present keeps its place, a new key goes
to the end. Main statements: reading after writing gives the written value for the key and the old
one for every other key (`get?_insert`), and a table without repeated keys stays one
(`nodup_keys_insert`).
-/

namespace AssetBundler

abbrev Table (κ α : Type) := List (κ × α)

namespace Table

variable {κ α : Type} [DecidableEq κ]

def get? (t : Table κ α) (k : κ) : Option α := (t.find? fun e ↦ e.1 = k).map Prod.snd

def contains (t : Table κ α) (k : κ) : Bool := (t.get? k).isSome

def keys (t : Table κ α) : List κ := t.map Prod.fst

def insert (t : Table κ α) (k : κ) (v : α) : Table κ α :=
  match t with
  | [] => [(k, v)]
  | e :: rest => if e.1 = k then (k, v) :: rest else e :: insert rest k v

/-- Writes the entries one after another, so that the last one for a key counts. -/
def ofEntries (entries : List (κ × α)) : Table κ α :=
  entries.foldl (fun t e ↦ t.insert e.1 e.2) []

@[simp] theorem get?_nil (k : κ) : get? ([] : Table κ α) k = none := rfl

theorem get?_cons (e : κ × α) (t : Table κ α) (k : κ) :
    get? (e :: t) k = if e.1 = k then some e.2 else get? t k := by
  by_cases h : e.1 = k <;> simp [get?, h]

theorem get?_insert (t : Table κ α) (k j : κ) (v : α) :
    (t.insert k v).get? j = if k = j then some v else t.get? j := by
  induction t with
  | nil => simp [insert, get?_cons]
  | cons e t ih =>
    by_cases h : e.1 = k
    · simp only [insert, h, if_true, get?_cons]
      by_cases hj : k = j <;> simp [hj]
    · simp only [insert, h, if_false, get?_cons, ih]
      by_cases hj : k = j
      · subst hj
        simp [h]
      · simp [hj]

theorem mem_keys_of_get? {t : Table κ α} {k : κ} {v : α} (h : t.get? k = some v) : k ∈ t.keys := by
  unfold get? at h
  obtain ⟨e, he, -⟩ := Option.map_eq_some_iff.1 h
  have hkey : e.1 = k := by simpa using List.find?_some he
  exact List.mem_map.2 ⟨e, List.mem_of_find?_eq_some he, hkey⟩

theorem keys_insert_of_mem {t : Table κ α} {k : κ} (v : α) (h : k ∈ t.keys) :
    (t.insert k v).keys = t.keys := by
  induction t with
  | nil => simp [keys] at h
  | cons e t ih =>
    by_cases he : e.1 = k
    · simp [insert, keys, he]
    · have hk : k ∈ keys t := by
        simp only [keys, List.map_cons, List.mem_cons] at h
        exact h.resolve_left fun hk ↦ he hk.symm
      simpa [insert, keys, he] using ih hk

theorem keys_insert_of_not_mem {t : Table κ α} {k : κ} (v : α) (h : k ∉ t.keys) :
    (t.insert k v).keys = t.keys ++ [k] := by
  induction t with
  | nil => simp [insert, keys]
  | cons e t ih =>
    simp only [keys, List.map_cons, List.mem_cons, not_or] at h
    have he : ¬ e.1 = k := fun he ↦ h.1 he.symm
    have hk := ih h.2
    simpa [insert, keys, he] using hk

theorem nodup_keys_insert {t : Table κ α} (k : κ) (v : α) (h : t.keys.Nodup) :
    (t.insert k v).keys.Nodup := by
  by_cases hk : k ∈ t.keys
  · rw [keys_insert_of_mem v hk]
    exact h
  · rw [keys_insert_of_not_mem v hk]
    rw [List.nodup_append]
    refine ⟨h, by simp, ?_⟩
    intro a ha b hb
    simp only [List.mem_singleton] at hb
    subst hb
    exact fun hab ↦ hk (hab ▸ ha)

end Table

end AssetBundler
