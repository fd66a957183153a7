import AssetBundler.Processor.Entry
import AssetBundler.Proofs.Manifest.Persistence

/-!
# Options of processors

Options are looked up by texts. The fields with such keys are a table, and merging fields writes the
entries of one table into another: what is merged into them counts first (`get?_merge`).
-/

namespace AssetBundler

/-- Where no key is repeated the last entry for a key is the only one. -/
theorem Table.last?_of_nodup {κ α : Type} [DecidableEq κ] {t : Table κ α} (h : t.keys.Nodup) (k : κ) :
    last? t k = t.get? k := by
  have hreverse : (keys t.reverse).Nodup := by
    unfold keys
    rw [List.map_reverse]
    exact List.nodup_reverse.2 h
  exact get?_eq_of_perm (List.reverse_perm t) hreverse h k

theorem Table.get?_map {κ α β : Type} [DecidableEq κ] (f : α → β) (t : Table κ α) (k : κ) :
    get? (t.map fun e ↦ (e.1, f e.2)) k = (get? t k).map f := by
  induction t with
  | nil => rfl
  | cons e t ih =>
    rw [List.map_cons, get?_cons, get?_cons, ih]
    by_cases heq : e.1 = k <;> simp [heq]

namespace Value.Fields

variable {fields more : Fields} {key : String}

/-- Each text is the key of one field at most, as in every mapping. -/
def IsMapping (fields : Fields) : Prop := fields.texts.keys.Nodup

instance (fields : Fields) : Decidable fields.IsMapping := inferInstanceAs (Decidable (List.Nodup _))

theorem texts_cons_text (key : String) (v : Value) (fields : Fields) :
    texts ((.text key, v) :: fields) = (key, v) :: fields.texts := rfl

/-- A key that is no text. -/
def IsNoText (k : Value) : Prop := ∀ key, k.isText key = false

theorem isNoText_or (k : Value) : (∃ key, k = .text key) ∨ IsNoText k := by
  cases k with
  | text key => exact .inl ⟨key, rfl⟩
  | _ => exact .inr fun _ ↦ rfl

theorem texts_cons_noText {k : Value} (hk : IsNoText k) (v : Value) (fields : Fields) :
    texts ((k, v) :: fields) = fields.texts := by
  cases k with
  | text key => exact absurd (hk key) (by simp [isText])
  | _ => rfl

theorem get?_texts (fields : Fields) (key : String) : fields.texts.get? key = fields.get? key := by
  induction fields with
  | nil => rfl
  | cons field fields ih =>
    obtain ⟨k, v⟩ := field
    rcases isNoText_or k with ⟨other, rfl⟩ | hk
    · rw [texts_cons_text, Table.get?_cons, ih]
      by_cases heq : other = key <;> simp [get?, isText, heq]
    · rw [texts_cons_noText hk, ih]
      simp [get?, hk key]

theorem texts_insert_text (fields : Fields) (key : String) (v : Value) :
    texts (fields.insert (.text key) v) = Table.insert fields.texts key v := by
  induction fields with
  | nil => rfl
  | cons field fields ih =>
    obtain ⟨k, old⟩ := field
    rcases isNoText_or k with ⟨other, rfl⟩ | hk
    · rw [insert, texts_cons_text, Table.insert]
      by_cases heq : other = key
      · rw [if_pos (by simp [Json.text_beq, heq]), if_pos heq, heq]
        rfl
      · rw [if_neg (by simp [Json.text_beq, heq]), if_neg heq, texts_cons_text, ih]
    · have hdiffers : (k == Value.text key) = false := by
        cases k with
        | text other => exact absurd (hk other) (by simp [isText])
        | _ => rfl
      simp [insert, hdiffers, texts_cons_noText hk, ih]

theorem texts_insert_noText {k : Value} (hk : IsNoText k) (fields : Fields) (v : Value) :
    texts (fields.insert k v) = fields.texts := by
  induction fields with
  | nil => exact texts_cons_noText hk v []
  | cons field fields ih =>
    obtain ⟨other, old⟩ := field
    rcases isNoText_or other with ⟨name, rfl⟩ | hother
    · have hdiffers : (Value.text name == k) = false := by
        cases k with
        | text key => exact absurd (hk key) (by simp [isText])
        | _ => rfl
      simp [insert, hdiffers, texts_cons_text, ih]
    · rw [insert]
      split
      · rw [texts_cons_noText hother, texts_cons_noText hother]
      · rw [texts_cons_noText hother, texts_cons_noText hother, ih]

theorem texts_merge (fields more : Fields) :
    texts (fields.merge more) = more.texts.foldl (fun t e ↦ t.insert e.1 e.2) fields.texts := by
  unfold merge
  induction more generalizing fields with
  | nil => rfl
  | cons field more ih =>
    obtain ⟨k, v⟩ := field
    rw [List.foldl_cons, ih]
    rcases isNoText_or k with ⟨key, rfl⟩ | hk
    · rw [texts_cons_text, List.foldl_cons, texts_insert_text]
    · rw [texts_cons_noText hk, texts_insert_noText hk]

/-- What is merged in comes first. -/
theorem get?_merge (hmore : more.IsMapping) (fields : Fields) (key : String) :
    (fields.merge more).get? key = (more.get? key).or (fields.get? key) := by
  rw [← get?_texts, texts_merge, Table.get?_foldl_insert, get?_texts, Table.last?_of_nodup hmore,
    get?_texts]

theorem isMapping_merge (hfields : fields.IsMapping) (more : Fields) : (fields.merge more).IsMapping := by
  unfold IsMapping
  rw [texts_merge]
  exact Table.nodup_keys_foldl_insert more.texts hfields

end Value.Fields

end AssetBundler
