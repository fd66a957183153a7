import AssetBundler.Static
import AssetBundler.Proofs.Path.Resolution
import AssetBundler.Proofs.Pipeline.Address

/-!
# Copies of static files

A copy goes to a destination, with the digest of its bytes in its name. Main statement: below the slash
at its beginning the path of a copy is relative, and not empty, if that of the file is
(`Static.Copy.url_eq_slash_append`).
-/

namespace AssetBundler

theorem head_append_ne {s t : String} (hs : s.toList.head? ≠ some '/')
    (ht : t.toList.head? ≠ some '/') : (s ++ t).toList.head? ≠ some '/' := by
  rw [String.toList_append, List.head?_append]
  cases hhead : s.toList.head? with
  | none => exact ht
  | some c =>
    rw [hhead] at hs
    exact hs

theorem head_append_of_ne_empty {s : String} (h : s ≠ "") (t : String) :
    (s ++ t).toList.head? = s.toList.head? := by
  have hchars : s.toList ≠ [] := by rwa [ne_eq, String.toList_eq_nil_iff]
  rw [String.toList_append, List.head?_append, List.head?_eq_some_head hchars]
  rfl

/-- A fingerprinted name is relative if the name without the digest is. -/
theorem head_fingerprintedName {rel : String} (h : rel.toList.head? ≠ some '/') (digest : String) :
    (fingerprintedName rel digest).toList.head? ≠ some '/' := by
  unfold fingerprintedName
  extract_lets p suffix stem name
  have hstem : stem.toList.head? ≠ some '/' := by
    intro hhead
    have hmem := List.mem_of_mem_head? hhead
    rw [String.toList_ofList] at hmem
    exact (Path.isProper_ofText rel).no_slash_name (List.mem_of_mem_take hmem)
  have hname : name.toList.head? ≠ some '/' := by
    have hrest : ("-" ++ (digest ++ Text.lower suffix)).toList.head? ≠ some '/' := by
      rw [head_append_of_ne_empty (by decide)]
      decide
    have hparts : name = stem ++ ("-" ++ (digest ++ Text.lower suffix)) := by
      simp only [name, String.append_assoc]
    rw [hparts]
    exact head_append_ne hstem hrest
  by_cases hdot : p.parent.text = "."
  · rw [if_pos hdot]
    exact hname
  · obtain ⟨c, hc, hslash⟩ := Path.exists_head_parent_text h hdot
    have hne : p.parent.text ≠ "" := by
      intro hempty
      rw [hempty] at hc
      cases hc
    rw [if_neg hdot, String.append_assoc, head_append_of_ne_empty hne, hc, ne_eq, Option.some.injEq]
    exact hslash

theorem fingerprintedName_ne_empty (rel digest : String) : fingerprintedName rel digest ≠ "" := by
  unfold fingerprintedName
  extract_lets p suffix stem name
  have hname : name ≠ "" := by simp [name]
  split
  · exact hname
  · simp

namespace Static

/-- A static file that was copied, with the bytes it had. -/
structure Copy where
  destination : String
  source : Source
  bytes : ByteArray

namespace Copy

instance : DecidableEq Copy := fun c d ↦
  decidable_of_iff (c.destination = d.destination ∧ c.source = d.source ∧
      c.bytes.data = d.bytes.data) (by
    cases c
    cases d
    simp [ByteArray.ext_iff])

/-- The path of the file without a digest. -/
def plain (c : Copy) : String := Pipeline.slashed [c.destination, c.source.rel]

/-- The path that the file is published under. -/
def url (c : Copy) : String :=
  Pipeline.slashed [c.destination, fingerprintedName c.source.rel (Sha1.hex c.bytes)]

/-- If a path begins where its destination does, or its name if there is none, these are relative. -/
theorem relative_parts {c : Copy} {path : String} (h : c.plain = "/" ++ path)
    (hpath : path.toList.head? ≠ some '/') :
    if c.destination = "" then c.source.rel.toList.head? ≠ some '/'
    else c.destination.toList.head? ≠ some '/' := by
  unfold plain at h
  by_cases hrel : c.source.rel = ""
  · by_cases hdestination : c.destination = ""
    · simp [hdestination, hrel]
    · have hwhole : c.destination = path := by
        simpa [Pipeline.slashed, hdestination, hrel] using h
      rw [if_neg hdestination, hwhole]
      exact hpath
  · rw [Pipeline.slashed_pair _ hrel] at h
    by_cases hdestination : c.destination = ""
    · rw [if_pos hdestination, String.append_right_inj] at h
      rw [if_pos hdestination, h]
      exact hpath
    · rw [if_neg hdestination, String.append_assoc, String.append_assoc, String.append_right_inj] at h
      rw [if_neg hdestination, ← head_append_of_ne_empty hdestination ("/" ++ c.source.rel), h]
      exact hpath

theorem url_eq_slash_append {c : Copy} {path : String} (h : c.plain = "/" ++ path)
    (hpath : path.toList.head? ≠ some '/') :
    c.url = "/" ++ Pipeline.dropLeadingSlashes c.url ∧ Pipeline.dropLeadingSlashes c.url ≠ "" := by
  have hname := fingerprintedName_ne_empty c.source.rel (Sha1.hex c.bytes)
  have hparts := relative_parts h hpath
  obtain ⟨rest, hrest, hrelative, hne⟩ : ∃ rest, c.url = "/" ++ rest ∧
      rest.toList.head? ≠ some '/' ∧ rest ≠ "" := by
    unfold url
    rw [Pipeline.slashed_pair _ hname]
    by_cases hdestination : c.destination = ""
    · rw [if_pos hdestination] at hparts ⊢
      exact ⟨_, rfl, head_fingerprintedName hparts _, hname⟩
    · rw [if_neg hdestination] at hparts ⊢
      rw [String.append_assoc, String.append_assoc]
      refine ⟨_, rfl, ?_, by simp [hdestination]⟩
      rw [head_append_of_ne_empty hdestination]
      exact hparts
  rw [hrest, Pipeline.dropLeadingSlashes_slash_append, Pipeline.dropLeadingSlashes_of_relative hrelative]
  exact ⟨rfl, hne⟩

end Copy

end Static

end AssetBundler
