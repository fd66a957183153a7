import AssetBundler.Proofs.Asset.Address
import AssetBundler.Proofs.Manifest.Reload

/-!
# Looking up what was recorded

A name is recorded with slashes as separators but looked up as it is spelled. So after any recordings a
name without a backslash leads to the last value recorded for it, in whatever spelling, or else to the value
loaded for it; a name with a backslash leads to the value loaded for it and to nothing else. The base name
of an asset is looked up in the same way, so an asset with a backslash in its name is published anew each
time. Main statement: `Manifest.lookup_exact`.
-/

namespace AssetBundler

open AssetBundler.Action

namespace Table

variable {κ α : Type} [DecidableEq κ]

/-- The value of the last entry for a key. -/
def last? (entries : List (κ × α)) (k : κ) : Option α := get? entries.reverse k

@[simp] theorem last?_nil (k : κ) : last? ([] : List (κ × α)) k = none := rfl

theorem get?_append (t u : Table κ α) (k : κ) : get? (t ++ u) k = (get? t k).or (get? u k) := by
  rw [get?, List.find?_append, Option.map_or]
  rfl

theorem last?_cons (e : κ × α) (entries : List (κ × α)) (k : κ) :
    last? (e :: entries) k = (last? entries k).or (if e.1 = k then some e.2 else none) := by
  rw [last?, List.reverse_cons, get?_append, get?_cons, get?_nil]
  rfl

/-- What is written entry by entry holds the last value for each key, or the old one. -/
theorem get?_foldl_insert (entries : List (κ × α)) (t : Table κ α) (k : κ) :
    (entries.foldl (fun t e ↦ t.insert e.1 e.2) t).get? k = (last? entries k).or (t.get? k) := by
  induction entries generalizing t with
  | nil => rfl
  | cons e entries ih =>
    rw [List.foldl_cons, ih, get?_insert, last?_cons, Option.or_assoc]
    split <;> rfl

theorem exists_of_last? {entries : List (κ × α)} {k : κ} {v : α} (h : last? entries k = some v) :
    (k, v) ∈ entries := List.mem_reverse.1 (mem_of_get? h)

end Table

namespace Manifest

def addAll (adds : List (String × String)) : Action Unit := adds.forM fun e ↦ add e.1 e.2

/-- Names and values as they are recorded. -/
def slashed (adds : List (String × String)) : List (String × String) :=
  adds.map fun e ↦ (toSlashes e.1, e.2)

section Add

variable {s t : Store}

theorem addAll_cons {e : String × String} {adds : List (String × String)} :
    addAll (e :: adds) s = .ok () t ↔
      ∃ u, add e.1 e.2 s = .ok () u ∧ addAll adds u = .ok () t := by
  constructor
  · intro h
    obtain ⟨_, u, hadd, hrest⟩ := bind_eq_ok.1 h
    exact ⟨u, hadd, hrest⟩
  · rintro ⟨u, hadd, hrest⟩
    exact bind_eq_ok.2 ⟨(), u, hadd, hrest⟩

/-- Recordings keep the file of the manifest and write the entries one after another. -/
theorem manifest_of_addAll {adds : List (String × String)} (h : addAll adds s = .ok () t) :
    t.manifest = ⟨s.manifest.path,
      (slashed adds).foldl (fun t e ↦ t.insert e.1 e.2) s.manifest.entries⟩ := by
  induction adds generalizing s with
  | nil =>
    cases h
    rfl
  | cons e adds ih =>
    obtain ⟨u, hadd, hrest⟩ := addAll_cons.1 h
    rw [ih hrest, manifest_of_add hadd]
    rfl

theorem get?_of_addAll {adds : List (String × String)} (h : addAll adds s = .ok () t) (name : String) :
    t.manifest.get? name = (Table.last? (slashed adds) name).or (s.manifest.get? name) := by
  rw [manifest_of_addAll h]
  exact Table.get?_foldl_insert (slashed adds) s.manifest.entries name

end Add

theorem contains_eq (m : Manifest) (name : String) : m.contains name = (m.get? name).isSome := rfl

/-- Nothing is recorded under a name with a backslash. -/
theorem last?_slashed_of_mem {name : String} (h : '\\' ∈ name.toList) (adds : List (String × String)) :
    Table.last? (slashed adds) name = none := by
  refine Option.eq_none_iff_forall_ne_some.2 fun v hv ↦ ?_
  obtain ⟨e, -, he⟩ := List.mem_map.1 (Table.exists_of_last? hv)
  rw [← (Prod.mk.inj he).1] at h
  exact no_backslash_toSlashes e.1 h

end Manifest

namespace Asset

theorem digestName_ne_empty (p : Pipeline) (a : Asset) (made : String) : a.digestName p made ≠ "" := by
  unfold digestName hashedTargetName
  cases a.logicalFolder with
  | some folder => simp
  | none => simp

variable {s t u : State}

/-- What publishing finds under the base name of the asset. -/
def recordedFile (s : State) : Option String :=
  (s.site.pipeline.manifest.get? s.asset.basename).filter (· ≠ "")

/-- A publication in production comes from the manifest exactly if that has a name for the asset. -/
theorem publish_isFromManifest_iff (hprod : s.site.pipeline.inProduction = true) {file : String} :
    (∃ again v, publish s = .ok again v ∧ again.isFromManifest = true ∧ again.filename = file) ↔
      recordedFile s = some file := by
  rw [publish_of_inProduction hprod]
  constructor
  · rintro ⟨again, v, hpublish, hfrom, rfl⟩
    cases hrecorded : (s.site.pipeline.manifest.get? s.asset.basename).filter (· ≠ "") with
    | some file =>
      rw [hrecorded] at hpublish
      cases hpublish
      exact hrecorded
    | none =>
      rw [hrecorded] at hpublish
      obtain ⟨made, rfl, -⟩ := publishFingerprinted_ok hpublish
      cases hfrom
  · intro hrecorded
    rw [recordedFile] at hrecorded
    rw [hrecorded]
    exact ⟨_, s, rfl, rfl, rfl⟩

/-- What a publication finds afterwards under the base name: what it returned, unless it wrote the asset
and the name has a backslash. -/
theorem recordedFile_of_publish (hprod : s.site.pipeline.inProduction = true) {r : Published}
    (h : publish s = .ok r t) (hname : u.asset.basename = s.asset.basename)
    (hmanifest : u.site.pipeline.manifest = t.site.pipeline.manifest) :
    recordedFile u = if r.isFromManifest = true ∨ '\\' ∉ s.asset.basename.toList then some r.filename
      else none := by
  rw [publish_of_inProduction hprod] at h
  unfold recordedFile
  rw [hmanifest, hname]
  cases hrecorded : (s.site.pipeline.manifest.get? s.asset.basename).filter (· ≠ "") with
  | some file =>
    rw [hrecorded] at h
    cases h
    rw [if_pos (.inl rfl)]
    exact hrecorded
  | none =>
    rw [hrecorded] at h
    obtain ⟨made, rfl, hpipeline⟩ := publishFingerprinted_ok h
    have hget : t.site.pipeline.manifest.get? s.asset.basename =
        if toSlashes s.asset.basename = s.asset.basename
          then some (s.asset.digestName s.site.pipeline made)
          else s.site.pipeline.manifest.get? s.asset.basename := by
      rw [hpipeline]
      exact Manifest.get?_recording ..
    rw [hget]
    by_cases hslash : '\\' ∈ s.asset.basename.toList
    · have hne : toSlashes s.asset.basename ≠ s.asset.basename := by
        intro heq
        rw [← heq] at hslash
        exact no_backslash_toSlashes s.asset.basename hslash
      rw [if_neg hne, if_neg (by simp [publishedAs, hslash])]
      exact hrecorded
    · rw [if_pos (toSlashes_of_not_mem hslash), if_pos (.inr hslash)]
      simp [publishedAs, digestName_ne_empty]

end Asset

namespace Manifest

/-- After any recordings a name leads to the last value recorded with exactly this name in slashes, or
else to the value loaded for it. So the last value recorded for the name up to separators is the one that
counts if the name has no backslash, if there is none, or if it was loaded for the name already, and not
otherwise; and an asset that was published is found when it is published again if it came from the manifest
or has no backslash in its name, and not otherwise. -/
theorem lookup_exact (name : String) :
    (∀ (adds : List (String × String)) (s t : Store), addAll adds s = .ok () t →
      t.manifest.get? name = (Table.last? (slashed adds) name).or (s.manifest.get? name) ∧
      (t.manifest.get? name =
          (Table.last? (slashed adds) (toSlashes name)).or (s.manifest.get? name) ↔
        '\\' ∉ name.toList ∨ Table.last? (slashed adds) (toSlashes name) = none ∨
          Table.last? (slashed adds) (toSlashes name) = s.manifest.get? name) ∧
      t.manifest.contains name =
        ((Table.last? (slashed adds) name).isSome || s.manifest.contains name) ∧
      (t.manifest.contains name =
          ((Table.last? (slashed adds) (toSlashes name)).isSome || s.manifest.contains name) ↔
        '\\' ∉ name.toList ∨ Table.last? (slashed adds) (toSlashes name) = none ∨
          s.manifest.contains name = true)) ∧
    ∀ (s t u : Asset.State) (r : Published), s.site.pipeline.inProduction = true →
      s.asset.basename = name → Asset.publish s = .ok r t →
      u.site.pipeline.inProduction = true → u.asset.basename = name →
      u.site.pipeline.manifest = t.site.pipeline.manifest →
      ((∃ again v, Asset.publish u = .ok again v ∧ again.isFromManifest = true ∧
          again.filename = r.filename) ↔ r.isFromManifest = true ∨ '\\' ∉ name.toList) := by
  refine ⟨fun adds s t h ↦ ?_, fun s t u r hprod hname h hprod' hname' hmanifest ↦ ?_⟩
  · have hget := get?_of_addAll h name
    by_cases hslash : '\\' ∈ name.toList
    · rw [last?_slashed_of_mem hslash] at hget ⊢
      rw [contains_eq, contains_eq, hget]
      cases hlast : Table.last? (slashed adds) (toSlashes name) with
      | none => simp only [Option.none_or, true_or, or_true, and_self, Option.isSome_none, Bool.false_or]
      | some v =>
        simp only [Option.none_or, Option.some_or, hslash, not_true_eq_false, false_or,
          reduceCtorEq, Option.isSome_none, Bool.false_or, Option.isSome_some, Bool.true_or, true_and]
        exact ⟨eq_comm, trivial⟩
    · rw [toSlashes_of_not_mem hslash, contains_eq, contains_eq, hget, Option.isSome_or]
      simp [hslash]
  · subst hname
    rw [Asset.publish_isFromManifest_iff hprod', Asset.recordedFile_of_publish hprod h hname' hmanifest,
      Option.ite_none_right_eq_some, and_iff_left rfl]

/-- A manifest that was loaded with one entry. -/
def catalogue : Store :=
  pad [("public", .folder 0 [("assets", .folder 0 [(".manifest.json",
    .file "\x7b\"a.js\": \"a-0.js\"\x7d".toUTF8 0)])])]

/-- A production site with one script. -/
def reference (name : String) : Asset.State :=
  ⟨Site.sample "production" [(name, .file "A();\n".toUTF8 1)] [],
    .ofFile (.absolute ["src", name]) (some name)⟩

theorem catalogue_finds_last :
    (∃ t, addAll [("img\\logo.png", "logo-1.png"), ("b.js", "b-1.js"), ("img/logo.png", "logo-2.png")]
        catalogue = .ok () t ∧
      t.manifest.get? "img/logo.png" = some "logo-2.png" ∧ t.manifest.get? "a.js" = some "a-0.js" ∧
      t.manifest.contains "img\\logo.png" = false) ∧
    ∃ r t, Asset.publish (reference "app.js") = .ok r t ∧ r.isWritten = true ∧
      ∃ again v, Asset.publish t = .ok again v ∧ again.isFromManifest = true ∧
        again.filename = r.filename := by
  constructor
  · have hadd := eq_ok_of_result? (show result? (addAll [("img\\logo.png", "logo-1.png"),
      ("b.js", "b-1.js"), ("img/logo.png", "logo-2.png")] catalogue) = some () by decide +kernel)
    refine ⟨_, hadd, ?_, ?_, ?_⟩
    · rw [((lookup_exact "img/logo.png").1 _ _ _ hadd).1]
      decide +kernel
    · rw [((lookup_exact "a.js").1 _ _ _ hadd).1]
      decide +kernel
    · rw [((lookup_exact "img\\logo.png").1 _ _ _ hadd).2.2.1]
      decide +kernel
  · have hfirst := eq_ok_of_result? (show result? (Asset.publish (reference "app.js")) =
      some ⟨.absolute ["public", "assets", Asset.signpostName], "/assets/" ++ Asset.signpostName,
        Asset.signpostName, true, false⟩ by decide +kernel)
    refine ⟨_, _, hfirst, rfl, ?_⟩
    exact ((lookup_exact "app.js").2 _ _ _ _ (by decide) (by decide) hfirst (by decide +kernel)
      (by decide +kernel) rfl).2 (.inr (by decide))

/-- What comes of publishing a script with a backslash in its name. -/
def rewritten : Published :=
  let name := "img\\app-989e96d8c5668ad41693d47ba511a827b5a1aaad.js"
  ⟨.absolute ["public", "assets", "img", name], "/assets/img/" ++ name, "img/" ++ name, true, false⟩

/-- A name that was just recorded is not found, and an asset of such a name is written each time. -/
theorem catalogue_loses_backslash :
    (∃ t, addAll [("img\\logo.png", "logo-1.png")] catalogue = .ok () t ∧
      t.manifest.get? "img\\logo.png" = none ∧ t.manifest.contains "img\\logo.png" = false ∧
      t.manifest.get? "img/logo.png" = some "logo-1.png") ∧
    ∃ t u, Asset.publish (reference "img\\app.js") = .ok rewritten t ∧
      Asset.publish t = .ok rewritten u := by
  constructor
  · exact ⟨_, eq_ok_of_result? (by decide +kernel), by decide +kernel, by decide +kernel,
      by decide +kernel⟩
  · have hfirst := eq_ok_of_result? (show result? (Asset.publish (reference "img\\app.js")) =
      some rewritten by decide +kernel)
    have hsecond := eq_ok_of_result? (show result? (Asset.publish
      (finalState (Asset.publish (reference "img\\app.js")))) = some rewritten by decide +kernel)
    exact ⟨_, _, hfirst, hsecond⟩

end Manifest

end AssetBundler
