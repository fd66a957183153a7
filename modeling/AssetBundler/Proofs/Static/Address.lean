import AssetBundler.Proofs.Static.Tracking

/-!
# The addresses of published files

The address of a path and that of the file published for it. In development the file has the name of
the path; after a release with fingerprints the manifest leads from the path of every copy to a copy.
Main statement: for which asset folders, paths and copies the two addresses agree
(`Static.addresses_agree_iff`).
-/

namespace AssetBundler

open AssetBundler.Action

namespace Pipeline

variable {p : Pipeline} {path : String}

theorem head_dropLeadingSlashes (filename : String) :
    (dropLeadingSlashes filename).toList.head? ≠ some '/' := by
  intro h
  have hnot := List.head?_dropWhile_not (· == '/') filename.toList
  rw [dropLeadingSlashes, String.toList_ofList] at h
  rw [h] at hnot
  exact absurd hnot (by decide)

theorem slashed_ne_empty (parts : List String) : slashed parts ≠ "" := by
  simp [slashed]

/-- In development the addresses of a path and of the file of that name agree if there is an asset folder
or the path starts like a package, but not both. -/
theorem assetUrl_eq_iff_of_inDevelopment (h : p.inDevelopment = true) (hpath : IsPlainPath path)
    (hne : path ≠ "") :
    p.assetUrl path = p.publishedUrl path ↔ (IsPackaged path ↔ p.assetDir = "") := by
  have haddress := addressPath_of_isPlainPath hpath
  have hdrop := dropLeadingSlashes_of_relative hpath.relative
  by_cases hpackaged : IsPackaged path
  · rw [assetUrl_of_packaged haddress hpackaged, publishedUrl_eq (by rwa [hdrop]), hdrop,
      iff_true_left hpackaged]
    by_cases hdir : p.assetDir = ""
    · simp [hdir]
    · rw [if_neg hdir, iff_false_right hdir]
      intro heq
      have hlength := congrArg String.length heq
      have hslash : "/".length = 1 := by decide
      rw [String.length_append, String.length_append, String.length_append, String.length_append,
        hslash] at hlength
      omega
  · rw [assetUrl_eq_publishedUrl_iff haddress hpackaged, fingerprinted_of_inDevelopment h, hdrop,
      and_iff_right hne, iff_false_left hpackaged]
    by_cases hdir : p.assetDir = ""
    · rw [if_pos hdir, iff_false_right (not_not_intro hdir)]
      intro heq
      have hlength := congrArg String.length heq
      simp at hlength
    · simp [hdir]

end Pipeline

namespace Static

section Copies

variable {s t : Site} {made : Site.Products} {c : Copy} {path : String}

theorem addressPath_of_plain (hplain : c.plain = "/" ++ path) (hpath : IsPlainPath path) :
    Pipeline.addressPath c.plain = "/" ++ path := by
  rw [hplain]
  exact Pipeline.addressPath_slash_append hpath

/-- A name with a backslash is not found, as it was recorded with a slash. -/
theorem fingerprinted_of_mem_backslash (hreleased : Site.Released s made t)
    (hplain : c.plain = "/" ++ path) (hseparator : '\\' ∈ path.toList) :
    t.pipeline.fingerprinted c.plain = c.plain := by
  have hne : ∀ name, toSlashes name ≠ c.plain := by
    intro name heq
    apply no_backslash_toSlashes name
    rw [heq, hplain, String.toList_append]
    exact List.mem_append_right _ hseparator
  apply Pipeline.fingerprinted_of_not_recorded
  rcases hreleased.entry c.plain fun e _ ↦ hne e.2.basename with ⟨d, -, hkey, -⟩ | ⟨-, hnone⟩
  · exact absurd hkey (hne d.plain)
  · rw [hnone]
    rfl

/-- The path of a copy leads to the last copy that was recorded under it. -/
theorem fingerprinted_of_mem_copies (hs : s.pipeline.fingerprintsCopies = true)
    (hreleased : Site.Released s made t) (hc : c ∈ made.copies) (hplain : c.plain = "/" ++ path)
    (hseparator : '\\' ∉ path.toList)
    (hcompiled : ∀ e ∈ made.compiled, toSlashes e.2.basename ≠ c.plain) :
    ∃ d ∈ made.copies, toSlashes d.plain = c.plain ∧ t.pipeline.fingerprinted c.plain = d.url := by
  have hown : toSlashes c.plain = c.plain := by
    apply toSlashes_of_not_mem
    rw [hplain, String.toList_append]
    simpa using hseparator
  have ht : t.pipeline.fingerprintsCopies = true :=
    (Pipeline.fingerprintsCopies_congr hreleased.config hreleased.environment).trans hs
  obtain ⟨hprod, hfingerprints⟩ := Bool.and_eq_true_iff.1 ht
  rcases hreleased.entry c.plain hcompiled with ⟨d, hd, hkey, hget⟩ | ⟨hnot, -⟩
  · exact ⟨d, hd, hkey,
      Pipeline.fingerprinted_of_get? hprod hfingerprints hget (Pipeline.slashed_ne_empty _)⟩
  · exact absurd hown (hnot c hc)

/-- The address of a path of a copy that leads to another one is that of the copy exactly if the two are
published as one and there is an asset folder. -/
theorem assetUrl_eq_iff_of_fingerprinted {p : Pipeline} {d : Copy} (hplain : c.plain = "/" ++ path)
    (hpath : IsPlainPath path) (hpackaged : ¬IsPackaged path)
    (h : p.fingerprinted c.plain = d.url) :
    p.assetUrl c.plain = p.publishedUrl c.url ↔ p.assetDir ≠ "" ∧ d.url = c.url := by
  have haddress := addressPath_of_plain hplain hpath
  obtain ⟨hurl, hne⟩ := c.url_eq_slash_append hplain hpath.relative
  rw [Pipeline.assetUrl_eq_publishedUrl_iff haddress hpackaged, and_iff_right hne, ← hplain, h]
  by_cases hdir : p.assetDir = ""
  · rw [if_pos hdir]
    constructor
    · intro heq
      refine absurd ?_ (Pipeline.head_dropLeadingSlashes c.url)
      rw [← heq, Copy.url, Pipeline.slashed, String.toList_append]
      rfl
    · rintro ⟨hdir', -⟩
      exact absurd hdir hdir'
  · rw [if_neg hdir, ← hurl, and_iff_right hdir]

end Copies

/-- The address of a path and that of the file published for it. In development they agree exactly if
there is an asset folder or the path starts like a package, but not both. After a release with
fingerprints the path of a copy has its own address if it starts like a package; with a backslash in it,
it is not found in the manifest; otherwise, unless an asset was compiled under that name, it leads to a
copy recorded under it, and the addresses agree exactly if that is published as the copy itself is and
there is an asset folder. -/
theorem addresses_agree_iff (s : Site) :
    (s.pipeline.inDevelopment = true → ∀ path, IsPlainPath path → path ≠ "" →
      (s.pipeline.assetUrl path = s.pipeline.publishedUrl path ↔
        (IsPackaged path ↔ s.pipeline.assetDir = ""))) ∧
    (s.pipeline.fingerprintsCopies = true → ∀ (compiles : Bool) (t : Site) (report : Report),
      Site.release compiles s = .ok report t →
      ∃ made, Site.trackedRelease compiles s = .ok made t ∧
        report.copied = made.copies.map Copy.url ∧
        ∀ c ∈ made.copies, ∀ path, c.plain = "/" ++ path → IsPlainPath path →
          (IsPackaged path → t.pipeline.assetUrl c.plain = c.plain) ∧
          (¬IsPackaged path → '\\' ∈ path.toList →
            t.pipeline.assetUrl c.plain = "/" ++ t.pipeline.assetDir ++ c.plain) ∧
          (¬IsPackaged path → '\\' ∉ path.toList →
            (∀ e ∈ made.compiled, toSlashes e.2.basename ≠ c.plain) →
            ∃ d ∈ made.copies, toSlashes d.plain = c.plain ∧
              t.pipeline.assetUrl c.plain = "/" ++ t.pipeline.assetDir ++ d.url ∧
              (t.pipeline.assetUrl c.plain = t.pipeline.publishedUrl c.url ↔
                t.pipeline.assetDir ≠ "" ∧ d.url = c.url))) := by
  refine ⟨fun hdevelopment path ↦ Pipeline.assetUrl_eq_iff_of_inDevelopment hdevelopment, ?_⟩
  intro hs compiles t report hrelease
  obtain ⟨made, hmade, hcopied, -, hreleased⟩ := Site.exists_tracked_of_release hs hrelease
  refine ⟨made, hmade, hcopied, fun c hc path hplain hpath ↦ ?_⟩
  have haddress := addressPath_of_plain hplain hpath
  refine ⟨fun hpackaged ↦ ?_, fun hpackaged hseparator ↦ ?_, fun hpackaged hseparator hcompiled ↦ ?_⟩
  · rw [Pipeline.assetUrl_of_packaged haddress hpackaged, hplain]
  · rw [Pipeline.assetUrl_of_not_packaged haddress hpackaged, ← hplain,
      fingerprinted_of_mem_backslash hreleased hplain hseparator]
  · obtain ⟨d, hd, hkey, hcounts⟩ :=
      fingerprinted_of_mem_copies hs hreleased hc hplain hseparator hcompiled
    refine ⟨d, hd, hkey, ?_, assetUrl_eq_iff_of_fingerprinted hplain hpath hpackaged hcounts⟩
    rw [Pipeline.assetUrl_of_not_packaged haddress hpackaged, ← hplain, hcounts]

/-- A site that copies an image, with the given asset folder in all environments. -/
def showcase (environment folder : String) : Site :=
  let site := Site.sample environment [("a.png", .file "A".toUTF8 1)] []
  { site with pipeline := { site.pipeline with config := { site.pipeline.config with
      assetDir := ⟨folder, folder⟩
      staticFiles := [("img", ["src/a.png"])] } } }

theorem showcase_addresses_agree : ∃ report t,
    Site.release true (showcase "production" "assets") = .ok report t ∧
      report.copied = ["/img/a-6dcd4ce23d88e2ee9568ba546c007c63d9131c1b.png"] ∧
      t.pipeline.assetUrl "/img/a.png" =
        t.pipeline.publishedUrl "/img/a-6dcd4ce23d88e2ee9568ba546c007c63d9131c1b.png" := by
  have hmade : result? (Site.trackedRelease true (showcase "production" "assets")) =
      some ⟨[⟨"img", ⟨.absolute ["src", "a.png"], "a.png"⟩, "A".toUTF8⟩], []⟩ := by decide +kernel
  have hrelease := eq_ok_of_result? (show
    result? (Site.release true (showcase "production" "assets")) =
      some ⟨true, .absolute ["public", "assets"],
        ["/img/a-6dcd4ce23d88e2ee9568ba546c007c63d9131c1b.png"], []⟩ by decide +kernel)
  obtain ⟨made, htracked, hcopied, hcopies⟩ :=
    (addresses_agree_iff (showcase "production" "assets")).2 (by decide) true _ _ hrelease
  rw [htracked] at hmade
  obtain rfl := Option.some.inj hmade
  have hurl := List.singleton_inj.1 hcopied
  have hplain : (⟨"img", ⟨.absolute ["src", "a.png"], "a.png"⟩, "A".toUTF8⟩ : Copy).plain =
      "/img/a.png" := by decide
  obtain ⟨-, -, hleads⟩ := hcopies _ (List.mem_singleton_self _) "img/a.png" hplain
    ⟨by decide, by decide⟩
  obtain ⟨d, hd, -, -, hiff⟩ := hleads (by decide) (by decide) (List.forall_mem_nil _)
  rw [List.mem_singleton.1 hd, ← hurl, hplain] at hiff
  exact ⟨_, _, hrelease, rfl, hiff.2 ⟨by decide +kernel, rfl⟩⟩

/-- Without an asset folder the address of a path begins with two slashes; and a path that only starts
like a package is left alone. -/
theorem showcase_addresses_differ :
    ((showcase "local" "").pipeline.inDevelopment = true ∧
      (showcase "local" "").pipeline.assetUrl "img/a.png" = "//img/a.png" ∧
      (showcase "local" "").pipeline.publishedUrl "img/a.png" = "/img/a.png") ∧
    (showcase "local" "assets").pipeline.inDevelopment = true ∧
      (showcase "local" "assets").pipeline.assetUrl "packages-old/a.png" = "/packages-old/a.png" ∧
      (showcase "local" "assets").pipeline.publishedUrl "packages-old/a.png" =
        "/assets/packages-old/a.png" := by
  decide +kernel

end Static

end AssetBundler
