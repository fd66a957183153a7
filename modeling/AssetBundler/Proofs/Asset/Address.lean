import AssetBundler.Proofs.Asset.Name
import AssetBundler.Proofs.Asset.Production
import AssetBundler.Proofs.Pipeline.Address

/-!
# The address of a published asset

A publication in production records the name of the file under the base name of the asset, which has no
slash before it. The address of a path is looked up with the slash, so it does not see this entry: the
publication does not change it (`assetUrl_of_publish`), and it is the address of the published file only
if a static file was recorded under the same name with the same published name.
-/

namespace AssetBundler

open AssetBundler.Action

theorem toSlashes_of_not_mem {s : String} (h : '\\' ∉ s.toList) : toSlashes s = s := by
  have hmap : Text.replaceChar '\\' '/' s.toList = s.toList := by
    unfold Text.replaceChar
    refine (List.map_congr_left fun c hc ↦ ?_).trans (List.map_id _)
    refine if_neg ?_
    rintro rfl
    exact h hc
  rw [toSlashes, hmap, String.ofList_toList]

theorem no_backslash_toSlashes (s : String) : '\\' ∉ (toSlashes s).toList := by
  unfold toSlashes Text.replaceChar
  rw [String.toList_ofList]
  intro h
  obtain ⟨c, -, hc⟩ := List.mem_map.1 h
  by_cases hbackslash : c = '\\'
  · rw [if_pos hbackslash] at hc
    exact absurd hc (by decide)
  · rw [if_neg hbackslash] at hc
    exact hbackslash hc

/-- A name is its stem and then nothing or a dot and more. -/
theorem toList_eq_stemOf_append (name : String) :
    name.toList = (stemOf name).toList ++ (name.toList.drop 1).dropWhile (· ≠ '.') := by
  rw [toList_stemOf, List.append_assoc, List.takeWhile_append_dropWhile, List.take_append_drop]

/-- A pipeline with one more entry in its manifest, or with another value for a name. -/
def Pipeline.recording (p : Pipeline) (name published : String) : Pipeline :=
  { p with manifest := p.manifest.recording name published }

theorem Site.pipeline_add {name published : String} {s t : Site}
    (h : Site.ofManifest (Manifest.add name published) s = .ok () t) :
    t.pipeline = s.pipeline.recording name published := by
  have hmanifest := Manifest.manifest_add name published ⟨s.disk, s.pipeline.manifest⟩
  unfold Site.ofManifest at h
  rcases hadd : Manifest.add name published ⟨s.disk, s.pipeline.manifest⟩ with ⟨_, u⟩ | ⟨e, u⟩
  · rw [hadd] at h hmanifest
    cases h
    exact congrArg (fun manifest ↦ { s.pipeline with manifest }) hmanifest
  · rw [hadd] at h
    cases h

namespace Asset

theorem hashedTargetName_ne_basename (p : Pipeline) (a : Asset) (made : String) :
    a.hashedTargetName p made ≠ a.basename := by
  intro heq
  have hlist := congrArg String.toList heq
  rw [hashedTargetName_eq, hashedStem, String.append_assoc, String.append_assoc, basename,
    toList_eq_stemOf_append a.path.name, String.toList_append] at hlist
  have hrest : "-".toList ++ (made ++ a.targetExtension p).toList =
      (a.path.name.toList.drop 1).dropWhile (· ≠ '.') := by
    rw [← String.toList_append]
    exact List.append_cancel_left hlist
  have hhead := List.head?_dropWhile_not (· ≠ '.') (a.path.name.toList.drop 1)
  rw [← hrest] at hhead
  simp at hhead

section Names

variable {a : Asset} (ha : '/' ∉ a.path.name.toList) (p : Pipeline) (made : String)

include ha

theorem relative_digestName : (a.digestName p made).toList.head? ≠ some '/' := by
  unfold digestName
  cases hfolder : a.logicalFolder with
  | some folder =>
    obtain ⟨c, hc, hslash⟩ := head_of_logicalFolder hfolder
    simpa [List.head?_append, hc] using hslash
  | none =>
    have hstem : '/' ∉ a.stem.toList := fun h ↦ ha (mem_of_mem_stemOf h)
    have hhead : a.stem.toList.head? ≠ some '/' := fun h ↦ hstem (List.mem_of_mem_head? h)
    cases hchars : a.stem.toList with
    | nil => simp [hashedTargetName, hchars]
    | cons c cs =>
      rw [hchars] at hhead
      simpa [hashedTargetName, List.head?_append, hchars] using hhead

theorem digestName_ne_basename : a.digestName p made ≠ a.basename := by
  unfold digestName
  cases a.logicalFolder with
  | some folder =>
    intro heq
    apply ha
    rw [← basename, ← heq, String.toList_append, String.toList_append]
    simp
  | none => exact hashedTargetName_ne_basename p a made

end Names

variable {s t : State}

theorem fingerprint_ok {name : String} (h : fingerprint s = .ok name t) :
    s.SameSource t ∧ ∃ made, name = s.asset.digestName s.site.pipeline made := by
  obtain ⟨made, u, hdigest, h⟩ := bind_eq_ok.1 h
  have hsame : s.SameSource u := movesAlong_digest.ok hdigest
  cases h
  refine ⟨hsame, made, ?_⟩
  rw [digestName_congr hsame.path hsame.logical, hsame.pipeline]

theorem writeFile_ok {target : Path} {text : String} (h : writeFile target text s = .ok () t) :
    t.site.pipeline = s.site.pipeline ∧ t.asset = s.asset := by
  rcases hwrite : Disk.writeText target text s.site.disk with ⟨_, disk⟩ | ⟨why, disk⟩
  · cases h.symm.trans (writeFile_of_ok hwrite)
    exact ⟨rfl, rfl⟩
  · cases h.symm.trans (writeFile_of_error hwrite)

theorem record_ok {name : String} {r : Published} (h : record name s = .ok r t) :
    t.site.pipeline = s.site.pipeline.recording s.asset.basename name ∧
      r = publishedAs t name true false := by
  unfold record at h
  rw [bind_of_ok (get_apply s)] at h
  obtain ⟨_, u, hadd, h⟩ := bind_eq_ok.1 h
  cases h
  unfold onSite at hadd
  rcases hsite : Site.ofManifest (Manifest.add s.asset.basename name) s.site with ⟨_, v⟩ | ⟨e, v⟩
  · rw [hsite] at hadd
    cases hadd
    exact ⟨Site.pipeline_add hsite, rfl⟩
  · rw [hsite] at hadd
    cases hadd

/-- A publication under a new name ends with the recording of that name. -/
theorem record_of_publishFingerprinted {r : Published} (h : publishFingerprinted s = .ok r t) :
    ∃ made u, u.site.pipeline = s.site.pipeline ∧ u.asset.basename = s.asset.basename ∧
      record (s.asset.digestName s.site.pipeline made) u = .ok r t := by
  obtain ⟨name, u, hname, h⟩ := bind_eq_ok.1 h
  obtain ⟨hsame, made, rfl⟩ := fingerprint_ok hname
  obtain ⟨target, _, htarget, h⟩ := bind_eq_ok.1 h
  cases htarget
  obtain ⟨text, v, hbody, h⟩ := bind_eq_ok.1 h
  have hsame' : s.SameSource v := hsame.trans (movesAlong_body.ok hbody)
  obtain ⟨_, w, hwrite, hrecord⟩ := bind_eq_ok.1 h
  obtain ⟨hpipeline, hasset⟩ := writeFile_ok hwrite
  refine ⟨made, w, hpipeline.trans hsame'.pipeline, ?_, hrecord⟩
  rw [hasset, basename, hsame'.path]
  rfl

theorem publishFingerprinted_ok {r : Published} (h : publishFingerprinted s = .ok r t) :
    ∃ made, r = publishedAs s (s.asset.digestName s.site.pipeline made) true false ∧
      t.site.pipeline = s.site.pipeline.recording s.asset.basename
        (s.asset.digestName s.site.pipeline made) := by
  obtain ⟨made, u, hpipeline, hbasename, hrecord⟩ := record_of_publishFingerprinted h
  obtain ⟨hrecorded, rfl⟩ := record_ok hrecord
  rw [hpipeline, hbasename] at hrecorded
  refine ⟨made, ?_, hrecorded⟩
  unfold publishedAs
  rw [hrecorded]
  rfl

/-- A publication in production uses the name that is recorded, or makes one and records it. -/
theorem publish_ok (hprod : s.site.pipeline.inProduction = true) {r : Published}
    (h : publish s = .ok r t) :
    (∃ file, s.site.pipeline.manifest.get? s.asset.basename = some file ∧
      r = publishedAs s file false true ∧ t = s) ∨
    ∃ made, r = publishedAs s (s.asset.digestName s.site.pipeline made) true false ∧
      t.site.pipeline = s.site.pipeline.recording s.asset.basename
        (s.asset.digestName s.site.pipeline made) := by
  rw [publish_of_inProduction hprod] at h
  cases hfile : (s.site.pipeline.manifest.get? s.asset.basename).filter (· ≠ "") with
  | some file =>
    rw [hfile] at h
    cases h
    exact .inl ⟨file, (Option.filter_eq_some_iff.1 hfile).1, rfl, rfl⟩
  | none =>
    rw [hfile] at h
    exact .inr (publishFingerprinted_ok h)

/-- A publication in production keeps everything in the pipeline but what is recorded under the base
name. -/
theorem frame_of_publish (hprod : s.site.pipeline.inProduction = true) {r : Published}
    (h : publish s = .ok r t) :
    t.site.pipeline.config = s.site.pipeline.config ∧
      t.site.pipeline.environment = s.site.pipeline.environment ∧
      ∀ key, toSlashes s.asset.basename ≠ key →
        t.site.pipeline.manifest.get? key = s.site.pipeline.manifest.get? key := by
  rcases publish_ok hprod h with ⟨file, -, -, rfl⟩ | ⟨made, -, hpipeline⟩
  · exact ⟨rfl, rfl, fun _ _ ↦ rfl⟩
  · rw [hpipeline]
    refine ⟨rfl, rfl, fun key hkey ↦ ?_⟩
    exact (Manifest.get?_recording ..).trans (if_neg hkey)

theorem url_of_publish (hprod : s.site.pipeline.inProduction = true) {r : Published}
    (h : publish s = .ok r t) : r.url = s.site.pipeline.publishedUrl r.filename := by
  rcases publish_ok hprod h with ⟨file, -, rfl, -⟩ | ⟨made, rfl, -⟩
  · rfl
  · rfl

/-- What is returned is recorded under the base name if that has no separator to be rewritten. -/
theorem get?_of_publish (hprod : s.site.pipeline.inProduction = true)
    (hseparator : '\\' ∉ s.asset.basename.toList) {r : Published} (h : publish s = .ok r t) :
    t.site.pipeline.manifest.get? s.asset.basename = some r.filename := by
  rcases publish_ok hprod h with ⟨file, hfile, rfl, rfl⟩ | ⟨made, rfl, hpipeline⟩
  · exact hfile
  · rw [hpipeline]
    exact (Manifest.get?_recording ..).trans (if_pos (toSlashes_of_not_mem hseparator))

/-- Publishing an asset records it where the asset looks for its own name, and leaves the address of its
base name as it was. That is the address of the published file exactly if the name of the file is the one
that counted for the base name with a slash; if the manifest had nothing there, the address of a newly
written asset is that of a file with its plain name. -/
theorem assetUrl_of_publish {site : Site} (hs : site.IsProper) {logical : String} {a : Asset}
    (ha : site.getAsset logical = .ok a) (hpath : s.asset.path = a.path)
    (hprod : s.site.pipeline.inProduction = true) (hdir : s.site.pipeline.assetDir ≠ "")
    (hquery : '?' ∉ a.basename.toList) (hseparator : '\\' ∉ a.basename.toList)
    (hpackaged : ¬IsPackaged a.basename) {r : Published} (h : publish s = .ok r t) {p : Pipeline}
    (hconfig : p.config = t.site.pipeline.config)
    (henvironment : p.environment = t.site.pipeline.environment)
    (hmanifest : p.manifest = t.site.pipeline.manifest) :
    a.inManifest p = some r.filename ∧
      p.assetUrl a.basename = s.site.pipeline.assetUrl a.basename ∧
      (p.assetUrl a.basename = r.url ↔ Pipeline.dropLeadingSlashes r.filename ≠ "" ∧
        s.site.pipeline.fingerprinted ("/" ++ a.basename) =
          "/" ++ Pipeline.dropLeadingSlashes r.filename) ∧
      (r.isWritten = true → (s.site.pipeline.manifest.get? ("/" ++ a.basename)).getD "" = "" →
        p.assetUrl a.basename = "/" ++ s.site.pipeline.assetDir ++ "/" ++ a.basename ∧
          p.assetUrl a.basename ≠ r.url) := by
  obtain ⟨path, hfound, hmade⟩ := except_bind_eq_ok.1 ha
  have hslash : '/' ∉ a.path.name.toList := by
    rw [← Except.ok.inj hmade]
    exact (Site.isCanonical_of_getFile hs hfound).no_slash_name
  have hbasename : s.asset.basename = a.basename := congrArg Path.name hpath
  have haddress : Pipeline.addressPath a.basename = "/" ++ a.basename :=
    Pipeline.addressPath_of_isPlainPath
      ⟨fun hhead ↦ hslash (List.mem_of_mem_head? hhead), hquery⟩
  obtain ⟨hconfig', henvironment', hkeeps⟩ := frame_of_publish hprod h
  rw [hconfig'] at hconfig
  rw [henvironment'] at henvironment
  have hentry : p.manifest.get? ("/" ++ a.basename) =
      s.site.pipeline.manifest.get? ("/" ++ a.basename) := by
    rw [hmanifest]
    refine hkeeps _ ?_
    rw [hbasename, toSlashes_of_not_mem hseparator]
    intro heq
    have hlength := congrArg String.length heq
    simp at hlength
  have hunchanged : p.assetUrl a.basename = s.site.pipeline.assetUrl a.basename := by
    rw [Pipeline.assetUrl_of_not_packaged haddress hpackaged,
      Pipeline.assetUrl_of_not_packaged haddress hpackaged, Pipeline.assetDir_congr hconfig henvironment,
      Pipeline.fingerprinted_congr hconfig henvironment hentry]
  have hiff : p.assetUrl a.basename = r.url ↔ Pipeline.dropLeadingSlashes r.filename ≠ "" ∧
      s.site.pipeline.fingerprinted ("/" ++ a.basename) =
        "/" ++ Pipeline.dropLeadingSlashes r.filename := by
    rw [hunchanged, url_of_publish hprod h,
      Pipeline.assetUrl_eq_publishedUrl_iff haddress hpackaged, if_neg hdir]
  refine ⟨?_, hunchanged, hiff, fun hwritten hnone ↦ ?_⟩
  · have hproduction : p.inProduction = true :=
      (Pipeline.inProduction_congr hconfig henvironment).trans hprod
    rw [← hbasename] at hseparator
    unfold inManifest
    rw [if_pos hproduction, hmanifest, ← hbasename]
    exact get?_of_publish hprod hseparator h
  · have hcounts : s.site.pipeline.fingerprinted ("/" ++ a.basename) = "/" ++ a.basename :=
      Pipeline.fingerprinted_of_not_recorded hnone
    constructor
    · rw [hunchanged, Pipeline.assetUrl_of_not_packaged haddress hpackaged, hcounts,
        ← String.append_assoc]
    · rw [ne_eq, hiff, hcounts, String.append_right_inj]
      rintro ⟨-, hname⟩
      rcases publish_ok hprod h with ⟨file, -, rfl, -⟩ | ⟨made, rfl, -⟩
      · exact Bool.false_ne_true hwritten
      · have hslash' : '/' ∉ s.asset.path.name.toList := by rwa [hpath]
        refine digestName_ne_basename hslash' s.site.pipeline made ?_
        rw [hbasename, hname]
        exact (Pipeline.dropLeadingSlashes_of_relative
          (relative_digestName hslash' s.site.pipeline made)).symm

/-- A production site with one script and a manifest. -/
def signpost (entries : Table String String) : State :=
  let site := Site.sample "production" [("app.js", .file "A();\n".toUTF8 1)] []
  ⟨{ site with pipeline := { site.pipeline with
      manifest := { site.pipeline.manifest with entries } } },
    .ofFile (.absolute ["src", "app.js"]) (some "app.js")⟩

/-- The name that the script is published under. -/
def signpostName : String := "app-989e96d8c5668ad41693d47ba511a827b5a1aaad.js"

theorem signpost_leads_to_copy : ∃ r t, publish (signpost [("/app.js", "/" ++ signpostName)]) = .ok r t ∧
    r.filename = signpostName ∧ t.site.pipeline.assetUrl "app.js" = r.url := by
  have hpublish := eq_ok_of_result? (show
    result? (publish (signpost [("/app.js", "/" ++ signpostName)])) =
      some ⟨.absolute ["public", "assets", signpostName], "/assets/" ++ signpostName, signpostName,
        true, false⟩ by decide +kernel)
  have hs : (signpost [("/app.js", "/" ++ signpostName)]).site.IsProper :=
    ⟨List.forall_mem_nil _, (Site.isProper_sample "production" [] []).roots⟩
  have ha : (signpost [("/app.js", "/" ++ signpostName)]).site.getAsset "app.js" =
      .ok (.ofFile (.absolute ["src", "app.js"]) (some "app.js")) :=
    eq_ok_of_toOption (by decide +kernel)
  refine ⟨_, _, hpublish, rfl, ?_⟩
  refine ((assetUrl_of_publish hs ha rfl (by decide) (by decide) (by decide) (by decide) (by decide)
    hpublish rfl rfl rfl).2.2.1).2 ⟨by decide +kernel, by decide +kernel⟩

/-- An asset that was just published is not where its address leads. -/
theorem signpost_leads_nowhere : ∃ r t, publish (signpost []) = .ok r t ∧ r.isWritten = true ∧
    r.url = "/assets/" ++ signpostName ∧ t.site.pipeline.manifest.entries = [("app.js", signpostName)] ∧
    t.site.pipeline.assetUrl "app.js" = "/assets/app.js" := by
  have hpublish := eq_ok_of_result? (show result? (publish (signpost [])) =
      some ⟨.absolute ["public", "assets", signpostName], "/assets/" ++ signpostName, signpostName,
        true, false⟩ by decide +kernel)
  exact ⟨_, _, hpublish, rfl, rfl, by decide +kernel, by decide +kernel⟩

end Asset

end AssetBundler
