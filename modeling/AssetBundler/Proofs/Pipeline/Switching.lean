import AssetBundler.Proofs.Asset.Desk
import AssetBundler.Proofs.Asset.Recording
import AssetBundler.Proofs.Pipeline.Opening

/-!
# Turning to an environment whose manifest cannot be loaded

The environment, the file of the manifest and its entries are set before the file is read. So a turn that
fails is made all the same, and what was recorded is forgotten: the site is as before only if it was in the
environment already and had nothing recorded. Publishing goes on in the new folder, and the first asset
that is written there in production replaces the file that could not be read by one that knows nothing
but what was recorded since. Main statement: `Site.switch_exact`.
-/

namespace AssetBundler

open AssetBundler.Action

namespace Manifest

/-- Why a manifest cannot be loaded: its file cannot be looked for, or is there and is not UTF-8, not JSON,
JSON with an integer that is too long, or JSON other than an object. -/
inductive IsUnloadable (d : Disk) (file : Path) : Failure → Prop
  | refused (why : Disk.Error) (h : d.isFile file = .error why) : IsUnloadable d file (.disk why)
  | notText (bytes : ByteArray) (hread : d.readBytes file = .ok bytes)
      (hbytes : ∀ text : String, bytes ≠ text.toUTF8) : IsUnloadable d file (.notText file)
  | notJson (text : String) (hread : d.readBytes file = .ok text.toUTF8)
      (hparse : Json.read (unifyNewlines text) = .error .malformed) :
      IsUnloadable d file (.corruptManifest file)
  | longInteger (text : String) (hread : d.readBytes file = .ok text.toUTF8)
      (hparse : Json.read (unifyNewlines text) = .error .longInteger) :
      IsUnloadable d file (.notText file)
  | notFields (text : String) (value : Value) (hread : d.readBytes file = .ok text.toUTF8)
      (hparse : Json.read (unifyNewlines text) = .ok value) (hkind : ∀ fields, value ≠ .map fields) :
      IsUnloadable d file (.manifestNotFields file)

variable {d : Disk} {file : Path}

theorem readEntries_of_text {text : String} (hread : d.readBytes file = .ok text.toUTF8) :
    readEntries d file = entriesOf file (unifyNewlines text) := by
  rw [readEntries_of_readBytes hread, fromUTF8?_eq_some.2 rfl]

theorem isUnloadable_of_readEntries {e : Failure} (h : readEntries d file = .error e) :
    IsUnloadable d file e := by
  rcases Disk.isFile_cases d file with ⟨bytes, hbytes⟩ | hnone | hrefused
  · cases hdecode : String.fromUTF8? bytes with
    | none =>
      rw [readEntries_of_readBytes hbytes, hdecode] at h
      cases h
      refine .notText bytes hbytes fun text htext ↦ ?_
      rw [fromUTF8?_eq_some.2 htext] at hdecode
      cases hdecode
    | some text =>
      rw [fromUTF8?_eq_some.1 hdecode] at hbytes
      rw [readEntries_of_text hbytes] at h
      unfold entriesOf at h
      split at h
      · next hparse =>
        cases h
        exact .notJson text hbytes hparse
      · next hparse =>
        cases h
        exact .longInteger text hbytes hparse
      · cases h
      · next value hkind hparse =>
        cases h
        exact .notFields text value hbytes hparse hkind
  · rw [readEntries_of_no_file hnone] at h
    cases h
  · rw [readEntries_of_refused hrefused] at h
    cases h
    exact .refused _ hrefused

theorem IsUnloadable.readEntries_eq {e : Failure} (h : IsUnloadable d file e) :
    readEntries d file = .error e := by
  cases h with
  | refused why h => exact readEntries_of_refused h
  | notText bytes hread hbytes =>
    have hdecode : String.fromUTF8? bytes = none :=
      Option.eq_none_iff_forall_ne_some.2 fun text htext ↦ hbytes text (fromUTF8?_eq_some.1 htext)
    rw [readEntries_of_readBytes hread, hdecode]
  | notJson text hread hparse =>
    rw [readEntries_of_text hread]
    unfold entriesOf
    rw [hparse]
  | longInteger text hread hparse =>
    rw [readEntries_of_text hread]
    unfold entriesOf
    rw [hparse]
  | notFields text value hread hparse hkind =>
    rw [readEntries_of_text hread]
    unfold entriesOf
    rw [hparse]
    cases value with
    | map fields => exact absurd rfl (hkind fields)
    | _ => rfl

theorem readEntries_eq_error_iff {e : Failure} :
    readEntries d file = .error e ↔ IsUnloadable d file e :=
  ⟨isUnloadable_of_readEntries, IsUnloadable.readEntries_eq⟩

end Manifest

namespace Site

/-- The site in another environment, with the manifest of its folder empty. -/
def turned (s : Site) (environment : String) : Site :=
  { s with pipeline := { s.pipeline with
      environment, manifest := ⟨some { s.pipeline with environment }.manifestPath, []⟩ } }

section Turn

variable {environment : String} {s t : Site} {e : Failure}

theorem setEnvironment_eq_error_iff : setEnvironment environment s = .error e t ↔
    Manifest.IsUnloadable s.disk (s.turned environment).pipeline.manifestPath e ∧
      t = s.turned environment := by
  rw [← Manifest.readEntries_eq_error_iff]
  cases hread : Manifest.readEntries s.disk { s.pipeline with environment }.manifestPath with
  | ok entries =>
    have hset := load_of_ok (s := { s with pipeline := { s.pipeline with environment } }) hread
    constructor
    · intro h
      cases hset.symm.trans h
    · rintro ⟨h, -⟩
      cases hread.symm.trans h
  | error why =>
    have hset := load_of_error (s := { s with pipeline := { s.pipeline with environment } }) hread
    constructor
    · intro h
      cases hset.symm.trans h
      exact ⟨hread, rfl⟩
    · rintro ⟨h, rfl⟩
      cases hread.symm.trans h
      exact hset

theorem turned_eq_self_iff : s.turned environment = s ↔ s.pipeline.environment = environment ∧
    s.pipeline.manifest = ⟨some s.pipeline.manifestPath, []⟩ := by
  constructor
  · intro h
    have henvironment : environment = s.pipeline.environment :=
      congrArg (fun t : Site ↦ t.pipeline.environment) h
    subst henvironment
    exact ⟨rfl, (congrArg (fun t : Site ↦ t.pipeline.manifest) h).symm⟩
  · rintro ⟨rfl, hmanifest⟩
    change { s with pipeline := { s.pipeline with
      manifest := ⟨some s.pipeline.manifestPath, []⟩ } } = s
    rw [← hmanifest]

end Turn

end Site

namespace Desk

/-- What lookups and publications make of a site whose manifest is empty: the same pipeline, with entries of
the assets that were looked up, and of none outside production. -/
structure Follows (s : Site) (d : Desk) : Prop where
  pipeline : d.site.pipeline = { s.pipeline with manifest := d.site.pipeline.manifest }
  file : d.site.pipeline.manifest.path = some s.pipeline.manifestPath
  nodup : d.site.pipeline.manifest.entries.keys.Nodup
  development : s.pipeline.inProduction = false → d.site.pipeline.manifest.entries = []
  recorded : ∀ name file, d.site.pipeline.manifest.get? name = some file →
    ∃ a ∈ d.obtained, toSlashes a.basename = name

variable {s : Site} {d : Desk}

theorem Follows.inProduction (h : Follows s d) :
    d.site.pipeline.inProduction = s.pipeline.inProduction := by
  rw [h.pipeline]
  rfl

theorem follows_start (hs : s.pipeline.manifest = ⟨some s.pipeline.manifestPath, []⟩) :
    Follows s (start s) where
  pipeline := rfl
  file := by
    change s.pipeline.manifest.path = _
    rw [hs]
  nodup := by
    change s.pipeline.manifest.entries.keys.Nodup
    rw [hs]
    exact List.nodup_nil
  development _ := by
    change s.pipeline.manifest.entries = []
    rw [hs]
  recorded := by
    intro name file hget
    change s.pipeline.manifest.get? name = some file at hget
    rw [hs] at hget
    cases hget

theorem follows_obtain (h : Follows s d) (logical : String) : Follows s (d.step (.obtain logical)) := by
  cases hasset : d.site.getAsset logical with
  | error e =>
    have hstep : d.step (.obtain logical) = d := by simp only [step, hasset]
    rw [hstep]
    exact h
  | ok a =>
    have hstep : d.step (.obtain logical) = { d with assets := d.assets ++ [a] } := by
      simp only [step, hasset]
    rw [hstep]
    refine ⟨h.pipeline, h.file, h.nodup, h.development, fun name file hget ↦ ?_⟩
    obtain ⟨b, hb, hname⟩ := h.recorded name file hget
    refine ⟨b, ?_, hname⟩
    unfold obtained
    rw [List.map_append]
    exact List.mem_append_left _ hb

theorem follows_write (h : Follows s d) (index : Nat) : Follows s (d.step (.write index)) := by
  cases ha : d.assets[index]? with
  | none =>
    have hstep : d.step (.write index) = d := by simp only [step, ha]
    rw [hstep]
    exact h
  | some a =>
    have hstep : d.step (.write index) = d.settle index a (Asset.publish ⟨d.site, a⟩) := by
      simp only [step, ha]
    rw [hstep, settle_eq]
    have hown := Asset.recordsOwn_publish ⟨d.site, a⟩
    have hdev := Asset.pipeline_publish_of_development (s := ⟨d.site, a⟩)
    generalize Asset.publish ⟨d.site, a⟩ = r at hown hdev
    have hobtained : (d.assets.set index (finalState r).asset).map Asset.bare = d.obtained := by
      apply obtained_set ha
      unfold Asset.bare
      rw [hown.path, hown.logical]
    refine ⟨?_, hown.file.trans h.file, hown.nodup h.nodup, fun hprod ↦ ?_, fun name file hget ↦ ?_⟩
    · have hpipeline := hown.pipeline
      dsimp only at hpipeline
      rwa [h.pipeline] at hpipeline
    · dsimp only at hdev ⊢
      rw [hdev (h.inProduction.trans hprod)]
      exact h.development hprod
    · change ∃ b ∈ (d.assets.set index (finalState r).asset).map Asset.bare, _
      rw [hobtained]
      by_cases hname : toSlashes a.basename = name
      · exact ⟨a.bare, List.mem_map_of_mem (List.mem_of_getElem? ha), hname⟩
      · exact h.recorded name file ((hown.entry name hname).symm.trans hget)

theorem follows_run (hs : s.pipeline.manifest = ⟨some s.pipeline.manifestPath, []⟩)
    (calls : List Call) : Follows s (run s calls) := by
  induction calls using List.reverseRecOn with
  | nil => exact follows_start hs
  | append_singleton calls c ih =>
    rw [run_concat]
    cases c with
    | obtain logical => exact follows_obtain ih logical
    | write index => exact follows_write ih index

end Desk

namespace Site

/-- Turning to an environment fails exactly if the manifest of its folder cannot be loaded, and the site is
turned all the same, with nothing recorded: as it was only if it was in the environment already and had
nothing recorded. Whatever assets are looked up and published from there on, the manifest stays that of
the new folder and has entries for these assets only; and the first of them to be written in production
leaves a file that can be loaded in place of the one that could not, with its own entry and those before. -/
theorem switch_exact (environment : String) (s : Site) :
    let t := s.turned environment
    (∀ e u, setEnvironment environment s = .error e u ↔
      Manifest.IsUnloadable s.disk t.pipeline.manifestPath e ∧ u = t) ∧
    (t = s ↔ s.pipeline.environment = environment ∧
      s.pipeline.manifest = ⟨some s.pipeline.manifestPath, []⟩) ∧
    ∀ calls : List Desk.Call, Desk.Follows t (Desk.run t calls) ∧
      ∀ a r u, Asset.publish ⟨(Desk.run t calls).site, a⟩ = .ok r u →
        t.pipeline.inProduction = true → r.isFromManifest = false →
          r.path = t.pipeline.targetPath.join r.filename ∧
          ∃ entries, Manifest.readEntries u.site.disk t.pipeline.manifestPath = .ok entries ∧
            ∀ name, Table.get? entries name = if toSlashes a.basename = name then some r.filename
              else (Desk.run t calls).site.pipeline.manifest.get? name := by
  intro t
  refine ⟨fun e u ↦ setEnvironment_eq_error_iff, turned_eq_self_iff, fun calls ↦ ?_⟩
  have hfollows : Desk.Follows t (Desk.run t calls) := Desk.follows_run rfl calls
  refine ⟨hfollows, fun a r u hpublish hprod hnew ↦ ?_⟩
  obtain ⟨hread, hmanifest, hpath⟩ := Asset.readEntries_of_publish (s := ⟨(Desk.run t calls).site, a⟩)
    (hfollows.inProduction.trans hprod) hfollows.file hfollows.nodup hpublish hnew
  refine ⟨?_, _, hread, fun name ↦ ?_⟩
  · rw [hpath, hfollows.pipeline]
    rfl
  · have hnodup := (Asset.recordsOwn_publish.ok hpublish).nodup hfollows.nodup
    rw [Manifest.get?_sorted hnodup, hmanifest]
    exact Manifest.get?_recording ..

/-- A site in its local environment, with one name recorded in the local folder and a file that holds a
text in the place of the manifest of the production folder. -/
def crossroads (held : String) : Site :=
  let site := sample "local" [] []
  let assets : Node := .folder 0 [(".manifest.json", .file "\x7b\"a.js\": \"b.js\"\x7d".toUTF8 1)]
  let dist : Node := .folder 0 [(".manifest.json", .file held.toUTF8 1)]
  { site with
    disk := ⟨.folder 0 [("src", .folder 0 [("app.js", .file "A();\n".toUTF8 1)]),
      ("public", .folder 0 [("assets", assets), ("dist", dist)])], [], 9⟩
    pipeline := { site.pipeline with
      config := { site.pipeline.config with assetDir := ⟨"assets", "dist"⟩ }
      manifest := ⟨some (.absolute ["public", "assets", ".manifest.json"]), [("a.js", "b.js")]⟩ } }

theorem crossroads_unloadable : Manifest.IsUnloadable (crossroads "\x7bnot json").disk
    (.absolute ["public", "dist", ".manifest.json"])
    (.corruptManifest (.absolute ["public", "dist", ".manifest.json"])) :=
  .notJson "\x7bnot json" (eq_ok_of_toOption (by decide +kernel)) rfl

/-- The script of the site. -/
def crossroadsScript : Asset := .ofFile (.absolute ["src", "app.js"]) (some "app.js")

theorem publish_crossroads :
    result? (Asset.publish ⟨(crossroads "\x7bnot json").turned "production", crossroadsScript⟩) =
      some ⟨.absolute ["public", "dist", Asset.signpostName], "/dist/" ++ Asset.signpostName,
        Asset.signpostName, true, false⟩ := by decide +kernel

theorem crossroads_turns :
    ∃ t, setEnvironment "production" (crossroads "\x7bnot json") =
        .error (.corruptManifest (.absolute ["public", "dist", ".manifest.json"])) t ∧
      t ≠ crossroads "\x7bnot json" ∧
      ∃ r u, Asset.publish ⟨t, crossroadsScript⟩ = .ok r u ∧
        ∃ entries, Manifest.readEntries u.site.disk (.absolute ["public", "dist", ".manifest.json"]) =
            .ok entries ∧
          Table.get? entries "app.js" = some r.filename ∧ Table.get? entries "a.js" = none := by
  obtain ⟨hfails, hself, hafter⟩ := switch_exact "production" (crossroads "\x7bnot json")
  have hpublish := eq_ok_of_result? publish_crossroads
  obtain ⟨-, entries, hread, hentries⟩ := (hafter []).2 _ _ _ hpublish (by decide) rfl
  refine ⟨_, (hfails _ _).2 ⟨crossroads_unloadable, rfl⟩, fun heq ↦ ?_, _, _, hpublish, entries, hread,
    ?_, ?_⟩
  · exact absurd (hself.1 heq).1 (by decide)
  · rw [hentries]
    decide +kernel
  · rw [hentries]
    decide +kernel

/-- After a turn that failed the site is in the other environment and has forgotten what was recorded. The
next asset is published in the other folder, where it replaces the file that could not be loaded. -/
theorem crossroads_turned_halfway :
    let s := crossroads "\x7bnot json"
    ∃ e t, setEnvironment "production" s = .error e t ∧
      s.pipeline.environment = "local" ∧ t.pipeline.environment = "production" ∧
      s.pipeline.manifest = ⟨some (.absolute ["public", "assets", ".manifest.json"]), [("a.js", "b.js")]⟩ ∧
      t.pipeline.manifest = ⟨some (.absolute ["public", "dist", ".manifest.json"]), []⟩ ∧
      ∃ r u, Asset.publish ⟨t, crossroadsScript⟩ = .ok r u ∧
        r.path = .absolute ["public", "dist", Asset.signpostName] ∧
        (Manifest.readEntries u.site.disk (.absolute ["public", "dist", ".manifest.json"])).toOption =
          some [("app.js", Asset.signpostName)] := by
  have hpublish := eq_ok_of_result? publish_crossroads
  exact ⟨_, _, setEnvironment_eq_error_iff.2 ⟨crossroads_unloadable, rfl⟩, by decide, by decide, by decide,
    by decide, _, _, hpublish, rfl, by decide +kernel⟩

end Site

end AssetBundler
