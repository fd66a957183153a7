import AssetBundler.Proofs.Asset.Existence
import AssetBundler.Proofs.Asset.Outcome
import AssetBundler.Proofs.Manifest.Reload
import AssetBundler.Proofs.Session.Nesting

/-!
# What publishing an asset fails with

An asset fails to be found or built in the ways of a build, and what cannot be written is reported. In
development there is one more way: the times of everything that the body counts are compared with that of
a file that was published before, and a path that a directive spells in absolute form may stand for
nothing. Main statements: `Asset.fails_of_body` and `Asset.fails_of_publish`.
-/

namespace AssetBundler

open AssetBundler.Action AssetBundler.Session Relation

namespace Session

theorem Fails.congr {s t : Site} {e : Failure} (h : Fails s e) (hdisk : t.disk = s.disk)
    (hspecs : t.pipeline.specs = s.pipeline.specs) : Fails t e := by
  cases h with
  | reported h => exact .reported h
  | unreadable h => exact .unreadable (hdisk ▸ h)
  | raised hspec h => exact .raised (hspecs ▸ hspec) h

end Session

theorem Site.fails_getAsset (s : Site) (logical : String) : FailsOnly (Fails s) (s.getAsset logical) := by
  have hlookup : FailsOnly Disk.Error.IsTooLong
    (s.pipeline.searchPath.resolve s.disk logical [] true) := SearchPath.failsOnly_resolve logical
  have hresolve := (failsOnly_orFail s.disk hlookup).mono fun _ ↦ Fails.unreadable
  refine FailsOnly.bind ?_ fun _ ↦ .ok _
  refine (hresolve.bind fun found? ↦ ?_).bind fun file? ↦ ?_
  · cases found? with
    | none => exact .ok none
    | some p => exact (fails_isFile p).bind fun _ ↦ .ok _
  · cases file? with
    | none => exact .error (.reported rfl)
    | some p => exact .ok p

namespace Asset

variable {s t : State} {e : Failure}

/-- The times of the asset are asked for because a file is published already, and a directive of a file
that the asset needs counts an absolute path that stands for nothing. -/
def Misses (site : Site) (a : Asset) (e : Failure) : Prop :=
  site.isFile (plainTarget ⟨site, a⟩) = .ok true ∧
    ∃ p q why, ReflTransGen (Requires site) a.path p ∧ CountsAbsolute site p q ∧
      site.disk.find q = .error why ∧ e = .disk (.refused why q)

section Build

variable (hs : s.site.IsProper) (htop : s.site.disk.top.isFolder = true)
  (hpath : s.asset.path.IsCanonical) (hfile : s.site.isFile s.asset.path = .ok true)

include hs htop hpath hfile

theorem fails_of_build {u : Session} (h : s.site.build s.asset.path = .error e u) :
    Fails s.site e := by
  have hplain : IsTransparent s.site fun _ _ _ run ↦ run := fun _ _ _ _ _ _ _ ↦ rfl
  have hsettles := (Site.agrees_buildThrough hs htop hplain (Nat.lt_succ_self _) hpath).2
  rw [h] at hsettles
  have hraises : RaisesOnly (MayRaise s.site)
      (evaluation s.site s.asset.path (chainOf s.site s.asset.path)) := by
    have hread := Disk.failsOnly_readText (Disk.orFail_eq_ok.1 hfile)
    refine raisesOnly_ofExcept_bind (hread.mono fun _ ↦ .unreadable) fun text _ ↦ ?_
    exact raisesOnly_evaluateWithin _ (areRegistered_chainOf _)
  exact hraises _ _ _ h hsettles.2

theorem fails_of_body (h : body s = .error e t) : Fails s.site e := by
  cases h ▸ bodyOutcome s with
  | failed _ hbuild => exact fails_of_build hs htop hpath hfile hbuild

end Build

theorem isFresh_of_isFile_error {target : Path} (hfile : s.site.isFile target = .error e) :
    isFresh target s = .error e s := by
  unfold isFresh
  exact bind_of_error (ask_of_error hfile)

section Publish

variable {site : Site} {logical : String} {a : Asset} {text : String} {u : State}

theorem exists_of_getAsset (hs : site.IsProper) (ha : site.getAsset logical = .ok a) :
    ∃ path, a = .ofFile path (some logical) ∧ path.IsCanonical ∧ site.isFile path = .ok true := by
  obtain ⟨path, hpath, hmade⟩ := except_bind_eq_ok.1 ha
  exact ⟨path, (Except.ok.inj hmade).symm, Site.isCanonical_of_getFile hs hpath,
    (Site.resolves_of_getFile hpath).2⟩

variable (hs : site.IsProper) (hroots : ∀ root ∈ site.pipeline.searchPath.roots, root.IsCanonical)
  (ha : site.getAsset logical = .ok a) (hbody : body ⟨site, a⟩ = .ok text t)

include hs hroots ha hbody

/-- What the body was made of exists, or was spelled in absolute form. -/
theorem exists_of_mem_sources {q : Path} (hq : q ∈ t.asset.path :: t.asset.dependencies) :
    site.disk.Exists q ∨ ∃ p, ReflTransGen (Requires site) a.path p ∧ CountsAbsolute site p q := by
  obtain ⟨path, rfl, hcanonical, hfile⟩ := exists_of_getAsset hs ha
  rcases hbuild : site.build path with ⟨own, v⟩ | ⟨e, v⟩
  · cases hbody.symm.trans (body_of_build_ok (s := ⟨site, .ofFile path (some logical)⟩) rfl hbuild)
    rcases List.mem_cons.1 hq with rfl | hq
    · exact .inl (Disk.exists_of_isFile (Disk.orFail_eq_ok.1 hfile))
    · exact exists_of_mem_dependencies hs hroots hcanonical hbuild hq
  · cases hbody.symm.trans (body_of_build_error (s := ⟨site, .ofFile path (some logical)⟩) rfl hbuild)

/-- Freshness fails for a target that cannot be read or for a time that is not known. -/
theorem fails_of_isFresh (h : isFresh (plainTarget ⟨site, a⟩) t = .error e u) :
    e.IsUnreadable site.disk ∨ Misses site a e := by
  have hagain := body_again hbody
  have hdisk : t.site.disk = site.disk := (movesAlong_body.ok hbody).disk
  have hisFile : t.site.isFile (plainTarget ⟨site, a⟩) = site.isFile (plainTarget ⟨site, a⟩) := by
    unfold Site.isFile
    rw [hdisk]
  rcases hfile : t.site.isFile (plainTarget ⟨site, a⟩) with e' | isFile
  · rw [isFresh_of_isFile_error hfile] at h
    cases h
    exact .inl (site.failsOnly_isFile _ e (hisFile ▸ hfile))
  cases isFile with
  | false =>
    rw [isFresh_of_no_file hfile] at h
    cases h
  | true =>
    obtain ⟨bytes, time, hfind⟩ := Disk.find_of_isFile (isFile_eq_ok.1 hfile)
    have hlast := lastModified_of_built hagain
    rcases latestTime_cases t.site.disk 0 (t.asset.path :: t.asset.dependencies) with
      ⟨⟨latest, hlatest⟩, -⟩ | ⟨q, hq, why, hmissing, herror⟩
    · rw [ask_of_ok (Disk.orFail_eq_ok.2 hlatest)] at hlast
      have hread := (isFresh_error_of_lastModified hagain hlast h).resolve_left (by simp [hfile])
      exact .inl (hdisk ▸ Disk.failsOnly_readText (isFile_eq_ok.1 hfile) e hread)
    · rw [ask_of_error (congrArg Disk.orFail herror : _ = Except.error _)] at hlast
      rw [isFresh_of_time_error hfind hlast] at h
      cases h
      rw [hdisk] at hmissing
      rcases exists_of_mem_sources hs hroots ha hbody hq with ⟨n, hn⟩ | ⟨p, hreach, hcounts⟩
      · rw [hmissing] at hn
        cases hn
      · exact .inr ⟨hisFile ▸ hfile, p, q, why, hreach, hcounts, hmissing, rfl⟩

end Publish

theorem isReported_of_writeFile {target : Path} {text : String}
    (h : writeFile target text s = .error e t) : e.isReported = true := by
  rw [writeFile_eq] at h
  split at h
  · cases h
  · cases h
    rfl

theorem isReported_of_add {m store : Manifest.Store} {path : Path} (hmanifest : m.manifest.path = some path)
    {name published : String} (h : Manifest.add name published m = .error e store) :
    e.isReported = true := by
  rw [Manifest.add_eq hmanifest] at h
  split at h
  · cases h
  · cases h
    rfl

theorem isReported_of_record {path : Path} (hmanifest : s.site.pipeline.manifest.path = some path)
    {name : String} (h : record name s = .error e t) : e.isReported = true := by
  rw [record_eq] at h
  split at h
  · cases h
  · next hadd =>
    cases h
    exact isReported_of_add (m := s.store) hmanifest hadd

/-- Publishing an asset fails as a build does, or in development because the time of something that the
body counts is not known. -/
theorem fails_of_publish {site : Site} {logical : String} {a : Asset} (hs : site.IsProper)
    (hroots : ∀ root ∈ site.pipeline.searchPath.roots, root.IsCanonical)
    (htop : site.disk.top.isFolder = true)
    {manifestPath : Path} (hmanifest : site.pipeline.manifest.path = some manifestPath)
    (ha : site.getAsset logical = .ok a) (h : publish ⟨site, a⟩ = .error e t) :
    Fails t.site e ∨ State.SameSource ⟨site, a⟩ t ∧ site.pipeline.inProduction = false ∧
      Misses site a e := by
  obtain ⟨path, rfl, hcanonical, hfile⟩ := exists_of_getAsset hs ha
  have hunbuilt : ∀ {u}, body ⟨site, .ofFile path (some logical)⟩ = .error e u → Fails u.site e := by
    intro u hbody
    have hsame := movesAlong_body.error hbody
    refine (fails_of_body hs htop hcanonical hfile hbody).congr hsame.disk ?_
    rw [hsame.pipeline]
  cases hprod : site.pipeline.inProduction with
  | false =>
    rcases hbody : body ⟨site, .ofFile path (some logical)⟩ with ⟨text, u⟩ | ⟨e', u⟩
    · rw [publish_of_development hprod hbody] at h
      have hsame := movesAlong_body.ok hbody
      rcases bind_eq_error.1 h with hfresh | ⟨isFresh, v, -, hrest⟩
      · obtain rfl := (rests_isFresh text _).error hfresh (builtBody_of_body hbody)
        rcases fails_of_isFresh hs hroots ha hbody hfresh with hunreadable | hmisses
        · left
          rw [← hsame.disk] at hunreadable
          exact .unreadable hunreadable
        · exact .inr ⟨hsame, rfl, hmisses⟩
      · cases isFresh with
        | true => cases hrest
        | false =>
          rcases bind_eq_error.1 hrest with hwrite | ⟨_, w, -, hpublished⟩
          · exact .inl (.reported (isReported_of_writeFile hwrite))
          · cases hpublished
    · rw [publish_of_body_error hprod hbody] at h
      cases h
      exact .inl (hunbuilt hbody)
  | true =>
    left
    rw [publish_of_inProduction hprod] at h
    split at h
    · cases h
    rcases hdigest : digest ⟨site, .ofFile path (some logical)⟩ with ⟨made, u⟩ | ⟨e', u⟩
    · obtain ⟨text, hbuilt, rfl⟩ := digest_fits (digestFits_ofFile path (some logical)) hdigest
      rw [publishFingerprinted_of_digest hdigest hbuilt] at h
      rcases bind_eq_error.1 h with hwrite | ⟨_, v, hwrite, hrecord⟩
      · exact .reported (isReported_of_writeFile hwrite)
      · have hafter : v.site.pipeline.manifest.path = some manifestPath := by
          rw [writeFile_eq] at hwrite
          split at hwrite
          · cases hwrite
            exact (congrArg (·.manifest.path) (movesAlong_digest.ok hdigest).pipeline).trans hmanifest
          · cases hwrite
        exact .reported (isReported_of_record hafter hrecord)
    · rw [publishFingerprinted_of_digest_error hdigest] at h
      cases h
      exact hunbuilt (body_of_digest_error hdigest)

end Asset

end AssetBundler
