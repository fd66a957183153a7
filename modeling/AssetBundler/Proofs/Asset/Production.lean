import AssetBundler.Proofs.Asset.Body
import AssetBundler.Proofs.Disk.Frame

/-!
# One publication in production

A name that the manifest knows is returned without a look at the file. Otherwise the body is written
under the name that its digest gives, and only then is the name recorded; a manifest whose file could
not be written keeps the new entry all the same.
-/

namespace AssetBundler

open AssetBundler.Action

/-- What is known of a body and its digest is what building gives. -/
structure Asset.Knows (outcome : Except Failure String) (a : Asset) : Prop where
  body : ∀ text, a.builtBody = some text → outcome = .ok text
  digest : ∀ made, a.builtDigest = some made →
    ∃ text, a.builtBody = some text ∧ made = Asset.digestOf text

theorem Asset.knows_ofFile (outcome : Except Failure String) (path : Path)
    (logical : Option String) : (Asset.ofFile path logical).Knows outcome where
  body := fun _ h ↦ nomatch h
  digest := fun _ h ↦ nomatch h

namespace Manifest

/-- The entries of a manifest with one more, or with another value for a name. -/
def recording (m : Manifest) (name published : String) : Manifest :=
  { m with entries := m.entries.insert (toSlashes name) published }

theorem get?_recording (m : Manifest) (name published other : String) :
    (m.recording name published).get? other =
      if toSlashes name = other then some published else m.get? other :=
  Table.get?_insert m.entries (toSlashes name) other published

theorem add_apply (name published : String) (s : Store) :
    add name published s = save ⟨s.disk, s.manifest.recording name published⟩ := rfl

/-- Recording a name changes the entries even if the file cannot be written. -/
theorem manifest_add (name published : String) (s : Store) :
    (finalState (add name published s)).manifest = s.manifest.recording name published := by
  rw [add_apply]
  unfold save
  cases (s.manifest.recording name published).path with
  | none => rfl
  | some path =>
    rcases hwrite : Disk.writeText path (render (s.manifest.recording name published).entries)
      s.disk with ⟨_, disk⟩ | ⟨why, disk⟩
    · simp only [hwrite, finalState_ok]
    · simp only [hwrite, finalState_error]

/-- Recording a name changes the entries in any case and of the disk no more than the file. -/
theorem add_moves (name published : String) (s : Store) {path : Path}
    (hpath : s.manifest.path = some path) :
    (finalState (add name published s)).manifest = s.manifest.recording name published ∧
      s.disk.LeavesBut [Disk.temporary path, path] (finalState (add name published s)).disk := by
  refine ⟨manifest_add name published s, ?_⟩
  have hpath' : (s.manifest.recording name published).path = some path := hpath
  rw [add_apply]
  unfold save
  simp only [hpath']
  rcases hwrite : Disk.writeText path (render (s.manifest.recording name published).entries)
    s.disk with ⟨_, disk⟩ | ⟨why, disk⟩
  · exact (Disk.writeText_ok hwrite).1
  · exact (Disk.writeText_error hwrite).mono (by simp)

/-- Turning to a folder turns to its file, whether that can be read or not. -/
theorem path_load (folder : Path) (s : Store) :
    (finalState (load folder s)).manifest.path = some (folder.join fileName) := by
  unfold load
  rw [bind_of_ok (modify_apply _ s), bind_of_ok (get_apply _)]
  dsimp only
  rcases readEntries s.disk (folder.join fileName) with e | entries <;> rfl

end Manifest

namespace Asset

variable {s t : State} {outcome : Except Failure String}

theorem body_eq_outcome (hknows : s.asset.Knows outcome)
    (hbuild : s.site.bodyOf s.asset.path = outcome) {text : String} (h : body s = .ok text t) :
    outcome = .ok text ∧ t.asset.Knows outcome := by
  cases h ▸ bodyOutcome s with
  | known hknown => exact ⟨hknows.body _ hknown, hknows⟩
  | @built own u hnew hresult =>
    have hok : outcome = .ok (assemble u.included own) := by
      rw [← hbuild]
      exact Site.bodyOf_eq_ok.2 ⟨own, u, hresult, rfl⟩
    refine ⟨hok, ?_, ?_⟩
    · intro text htext
      rw [hok, Option.some.inj htext]
    · intro made hmade
      obtain ⟨text, htext, -⟩ := hknows.digest made hmade
      cases hnew.symm.trans htext

theorem asset_of_body_error {e : Failure} (h : body s = .error e t) : t.asset = s.asset := by
  cases h ▸ bodyOutcome s with
  | failed => rfl

/-- The same state with the digest of a body that was built. -/
def State.withDigest (s : State) (text : String) : State :=
  { s with asset := { s.asset with builtDigest := some (digestOf text) } }

/-- What asking for a digest comes to. -/
inductive DigestOutcome (s : State) : EStateM.Result Failure State String → Prop where
  | known {made : String} (h : s.asset.builtDigest = some made) : DigestOutcome s (.ok made s)
  | made {text : String} {t : State} (hnew : s.asset.builtDigest = none)
      (hbody : body s = .ok text t) : DigestOutcome s (.ok (digestOf text) (t.withDigest text))
  | unbuilt {e : Failure} {t : State} (hnew : s.asset.builtDigest = none)
      (hbody : body s = .error e t) : DigestOutcome s (.error e t)

theorem digest_of_known {made : String} (h : s.asset.builtDigest = some made) :
    digest s = .ok made s := by
  unfold digest
  rw [bind_of_ok (get_apply s), h]
  rfl

theorem digest_of_body {text : String} (hnew : s.asset.builtDigest = none) (hbody : body s = .ok text t) :
    digest s = .ok (digestOf text) (t.withDigest text) := by
  unfold digest
  rw [bind_of_ok (get_apply s), hnew]
  exact bind_of_ok hbody

theorem digest_of_body_error {e : Failure} (hnew : s.asset.builtDigest = none)
    (hbody : body s = .error e t) : digest s = .error e t := by
  unfold digest
  rw [bind_of_ok (get_apply s), hnew]
  exact bind_of_error hbody

theorem digestOutcome (s : State) : DigestOutcome s (digest s) := by
  cases hknown : s.asset.builtDigest with
  | some known =>
    rw [digest_of_known hknown]
    exact .known hknown
  | none =>
    rcases hbody : body s with ⟨text, t⟩ | ⟨e, t⟩
    · rw [digest_of_body hknown hbody]
      exact .made hknown hbody
    · rw [digest_of_body_error hknown hbody]
      exact .unbuilt hknown hbody

theorem movesAlong_digest : MovesAlong State.SameSource digest := by
  intro s
  have houtcome := digestOutcome s
  generalize digest s = r at houtcome ⊢
  cases houtcome with
  | known => exact State.SameSource.refl s
  | made _ hbody => exact (movesAlong_body.ok hbody).trans ⟨rfl, rfl, rfl, rfl⟩
  | unbuilt _ hbody => exact movesAlong_body.error hbody

theorem body_of_digest_error {e : Failure} (h : digest s = .error e t) : body s = .error e t := by
  cases h ▸ digestOutcome s with
  | unbuilt _ hbody => exact hbody

theorem digest_eq_outcome (hknows : s.asset.Knows outcome)
    (hbuild : s.site.bodyOf s.asset.path = outcome) {made : String} (h : digest s = .ok made t) :
    ∃ text, outcome = .ok text ∧ made = digestOf text ∧ t.asset.builtBody = some text ∧
      t.asset.Knows outcome := by
  cases h ▸ digestOutcome s with
  | known hknown =>
    obtain ⟨text, htext, hmade⟩ := hknows.digest made hknown
    exact ⟨text, hknows.body text htext, hmade, htext, hknows⟩
  | @made text _ _ hbody =>
    obtain ⟨hok, hknows'⟩ := body_eq_outcome hknows hbuild hbody
    have hbuilt := builtBody_of_body hbody
    refine ⟨text, hok, rfl, hbuilt, hknows'.body, ?_⟩
    intro made hmade
    exact ⟨text, hbuilt, (Option.some.inj hmade).symm⟩

theorem knows_of_digest_error (hknows : s.asset.Knows outcome) {e : Failure}
    (h : digest s = .error e t) : t.asset.Knows outcome := by
  rw [asset_of_body_error (body_of_digest_error h)]
  exact hknows

/-- The same asset and a pipeline that differs in the manifest only. -/
structure State.SameAsset (s t : State) (manifest : Manifest) (outcome : Except Failure String) :
    Prop where
  pipeline : t.site.pipeline = { s.site.pipeline with manifest }
  path : t.asset.path = s.asset.path
  logical : t.asset.logical = s.asset.logical
  knows : t.asset.Knows outcome

/-- The name under which a body is published. -/
def fingerprintedName (s : State) (text : String) : String :=
  s.asset.digestName s.site.pipeline (digestOf text)

/-- What a publication with this file says. -/
def publishedAs (s : State) (filename : String) (isWritten isFromManifest : Bool) : Published :=
  ⟨s.site.pipeline.targetPath.join filename, s.site.pipeline.publishedUrl filename, filename,
    isWritten, isFromManifest⟩

/-- Everything that publishing an asset in production can do, with the manifest kept at a path. -/
inductive Publication (outcome : Except Failure String) (manifestPath : Path) (s : State) :
    EStateM.Result Failure State Published → Prop where
  | recorded (file : String) (hfile : s.site.pipeline.manifest.get? s.asset.basename = some file)
      (hne : file ≠ "") :
      Publication outcome manifestPath s (.ok (publishedAs s file false true) s)
  | unbuilt (e : Failure) (t : State) (hdisk : t.site.disk = s.site.disk)
      (hsame : s.SameAsset t s.site.pipeline.manifest outcome) :
      Publication outcome manifestPath s (.error e t)
  | unwritten (text : String) (why : Disk.Error) (e : Failure) (t : State)
      (houtcome : outcome = .ok text)
      (hwrite : Disk.writeText (s.site.pipeline.targetPath.join (fingerprintedName s text)) text
        s.site.disk = .error why t.site.disk)
      (hsame : s.SameAsset t s.site.pipeline.manifest outcome) :
      Publication outcome manifestPath s (.error e t)
  | written (text : String) (disk : Disk) (r : EStateM.Result Failure State Published)
      (houtcome : outcome = .ok text)
      (hwrite : Disk.writeText (s.site.pipeline.targetPath.join (fingerprintedName s text)) text
        s.site.disk = .ok () disk)
      (hsave : disk.LeavesBut [Disk.temporary manifestPath, manifestPath]
        (finalState r).site.disk)
      (hsame : s.SameAsset (finalState r) (s.site.pipeline.manifest.recording s.asset.basename
        (fingerprintedName s text)) outcome)
      (hresult : ∀ published, result? r = some published →
        published = publishedAs s (fingerprintedName s text) true false) :
      Publication outcome manifestPath s r

theorem digestName_congr {a b : Asset} (hpath : b.path = a.path) (hlogical : b.logical = a.logical)
    (p : Pipeline) (made : String) : b.digestName p made = a.digestName p made := by
  unfold digestName logicalFolder hashedTargetName stem targetExtension format
  rw [hpath, hlogical]

theorem State.SameSource.sameAsset (h : s.SameSource t) (hknows : t.asset.Knows outcome) :
    s.SameAsset t s.site.pipeline.manifest outcome :=
  ⟨h.pipeline, h.path, h.logical, hknows⟩

theorem fingerprint_of_digest {text : String} (h : digest s = .ok (digestOf text) t) :
    fingerprint s = .ok (fingerprintedName s text) t := by
  have hsame : s.SameSource t := movesAlong_digest.ok h
  unfold fingerprint
  rw [bind_of_ok h]
  change EStateM.Result.ok (t.asset.digestName t.site.pipeline (digestOf text)) t = _
  rw [digestName_congr hsame.path hsame.logical, hsame.pipeline]
  rfl

/-- The last steps of a publication: its name is recorded. -/
def record (name : String) : Action Published := do
  onSite (Site.ofManifest (Manifest.add (← get).asset.basename name))
  published name true false

theorem publishFingerprinted_of_digest {text : String} (h : digest s = .ok (digestOf text) t)
    (hbuilt : t.asset.builtBody = some text) :
    publishFingerprinted s = (do
      writeFile (s.site.pipeline.targetPath.join (fingerprintedName s text)) text
      record (fingerprintedName s text) : Action Published) t := by
  have hsame : s.SameSource t := movesAlong_digest.ok h
  have htarget : outputPath (fingerprintedName s text) t =
      .ok (s.site.pipeline.targetPath.join (fingerprintedName s text)) t := by
    change EStateM.Result.ok (t.site.pipeline.targetPath.join _) t = _
    rw [hsame.pipeline]
  unfold publishFingerprinted
  rw [bind_of_ok (fingerprint_of_digest h), bind_of_ok htarget, bind_of_ok (body_of_built hbuilt)]
  rfl

theorem publishFingerprinted_of_digest_error {e : Failure} (h : digest s = .error e t) :
    publishFingerprinted s = .error e t := by
  unfold publishFingerprinted fingerprint
  exact bind_of_error (bind_of_error h)

theorem record_moves (name : String) (t : State) {manifestPath : Path}
    (hpath : t.site.pipeline.manifest.path = some manifestPath) :
    t.site.disk.LeavesBut [Disk.temporary manifestPath, manifestPath]
      (finalState (record name t)).site.disk ∧
    (finalState (record name t)).site.pipeline = { t.site.pipeline with
      manifest := t.site.pipeline.manifest.recording t.asset.basename name } ∧
    (finalState (record name t)).asset = t.asset ∧
    ∀ made, result? (record name t) = some made → made = publishedAs t name true false := by
  obtain ⟨hmanifest, hleaves⟩ := Manifest.add_moves t.asset.basename name
    ⟨t.site.disk, t.site.pipeline.manifest⟩ hpath
  unfold record
  rw [bind_of_ok (get_apply t)]
  rcases hstore : Manifest.add t.asset.basename name ⟨t.site.disk, t.site.pipeline.manifest⟩ with
    ⟨_, store⟩ | ⟨e, store⟩
  · have hon : onSite (Site.ofManifest (Manifest.add t.asset.basename name)) t =
        .ok () ⟨{ t.site with
          disk := store.disk
          pipeline := { t.site.pipeline with manifest := store.manifest } }, t.asset⟩ := by
      unfold onSite Site.ofManifest
      rw [hstore]
    rw [hstore] at hmanifest hleaves
    rw [bind_of_ok hon, ← hmanifest]
    exact ⟨hleaves, rfl, rfl, fun made hmade ↦ (Option.some.inj hmade).symm⟩
  · have hon : onSite (Site.ofManifest (Manifest.add t.asset.basename name)) t =
        .error e ⟨{ t.site with
          disk := store.disk
          pipeline := { t.site.pipeline with manifest := store.manifest } }, t.asset⟩ := by
      unfold onSite Site.ofManifest
      rw [hstore]
    rw [hstore] at hmanifest hleaves
    rw [bind_of_error hon, ← hmanifest]
    exact ⟨hleaves, rfl, rfl, fun made hmade ↦ nomatch hmade⟩

theorem publication_of_fingerprint (hknows : s.asset.Knows outcome)
    (hbuild : s.site.bodyOf s.asset.path = outcome) {manifestPath : Path}
    (hpath : s.site.pipeline.manifest.path = some manifestPath) :
    Publication outcome manifestPath s (publishFingerprinted s) := by
  rcases hdigest : digest s with ⟨made, t⟩ | ⟨e, t⟩
  · obtain ⟨text, houtcome, rfl, hbuilt, hknows'⟩ := digest_eq_outcome hknows hbuild hdigest
    have hsame : s.SameSource t := movesAlong_digest.ok hdigest
    rw [publishFingerprinted_of_digest hdigest hbuilt]
    rcases hwrite : Disk.writeText (s.site.pipeline.targetPath.join (fingerprintedName s text)) text
      t.site.disk with ⟨_, disk⟩ | ⟨why, disk⟩
    · rw [bind_of_ok (writeFile_of_ok hwrite)]
      rw [hsame.disk] at hwrite
      have hpath' : t.site.pipeline.manifest.path = some manifestPath := by
        rw [hsame.pipeline]
        exact hpath
      obtain ⟨hsave, hpipeline, hasset, hresult⟩ :=
        record_moves (fingerprintedName s text) ⟨{ t.site with disk }, t.asset⟩ hpath'
      refine .written text disk _ houtcome hwrite hsave ⟨?_, ?_, ?_, ?_⟩ ?_
      · rw [hpipeline]
        dsimp only [basename]
        rw [hsame.pipeline, hsame.path]
      · rw [hasset]
        exact hsame.path
      · rw [hasset]
        exact hsame.logical
      · rw [hasset]
        exact hknows'
      · intro made hmade
        rw [hresult made hmade]
        unfold publishedAs
        rw [hsame.pipeline]
    · rw [bind_of_error (writeFile_of_error hwrite)]
      rw [hsame.disk] at hwrite
      exact .unwritten text why _ _ houtcome hwrite
        ⟨hsame.pipeline, hsame.path, hsame.logical, hknows'⟩
  · have hsame : s.SameSource t := movesAlong_digest.error hdigest
    rw [publishFingerprinted_of_digest_error hdigest]
    exact .unbuilt e t hsame.disk (hsame.sameAsset (knows_of_digest_error hknows hdigest))

theorem publish_of_inProduction (hprod : s.site.pipeline.inProduction = true) :
    publish s = match (s.site.pipeline.manifest.get? s.asset.basename).filter (· ≠ "") with
      | some file => .ok (publishedAs s file false true) s
      | none => publishFingerprinted s := by
  have hrecorded : recordedName s =
      .ok ((s.site.pipeline.manifest.get? s.asset.basename).filter (· ≠ "")) s := by
    change EStateM.Result.ok ((s.asset.inManifest s.site.pipeline).filter (· ≠ "")) s = _
    unfold inManifest
    rw [if_pos hprod]
  unfold publish
  rw [bind_of_ok hrecorded]
  cases (s.site.pipeline.manifest.get? s.asset.basename).filter (· ≠ "") with
  | some file => rfl
  | none =>
    change (do
      if (← get).site.pipeline.inProduction then publishFingerprinted else publishPlain :
        Action Published) s = _
    rw [bind_of_ok (get_apply s), if_pos hprod]

theorem publication_of_production (hprod : s.site.pipeline.inProduction = true)
    (hknows : s.asset.Knows outcome) (hbuild : s.site.bodyOf s.asset.path = outcome)
    {manifestPath : Path} (hpath : s.site.pipeline.manifest.path = some manifestPath) :
    Publication outcome manifestPath s (publish s) := by
  rw [publish_of_inProduction hprod]
  cases hfile : (s.site.pipeline.manifest.get? s.asset.basename).filter (· ≠ "") with
  | some file =>
    rw [Option.filter_eq_some_iff] at hfile
    exact .recorded file hfile.1 (by simpa using hfile.2)
  | none => exact publication_of_fingerprint hknows hbuild hpath

end Asset

end AssetBundler
