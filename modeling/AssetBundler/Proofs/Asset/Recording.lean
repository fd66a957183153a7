import AssetBundler.Proofs.Asset.Address
import AssetBundler.Proofs.Asset.Outcome
import AssetBundler.Proofs.Manifest.Persistence

/-!
# What a publication leaves of the pipeline

Publishing an asset, whether it succeeds or fails, changes one thing of the pipeline: in production the
entry of the manifest under the base name of the asset (`Asset.recordsOwn_publish`). An asset that is
published under a new name leaves a file with all entries (`Asset.readEntries_of_publish`).
-/

namespace AssetBundler

open AssetBundler.Action

namespace Asset

variable {s t : State}

/-- The same file of the same pipeline, whatever is on the disk. -/
structure State.SamePipeline (s t : State) : Prop where
  pipeline : t.site.pipeline = s.site.pipeline
  path : t.asset.path = s.asset.path
  logical : t.asset.logical = s.asset.logical

instance : IsPreorder State State.SamePipeline where
  refl _ := ⟨rfl, rfl, rfl⟩
  trans _ _ _ h h' := ⟨h'.pipeline.trans h.pipeline, h'.path.trans h.path, h'.logical.trans h.logical⟩

theorem State.SameSource.samePipeline (h : s.SameSource t) : s.SamePipeline t :=
  ⟨h.pipeline, h.path, h.logical⟩

/-- The same file of a pipeline that differs in what is recorded under the name of the file only. -/
structure State.RecordsOwn (s t : State) : Prop where
  path : t.asset.path = s.asset.path
  logical : t.asset.logical = s.asset.logical
  pipeline : t.site.pipeline = { s.site.pipeline with manifest := t.site.pipeline.manifest }
  file : t.site.pipeline.manifest.path = s.site.pipeline.manifest.path
  nodup : s.site.pipeline.manifest.entries.keys.Nodup → t.site.pipeline.manifest.entries.keys.Nodup
  entry : ∀ name, toSlashes s.asset.basename ≠ name →
    t.site.pipeline.manifest.get? name = s.site.pipeline.manifest.get? name

theorem State.SamePipeline.recordsOwn (h : s.SamePipeline t) : s.RecordsOwn t where
  path := h.path
  logical := h.logical
  pipeline := by rw [h.pipeline]
  file := by rw [h.pipeline]
  nodup := by
    rw [h.pipeline]
    exact id
  entry _ _ := by rw [h.pipeline]

instance : IsPreorder State State.RecordsOwn where
  refl s := (refl_of State.SamePipeline s).recordsOwn
  trans s t u h h' := by
    refine ⟨h'.path.trans h.path, h'.logical.trans h.logical, ?_, h'.file.trans h.file,
      fun hs ↦ h'.nodup (h.nodup hs), fun name hname ↦ ?_⟩
    · rw [h'.pipeline, h.pipeline]
    · rw [h'.entry name (by rwa [basename, h.path]), h.entry name hname]

theorem samePipeline_body : MovesAlong State.SamePipeline body :=
  movesAlong_body.mono fun _ _ h ↦ h.samePipeline

theorem samePipeline_fingerprint : MovesAlong State.SamePipeline fingerprint := by
  refine MovesAlong.bind (movesAlong_digest.mono fun _ _ h ↦ h.samePipeline) fun made ↦ ?_
  exact MovesAlong.bind (MovesAlong.of_stays fun _ ↦ rfl) fun _ ↦ MovesAlong.pure _

theorem samePipeline_writeFile (target : Path) (text : String) :
    MovesAlong State.SamePipeline (writeFile target text) := by
  intro s
  rw [writeFile_eq]
  cases Disk.writeText target text s.site.disk <;> exact ⟨rfl, rfl, rfl⟩

theorem samePipeline_publishPlain : MovesAlong State.SamePipeline publishPlain := by
  refine MovesAlong.bind (MovesAlong.of_stays fun _ ↦ rfl) fun s ↦ ?_
  refine MovesAlong.bind (MovesAlong.of_stays fun _ ↦ rfl) fun target ↦ ?_
  refine MovesAlong.bind samePipeline_body fun text ↦ ?_
  refine MovesAlong.bind (movesAlong_isFresh samePipeline_body target) fun fresh ↦ ?_
  cases fresh with
  | true => exact MovesAlong.of_stays fun _ ↦ rfl
  | false => exact MovesAlong.bind (samePipeline_writeFile target text) fun _ ↦
      MovesAlong.of_stays fun _ ↦ rfl

theorem recordsOwn_record (name : String) : MovesAlong State.RecordsOwn (record name) := by
  intro s
  have hmanifest := Manifest.manifest_add s.asset.basename name s.store
  have hstore : ∀ store : Manifest.Store,
      store.manifest = s.site.pipeline.manifest.recording s.asset.basename name →
      s.RecordsOwn (s.withStore store) := by
    intro store hrecorded
    refine ⟨rfl, rfl, rfl, ?_, fun hnodup ↦ ?_, fun other hother ↦ ?_⟩
    · change store.manifest.path = _
      rw [hrecorded]
      rfl
    · change store.manifest.entries.keys.Nodup
      rw [hrecorded]
      exact Table.nodup_keys_insert _ _ hnodup
    · change store.manifest.get? other = _
      rw [hrecorded, Manifest.get?_recording, if_neg hother]
  rw [record_eq]
  rcases hadd : Manifest.add s.asset.basename name s.store with ⟨_, store⟩ | ⟨e, store⟩
  · rw [hadd] at hmanifest
    exact hstore store hmanifest
  · rw [hadd] at hmanifest
    exact hstore store hmanifest

theorem recordsOwn_publishFingerprinted : MovesAlong State.RecordsOwn publishFingerprinted := by
  have hsame : ∀ {α : Type} {x : Action α}, MovesAlong State.SamePipeline x →
      MovesAlong State.RecordsOwn x := fun h ↦ h.mono fun _ _ h ↦ h.recordsOwn
  refine MovesAlong.bind (hsame samePipeline_fingerprint) fun filename ↦ ?_
  refine MovesAlong.bind (MovesAlong.of_stays fun _ ↦ rfl) fun target ↦ ?_
  refine MovesAlong.bind (hsame samePipeline_body) fun text ↦ ?_
  exact MovesAlong.bind (hsame (samePipeline_writeFile target text)) fun _ ↦
    recordsOwn_record filename

/-- Publishing an asset, with whatever success, changes of the pipeline what is recorded for the asset and
nothing else. -/
theorem recordsOwn_publish : MovesAlong State.RecordsOwn publish := by
  intro s
  cases hprod : s.site.pipeline.inProduction with
  | true =>
    rw [publish_of_inProduction hprod]
    split
    · exact refl_of State.RecordsOwn s
    · exact recordsOwn_publishFingerprinted s
  | false =>
    rw [publish_eq_publishPlain hprod]
    exact (samePipeline_publishPlain s).recordsOwn

theorem pipeline_publish_of_development (hdev : s.site.pipeline.inProduction = false) :
    (finalState (publish s)).site.pipeline = s.site.pipeline := by
  rw [publish_eq_publishPlain hdev]
  exact (samePipeline_publishPlain s).pipeline

/-- An asset that is published under a new name leaves a file with all entries of the manifest. -/
theorem readEntries_of_publish (hprod : s.site.pipeline.inProduction = true) {file : Path}
    (hpath : s.site.pipeline.manifest.path = some file)
    (hnodup : s.site.pipeline.manifest.entries.keys.Nodup) {r : Published}
    (h : publish s = .ok r t) (hnew : r.isFromManifest = false) :
    Manifest.readEntries t.site.disk file = .ok (Manifest.sorted t.site.pipeline.manifest.entries) ∧
      t.site.pipeline.manifest = s.site.pipeline.manifest.recording s.asset.basename r.filename ∧
      r.path = s.site.pipeline.targetPath.join r.filename := by
  have hnodup' : t.site.pipeline.manifest.entries.keys.Nodup := (recordsOwn_publish.ok h).nodup hnodup
  rw [publish_of_inProduction hprod] at h
  split at h
  · cases h
    cases hnew
  · obtain ⟨made, rfl, hpipeline⟩ := publishFingerprinted_ok h
    obtain ⟨_, u, hu, -, hrecord⟩ := record_of_publishFingerprinted h
    refine ⟨?_, congrArg Pipeline.manifest hpipeline, rfl⟩
    rw [record_eq] at hrecord
    split at hrecord
    · next store hadd =>
      obtain rfl := (EStateM.Result.ok.inj hrecord).2
      refine Manifest.readEntries_of_write hnodup' (Manifest.written_of_add ?_ hadd)
      rw [← hpath, ← hu]
      rfl
    · cases hrecord

end Asset

end AssetBundler
