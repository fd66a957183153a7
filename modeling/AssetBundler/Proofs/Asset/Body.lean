import AssetBundler.Asset.Publication
import AssetBundler.Proofs.Path.Resolution

/-!
# Building a body once

Building looks at the disk, the pipeline and the path of the asset, and changes none of them; a body
that is known is returned as it is. `Site.bodyOf` is the body that a file has on a site, whoever asks
for it.
-/

namespace AssetBundler

open AssetBundler.Action

namespace Site

/-- A build of the file at a path from the beginning. -/
def build (s : Site) (path : Path) : EStateM.Result Failure Session String :=
  Asset.evaluation s path (s.pipeline.processorsFor (s.pipeline.contentTypeOf path))
    (Session.forAsset path)

/-- The body of the file at a path. -/
def bodyOf (s : Site) (path : Path) : Except Failure String :=
  match s.build path with
  | .ok own t => .ok (Asset.assemble t.included own)
  | .error e _ => .error e

theorem bodyOf_eq_ok {s : Site} {path : Path} {text : String} :
    s.bodyOf path = .ok text ↔
      ∃ own t, s.build path = .ok own t ∧ text = Asset.assemble t.included own := by
  unfold bodyOf
  cases s.build path with
  | ok own t =>
    constructor
    · intro h
      exact ⟨own, t, rfl, (Except.ok.inj h).symm⟩
    · rintro ⟨_, _, ⟨⟩, rfl⟩
      rfl
  | error e t =>
    constructor
    · intro h
      cases h
    · rintro ⟨_, _, ⟨⟩, _⟩

end Site

/-- A small site: the default configuration with its sources in `src`, and all texts in memory. -/
def Site.sample (environment : String) (sources published : Node.Entries) : Site where
  disk := ⟨.folder 0 [("src", .folder 0 sources),
    ("public", .folder 0 [("assets", .folder 0 published)])], [], 9⟩
  pipeline := {
    root := .absolute []
    config := { Config.default with paths := ["src"] }
    library := .standard
    searchPath := ⟨[.absolute ["src"]], Config.default.contentTypes.keys⟩
    preprocessors := Pipeline.standardPreprocessors
    postprocessors := Pipeline.standardPostprocessors
    compressors := [(stylesheetType, [⟨.cssCompressor, []⟩]), (scriptType, [⟨.jsCompressor, []⟩])]
    directives := .default
    manifest := ⟨some (.absolute ["public", "assets", ".manifest.json"]), []⟩
    environment }
  notes := []
  messages := []

theorem Site.isProper_sample (environment : String) (sources published : Node.Entries) :
    (Site.sample environment sources published).IsProper where
  here := List.forall_mem_nil _
  roots := by
    intro root hroot name hname
    rw [List.mem_singleton.1 hroot] at hname
    rw [List.mem_singleton.1 hname]
    exact ⟨by decide, by decide, by decide⟩

namespace Asset

/-- The same disk, pipeline and file, whatever is known of the body by now. -/
structure State.SameSource (s t : State) : Prop where
  disk : t.site.disk = s.site.disk
  pipeline : t.site.pipeline = s.site.pipeline
  path : t.asset.path = s.asset.path
  logical : t.asset.logical = s.asset.logical

namespace State.SameSource

variable {s t u : State}

protected theorem refl (s : State) : SameSource s s := ⟨rfl, rfl, rfl, rfl⟩

protected theorem trans (h : SameSource s t) (h' : SameSource t u) : SameSource s u :=
  ⟨h'.disk.trans h.disk, h'.pipeline.trans h.pipeline, h'.path.trans h.path,
    h'.logical.trans h.logical⟩

instance : IsPreorder State SameSource where
  refl := SameSource.refl
  trans _ _ _ := SameSource.trans

end State.SameSource

theorem body_of_built {s : State} {text : String} (h : s.asset.builtBody = some text) :
    body s = .ok text s := by
  unfold body
  rw [h]

theorem body_of_build_ok {s : State} (h : s.asset.builtBody = none) {own : String} {t : Session}
    (hbuild : s.site.build s.asset.path = .ok own t) :
    body s = .ok (assemble t.included own)
      ⟨{ s.site with notes := s.site.notes ++ t.notes },
        { s.asset with
          dependencies := s.asset.dependencies ++ t.dependencies
          builtBody := some (assemble t.included own) }⟩ := by
  have heval : evaluation s.site s.asset.path (s.asset.processors s.site.pipeline)
      (Session.forAsset s.asset.path) = .ok own t := hbuild
  unfold body
  simp only [h, heval]

theorem body_of_build_error {s : State} (h : s.asset.builtBody = none) {e : Failure} {t : Session}
    (hbuild : s.site.build s.asset.path = .error e t) :
    body s = .error e ⟨{ s.site with notes := s.site.notes ++ t.notes }, s.asset⟩ := by
  have heval : evaluation s.site s.asset.path (s.asset.processors s.site.pipeline)
      (Session.forAsset s.asset.path) = .error e t := hbuild
  unfold body
  simp only [h, heval]

/-- What asking for a body comes to. -/
inductive BodyOutcome (s : State) : EStateM.Result Failure State String → Prop where
  | known {text : String} (h : s.asset.builtBody = some text) : BodyOutcome s (.ok text s)
  | built {own : String} {t : Session} (hnew : s.asset.builtBody = none)
      (hbuild : s.site.build s.asset.path = .ok own t) :
      BodyOutcome s (.ok (assemble t.included own)
        ⟨{ s.site with notes := s.site.notes ++ t.notes },
          { s.asset with
            dependencies := s.asset.dependencies ++ t.dependencies
            builtBody := some (assemble t.included own) }⟩)
  | failed {e : Failure} {t : Session} (hnew : s.asset.builtBody = none)
      (hbuild : s.site.build s.asset.path = .error e t) :
      BodyOutcome s (.error e ⟨{ s.site with notes := s.site.notes ++ t.notes }, s.asset⟩)

theorem bodyOutcome (s : State) : BodyOutcome s (body s) := by
  cases hknown : s.asset.builtBody with
  | some text =>
    rw [body_of_built hknown]
    exact .known hknown
  | none =>
    rcases hbuild : s.site.build s.asset.path with ⟨own, t⟩ | ⟨e, t⟩
    · rw [body_of_build_ok hknown hbuild]
      exact .built hknown hbuild
    · rw [body_of_build_error hknown hbuild]
      exact .failed hknown hbuild

/-- An asset that was not built gets the body that its file has. -/
theorem bodyOf_of_body {s t : State} {text : String} (hnew : s.asset.builtBody = none)
    (h : body s = .ok text t) : s.site.bodyOf s.asset.path = .ok text := by
  cases h ▸ bodyOutcome s with
  | known hknown => cases hnew.symm.trans hknown
  | built _ hbuild => exact Site.bodyOf_eq_ok.2 ⟨_, _, hbuild, rfl⟩

theorem movesAlong_body : MovesAlong State.SameSource body := by
  intro s
  have houtcome := bodyOutcome s
  generalize body s = r at houtcome ⊢
  cases houtcome with
  | known => exact State.SameSource.refl s
  | built => exact ⟨rfl, rfl, rfl, rfl⟩
  | failed => exact ⟨rfl, rfl, rfl, rfl⟩

/-- A body that was built is known from then on. -/
theorem builtBody_of_body {s t : State} {text : String} (h : body s = .ok text t) :
    t.asset.builtBody = some text := by
  cases h ▸ bodyOutcome s with
  | known hknown => exact hknown
  | built => rfl

theorem body_again {s t : State} {text : String} (h : body s = .ok text t) :
    body t = .ok text t := body_of_built (builtBody_of_body h)

theorem writeFile_of_ok {s : State} {target : Path} {text : String} {disk : Disk}
    (h : Disk.writeText target text s.site.disk = .ok () disk) :
    writeFile target text s = .ok () ⟨{ s.site with disk }, s.asset⟩ := by
  unfold writeFile onSite Site.ofDisk
  rw [h]

theorem writeFile_of_error {s : State} {target : Path} {text : String} {why : Disk.Error}
    {disk : Disk} (h : Disk.writeText target text s.site.disk = .error why disk) :
    writeFile target text s =
      .error (.notWritten target why) ⟨{ s.site with disk }, s.asset⟩ := by
  unfold writeFile onSite Site.ofDisk
  rw [h]

end Asset

end AssetBundler
