import AssetBundler.Proofs.Asset.Failing
import AssetBundler.Proofs.Disk.Sound
import AssetBundler.Proofs.Pipeline.Opening
import AssetBundler.Proofs.Release.Contents
import AssetBundler.Proofs.Static.Listing

/-!
# What a release fails with

What a release writes is reported if it cannot be written, and what it reads was listed before. It can
still fail for what the package that reads ignore patterns raises, for a folder in the place of the
manifest, and in the ways of the builds that it does. Main statement: `Site.ensures_releaseSite`, by one
statement for each step that a sound disk stays sound and what the step fails with.
-/

namespace AssetBundler

open AssetBundler.Action

/-- A pipeline that was opened, seen from a working directory. -/
structure Pipeline.Works (p : Pipeline) (here : List String) : Prop where
  assembled : p.IsAssembled
  here : ∀ name ∈ here, Path.IsName name ∧ name ≠ ".."

/-- The processors of the pipeline's own raise nothing. -/
theorem Pipeline.not_raises_of_mem {spec : Spec} (hspec : spec ∈ standardSpecs) (e : Failure) :
    ¬spec.Raises e := by
  simp only [standardSpecs, standardPreprocessors, standardPostprocessors, List.cons_append,
    List.nil_append, List.flatMap_cons, List.flatMap_nil, List.append_nil, List.mem_cons, List.not_mem_nil,
    or_false] at hspec
  intro h
  rcases hspec with rfl | rfl | rfl | rfl | rfl <;> cases h with
  | noFunction hstep => cases hstep
  | noTable hstep hhides => cases hhides
  | custom hstep => cases hstep

/-- A sound disk with the manifest of a pipeline. -/
structure Manifest.Store.IsOrderly (p : Pipeline) (here : List String) (m : Store) : Prop where
  here_eq : m.disk.here = here
  sound : m.disk.IsSound
  path : m.manifest.path = some p.manifestPath

namespace Manifest.Store

variable {p : Pipeline} {here : List String} {m : Store}

theorem IsOrderly.moves (h : m.IsOrderly p here) {e : Disk} (hkeep : m.disk.KeepsSound e)
    {manifest : Manifest} (hpath : manifest.path = m.manifest.path) :
    IsOrderly p here ⟨e, manifest⟩ where
  here_eq := hkeep.here_eq.trans h.here_eq
  sound := hkeep.sound h.sound
  path := hpath.trans h.path

theorem IsOrderly.add (h : m.IsOrderly p here) (name published : String) :
    (finalState (Manifest.add name published m)).IsOrderly p here := by
  rw [finalState_add h.path]
  exact h.moves (Disk.keepsSound_writeText p.manifestPath _ m.disk) rfl

end Manifest.Store

namespace Site

open Manifest.Store

variable {p : Pipeline} {here : List String}

theorem Framed.manifestPath {P : Manifest.Store → Prop} {s : Site} (h : s.Framed p P) :
    s.pipeline.manifestPath = p.manifestPath := by
  rw [h.pipeline]
  rfl

theorem Framed.isAssembled {P : Manifest.Store → Prop} {s : Site} (h : s.Framed p P)
    (hp : p.IsAssembled) : s.pipeline.IsAssembled := by
  rw [h.pipeline]
  exact ⟨hp.directives, hp.specs, hp.root, hp.roots⟩

theorem Framed.isProper_of_orderly {s : Site} (h : s.Framed p (IsOrderly p here))
    (hp : p.Works here) : s.IsProper :=
  h.isProper (h.store.here_eq.symm ▸ hp.here) fun r hr ↦ (hp.assembled.roots r hr).proper

theorem Framed.works {P : Manifest.Store → Prop} {s : Site} (h : s.Framed p P)
    (hp : p.Works here) : s.pipeline.Works here :=
  ⟨h.isAssembled hp.assembled, hp.here⟩

/-- In development something is missing that a body counts; building it has left the disk and the
pipeline as they were. -/
def Misses (s : Site) (e : Failure) : Prop :=
  ∃ before logical a, s.disk = before.disk ∧ s.pipeline = before.pipeline ∧
    before.getAsset logical = .ok a ∧ s.pipeline.inProduction = false ∧ Asset.Misses before a e

/-- What a build fails with on a pipeline that was opened. -/
inductive BuildFails (s : Site) : Failure → Prop
  | ordinary {e : Failure} (h : e.IsOrdinary s.disk) : BuildFails s e
  | raised {entry : Value} {spec : Spec} {e : Failure} (hentry : entry ∈ s.pipeline.config.entries)
      (hspec : Spec.ofEntry s.pipeline.library entry [] = .ok spec) (h : spec.Raises e) :
      BuildFails s e

theorem buildFails_of_fails {s : Site} {e : Failure} (h : Session.Fails s e)
    (hs : s.pipeline.IsAssembled) : s.BuildFails e := by
  cases h with
  | reported h => exact .ordinary (.inl h)
  | unreadable h => exact .ordinary (.inr h)
  | raised hspec h =>
    rcases hs.specs _ hspec with hown | ⟨entry, hentry, hmade⟩
    · exact absurd h (Pipeline.not_raises_of_mem hown e)
    · exact .raised hentry hmade h

def RenderFails (e : Failure) (s : Site) : Prop := s.BuildFails e ∨ s.Misses e

theorem orderly_publish {s : Asset.State} (hs : s.site.Framed p (IsOrderly p here))
    (hfits : s.asset.DigestFits) :
    (finalState (Asset.publish s)).site.Framed p (IsOrderly p here) := by
  have hwritten : ∀ text, IsOrderly p here
      ⟨finalState (Disk.writeText (Asset.filePath s text) text s.site.disk), s.site.pipeline.manifest⟩ :=
    fun text ↦ hs.store.moves (Disk.keepsSound_writeText _ text s.site.disk) rfl
  refine framed_publish hs hfits hwritten fun _ text disk hwrite ↦ ?_
  have horderly := hwritten text
  rw [hwrite] at horderly
  exact horderly.add s.asset.basename (Asset.fileName s text)

section Assets

variable (hp : p.Works here)

include hp

theorem ensures_showBody (logical : String) : Ensures (Framed p (IsOrderly p here)) (body logical)
    (fun _ _ ↦ True) (fun e s ↦ s.BuildFails e) := by
  refine Ensures.bind (ensures_ask fun s e hs he ↦ buildFails_of_fails
    (s.fails_getAsset logical e he) (hs.isAssembled hp.assembled)) fun a ↦ ?_
  refine Ensures.bind (Q := fun _ _ ↦ True) ?_ fun _ ↦ Ensures.pure _ fun _ _ ↦ trivial
  rintro s ⟨hs, ha⟩
  have hworks := hs.works hp
  have hproper := hs.isProper_of_orderly hp
  obtain ⟨path, rfl, hcanonical, hfile⟩ := Asset.exists_of_getAsset hproper ha
  unfold Asset.runOn
  rcases hbody : Asset.body ⟨s, .ofFile path (some logical)⟩ with ⟨text, t⟩ | ⟨e, t⟩
  · trivial
  · have hsame := Asset.movesAlong_body.error hbody
    have hfails := Asset.fails_of_body hproper (Disk.isFolder_top_of_isSound hs.store.sound)
      hcanonical hfile hbody
    refine buildFails_of_fails (hfails.congr hsame.disk ?_) ?_
    · rw [hsame.pipeline]
    · rw [hsame.pipeline]
      exact hworks.assembled

theorem ensures_renderAsset (logical : String) : Ensures (Framed p (IsOrderly p here)) (render logical)
    (fun _ ↦ Framed p (IsOrderly p here)) RenderFails := by
  refine Ensures.bind (ensures_ask fun s e hs he ↦ .inl (buildFails_of_fails
    (s.fails_getAsset logical e he) (hs.isAssembled hp.assembled))) fun a ↦ ?_
  have hrun : Ensures (fun s ↦ s.Framed p (IsOrderly p here) ∧ s.getAsset logical = .ok a)
      (Asset.runOn a Asset.publish) (fun _ ↦ Framed p (IsOrderly p here)) RenderFails := by
    rintro s ⟨hs, ha⟩
    have hworks := hs.works hp
    have hproper := hs.isProper_of_orderly hp
    obtain ⟨hfits, -⟩ := fits_of_getAsset hproper ha
    have hafter := orderly_publish (s := ⟨s, a⟩) hs hfits
    unfold Asset.runOn
    rcases hpublish : Asset.publish ⟨s, a⟩ with ⟨made, t⟩ | ⟨e, t⟩
    · rw [hpublish] at hafter
      exact hafter
    · rcases Asset.fails_of_publish hproper hworks.assembled.roots
        (Disk.isFolder_top_of_isSound hs.store.sound) hs.store.path ha hpublish with
        hfails | ⟨hsame, hdev, hmisses⟩
      · rw [hpublish] at hafter
        exact .inl (buildFails_of_fails hfails (hafter.isAssembled hp.assembled))
      · exact .inr ⟨s, logical, a, hsame.disk, hsame.pipeline, ha, hsame.pipeline ▸ hdev, hmisses⟩
  refine Ensures.bind hrun fun made ↦ Ensures.bind Ensures.get fun s ↦ ?_
  exact Ensures.pure _ fun _ ht ↦ ht.2

theorem ensures_compileAssets : Ensures (Framed p (IsOrderly p here)) compileAll
    (fun _ ↦ Framed p (IsOrderly p here)) RenderFails := by
  rw [compileAll_eq]
  refine ensures_compileAllBy (I := fun _ ↦ IsOrderly p here) (fun _ _ _ _ he ↦ .inl (.ordinary (.inr he)))
    fun _ name ↦ ?_
  exact Ensures.bind (ensures_say _ _) fun _ ↦ Ensures.bind (ensures_renderAsset hp name) fun _ ↦
    Ensures.pure _ fun _ ht ↦ ht

end Assets

/-- A name is too long, or there is a folder where the manifest should be. -/
def ClearFails (e : Failure) (s : Site) : Prop :=
  e.IsUnreadable s.disk ∨ e = .disk (.refused .isFolder s.pipeline.manifestPath) ∧
    s.disk.isFolder s.pipeline.manifestPath = .ok true

theorem ensures_forgetManifest :
    Ensures (fun m : Manifest.Store ↦ m.IsOrderly p here) Manifest.delete
      (fun _ m ↦ m.IsOrderly p here) (fun e m ↦ e.IsUnreadable m.disk ∨
        e = .disk (.refused .isFolder p.manifestPath) ∧ m.disk.isFolder p.manifestPath = .ok true) := by
  intro m hm
  have hkeep := Disk.keepsSound_remove p.manifestPath m.disk
  rw [Manifest.delete_eq hm.path]
  rcases hremove : Disk.remove p.manifestPath m.disk with ⟨removed, e⟩ | ⟨why, e⟩
  · rw [hremove] at hkeep
    exact hm.moves hkeep rfl
  · obtain ⟨rfl, hlong | ⟨rfl, hfolder⟩⟩ := Disk.remove_error hremove
    · exact .inl hlong
    · exact .inr ⟨rfl, hfolder⟩

theorem ensures_clearFolder (path : Path) (manifest : Manifest) :
    Ensures (fun d ↦ IsOrderly p here ⟨d, manifest⟩) (Disk.clear path)
      (fun _ d ↦ IsOrderly p here ⟨d, manifest⟩) (fun why d ↦ (Failure.disk why).IsUnreadable d) := by
  intro d hd
  have hkeep := Disk.keepsSound_clear path d
  rcases hclear : Disk.clear path d with ⟨x, e⟩ | ⟨why, e⟩
  · rw [hclear] at hkeep
    exact hd.moves hkeep rfl
  · exact (Disk.clear_error hclear).2

theorem ensures_emptyTarget : Ensures (Framed p (IsOrderly p here)) clearTarget
    (fun _ ↦ Framed p (IsOrderly p here)) ClearFails := by
  refine Ensures.bind (ensures_say _ _) fun _ ↦ ?_
  refine Ensures.bind ((ensures_ofManifest ensures_forgetManifest).failing fun e s he ↦ ?_) fun _ ↦ ?_
  · unfold ClearFails
    rw [he.manifestPath]
    exact he.store
  refine Ensures.bind Ensures.get fun s ↦ ?_
  have hclear : Ensures (Framed p (IsOrderly p here)) (ofDisk (Disk.clear s.pipeline.targetPath) .disk)
      (fun _ ↦ Framed p (IsOrderly p here)) (fun e ↦ Framed p fun m ↦ e.IsUnreadable m.disk) :=
    ensures_ofDisk fun manifest ↦ ensures_clearFolder _ manifest
  exact (hclear.failing fun _ _ he ↦ .inl he.store).pre fun _ ht ↦ ht.2

section Copies

variable {destination : String} {source : Static.Source} {others : List Static.Source}

/-- An orderly store whose disk has files to read. -/
structure Holds (p : Pipeline) (here : List String) (files : List Static.Source) (m : Manifest.Store) :
    Prop where
  orderly : m.IsOrderly p here
  readable : ∀ f ∈ files, m.disk.IsReadable f.path

/-- The files are not where the manifest is written first. -/
def SparesTemporary (p : Pipeline) (here : List String) (files : List Static.Source) : Prop :=
  ∀ f ∈ files, (Disk.temporary p.manifestPath).place here ≠ f.path.place here

theorem sparesTemporary_of_undotted (h : ∀ f ∈ others, ∃ above name,
    f.path.names = above ++ [name] ∧ Static.isDotted name = false) : SparesTemporary p here others := by
  intro f hf heq
  obtain ⟨above, name, hnames, hdot⟩ := h f hf
  have hlast : f.path.names.getLast? = some name := by rw [hnames, List.getLast?_concat]
  have hup : name ≠ ".." := by
    rintro rfl
    exact absurd hdot (by decide)
  rw [Disk.place_eq_append hlast hup, Disk.place_eq_append (Disk.getLast?_temporary _)
    (Disk.temporaryName_ne_up _)] at heq
  have hmanifest : p.manifestPath.name = Manifest.fileName := by
    unfold Path.name
    rw [p.names_manifestPath, List.getLastD_concat]
    rfl
  rw [← eq_of_concat_eq heq, hmanifest] at hdot
  exact absurd hdot (by decide)

theorem ensures_recordCopy (hspares : SparesTemporary p here others) (key value : String) :
    Ensures (Holds p here others) (Manifest.add key value) (fun _ ↦ Holds p here others)
      (fun e _ ↦ e.isReported = true) := by
  intro m hm
  have horderly := hm.orderly.add key value
  rw [Manifest.add_eq hm.orderly.path] at horderly ⊢
  rcases hwrite : Disk.writeText p.manifestPath
    (Manifest.render (m.manifest.recording key value).entries) m.disk with ⟨x, e⟩ | ⟨why, e⟩
  · rw [hwrite] at horderly
    refine ⟨horderly, fun f hf ↦ (hm.readable f hf).writeText hwrite ?_⟩
    rw [hm.orderly.here_eq]
    exact hspares f hf
  · rfl

theorem ensures_nameCopy (hspares : SparesTemporary p here others) :
    Ensures (Framed p fun m ↦ Holds p here others m ∧ m.disk.IsReadable source.path)
      (staticName destination source) (fun _ ↦ Framed p (Holds p here others))
      (fun e s ↦ e.IsOrdinary s.disk) := by
  refine Ensures.bind Ensures.get fun s ↦ ?_
  split
  · have hask : Ensures (fun t ↦ t = s ∧ t.Framed p fun m ↦
          Holds p here others m ∧ m.disk.IsReadable source.path)
        (ask fun s ↦ Disk.orFail (s.disk.readBytes source.path)) (fun _ ↦ Framed p (Holds p here others))
        (fun e s ↦ e.IsOrdinary s.disk) :=
      (ensures_ask fun t e ht he ↦ .inr (failsOnly_orFail t.disk ht.2.store.2 e he)).mono
        (fun _ ht ↦ ht) (fun _ _ ht ↦ ht.1.2.mono fun _ hm ↦ hm.1) fun _ _ he ↦ he
    refine Ensures.bind hask fun bytes ↦ ?_
    refine Ensures.bind ((ensures_ofManifest (ensures_recordCopy hspares _ _)).failing
      fun _ _ he ↦ .inl he.store) fun _ ↦ ?_
    exact Ensures.pure _ fun t ht ↦ ht
  · exact Ensures.pure _ fun t ht ↦ ht.2.mono fun m hm ↦ hm.1

theorem ensures_makeCopy (hroot : p.root.anchor ≠ .none) (filename : String) (manifest : Manifest) :
    Ensures (fun d ↦ Holds p here others ⟨d, manifest⟩)
      (Disk.copy source.path (p.copyTarget destination filename))
      (fun _ d ↦ Holds p here others ⟨d, manifest⟩) (fun _ _ ↦ True) := by
  intro d hd
  have hkeep := Disk.keepsSound_copy source.path (p.copyTarget destination filename) d
  rcases hcopy : Disk.copy source.path (p.copyTarget destination filename) d with ⟨x, e⟩ | ⟨why, e⟩
  · rw [hcopy] at hkeep
    exact ⟨hd.orderly.moves hkeep rfl, fun f hf ↦
      (hd.readable f hf).copy (Pipeline.anchor_copyTarget_ne hroot destination filename) hcopy⟩
  · trivial

/-- A file that can be read is copied, and all other files can still be read. -/
theorem ensures_copyReadable (hroot : p.root.anchor ≠ .none) (hspares : SparesTemporary p here others) :
    Ensures (Framed p fun m ↦ Holds p here others m ∧ m.disk.IsReadable source.path)
      (copyFile destination source) (fun _ ↦ Framed p (Holds p here others))
      (fun e s ↦ e.IsOrdinary s.disk) := by
  refine Ensures.bind (ensures_nameCopy hspares) fun filename ↦ Ensures.bind Ensures.get fun s ↦ ?_
  have hcopy : Ensures (fun t ↦ t = s ∧ t.Framed p (Holds p here others))
      (ofDisk (Disk.copy source.path (s.pipeline.copyTarget destination filename))
        (.notWritten (s.pipeline.copyTarget destination filename)))
      (fun _ ↦ Framed p (Holds p here others)) (fun e s ↦ e.IsOrdinary s.disk) := by
    rintro t ⟨rfl, ht⟩
    rw [ht.copyTarget]
    refine Ensures.failing (ensures_ofDisk (F := fun e _ ↦ e.isReported = true) fun manifest ↦
      (ensures_makeCopy hroot filename manifest).failing fun _ _ _ ↦ rfl)
      (fun _ _ he ↦ .inl he.store) t ht
  refine Ensures.bind hcopy fun _ ↦ Ensures.bind (ensures_say _ _) fun _ ↦ ?_
  exact Ensures.pure _ fun _ ht ↦ ht

theorem ensures_copyReadables (hroot : p.root.anchor ≠ .none) {files : List Static.Source}
    (hspares : SparesTemporary p here files) :
    Ensures (Framed p (Holds p here files)) (files.mapM (copyFile destination))
      (fun _ ↦ Framed p (IsOrderly p here)) (fun e s ↦ e.IsOrdinary s.disk) := by
  have hall := Ensures.mapM (I := fun _ ↦ Framed p (Holds p here files)) (f := copyFile destination)
    (E := fun e s ↦ e.IsOrdinary s.disk) (fun _ f hf ↦ (ensures_copyReadable hroot hspares).pre
      fun s hs ↦ hs.mono fun m hm ↦ ⟨hm, hm.readable f hf⟩) []
  exact hall.mono (fun _ hs ↦ hs) (fun _ _ hs ↦ hs.mono fun _ hm ↦ hm.orderly) fun _ _ he ↦ he

/-- Of a single file nothing has to be read after it was copied. -/
theorem ensures_copySingle (hroot : p.root.anchor ≠ .none) :
    Ensures (Framed p fun m ↦ Holds p here [] m ∧ m.disk.IsReadable source.path)
      ([source].mapM (copyFile destination)) (fun _ ↦ Framed p (IsOrderly p here))
      (fun e s ↦ e.IsOrdinary s.disk) := by
  rw [List.mapM_cons]
  refine Ensures.bind (ensures_copyReadable hroot (List.forall_mem_nil _)) fun url ↦ ?_
  rw [List.mapM_nil]
  exact Ensures.pure _ fun _ hs ↦ hs.mono fun _ hm ↦ hm.orderly

theorem ensures_copyListed (hroot : p.root.anchor ≠ .none) (skips : String → Bool)
    (destination source : String) :
    Ensures (Framed p (IsOrderly p here)) (copySource skips destination source)
      (fun _ ↦ Framed p (IsOrderly p here)) (fun e s ↦ e.IsOrdinary s.disk) := by
  refine Ensures.bind Ensures.get fun s ↦ ?_
  have hask : Ensures (fun t ↦ t = s ∧ t.Framed p (IsOrderly p here))
      (ask fun t ↦ Disk.orFail (Static.sourcesAt t.disk (s.pipeline.root.join source)))
      (fun files t ↦ t.Framed p (IsOrderly p here) ∧
        Static.sourcesAt t.disk (s.pipeline.root.join source) = .ok files)
      (fun e s ↦ e.IsOrdinary s.disk) :=
    (ensures_ask fun t e ht he ↦
        .inr (failsOnly_orFail t.disk (Static.failsOnly_sourcesAt t.disk _) e he)).mono
      (fun _ ht ↦ ht) (fun _ _ ht ↦ ⟨ht.1.2, Disk.orFail_eq_ok.1 ht.2⟩) fun _ _ he ↦ he
  refine Ensures.bind hask fun files? ↦ ?_
  cases files? with
  | none =>
    exact Ensures.bind ((ensures_say _ _).pre fun _ ht ↦ ht.1) fun _ ↦ Ensures.pure _ fun _ ht ↦ ht
  | some files =>
    rintro t ⟨ht, hfiles⟩
    dsimp only
    generalize (fun f : Static.Source ↦ !skips f.rel) = keeps
    rcases Static.isReadable_of_mem ht.store.sound.distinct hfiles with ⟨f, rfl, hf⟩ | hall
    · rw [List.filter_singleton]
      cases keeps f with
      | false => exact ht
      | true =>
        exact ensures_copySingle hroot t ⟨ht.pipeline, ⟨ht.store, List.forall_mem_nil _⟩, hf⟩
    · have hkept : ∀ f ∈ files.filter keeps, f ∈ files := fun f hf ↦ (List.mem_filter.1 hf).1
      exact ensures_copyReadables hroot (sparesTemporary_of_undotted fun f hf ↦
        (hall f (hkept f hf)).2) t ⟨ht.pipeline, ht.store, fun f hf ↦ (hall f (hkept f hf)).1⟩

theorem ensures_copyConfigured (hroot : p.root.anchor ≠ .none) (skips : String → Bool) :
    Ensures (Framed p (IsOrderly p here)) (copyAll skips) (fun _ ↦ Framed p (IsOrderly p here))
      (fun e s ↦ e.IsOrdinary s.disk) := by
  refine Ensures.bind Ensures.get fun s ↦ ?_
  refine Ensures.bind (Q := fun _ ↦ Framed p (IsOrderly p here)) ?_ fun _ ↦
    Ensures.pure _ fun _ ht ↦ ht
  refine Ensures.pre ?_ fun _ ht ↦ ht.2
  exact Ensures.mapM (I := fun _ ↦ Framed p (IsOrderly p here)) (fun _ pair _ ↦
    ensures_copyListed hroot skips pair.1 pair.2) []

end Copies

/-! ## Releases -/

/-- What a release fails with, besides what is reported. -/
inductive ReleaseFails (compiles : Bool) (s : Site) : Failure → Prop
  | ordinary {e : Failure} (h : e.IsOrdinary s.disk) : ReleaseFails compiles s e
  | badPattern {raised : Raised}
      (h : s.pipeline.library.packages.ignores s.pipeline.config.staticIgnore = .error raised) :
      ReleaseFails compiles s raised.1
  | manifestFolder (hfolder : s.disk.isFolder s.pipeline.manifestPath = .ok true) :
      ReleaseFails compiles s (.disk (.refused .isFolder s.pipeline.manifestPath))
  | render {e : Failure} (hcompiles : compiles = true) (h : RenderFails e s) :
      ReleaseFails compiles s e

theorem ensures_releaseSite (hp : p.Works here) (compiles : Bool) :
    Ensures (Framed p (IsOrderly p here)) (release compiles) (fun _ ↦ Framed p (IsOrderly p here))
      (fun e s ↦ ReleaseFails compiles s e) := by
  have hroot : p.root.anchor ≠ .none := hp.assembled.root.anchor_ne
  have hignored : Ensures (Framed p (IsOrderly p here)) ignored (fun _ ↦ Framed p (IsOrderly p here))
      (fun e s ↦ ReleaseFails compiles s e) := by
    refine (ensures_ask fun s e _ he ↦ ?_).mono (fun _ hs ↦ hs) (fun _ _ hs ↦ hs.1) fun _ _ he ↦ he
    obtain ⟨raised, hraised, rfl⟩ := orRaise_eq_error.1 he
    exact .badPattern hraised
  have hclear : Ensures (Framed p (IsOrderly p here)) clearTarget (fun _ ↦ Framed p (IsOrderly p here))
      (fun e s ↦ ReleaseFails compiles s e) := by
    refine ensures_emptyTarget.failing fun e s he ↦ ?_
    rcases he with hunreadable | ⟨rfl, hfolder⟩
    · exact .ordinary (.inr hunreadable)
    · exact .manifestFolder hfolder
  refine Ensures.bind hignored fun skips ↦ Ensures.bind Ensures.get fun s ↦ ?_
  refine Ensures.bind (ensures_announce.pre fun _ hs ↦ hs.2) fun _ ↦ Ensures.bind hclear fun _ ↦ ?_
  refine Ensures.bind ((ensures_copyConfigured hroot skips).failing fun _ _ ↦ .ordinary)
    fun copied ↦ ?_
  cases compiles with
  | false => exact Ensures.pure _ fun _ hs ↦ hs
  | true =>
    exact Ensures.bind ((ensures_compileAssets hp).failing fun _ _ ↦ .render rfl) fun compiled ↦
      Ensures.pure _ fun _ hs ↦ hs

end Site

end AssetBundler
