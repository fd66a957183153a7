import AssetBundler.Proofs.Asset.Outcome
import AssetBundler.Proofs.Disk.Existence
import AssetBundler.Proofs.Static.Tracking

/-!
# Steps of a site

What publishing does to a site it does to the disk and the manifest: the rest of the pipeline stays as it
is. A condition on disk and manifest is carried through the steps of a release by the lemmas here. Main
statements: copying all static files and compiling all assets preserve whatever copying and compiling a
single one does (`Site.ensures_copyAllBy` and `Site.ensures_compileAllBy`).
-/

namespace AssetBundler

open AssetBundler.Action

theorem Static.failsOnly_sourcesAt (d : Disk) (path : Path) :
    FailsOnly Disk.Error.IsTooLong (sourcesAt d path) := by
  refine (Disk.failsOnly_find? d path).bind fun n? ↦ ?_
  cases n? with
  | none => exact .ok none
  | some n => exact .ok _

theorem Release.failsOnly_compiledNames (d : Disk) (root : Path) :
    FailsOnly Disk.Error.IsTooLong (compiledNames d root) := by
  refine (Disk.failsOnly_isFolder d root).bind_of_eq_ok fun isFolder hfolder ↦ ?_
  cases isFolder with
  | false => exact .ok []
  | true =>
    obtain ⟨entries, hlist⟩ := Disk.list_of_isFolder hfolder
    rw [hlist]
    exact .ok _

namespace Site

variable {α β : Type} {p : Pipeline}

/-- The pipeline is the given one up to its manifest, which together with the disk is as described. -/
structure Framed (p : Pipeline) (P : Manifest.Store → Prop) (s : Site) : Prop where
  pipeline : s.pipeline = { p with manifest := s.pipeline.manifest }
  store : P ⟨s.disk, s.pipeline.manifest⟩

namespace Framed

variable {P : Manifest.Store → Prop} {s : Site}

theorem mono {Q : Manifest.Store → Prop} (h : s.Framed p P) (hPQ : ∀ m, P m → Q m) : s.Framed p Q :=
  ⟨h.pipeline, hPQ _ h.store⟩

theorem targetPath (h : s.Framed p P) : s.pipeline.targetPath = p.targetPath := by
  rw [h.pipeline]
  rfl

theorem copyTarget (h : s.Framed p P) (destination filename : String) :
    s.pipeline.copyTarget destination filename = p.copyTarget destination filename := by
  rw [h.pipeline]
  rfl

theorem inProduction (h : s.Framed p P) : s.pipeline.inProduction = p.inProduction := by
  rw [h.pipeline]
  rfl

theorem fingerprintsCopies (h : s.Framed p P) :
    s.pipeline.fingerprintsCopies = p.fingerprintsCopies := by
  rw [h.pipeline]
  rfl

theorem root (h : s.Framed p P) : s.pipeline.root = p.root := by rw [h.pipeline]

theorem config (h : s.Framed p P) : s.pipeline.config = p.config := by rw [h.pipeline]

theorem ignores (h : s.Framed p P) :
    s.pipeline.library.packages.ignores s.pipeline.config.staticIgnore =
      p.library.packages.ignores p.config.staticIgnore := by rw [h.pipeline]

theorem searchPath (h : s.Framed p P) : s.pipeline.searchPath = p.searchPath := by rw [h.pipeline]

theorem isProper (h : s.Framed p P) (hhere : ∀ name ∈ s.disk.here, Path.IsName name ∧ name ≠ "..")
    (hroots : ∀ root ∈ p.searchPath.roots, root.IsProper) : s.IsProper where
  here := hhere
  roots := by
    rw [h.searchPath]
    exact hroots

/-- What is known of the disk and the manifest that publishing an asset leaves is known of the site. -/
theorem leadsTo {Q : Manifest.Store → Prop} {s t : Asset.State} {store : Manifest.Store}
    (h : s.site.Framed p P) (hleads : s.LeadsTo store t) (hstore : Q store) : t.site.Framed p Q := by
  have hpipeline := hleads.pipeline
  rw [h.pipeline] at hpipeline
  refine ⟨by rw [hpipeline], ?_⟩
  rw [hleads.disk, hpipeline]
  exact hstore

end Framed

theorem fits_of_getAsset {s : Site} (hs : s.IsProper) {logical : String} {a : Asset}
    (h : s.getAsset logical = .ok a) : a.DigestFits ∧ '/' ∉ a.path.name.toList := by
  obtain ⟨path, hpath, hmade⟩ := except_bind_eq_ok.1 h
  cases hmade
  exact ⟨Asset.digestFits_ofFile path (some logical), (isCanonical_of_getFile hs hpath).no_slash_name⟩

/-- A condition on disk and manifest that writing a file preserves, and in production recording it, holds
after publishing an asset, whether that succeeds or fails. -/
theorem framed_publish {P : Manifest.Store → Prop} {s : Asset.State} (hs : s.site.Framed p P)
    (hfits : s.asset.DigestFits)
    (hwritten : ∀ text, P ⟨finalState (Disk.writeText (Asset.filePath s text) text s.site.disk),
      s.site.pipeline.manifest⟩)
    (hrecorded : s.site.pipeline.inProduction = true → ∀ text disk,
      Disk.writeText (Asset.filePath s text) text s.site.disk = .ok () disk →
      P (finalState (Manifest.add s.asset.basename (Asset.fileName s text)
        ⟨disk, s.site.pipeline.manifest⟩))) :
    (finalState (Asset.publish s)).site.Framed p P := by
  have houtcome := Asset.outcome_of_publish hfits
  generalize Asset.publish s = r at houtcome
  cases houtcome with
  | recorded file hprod hfile hne => exact hs
  | unbuilt e t h => exact hs.leadsTo h hs.store
  | kept text t hdev hbuilt hheld h => exact hs.leadsTo h hs.store
  | unwritten text why disk t hwrite h =>
    have hafter := hwritten text
    rw [hwrite] at hafter
    exact hs.leadsTo h hafter
  | stored text disk t hdev hbuilt hwrite h =>
    have hafter := hwritten text
    rw [hwrite] at hafter
    exact hs.leadsTo h hafter
  | saved text disk store t hprod hbuilt hwrite hadd h =>
    have hafter := hrecorded hprod text disk hwrite
    rw [hadd] at hafter
    exact hs.leadsTo h hafter
  | unsaved text disk store e t hprod hwrite hadd h =>
    have hafter := hrecorded hprod text disk hwrite
    rw [hadd] at hafter
    exact hs.leadsTo h hafter

section Steps

variable {P : Manifest.Store → Prop} {E : Failure → Site → Prop}

theorem ensures_ask {Q : Site → Prop} {question : Site → Except Failure α}
    (hE : ∀ s e, Q s → question s = .error e → E e s) :
    Ensures Q (ask question) (fun a s ↦ Q s ∧ question s = .ok a) E := by
  intro s hs
  unfold ask
  cases hquestion : question s with
  | ok a => exact ⟨hs, hquestion⟩
  | error e => exact hE s e hs hquestion

theorem ensures_say (level : Level) (text : String) :
    Ensures (Framed p P) (say level text) (fun _ ↦ Framed p P) E :=
  fun _ hs ↦ ⟨hs.pipeline, hs.store⟩

theorem ensures_ofManifest {action : Manifest.Action α} {Q : α → Manifest.Store → Prop}
    {F : Failure → Manifest.Store → Prop} (h : Ensures P action Q F) :
    Ensures (Framed p P) (ofManifest action) (fun a ↦ Framed p (Q a)) (fun e ↦ Framed p (F e)) := by
  intro s hs
  have hafter := h ⟨s.disk, s.pipeline.manifest⟩ hs.store
  have hpipeline : ∀ m, { s.pipeline with manifest := m } = { p with manifest := m } := by
    intro m
    rw [hs.pipeline]
  unfold ofManifest
  cases haction : action ⟨s.disk, s.pipeline.manifest⟩ with
  | ok a m =>
    rw [haction] at hafter
    exact ⟨hpipeline m.manifest, hafter⟩
  | error e m =>
    rw [haction] at hafter
    exact ⟨hpipeline m.manifest, hafter⟩

theorem ensures_ofDisk {action : Disk.Action α} {fail : Disk.Error → Failure}
    {Q : α → Manifest.Store → Prop} {F : Failure → Manifest.Store → Prop}
    (h : ∀ manifest, Ensures (fun d ↦ P ⟨d, manifest⟩) action (fun a d ↦ Q a ⟨d, manifest⟩)
      (fun e d ↦ F (fail e) ⟨d, manifest⟩)) :
    Ensures (Framed p P) (ofDisk action fail) (fun a ↦ Framed p (Q a)) (fun e ↦ Framed p (F e)) := by
  intro s hs
  have hafter := h s.pipeline.manifest s.disk hs.store
  unfold ofDisk
  cases haction : action s.disk with
  | ok a disk =>
    rw [haction] at hafter
    exact ⟨hs.pipeline, hafter⟩
  | error e disk =>
    rw [haction] at hafter
    exact ⟨hs.pipeline, hafter⟩

end Steps

section Files

variable {I : List α → Manifest.Store → Prop} {E : Failure → Site → Prop}
  (hE : ∀ made e s, s.Framed p (I made) → e.IsUnreadable s.disk → E e s)

theorem ensures_announce {P : Manifest.Store → Prop} {F : Failure → Site → Prop} :
    Ensures (Framed p P) announce (fun _ ↦ Framed p P) F := by
  refine Ensures.bind Ensures.get fun s ↦ ?_
  have hsay : ∀ text, Ensures (fun t ↦ t = s ∧ t.Framed p P) (say .info text) (fun _ ↦ Framed p P) F :=
    fun text ↦ (ensures_say .info text).pre fun _ ht ↦ ht.2
  extract_lets q
  split
  · exact hsay _
  · exact hsay _

/-- A file is listed for a source of the configuration. -/
def IsListed (p : Pipeline) (I : List α → Manifest.Store → Prop) (f : Static.Source) : Prop :=
  ∃ made m source files, I made m ∧
    Static.sourcesAt m.disk (p.root.join source) = .ok (some files) ∧ f ∈ files

/-- A file is listed for one source of the configuration. -/
def IsListedAt (p : Pipeline) (I : List α → Manifest.Store → Prop) (source : String)
    (f : Static.Source) : Prop :=
  ∃ made m files, I made m ∧ Static.sourcesAt m.disk (p.root.join source) = .ok (some files) ∧ f ∈ files

theorem IsListedAt.isListed {source : String} {f : Static.Source} (h : IsListedAt p I source f) :
    IsListed p I f := by
  obtain ⟨made, m, files, hm, hfiles, hf⟩ := h
  exact ⟨made, m, source, files, hm, hfiles, hf⟩

include hE

theorem ensures_copySourceBy {copy : String → Static.Source → Action α} {destination source : String}
    (hcopy : ∀ made f, IsListedAt p I source f → Ensures (Framed p (I made)) (copy destination f)
      (fun c ↦ Framed p (I (made ++ [c]))) E)
    (skips : String → Bool) (made : List α) :
    Ensures (Framed p (I made)) (copySourceBy copy skips destination source)
      (fun cs ↦ Framed p (I (made ++ cs))) E := by
  refine Ensures.bind Ensures.get fun s ↦ ?_
  have hask : Ensures (fun t ↦ t = s ∧ t.Framed p (I made))
      (ask fun t ↦ Disk.orFail (Static.sourcesAt t.disk (s.pipeline.root.join source)))
      (fun files t ↦ t.Framed p (I made) ∧ ∀ f ∈ files.getD [], IsListedAt p I source f)
      E := by
    refine (ensures_ask fun t e ht he ↦ hE made e t ht.2 ?_).mono (fun _ ht ↦ ht)
      ?_ fun _ _ he ↦ he
    · exact failsOnly_orFail t.disk (Static.failsOnly_sourcesAt t.disk _) e he
    rintro files t ⟨⟨rfl, ht⟩, hfiles⟩
    refine ⟨ht, fun f hf ↦ ?_⟩
    cases files with
    | none => cases hf
    | some files =>
      rw [ht.root] at hfiles
      exact ⟨made, ⟨t.disk, t.pipeline.manifest⟩, files, ht.store, Disk.orFail_eq_ok.1 hfiles, hf⟩
  refine Ensures.bind hask fun files ↦ ?_
  cases files with
  | none =>
    refine Ensures.bind ((ensures_say _ _).pre fun _ ht ↦ ht.1) fun _ ↦ ?_
    refine Ensures.pure _ fun t ht ↦ ?_
    rwa [List.append_nil]
  | some files =>
    intro t ht
    refine Ensures.mapM (I := fun cs ↦ Framed p (I cs)) (fun made f hf ↦ ?_) made t ht.1
    exact hcopy made f (ht.2 f (List.mem_filter.1 hf).1)

theorem ensures_copyAllBy {copy : String → Static.Source → Action α}
    (hcopy : ∀ made, ∀ entry ∈ p.config.staticFiles, ∀ f, IsListed p I f →
      Ensures (Framed p (I made)) (copy entry.1 f) (fun c ↦ Framed p (I (made ++ [c])))
        E)
    (skips : String → Bool) :
    Ensures (Framed p (I [])) (copyAllBy copy skips) (fun cs ↦ Framed p (I cs))
      E := by
  refine Ensures.bind Ensures.get fun s ↦ ?_
  refine Ensures.bind (Q := fun css ↦ Framed p (I css.flatten)) ?_ fun _ ↦
    Ensures.pure _ fun _ ht ↦ ht
  rintro t ⟨rfl, ht⟩
  refine Ensures.mapM (I := fun css ↦ Framed p (I css.flatten)) (fun made pair hpair ↦ ?_) [] t ht
  obtain ⟨entry, hentry, hmem⟩ := List.mem_flatMap.1 hpair
  obtain ⟨source, -, rfl⟩ := List.mem_map.1 hmem
  rw [ht.config] at hentry
  simp only [List.flatten_append, List.flatten_singleton]
  exact ensures_copySourceBy hE (fun made f hf ↦ hcopy made entry hentry f hf.isListed) skips
    made.flatten

theorem ensures_compileAllBy {compile : String → Action α}
    (hcompile : ∀ made name, Ensures (Framed p (I made)) (compile name)
      (fun b ↦ Framed p (I (made ++ [b]))) E) :
    Ensures (Framed p (I [])) (compileAllBy compile) (fun bs ↦ Framed p (I bs))
      E := by
  have hroot : ∀ made root, Ensures (Framed p (I made)) (compileRootBy compile root)
      (fun bs ↦ Framed p (I (made ++ bs))) E := by
    intro made root
    refine Ensures.bind (ensures_ask fun s e hs he ↦ hE made e s hs ?_) fun names ↦ ?_
    · exact failsOnly_orFail s.disk (Release.failsOnly_compiledNames s.disk root) e he
    intro s hs
    exact Ensures.mapM (I := fun bs ↦ Framed p (I bs)) (fun made name _ ↦ hcompile made name) made s hs.1
  refine Ensures.bind (ensures_say _ _) fun _ ↦ Ensures.bind Ensures.get fun s ↦ ?_
  have hall : Ensures (fun t ↦ t = s ∧ t.Framed p (I []))
      (s.pipeline.searchPath.roots.mapM (compileRootBy compile))
      (fun bss ↦ Framed p (I bss.flatten)) E := by
    rintro t ⟨-, ht⟩
    refine Ensures.mapM (I := fun bss ↦ Framed p (I bss.flatten)) (fun made root _ ↦ ?_) [] t ht
    simp only [List.flatten_append, List.flatten_singleton]
    exact hroot made.flatten root
  exact Ensures.bind hall fun _ ↦ Ensures.pure _ fun _ ht ↦ ht

end Files

end Site

end AssetBundler
