import AssetBundler.Proofs.Manifest.Reload
import AssetBundler.Proofs.Release.Address
import AssetBundler.Proofs.Release.Step

/-!
# What the entries of a manifest name

In production a manifest that starts without entries names existing files only, whatever is released,
written and rendered and wherever it fails, with one exception: a static file is recorded before it is
copied, so the entry of a copy that failed stays until the next release. Files whose names end like those
of temporary files can be taken by a later writing. Main statement: `Bench.entries_exact`.
-/

namespace AssetBundler

open AssetBundler.Action

namespace Manifest.Store

variable {p : Pipeline} {here : List String} {lost : Option String} {m : Store}

/-- What the entry of a key leads to: a file, or a folder that a static file was put into. -/
def Leads (d : Disk) (key : String) (path : Path) : Prop :=
  d.isFile path = .ok true ∨ key.toList.head? = some '/' ∧ d.leadsToFolder path = true

/-- The published file exists, unless it is named like a temporary one. -/
def Holds (p : Pipeline) (here : List String) (d : Disk) (key value : String) : Prop :=
  Leads d key (p.publishedPath value) ∨ Disk.IsTemporary ((p.publishedPath value).place here)

/-- Every entry but the lost one holds. -/
structure IsKept (p : Pipeline) (here : List String) (lost : Option String) (m : Store) : Prop where
  here_eq : m.disk.here = here
  proper : m.disk.IsProper
  path : m.manifest.path = some p.manifestPath
  entry : ∀ key value, m.manifest.get? key = some value → some key ≠ lost → Holds p here m.disk key value

theorem Holds.mono {d e : Disk} {key value : String} (hhere : d.here = here) (hkeep : d.KeepsFiles e)
    (h : Holds p here d key value) : Holds p here e key value := by
  subst hhere
  rcases h with (hfile | ⟨hkey, hfolder⟩) | htmp
  · by_cases htmp : Disk.IsTemporary ((p.publishedPath value).place d.here)
    · exact .inr htmp
    · exact .inl (.inl (hkeep.isFile htmp hfile))
  · exact .inl (.inr ⟨hkey, hkeep.leadsToFolder hfolder⟩)
  · exact .inr htmp

theorem IsKept.mono (h : m.IsKept p here lost) {e : Disk} (hkeep : m.disk.KeepsFiles e)
    (hproper : m.disk.KeepsProper e) : IsKept p here lost ⟨e, m.manifest⟩ where
  here_eq := hkeep.here_eq.trans h.here_eq
  proper := hproper h.proper
  path := h.path
  entry key value hget hkey := (h.entry key value hget hkey).mono h.here_eq hkeep

/-- Without entries there is nothing to keep. -/
structure IsEmptied (p : Pipeline) (here : List String) (m : Store) : Prop where
  here_eq : m.disk.here = here
  proper : m.disk.IsProper
  path : m.manifest.path = some p.manifestPath
  empty : m.manifest.entries = []

theorem IsEmptied.isKept (h : m.IsEmptied p here) : m.IsKept p here lost where
  here_eq := h.here_eq
  proper := h.proper
  path := h.path
  entry key value hget _ := by
    unfold Manifest.get? at hget
    rw [h.empty] at hget
    cases hget

/-- The lost entry turns out to hold. -/
theorem IsKept.found {key : String} (h : m.IsKept p here (some key))
    (hfound : ∀ value, m.manifest.get? key = some value → Holds p here m.disk key value) :
    m.IsKept p here none where
  here_eq := h.here_eq
  proper := h.proper
  path := h.path
  entry other value hget _ := by
    by_cases hkey : other = key
    · exact hkey ▸ hfound value (hkey ▸ hget)
    · exact h.entry other value hget (by simpa using hkey)

/-- Recording a name, with success or without. -/
theorem IsKept.add (hroot : p.root.IsProper) {next : Option String} (h : m.IsKept p here lost)
    (name value : String) (hlost : ∀ key, some key ≠ next → some key ≠ lost)
    (hnew : some (toSlashes name) = next ∨ Holds p here m.disk (toSlashes name) value) :
    (finalState (Manifest.add name value m)).IsKept p here next := by
  have hkeep := Disk.keepsFiles_writeText p.manifestPath
    (render (m.manifest.recording name value).entries) m.disk
  have hproper := Disk.keepsProper_writeText (Pipeline.isProper_manifestPath hroot)
    (render (m.manifest.recording name value).entries) m.disk
  rw [finalState_add h.path]
  refine ⟨hkeep.here_eq.trans h.here_eq, hproper h.proper, h.path, fun key file hget hkey ↦ ?_⟩
  change (m.manifest.recording name value).get? key = some file at hget
  rw [Manifest.get?_recording] at hget
  by_cases hname : toSlashes name = key
  · rw [if_pos hname, Option.some.injEq] at hget
    subst hname hget
    exact (hnew.resolve_left hkey).mono h.here_eq hkeep
  · rw [if_neg hname] at hget
    exact (h.entry key file hget (hlost key hkey)).mono h.here_eq hkeep

/-- A failure that leaves at most one entry lost, none unless a file could not be written. -/
def LosesOne (p : Pipeline) (here : List String) (e : Failure) (m : Store) : Prop :=
  ∃ lost : Option String, (lost ≠ none → ∃ path why, e = .notWritten path why) ∧ m.IsKept p here lost

theorem IsKept.losesOne (h : m.IsKept p here none) (e : Failure) : LosesOne p here e m :=
  ⟨none, fun hne ↦ absurd rfl hne, h⟩

end Manifest.Store

namespace Site

open Manifest.Store

variable {α : Type} {p : Pipeline} {here : List String} {lost : Option String}

section Copies

variable (hroot : p.root.IsProper) {destination : String} {source : Static.Source}
  (hdestination : destination.toList.head? ≠ some '/') (hrel : source.rel.toList.head? ≠ some '/')

/-- Once a static file is named, it may be recorded without being there. -/
def IsNamed (p : Pipeline) (here : List String) (destination : String) (source : Static.Source)
    (filename : String) (m : Manifest.Store) : Prop :=
  m.IsKept p here none ∨ ∃ digest, filename = fingerprintedName source.rel digest ∧
    m.IsKept p here (some (toSlashes (Pipeline.slashed [destination, source.rel]))) ∧
    m.manifest.get? (toSlashes (Pipeline.slashed [destination, source.rel])) =
      some (Pipeline.slashed [destination, filename])

include hroot

theorem ensures_record (key value : String) :
    Ensures (fun m : Manifest.Store ↦ m.IsKept p here none) (Manifest.add key value)
      (fun _ m ↦ m.IsKept p here (some (toSlashes key)) ∧ m.manifest.get? (toSlashes key) = some value)
      (LosesOne p here) := by
  intro m hm
  have hkept := hm.add hroot key value (fun _ _ ↦ by simp) (.inl rfl)
  have hmanifest := Manifest.manifest_add key value m
  have hadd := Manifest.add_eq hm.path key value
  cases hadded : Manifest.add key value m with
  | ok x t =>
    rw [hadded] at hkept hmanifest
    refine ⟨hkept, ?_⟩
    change t.manifest = _ at hmanifest
    rw [hmanifest, Manifest.get?_recording, if_pos rfl]
  | error e t =>
    rw [hadded] at hkept
    refine ⟨_, fun _ ↦ ?_, hkept⟩
    rw [hadded] at hadd
    split at hadd
    · cases hadd
    · cases hadd
      exact ⟨_, _, rfl⟩

theorem ensures_staticName (destination : String) (source : Static.Source) :
    Ensures (Framed p (IsKept p here none)) (staticName destination source)
      (fun filename ↦ Framed p (IsNamed p here destination source filename))
      (fun e ↦ Framed p (LosesOne p here e)) := by
  refine Ensures.bind Ensures.get fun s ↦ ?_
  split
  · have hask : Ensures (fun t ↦ t = s ∧ t.Framed p (IsKept p here none))
        (ask fun s ↦ Disk.orFail (s.disk.readBytes source.path)) (fun _ ↦ Framed p (IsKept p here none))
        (fun e ↦ Framed p (LosesOne p here e)) :=
      (ensures_ask fun t e ht _ ↦ ht.2.mono fun _ hm ↦ hm.losesOne e).mono (fun _ ht ↦ ht)
        (fun _ _ ht ↦ ht.1.2) fun _ _ he ↦ he
    refine Ensures.bind hask fun bytes ↦ ?_
    refine Ensures.bind (ensures_ofManifest (ensures_record hroot _ _)) fun _ ↦ ?_
    refine Ensures.pure _ fun t ht ↦ ht.mono fun m hm ↦ ?_
    exact .inr ⟨_, rfl, hm.1, hm.2⟩
  · exact Ensures.pure _ fun t ht ↦ ht.2.mono fun m hm ↦ .inl hm

include hdestination hrel

/-- A copy that succeeds is what was recorded for it. -/
theorem ensures_copy (filename : String) (manifest : Manifest) :
    Ensures (fun d ↦ IsNamed p here destination source filename ⟨d, manifest⟩)
      (Disk.copy source.path (p.copyTarget destination filename))
      (fun _ d ↦ Manifest.Store.IsKept p here none ⟨d, manifest⟩)
      (fun why d ↦ LosesOne p here (.notWritten (p.copyTarget destination filename) why)
        ⟨d, manifest⟩) := by
  intro d hd
  have hkeep := Disk.keepsFiles_copy source.path (p.copyTarget destination filename) d
  have hproper := Disk.keepsProper_copy source.path
    (Pipeline.isProper_copyTarget hroot destination filename) d
  rcases hd with hkept | ⟨digest, hfilename, hkept, hget⟩
  · have hafter := hkept.mono hkeep hproper
    cases hcopy : Disk.copy source.path (p.copyTarget destination filename) d with
    | ok x e =>
      rw [hcopy] at hafter
      exact hafter
    | error why e =>
      rw [hcopy] at hafter
      exact hafter.losesOne _
  · have hafter := hkept.mono hkeep hproper
    cases hcopy : Disk.copy source.path (p.copyTarget destination filename) d with
    | ok x e =>
      rw [hcopy] at hafter
      have hhead : filename.toList.head? ≠ some '/' := hfilename ▸ head_fingerprintedName hrel digest
      refine hafter.found fun value hvalue ↦ .inl ?_
      obtain rfl : Pipeline.slashed [destination, filename] = value :=
        Option.some.inj (hget.symm.trans hvalue)
      rw [← Pipeline.copyTarget_eq hdestination hhead]
      refine (Disk.stands_of_copy ?_ hcopy).imp_right fun hfolder ↦ ?_
      swap
      · exact ⟨Pipeline.head_toSlashes_slashed _, hfolder⟩
      rw [hfilename]
      exact p.names_copyTarget_ne_nil destination source.rel digest
    | error why e =>
      rw [hcopy] at hafter
      exact ⟨_, fun _ ↦ ⟨_, _, rfl⟩, hafter⟩

theorem ensures_copyFile : Ensures (Framed p (IsKept p here none)) (copyFile destination source)
    (fun _ ↦ Framed p (IsKept p here none)) (fun e ↦ Framed p (LosesOne p here e)) := by
  refine Ensures.bind (ensures_staticName hroot destination source) fun filename ↦ ?_
  refine Ensures.bind Ensures.get fun s ↦ ?_
  have hcopy : Ensures (fun t ↦ t = s ∧ t.Framed p (IsNamed p here destination source filename))
      (ofDisk (Disk.copy source.path (s.pipeline.copyTarget destination filename))
        (.notWritten (s.pipeline.copyTarget destination filename)))
      (fun _ ↦ Framed p (IsKept p here none)) (fun e ↦ Framed p (LosesOne p here e)) := by
    rintro t ⟨rfl, ht⟩
    rw [ht.copyTarget]
    exact ensures_ofDisk (ensures_copy hroot hdestination hrel filename) t ht
  refine Ensures.bind hcopy fun _ ↦ Ensures.bind (ensures_say _ _) fun _ ↦ ?_
  exact Ensures.pure _ fun _ ht ↦ ht

end Copies

section Release

variable (hroot : p.root.IsProper)
  (hrelative : ∀ e ∈ p.config.staticFiles, e.1.toList.head? ≠ some '/')

include hroot

include hrelative

theorem ensures_copyAll (skips : String → Bool) :
    Ensures (Framed p (IsKept p here none)) (copyAll skips) (fun _ ↦ Framed p (IsKept p here none))
      (fun e ↦ Framed p (LosesOne p here e)) := by
  rw [copyAll_eq]
  refine ensures_copyAllBy (I := fun _ ↦ IsKept p here none)
    (fun _ e _ hs _ ↦ hs.mono fun _ hm ↦ hm.losesOne e)
    (fun _ entry hentry f hf ↦ ?_) skips
  obtain ⟨made, m, source, files, hm, hfiles, hmem⟩ := hf
  exact ensures_copyFile hroot (hrelative entry hentry)
    (Static.head_rel_of_mem hm.proper (hroot.join source) hfiles hmem)

end Release

/-! ## Clearing -/

theorem ensures_delete (hroot : p.root.IsProper) :
    Ensures (fun m : Manifest.Store ↦ m.IsKept p here lost) Manifest.delete
      (fun _ m ↦ m.IsEmptied p here) (fun _ m ↦ m.IsEmptied p here) := by
  intro m hm
  have hproper := Disk.keepsProper_remove (Pipeline.isProper_manifestPath hroot) m.disk
  have hhere : (finalState (Disk.remove p.manifestPath m.disk)).here = m.disk.here := by
    rcases Disk.remove_cases p.manifestPath m.disk with
      ⟨hremove, -⟩ | ⟨place, bytes, -, -, hremove⟩ | ⟨hremove, -⟩ | ⟨hremove, -⟩ <;> rw [hremove] <;> rfl
  rw [Manifest.delete_eq hm.path]
  cases hremove : Disk.remove p.manifestPath m.disk with
  | ok removed disk =>
    rw [hremove] at hproper hhere
    exact ⟨hhere.trans hm.here_eq, hproper hm.proper, hm.path, rfl⟩
  | error why disk =>
    rw [hremove] at hproper hhere
    exact ⟨hhere.trans hm.here_eq, hproper hm.proper, hm.path, rfl⟩

theorem ensures_clear (hroot : p.root.IsProper) (manifest : Manifest) :
    Ensures (fun d ↦ Manifest.Store.IsEmptied p here ⟨d, manifest⟩) (Disk.clear p.targetPath)
      (fun _ d ↦ Manifest.Store.IsEmptied p here ⟨d, manifest⟩)
      (fun _ d ↦ Manifest.Store.IsEmptied p here ⟨d, manifest⟩) := by
  intro d hd
  have hproper := Disk.keepsProper_clear (Pipeline.isProper_targetPath hroot) d hd.proper
  rcases Disk.clear_cases p.targetPath d with
    ⟨hclear, -⟩ | ⟨place, e, -, -, hclear, hhere, -, -⟩ | ⟨hclear, -⟩
  · rw [hclear]
    exact hd
  · rw [hclear] at hproper ⊢
    exact ⟨hhere.trans hd.here_eq, hproper, hd.path, hd.empty⟩
  · rw [hclear]
    exact hd

theorem ensures_clearTarget (hroot : p.root.IsProper) :
    Ensures (Framed p (IsKept p here lost)) clearTarget (fun _ ↦ Framed p (IsEmptied p here))
      (fun _ ↦ Framed p (IsEmptied p here)) := by
  refine Ensures.bind (ensures_say _ _) fun _ ↦ ?_
  refine Ensures.bind (ensures_ofManifest (ensures_delete hroot)) fun _ ↦ ?_
  refine Ensures.bind Ensures.get fun s ↦ ?_
  rintro t ⟨rfl, ht⟩
  rw [ht.targetPath]
  exact ensures_ofDisk (ensures_clear hroot) t ht

/-! ## Assets -/

/-- Publishing an asset stores its file before it records it. -/
theorem isKept_publish (hroot : p.root.IsProper) (hprod : p.inProduction = true) {s : Asset.State}
    (hs : s.site.Framed p (IsKept p here lost)) (hfits : s.asset.DigestFits)
    (hslash : '/' ∉ s.asset.path.name.toList) :
    (finalState (Asset.publish s)).site.Framed p (IsKept p here lost) := by
  have hprod' : s.site.pipeline.inProduction = true := hs.inProduction.trans hprod
  have hpath : ∀ text, Asset.filePath s text = p.publishedPath (Asset.fileName s text) := by
    intro text
    rw [Asset.filePath_eq hprod' hslash, Pipeline.publishedPath_eq, Pipeline.publishedPath_eq,
      hs.targetPath]
  have hfile : ∀ text, (Asset.filePath s text).IsProper := by
    intro text
    unfold Asset.filePath
    rw [hs.targetPath]
    exact (Pipeline.isProper_targetPath hroot).join _
  have hwritten : ∀ text, IsKept p here lost
      ⟨finalState (Disk.writeText (Asset.filePath s text) text s.site.disk), s.site.pipeline.manifest⟩ :=
    fun text ↦ hs.store.mono (Disk.keepsFiles_writeText _ text s.site.disk)
      (Disk.keepsProper_writeText (hfile text) text s.site.disk)
  refine Site.framed_publish hs hfits hwritten fun _ text disk hwrite ↦ ?_
  have hkept := hwritten text
  rw [hwrite] at hkept
  refine hkept.add hroot _ _ (fun _ hne ↦ hne) (.inr (.inl (.inl ?_)))
  rw [← hpath]
  exact Disk.isFile_of_writeText hwrite

/-- Where a production pipeline finds and publishes assets. -/
structure Publishes (p : Pipeline) (here : List String) : Prop where
  production : p.inProduction = true
  root : p.root.IsProper
  roots : ∀ root ∈ p.searchPath.roots, root.IsProper
  here : ∀ name ∈ here, Path.IsName name ∧ name ≠ ".."
  relative : ∀ e ∈ p.config.staticFiles, e.1.toList.head? ≠ some '/'

variable (hp : Publishes p here)

include hp

theorem asset_of_getAsset {s : Site} (hs : s.Framed p (IsKept p here lost)) {logical : String}
    {a : Asset} (h : s.getAsset logical = .ok a) : a.DigestFits ∧ '/' ∉ a.path.name.toList :=
  fits_of_getAsset (hs.isProper (hs.store.here_eq.symm ▸ hp.here) hp.roots) h

theorem ensures_render (logical : String) : Ensures (Framed p (IsKept p here lost)) (render logical)
    (fun _ ↦ Framed p (IsKept p here lost)) (fun _ ↦ Framed p (IsKept p here lost)) := by
  refine Ensures.bind (ensures_ask fun _ _ hs _ ↦ hs) fun a ↦ ?_
  have hrun : Ensures (fun s ↦ s.Framed p (IsKept p here lost) ∧ s.getAsset logical = .ok a)
      (Asset.runOn a Asset.publish) (fun _ ↦ Framed p (IsKept p here lost))
      (fun _ ↦ Framed p (IsKept p here lost)) := by
    rintro s ⟨hs, ha⟩
    obtain ⟨hfits, hslash⟩ := asset_of_getAsset hp hs ha
    have hafter := isKept_publish hp.root hp.production (s := ⟨s, a⟩) hs hfits hslash
    unfold Asset.runOn
    rcases hpublish : Asset.publish ⟨s, a⟩ with ⟨made, t⟩ | ⟨e, t⟩
    · rw [hpublish] at hafter
      exact hafter
    · rw [hpublish] at hafter
      exact hafter
  refine Ensures.bind hrun fun made ↦ Ensures.bind Ensures.get fun s ↦ ?_
  exact Ensures.pure _ fun _ ht ↦ ht.2

theorem ensures_compileAll : Ensures (Framed p (IsKept p here lost)) compileAll
    (fun _ ↦ Framed p (IsKept p here lost)) (fun _ ↦ Framed p (IsKept p here lost)) := by
  rw [compileAll_eq]
  refine ensures_compileAllBy (I := fun _ ↦ IsKept p here lost) (fun _ _ _ hm _ ↦ hm) fun _ name ↦ ?_
  exact Ensures.bind (ensures_say _ _) fun _ ↦ Ensures.bind (ensures_render hp name) fun _ ↦
    Ensures.pure _ fun _ ht ↦ ht

/-- A release starts afresh; one whose ignore patterns cannot be read leaves the site as it was. -/
theorem ensures_release (compiles : Bool) :
    Ensures (Framed p (IsKept p here lost)) (release compiles) (fun _ ↦ Framed p (IsKept p here none))
      (fun e s ↦ (∃ skips, p.library.packages.ignores p.config.staticIgnore = .ok skips) ∧
          s.Framed p (LosesOne p here e) ∨
        (∃ why, p.library.packages.ignores p.config.staticIgnore = .error why) ∧
          s.Framed p (IsKept p here lost)) := by
  have hignored : Ensures (Framed p (IsKept p here lost)) ignored
      (fun skips s ↦ s.Framed p (IsKept p here lost) ∧
        p.library.packages.ignores p.config.staticIgnore = .ok skips)
      (fun _ s ↦ (∃ why, p.library.packages.ignores p.config.staticIgnore = .error why) ∧
        s.Framed p (IsKept p here lost)) :=
    (ensures_ask fun s e hs he ↦
        ⟨(orRaise_eq_error.1 he).imp fun _ hwhy ↦ hs.ignores.symm.trans hwhy.1, hs⟩).mono
      (fun _ hs ↦ hs) (fun _ _ hs ↦ ⟨hs.1, hs.1.ignores.symm.trans (orRaise_eq_ok.1 hs.2)⟩)
      fun _ _ he ↦ he
  have hclear : Ensures (Framed p (IsKept p here lost)) clearTarget
      (fun _ ↦ Framed p (IsKept p here none)) (fun e ↦ Framed p (LosesOne p here e)) :=
    (ensures_clearTarget hp.root).mono (fun _ hs ↦ hs) (fun _ _ hs ↦ hs.mono fun _ hm ↦ hm.isKept)
      fun e _ hs ↦ hs.mono fun _ hm ↦ hm.isKept.losesOne e
  have hcompile : Ensures (Framed p (IsKept p here none)) compileAll
      (fun _ ↦ Framed p (IsKept p here none)) (fun e ↦ Framed p (LosesOne p here e)) :=
    (ensures_compileAll hp).failing fun e _ hs ↦ hs.mono fun _ hm ↦ hm.losesOne e
  refine Ensures.bind (hignored.failing fun _ _ he ↦ .inr he) fun skips ↦ ?_
  rintro s ⟨hs, hskips⟩
  refine Ensures.mono (P := Framed p (IsKept p here lost)) ?_ (fun _ hs ↦ hs) (fun _ _ hs ↦ hs)
    (fun _ _ he ↦ .inl ⟨⟨skips, hskips⟩, he⟩) s hs
  refine Ensures.bind Ensures.get fun s ↦ ?_
  refine Ensures.mono (P := Framed p (IsKept p here lost)) ?_ (fun _ hs ↦ hs.2) (fun _ _ hs ↦ hs)
    (fun _ _ he ↦ he)
  refine Ensures.bind ensures_announce fun _ ↦ Ensures.bind hclear fun _ ↦ ?_
  refine Ensures.bind (ensures_copyAll hp.root hp.relative skips) fun copied ↦ ?_
  cases compiles with
  | false => exact Ensures.pure _ fun _ hs ↦ hs
  | true => exact Ensures.bind hcompile fun compiled ↦ Ensures.pure _ fun _ hs ↦ hs

end Site

/-- A site with the assets that were looked up on it and how its last release ended. -/
structure Bench where
  site : Site
  assets : List Asset
  /-- What the last release raised, if it did not return. -/
  failure : Option Failure

namespace Bench

open Manifest.Store

inductive Call where
  | release (compiles : Bool)
  | obtain (logical : String)
  | write (index : Nat)
  | render (logical : String)

def start (s : Site) : Bench := ⟨s, [], none⟩

/-- One call; one that fails keeps what it did before. -/
def step (b : Bench) : Call → Bench
  | .release compiles =>
    match Site.release compiles b.site with
    | .ok _ s => { b with site := s, failure := none }
    | .error e s => { b with site := s, failure := some e }
  | .obtain logical =>
    match b.site.getAsset logical with
    | .ok a => { b with assets := b.assets ++ [a] }
    | .error _ => b
  | .write index =>
    match b.assets[index]? with
    | some a =>
      let s := finalState (Asset.publish ⟨b.site, a⟩)
      { b with site := s.site, assets := b.assets.set index s.asset }
    | none => b
  | .render logical => { b with site := finalState (Site.render logical b.site) }

def run (s : Site) (calls : List Call) : Bench := calls.foldl step (start s)

/-- A production site whose manifest has no entries yet. -/
structure IsOpened (s : Site) : Prop where
  publishes : Site.Publishes s.pipeline s.disk.here
  manifest : s.pipeline.manifest = ⟨some s.pipeline.manifestPath, []⟩
  proper : s.disk.IsProper

/-- Every entry holds but one at most, and every one if the last release did not fail to write. -/
structure IsKept (p : Pipeline) (here : List String) (b : Bench) : Prop where
  entries : ∃ lost : Option String, b.site.Framed p (Manifest.Store.IsKept p here lost) ∧
    (lost ≠ none → (∃ path why, b.failure = some (.notWritten path why)) ∧
      ∃ skips, p.library.packages.ignores p.config.staticIgnore = .ok skips)
  assets : ∀ a ∈ b.assets, a.DigestFits ∧ '/' ∉ a.path.name.toList

theorem isKept_start {s : Site} (hs : IsOpened s) : IsKept s.pipeline s.disk.here (start s) where
  entries := by
    refine ⟨none, ⟨rfl, ?_⟩, fun hne ↦ absurd rfl hne⟩
    have hempty : Manifest.Store.IsEmptied s.pipeline s.disk.here ⟨s.disk, s.pipeline.manifest⟩ :=
      ⟨rfl, hs.proper, by rw [hs.manifest], by rw [hs.manifest]⟩
    exact hempty.isKept
  assets := List.forall_mem_nil _

section Step

variable {p : Pipeline} {here : List String} {b : Bench}

/-- A site that keeps whatever entries the site before kept. -/
theorem IsKept.of_site (h : b.IsKept p here) {s : Site} {assets : List Asset}
    (hs : ∀ lost, b.site.Framed p (Manifest.Store.IsKept p here lost) →
      s.Framed p (Manifest.Store.IsKept p here lost))
    (hassets : ∀ a ∈ assets, a.DigestFits ∧ '/' ∉ a.path.name.toList) :
    IsKept p here ⟨s, assets, b.failure⟩ := by
  obtain ⟨lost, hframed, hlost⟩ := h.entries
  exact ⟨⟨lost, hs lost hframed, hlost⟩, hassets⟩

variable (hp : Site.Publishes p here)

include hp

theorem isKept_release (h : b.IsKept p here) (compiles : Bool) :
    (b.step (.release compiles)).IsKept p here := by
  obtain ⟨lost, hframed, hlost⟩ := h.entries
  cases hresult : Site.release compiles b.site with
  | ok report s =>
    have hstep : b.step (.release compiles) = { b with site := s, failure := none } := by
      simp only [step, hresult]
    rw [hstep]
    have hkept := (Site.ensures_release hp compiles).ok hframed hresult
    exact ⟨⟨none, hkept, fun hne ↦ absurd rfl hne⟩, h.assets⟩
  | error e s =>
    have hstep : b.step (.release compiles) = { b with site := s, failure := some e } := by
      simp only [step, hresult]
    rw [hstep]
    refine ⟨?_, h.assets⟩
    rcases (Site.ensures_release hp compiles).error hframed hresult with
      ⟨⟨skips, hskips⟩, hloses⟩ | ⟨⟨why, hwhy⟩, hsame⟩
    · obtain ⟨next, hnext, hkept⟩ := hloses.store
      refine ⟨next, ⟨hloses.pipeline, hkept⟩, fun hne ↦ ?_⟩
      obtain ⟨path, cause, rfl⟩ := hnext hne
      exact ⟨⟨path, cause, rfl⟩, skips, hskips⟩
    · -- patterns that cannot be read cannot have been read by an earlier release
      have hnone : lost = none := by
        by_contra hne
        obtain ⟨-, skips, hskips⟩ := hlost hne
        rw [hwhy] at hskips
        cases hskips
      exact ⟨none, hnone ▸ hsame, fun hne ↦ absurd rfl hne⟩

theorem isKept_obtain (h : b.IsKept p here) (logical : String) :
    (b.step (.obtain logical)).IsKept p here := by
  cases hasset : b.site.getAsset logical with
  | error e =>
    have hstep : b.step (.obtain logical) = b := by simp only [step, hasset]
    rw [hstep]
    exact h
  | ok a =>
    have hstep : b.step (.obtain logical) = { b with assets := b.assets ++ [a] } := by
      simp only [step, hasset]
    rw [hstep]
    obtain ⟨lost, hframed, -⟩ := h.entries
    refine h.of_site (fun _ hs ↦ hs) fun q hq ↦ ?_
    rcases List.mem_append.1 hq with hq | hq
    · exact h.assets q hq
    · rw [List.mem_singleton.1 hq]
      exact Site.asset_of_getAsset hp hframed hasset

theorem isKept_write (h : b.IsKept p here) (index : Nat) : (b.step (.write index)).IsKept p here := by
  cases ha : b.assets[index]? with
  | none =>
    have hstep : b.step (.write index) = b := by simp only [step, ha]
    rw [hstep]
    exact h
  | some a =>
    have hstep : b.step (.write index) = ⟨(finalState (Asset.publish ⟨b.site, a⟩)).site,
        b.assets.set index (finalState (Asset.publish ⟨b.site, a⟩)).asset, b.failure⟩ := by
      simp only [step, ha]
    obtain ⟨hfits, hslash⟩ := h.assets a (List.mem_of_getElem? ha)
    obtain ⟨lost, hframed, -⟩ := h.entries
    rw [hstep]
    refine h.of_site (fun lost hs ↦ Site.isKept_publish hp.root hp.production (s := ⟨b.site, a⟩) hs
      hfits hslash) fun q hq ↦ ?_
    rcases List.mem_or_eq_of_mem_set hq with hq | rfl
    · exact h.assets q hq
    · refine ⟨Asset.digestFits_publish (hframed.inProduction.trans hp.production) hfits, ?_⟩
      rwa [Asset.path_publish hfits]

theorem isKept_step (h : b.IsKept p here) (call : Call) : (b.step call).IsKept p here := by
  cases call with
  | release compiles => exact isKept_release hp h compiles
  | obtain logical => exact isKept_obtain hp h logical
  | write index => exact isKept_write hp h index
  | render logical =>
    refine h.of_site (fun lost hs ↦ ?_) h.assets
    cases hresult : Site.render logical b.site with
    | ok tag s => exact (Site.ensures_render hp logical).ok hs hresult
    | error e s => exact (Site.ensures_render hp logical).error hs hresult

end Step

theorem isKept_run {s : Site} (hs : IsOpened s) (calls : List Call) :
    (run s calls).IsKept s.pipeline s.disk.here := by
  have hall : ∀ b : Bench, b.IsKept s.pipeline s.disk.here →
      (calls.foldl step b).IsKept s.pipeline s.disk.here := by
    induction calls with
    | nil => exact fun b hb ↦ hb
    | cons call calls ih => exact fun b hb ↦ ih _ (isKept_step hs.publishes hb call)
  exact hall _ (isKept_start hs)

/-- After any calls, with whatever success, every entry of the manifest leads to a published file, and below
the target if its name does not lead out of it; all but one entry, that is, if the last release failed to
write a file. -/
theorem entries_exact {s : Site} (hs : IsOpened s) (calls : List Call) :
    ∃ lost : Option String,
      (lost ≠ none → ∃ path why, (run s calls).failure = some (.notWritten path why)) ∧
      ∀ key value, (run s calls).site.pipeline.manifest.get? key = some value → some key ≠ lost →
        (Leads (run s calls).site.disk key (s.pipeline.publishedPath value) ∨
          Disk.IsTemporary ((s.pipeline.publishedPath value).place s.disk.here)) ∧
        (".." ∉ Path.namesOf value → s.pipeline.targetPath.place s.disk.here <+:
          (s.pipeline.publishedPath value).place s.disk.here) := by
  obtain ⟨lost, hframed, hlost⟩ := (isKept_run hs calls).entries
  exact ⟨lost, fun hne ↦ (hlost hne).1, fun key value hget hkey ↦
    ⟨hframed.store.entry key value hget hkey, fun hup ↦
      Pipeline.isPrefix_place_publishedPath hup s.disk.here⟩⟩

/-- A production site with one static file, which goes to the given destination. -/
def gallery (destination : String) : Site :=
  let site := Site.sample "production" [("a.png", .file "A".toUTF8 1)] []
  { site with pipeline := { site.pipeline with config := { site.pipeline.config with
      staticFiles := [(destination, ["src/a.png"])] } } }

theorem isOpened_gallery {destination : String} (h : destination.toList.head? ≠ some '/') :
    IsOpened (gallery destination) where
  publishes := {
    production := (by decide : (gallery "").pipeline.inProduction = true)
    root := List.forall_mem_nil _
    roots := (Site.isProper_sample "production" [] []).roots
    here := List.forall_mem_nil _
    relative := List.forall_mem_singleton.2 h }
  manifest := (by decide : (gallery "").pipeline.manifest = ⟨some (gallery "").pipeline.manifestPath, []⟩)
  proper := ⟨List.forall_mem_nil _, (by decide : (gallery "").disk.top.IsProper)⟩

theorem gallery_entry_holds :
    (run (gallery "img") [.release false]).failure.isNone = true ∧
      (run (gallery "img") [.release false]).site.pipeline.manifest.get? "/img/a.png" =
        some "/img/a-6dcd4ce23d88e2ee9568ba546c007c63d9131c1b.png" ∧
      Leads (run (gallery "img") [.release false]).site.disk "/img/a.png"
        ((gallery "img").pipeline.publishedPath
          "/img/a-6dcd4ce23d88e2ee9568ba546c007c63d9131c1b.png") := by
  have hfailure : (run (gallery "img") [.release false]).failure.isNone = true := by decide +kernel
  have hentry : (run (gallery "img") [.release false]).site.pipeline.manifest.get? "/img/a.png" =
      some "/img/a-6dcd4ce23d88e2ee9568ba546c007c63d9131c1b.png" := by decide +kernel
  have hopened : IsOpened (gallery "img") := isOpened_gallery (by decide)
  obtain ⟨lost, hlost, hentries⟩ := entries_exact hopened [.release false]
  have hnone : lost = none := by
    by_contra hne
    obtain ⟨path, why, hfailed⟩ := hlost hne
    rw [Option.isNone_iff_eq_none.1 hfailure] at hfailed
    cases hfailed
  refine ⟨hfailure, hentry, ((hentries _ _ hentry ?_).1).resolve_right (by decide +kernel)⟩
  rw [hnone]
  exact Option.some_ne_none _

/-- Where the destination is the file of the manifest, recording the copy makes it fail, and the entry
names nothing. -/
theorem gallery_entry_lost :
    IsOpened (gallery ".manifest.json") ∧
      (run (gallery ".manifest.json") [.release false]).failure.isSome = true ∧
      (run (gallery ".manifest.json") [.release false]).site.pipeline.manifest.get?
          "/.manifest.json/a.png" =
        some "/.manifest.json/a-6dcd4ce23d88e2ee9568ba546c007c63d9131c1b.png" ∧
      ((run (gallery ".manifest.json") [.release false]).site.disk.exists?
        ((gallery ".manifest.json").pipeline.publishedPath
          "/.manifest.json/a-6dcd4ce23d88e2ee9568ba546c007c63d9131c1b.png")).toOption = some false :=
  ⟨isOpened_gallery (by decide), by decide +kernel, by decide +kernel, by decide +kernel⟩

end Bench

end AssetBundler
