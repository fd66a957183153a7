import AssetBundler.Proofs.Disk.Replay
import AssetBundler.Proofs.Release.Address
import AssetBundler.Proofs.Static.Tracking

/-!
# What a release puts where

A release whose products are kept: of a static file where its copy went and the bytes it had then, of an
asset where its file is and the text that was written, and of both the text of the manifest that was saved.
It is the release itself, which reports the names of the products (`Site.release_eq`). The writes of a
release are those of its products one after the other.
-/

namespace AssetBundler

open AssetBundler.Action

/-- A static file that was copied in a release. -/
structure Static.Deposit where
  url : String
  source : Path
  /-- The file that holds the copy. -/
  goal : Path
  bytes : ByteArray
  /-- The manifest that was saved before. -/
  index : Option String

/-- An asset that was published in a release. -/
structure Asset.Build where
  name : String
  published : Published
  /-- The body, if it was written. -/
  text : Option String
  /-- The manifest that was saved afterwards. -/
  index : Option String

/-- The products of a release. -/
structure Made where
  copied : List Static.Deposit
  built : List Asset.Build

namespace Made

/-- What a release reports of its products. -/
def report (p : Pipeline) (made : Made) : Report :=
  ⟨p.inProduction, p.targetPath, made.copied.map Static.Deposit.url, made.built.map Asset.Build.name⟩

end Made

namespace Pipeline

/-- The writing of the manifest. -/
def indexWrite (p : Pipeline) (text : String) : Disk.Write := ⟨p.manifestPath, text.toUTF8, true⟩

/-- The writings of the manifest with none or one text. -/
def indexWrites (p : Pipeline) (text : Option String) : List Disk.Write :=
  (text.map p.indexWrite).toList

end Pipeline

def Static.Deposit.write (c : Static.Deposit) : Disk.Write := ⟨c.goal, c.bytes, false⟩

def Static.Deposit.writes (p : Pipeline) (c : Static.Deposit) : List Disk.Write :=
  p.indexWrites c.index ++ [c.write]

def Asset.Build.write? (b : Asset.Build) : Option Disk.Write :=
  b.text.map fun text ↦ ⟨b.published.path, text.toUTF8, true⟩

theorem Asset.Build.goal_of_write {b : Asset.Build} {w : Disk.Write} (h : b.write? = some w)
    (here : List String) : w.goal here = b.published.path.place here := by
  obtain ⟨text, -, rfl⟩ := Option.map_eq_some_iff.1 h
  rfl

def Asset.Build.writes (p : Pipeline) (b : Asset.Build) : List Disk.Write :=
  b.write?.toList ++ p.indexWrites b.index

namespace Made

variable {p : Pipeline}

/-- All writes in their order. -/
def writes (p : Pipeline) (made : Made) : List Disk.Write :=
  made.copied.flatMap (Static.Deposit.writes p) ++ made.built.flatMap (Asset.Build.writes p)

theorem writes_copied (cs : List Static.Deposit) (c : Static.Deposit) :
    (Made.mk (cs ++ [c]) []).writes p = (Made.mk cs []).writes p ++ c.writes p := by
  simp [writes]

theorem writes_built (cs : List Static.Deposit) (bs : List Asset.Build) (b : Asset.Build) :
    (Made.mk cs (bs ++ [b])).writes p = (Made.mk cs bs).writes p ++ b.writes p := by
  simp [writes]

theorem mem_writes_of_copied {made : Made} {c : Static.Deposit} (h : c ∈ made.copied) :
    c.write ∈ made.writes p :=
  List.mem_append_left _ (List.mem_flatMap.2 ⟨c, h, List.mem_append_right _ (List.mem_singleton_self _)⟩)

/-- A write is that of a copy, that of an asset, or the manifest. -/
theorem mem_writes {made : Made} {w : Disk.Write} (h : w ∈ made.writes p) :
    (∃ c ∈ made.copied, w = c.write) ∨ (∃ b ∈ made.built, b.write? = some w) ∨
      ∃ text, w = p.indexWrite text := by
  have hindex : ∀ {text : Option String}, w ∈ p.indexWrites text → ∃ text, w = p.indexWrite text := by
    intro text hw
    obtain ⟨t, -, rfl⟩ := Option.map_eq_some_iff.1 (Option.mem_toList.1 hw)
    exact ⟨t, rfl⟩
  rcases List.mem_append.1 h with h | h
  · obtain ⟨c, hc, hw⟩ := List.mem_flatMap.1 h
    rcases List.mem_append.1 hw with hw | hw
    · exact .inr (.inr (hindex hw))
    · exact .inl ⟨c, hc, List.mem_singleton.1 hw⟩
  · obtain ⟨b, hb, hw⟩ := List.mem_flatMap.1 h
    rcases List.mem_append.1 hw with hw | hw
    · exact .inr (.inl ⟨b, hb, Option.mem_toList.1 hw⟩)
    · exact .inr (.inr (hindex hw))

end Made

theorem mapM_map {m : Type → Type} [Monad m] [LawfulMonad m] {α β γ : Type} (f : β → γ) (g : α → m β)
    (xs : List α) : xs.mapM (fun x ↦ f <$> g x) = List.map f <$> xs.mapM g := by
  induction xs with
  | nil => simp
  | cons x xs ih => simp [List.mapM_cons, ih]

namespace Site

variable {α β : Type}

/-- The copy that is made of a file on the site as it stands. -/
def depositOf (s : Site) (destination filename : String) (source : Static.Source) : Static.Deposit where
  url := Pipeline.slashed [destination, filename]
  source := source.path
  goal := s.disk.copyEnd source.path (s.pipeline.copyTarget destination filename)
  bytes := (s.disk.bytesAt (source.path.place s.disk.here)).getD .empty
  index := if s.pipeline.fingerprintsCopies then some (Manifest.render s.pipeline.manifest.entries)
    else none

/-- The publication of an asset on the site that it leaves. -/
def buildOf (s : Site) (name : String) (published : Published) (asset : Asset) : Asset.Build where
  name
  published
  text := if published.isWritten then asset.builtBody else none
  index := if published.isWritten && s.pipeline.inProduction then
      some (Manifest.render s.pipeline.manifest.entries)
    else none

def deposit (destination : String) (source : Static.Source) : Action Static.Deposit := do
  let filename ← staticName destination source
  let s ← get
  let target := s.pipeline.copyTarget destination filename
  ofDisk (Disk.copy source.path target) (.notWritten target)
  say .info ("   Copying -> " ++ Pipeline.slashed [destination, filename])
  return s.depositOf destination filename source

def produce (name : String) : Action Asset.Build := do
  say .info ("   Compiling -> " ++ name)
  let asset ← ask fun s ↦ s.getAsset name
  let (published, asset) ← Asset.runOn asset Asset.publish
  return (← get).buildOf name published asset

def makeRelease (compiles : Bool) : Action Made := do
  let skips ← ignored
  announce
  clearTarget
  let copied ← copyAllBy deposit skips
  let built ← if compiles then compileAllBy produce else pure []
  return ⟨copied, built⟩

theorem copyFile_eq : copyFile = fun destination source ↦
    Static.Deposit.url <$> deposit destination source := by
  funext destination source
  unfold copyFile deposit
  simp only [map_bind, map_pure]
  rfl

theorem compileFile_eq : compileFile = fun name ↦ Asset.Build.name <$> produce name := by
  funext name
  unfold compileFile produce render
  simp only [map_bind, map_pure, bind_assoc, pure_bind]
  rfl

theorem copySourceBy_map (f : α → β) (copy : String → Static.Source → Action α)
    (skips : String → Bool) (destination source : String) :
    copySourceBy (fun destination source ↦ f <$> copy destination source) skips destination source =
      List.map f <$> copySourceBy copy skips destination source := by
  unfold copySourceBy
  simp only [map_bind]
  congr 1
  funext s
  congr 1
  funext files
  cases files with
  | none => simp
  | some files => exact mapM_map f (copy destination) _

theorem copyAllBy_map (f : α → β) (copy : String → Static.Source → Action α)
    (skips : String → Bool) :
    copyAllBy (fun destination source ↦ f <$> copy destination source) skips =
      List.map f <$> copyAllBy copy skips := by
  unfold copyAllBy
  simp only [map_bind, map_pure, copySourceBy_map, mapM_map, bind_map_left, List.map_flatten]

theorem compileRootBy_map (f : α → β) (compile : String → Action α) :
    compileRootBy (fun name ↦ f <$> compile name) =
      fun root ↦ List.map f <$> compileRootBy compile root := by
  funext root
  unfold compileRootBy
  simp only [map_bind, mapM_map]

theorem compileAllBy_map (f : α → β) (compile : String → Action α) :
    compileAllBy (fun name ↦ f <$> compile name) = List.map f <$> compileAllBy compile := by
  unfold compileAllBy
  simp only [map_bind, map_pure, compileRootBy_map, mapM_map, bind_map_left, List.map_flatten]

/-- A release is the one that keeps its products and reports their names. -/
theorem release_eq (compiles : Bool) (s : Site) :
    release compiles s = (Made.report s.pipeline <$> makeRelease compiles) s := by
  unfold release makeRelease
  rw [map_bind]
  cases hskips : ignored s with
  | error e t => rw [bind_of_error hskips, bind_of_error hskips]
  | ok skips t =>
    obtain ⟨-, rfl⟩ := ask_eq_ok hskips
    rw [bind_of_ok hskips, bind_of_ok hskips, bind_of_ok (get_apply t), copyAll_eq, copyFile_eq,
      copyAllBy_map, compileAll_eq, compileFile_eq, compileAllBy_map]
    cases compiles <;> simp [map_bind, bind_map_left, Made.report]

end Site

end AssetBundler
