import AssetBundler.Proofs.Action.Runs
import AssetBundler.Proofs.Release.Failing
import AssetBundler.Proofs.Release.Made
import AssetBundler.Proofs.Session.Tree

/-!
# What compiling publishes

Compiling lists the stylesheets and scripts of every root and publishes each by its name, so the file that is
published is the one that the lookup of logical paths finds for the name. Listing and lookup need not agree: a
folder of the name in an earlier root hides the file, and so does whatever has the name with an extension
there, and the lookup takes some names for absolute paths.

A run publishes for every listed name the file in the first root that has it. Main statement:
`Site.compile_exact`. There is a run unless some file cannot be built or written, and it is what compiling does
exactly if at each turn the lookup finds that file. Runs are described by what is published (`Site.Compiles`)
and computed with a lookup of one's choice (`Site.compileBy`).
-/

namespace AssetBundler

open AssetBundler.Action

namespace SearchPath

variable {s : SearchPath} {d : Disk} {name : String} {front back : List Path} {root : Path}

/-- A file is found by its name if in the roots before nothing has the name or the name with an extension. -/
theorem resolve_of_clear (hroots : s.roots = front ++ root :: back) (hrelative : isAbsolute name = false)
    (hclear : ∀ r ∈ front, ∀ x ∈ "" :: s.extensions, d.exists? (r.join (name ++ x)) = .ok false)
    (hcanonical : (root.join name).IsCanonical) (hfile : d.isFile (root.join name) = .ok true) :
    s.resolve d name [] true = .ok (some (root.join name)) := by
  obtain ⟨hanswers, hholds⟩ := Disk.isFile_eq_ok.1 hfile
  have hfile : d.HoldsFile (root.join name) := hholds.1 rfl
  have hpassed : ∀ r ∈ front, s.resolveIn d r name [] true = .ok none := by
    intro r hr
    rw [resolveIn_eq_none, order_nil]
    exact hclear r hr
  have hin : s.resolveIn d root name [] true = .ok (some (root.join name)) := by
    refine resolveIn_eq_some.2 ⟨[], "", s.order [], root.join name, rfl, List.forall_mem_nil _, ?_, ?_,
      (hcanonical.resolve_eq _).symm⟩ <;> rw [String.append_empty]
    · exact hanswers.exists?_eq_ok.2 (iff_of_true rfl hfile.exists)
    · have hfolder := hanswers.isFolder_eq_ok.2 (iff_of_false Bool.false_ne_true hfile.not_holdsFolder)
      exact withIndex_true_eq_ok.2 (.inl ⟨hfolder, rfl⟩)
  have hsome : s.resolveIn d root name [] true ≠ .ok none := by
    rw [hin]
    exact nofun
  calc
    s.resolve d name [] true = s.resolveInRoots d name [] true (front ++ root :: back) := by
      rw [resolve_of_relative hrelative, hroots]
    _ = s.resolveInRoots d name [] true (root :: back) := resolveInRoots_append hpassed
    _ = s.resolveIn d root name [] true := resolveInRoots_cons_of_ne_none hsome
    _ = .ok (some (root.join name)) := hin

end SearchPath

/-- The folder has a file of the name. -/
def Disk.HasFile (d : Disk) (folder : Path) (name : String) : Prop :=
  ∃ bytes, d.bytesAt (folder.names ++ [name]) = some bytes

instance (d : Disk) (folder : Path) (name : String) : Decidable (d.HasFile folder name) :=
  decidable_of_iff ((d.bytesAt (folder.names ++ [name])).isSome = true) Option.isSome_iff_exists

namespace Release

/-- The name of a stylesheet or a script that is compiled. -/
def IsCompiledName (name : String) : Prop :=
  Static.isDotted name = false ∧ Text.lower (lastSuffix name) ∈ compiledSuffixes

instance (name : String) : Decidable (IsCompiledName name) :=
  inferInstanceAs (Decidable (_ ∧ _))

theorem isCompiled_eq_true {entry : Disk.Listed} :
    isCompiled entry = true ↔ entry.isFolder = false ∧ IsCompiledName entry.name := by
  simp [isCompiled, IsCompiledName, and_assoc]

theorem hasFile_iff_node? {d : Disk} {folder : Path} {name : String} :
    d.HasFile folder name ↔ ∃ n, d.node? (folder.names ++ [name]) = some n ∧ n.isFolder = false := by
  unfold Disk.HasFile
  simp only [Disk.bytesAt_eq_some, Disk.kindAt_eq_file]
  constructor
  · rintro ⟨bytes, t, hn⟩
    exact ⟨_, hn, rfl⟩
  · rintro ⟨_ | _, hn, hkind⟩
    · exact ⟨_, _, hn⟩
    · cases hkind

section Listing

variable {d : Disk} (hd : d.IsSound) {root : Path} (hroot : root.IsCanonical)
  (hshort : ∀ n ∈ root.names, Disk.isTooLong n = false)

include hd hroot hshort

/-- A root lists the names of its stylesheets and scripts in their order. -/
theorem exists_compiledNames : ∃ names, compiledNames d root = .ok names ∧ names.Pairwise (· < ·) ∧
    ∀ name, name ∈ names ↔ d.HasFile root name ∧ IsCompiledName name := by
  unfold compiledNames
  by_cases hfolder : d.HoldsFolder root
  · obtain ⟨listed, hlist, hsorted, hentries, hall⟩ := Disk.exists_list hd hroot hfolder
    rw [(Disk.answers_of_short hshort).isFolder_eq_ok.2 (iff_of_true rfl hfolder), hlist]
    refine ⟨_, rfl, hsorted.sublist (List.filter_sublist.map _), fun name ↦ ?_⟩
    rw [List.mem_map, hasFile_iff_node?]
    constructor
    · rintro ⟨l, hl, rfl⟩
      obtain ⟨hl, hcompiled⟩ := List.mem_filter.1 hl
      obtain ⟨hkind, hname⟩ := isCompiled_eq_true.1 hcompiled
      obtain ⟨-, n, hn, hsame⟩ := hentries l hl
      exact ⟨⟨n, hn, hsame ▸ hkind⟩, hname⟩
    · rintro ⟨⟨n, hn, hkind⟩, hname⟩
      obtain ⟨l, hl, rfl⟩ := List.mem_map.1 (hall name (by rw [hn]; exact Option.some_ne_none n))
      obtain ⟨-, m, hm, hsame⟩ := hentries l hl
      obtain rfl := Option.some.inj (hn.symm.trans hm)
      exact ⟨l, List.mem_filter.2 ⟨hl, isCompiled_eq_true.2 ⟨hsame.trans hkind, hname⟩⟩, rfl⟩
  · -- a root that is no folder has no files
    rw [(Disk.answers_of_short hshort).isFolder_eq_ok.2 (iff_of_false Bool.false_ne_true hfolder)]
    refine ⟨[], rfl, .nil, fun name ↦ iff_of_false List.not_mem_nil ?_⟩
    rintro ⟨⟨bytes, hbytes⟩, -⟩
    have hdirect : root.IsDirect := ⟨hroot.anchor_ne, hroot.no_up, hshort⟩
    rw [Disk.holdsFolder_iff_kindAt hdirect] at hfolder
    have hnone := Disk.kindAt_below hfolder (List.cons_ne_nil name [])
    rw [Disk.bytesAt_eq_some, hnone] at hbytes
    cases hbytes

/-- The names are determined by their order and by what is listed. -/
theorem compiledNames_eq_ok_iff {names : List String} :
    compiledNames d root = .ok names ↔ names.Pairwise (· < ·) ∧
      ∀ name, name ∈ names ↔ d.HasFile root name ∧ IsCompiledName name := by
  obtain ⟨listed, hlist, hsorted, hmem⟩ := exists_compiledNames hd hroot hshort
  rw [hlist]
  constructor
  · rintro ⟨⟩
    exact ⟨hsorted, hmem⟩
  · rintro ⟨hsorted', hmem'⟩
    have hperm : listed.Perm names :=
      (List.perm_ext_iff_of_nodup (hsorted.imp ne_of_lt) (hsorted'.imp ne_of_lt)).2 fun name ↦
        (hmem name).trans (hmem' name).symm
    rw [hperm.eq_of_pairwise (fun _ _ _ _ hab hba ↦ absurd hab (lt_asymm hba)) hsorted hsorted']

end Listing

/-- No temporary file is compiled. -/
theorem IsCompiledName.not_isTemporary {name : String} (h : IsCompiledName name) (above : List String) :
    ¬Disk.IsTemporary (above ++ [name]) := by
  unfold Disk.IsTemporary
  rw [List.getLastD_concat]
  rintro ⟨stem, hstem⟩
  have hsuffix : lastSuffix name = "" ∨ lastSuffix name = ".tmp" := by
    have hreverse : name.toList.reverse.takeWhile (· ≠ '.') = ['p', 'm', 't'] := by
      rw [← hstem, List.reverse_append]
      rfl
    unfold lastSuffix
    rw [hreverse]
    exact ite_eq_or_eq ..
  obtain ⟨-, hmem⟩ := h
  rcases hsuffix with hsuffix | hsuffix <;> rw [hsuffix] at hmem <;> revert hmem <;> decide

end Release

/-- A name that was compiled, with the file that was published for it. -/
structure Release.Compiled where
  name : String
  source : Path
  published : Published
  deriving DecidableEq

namespace Site

open Release

/-- A way to look up the file of a name. -/
abbrev Lookup := Site → String → Except Failure Path

/-- The lookup leads to the file. -/
def LooksUp (find : Lookup) (s : Site) (name : String) (file : Path) : Prop := find s name = .ok file

/-- The lookup of logical paths leads to the file. -/
def Finds : Site → String → Path → Prop := LooksUp getFile

/-- The file of a name in the first root that has one. -/
def IsSource (s : Site) (name : String) (file : Path) : Prop :=
  ∃ root, IsFirst (fun r ↦ s.disk.HasFile r name) s.pipeline.searchPath.roots root ∧ file = root.join name

/-- Looks for the file of a name in one root after another. -/
def firstSource (s : Site) (name : String) : Except Failure Path :=
  match s.pipeline.searchPath.roots.find? fun root ↦ s.disk.HasFile root name with
  | some root => .ok (root.join name)
  | none => .error (.assetNotFound name none)

theorem isSource_iff {s : Site} {name : String} {file : Path} :
    s.IsSource name file ↔ s.LooksUp firstSource name file := by
  unfold IsSource LooksUp firstSource
  simp only [isFirst_iff_find?]
  rcases s.pipeline.searchPath.roots.find? fun root ↦ s.disk.HasFile root name with _ | root
  · simp
  · simp [eq_comm]

/-- Publishes a file under a name. -/
def publishAs (name : String) (file : Path) : Action Published := do
  say .info ("   Compiling -> " ++ name)
  return (← Asset.runOn (.ofFile file (some name)) Asset.publish).1

/-- Publishes the file that is looked up for a name, and keeps it with the name. -/
def traceBy (find : Lookup) (name : String) : Action Compiled := do
  say .info ("   Compiling -> " ++ name)
  let file ← ask fun s ↦ find s name
  return ⟨name, file, (← Asset.runOn (.ofFile file (some name)) Asset.publish).1⟩

/-- Compiles the stylesheets and scripts of all roots, each with the file that is looked up for it. -/
def compileBy (find : Lookup) : Action (List (List Compiled)) := do
  say .info "Precompiling assets"
  (← get).pipeline.searchPath.roots.mapM (compileRootBy (traceBy find))

/-- Compiling is compiling with the lookup of logical paths, of which the names are kept. -/
theorem compileAll_eq_compileBy :
    compileAll = (fun mades ↦ mades.flatten.map Compiled.name) <$> compileBy getFile := by
  have hfile : compileFile = fun name ↦ Compiled.name <$> traceBy getFile name := by
    funext name
    unfold compileFile traceBy render getAsset
    simp only [ask_bind_pure, map_bind, map_pure, bind_assoc, pure_bind, bind_map_left]
    rfl
  rw [compileAll_eq, hfile, compileAllBy_map]
  unfold compileAllBy compileBy
  simp only [map_eq_pure_bind, bind_assoc, pure_bind]

/-- The site with one more message. -/
def noting (s : Site) (text : String) : Site := { s with messages := s.messages ++ [⟨.info, text⟩] }

/-- The turn of a name: a file that answers the description is published under it without a failure. -/
structure PublishesBy (P : Site → String → Path → Prop) (name : String) (c : Compiled) (s t : Site) :
    Prop where
  name_eq : c.name = name
  source : P s name c.source
  publish : publishAs name c.source s = .ok c.published t

/-- The turn of a root: the names of its stylesheets and scripts have their turns in order. -/
structure CompilesRoot (P : Site → String → Path → Prop) (root : Path) (made : List Compiled) (s t : Site) :
    Prop where
  sorted : (made.map Compiled.name).Pairwise (· < ·)
  names : ∀ name, name ∈ made.map Compiled.name ↔ s.disk.HasFile root name ∧ IsCompiledName name
  turns : Runs (PublishesBy P) (made.map Compiled.name) made s t

/-- The roots have their turns in order, and every file that is published answers the description. -/
def Compiles (P : Site → String → Path → Prop) (s : Site) (mades : List (List Compiled)) (t : Site) : Prop :=
  Runs (CompilesRoot P) s.pipeline.searchPath.roots mades (s.noting "Precompiling assets") t

variable {P Q : Site → String → Path → Prop} {find : Lookup} {s t u : Site} {root : Path} {name : String}
  {file : Path} {c : Compiled} {made : List Compiled} {mades : List (List Compiled)}

/-- A run is decided by what is published in it. -/
theorem CompilesRoot.and (h : CompilesRoot P root made s t) (h' : CompilesRoot Q root made s u) :
    t = u ∧ CompilesRoot (fun s name file ↦ P s name file ∧ Q s name file) root made s t := by
  obtain ⟨hend, hturns⟩ := h.turns.and h'.turns
    (R := PublishesBy fun s name file ↦ P s name file ∧ Q s name file) fun name c s t u hp hq ↦ by
      obtain ⟨hname, hP, hpublish⟩ := hp
      obtain ⟨-, hQ, hpublish'⟩ := hq
      rw [hpublish] at hpublish'
      cases hpublish'
      exact ⟨rfl, hname, ⟨hP, hQ⟩, hpublish⟩
  exact ⟨hend, h.sorted, h.names, hturns⟩

theorem Compiles.and (h : s.Compiles P mades t) (h' : s.Compiles Q mades u) :
    t = u ∧ s.Compiles (fun s name file ↦ P s name file ∧ Q s name file) mades t :=
  Runs.and h h' fun _ _ _ _ _ ↦ CompilesRoot.and

theorem publishAs_eq_ok {p : Published} : publishAs name file s = .ok p t ↔ ∃ built,
    Asset.publish ⟨s.noting ("   Compiling -> " ++ name), .ofFile file (some name)⟩ = .ok p ⟨t, built⟩ := by
  change (Asset.runOn (.ofFile file (some name)) Asset.publish >>= fun r ↦ pure r.1)
    (s.noting ("   Compiling -> " ++ name)) = .ok p t ↔ _
  rw [bind_eq_ok]
  unfold Asset.runOn
  rcases Asset.publish ⟨s.noting ("   Compiling -> " ++ name), .ofFile file (some name)⟩ with ⟨a, r⟩ | ⟨e, r⟩
  · constructor
    · rintro ⟨_, _, ⟨⟩, ⟨⟩⟩
      exact ⟨_, rfl⟩
    · rintro ⟨built, ⟨⟩⟩
      exact ⟨_, _, rfl, rfl⟩
  · simp

/-- Publishing the file that is looked up, for a lookup that does not read the messages. -/
theorem traceBy_eq_ok (hfind : ∀ s text name, find (noting s text) name = find s name) :
    traceBy find name s = .ok c t ↔ PublishesBy (LooksUp find) name c s t := by
  let noted := s.noting ("   Compiling -> " ++ name)
  have hsay : say .info ("   Compiling -> " ++ name) s = .ok ⟨⟩ noted := rfl
  have hsame : find noted name = find s name := hfind ..
  unfold traceBy
  rw [bind_of_ok hsay]
  constructor
  · intro h
    obtain ⟨file, u, hask, hrest⟩ := bind_eq_ok.1 h
    obtain ⟨r, v, hpublish, hkept⟩ := bind_eq_ok.1 hrest
    obtain ⟨hfile, rfl⟩ := ask_eq_ok hask
    cases hkept
    exact ⟨rfl, hsame.symm.trans hfile, bind_eq_ok.2 ⟨_, _, hsay, bind_eq_ok.2 ⟨r, t, hpublish, rfl⟩⟩⟩
  · rintro ⟨rfl, hfile, hpublished⟩
    unfold publishAs at hpublished
    rw [bind_of_ok hsay] at hpublished
    obtain ⟨r, v, hpublish, hkept⟩ := bind_eq_ok.1 hpublished
    rw [bind_of_ok (ask_of_ok (hsame.trans hfile)), bind_of_ok hpublish]
    obtain ⟨name, source, published⟩ := c
    cases hkept
    rfl

/-- A site with names that paths can spell, a sound disk, canonical roots and the manifest of its target. -/
structure IsTidy (s : Site) : Prop where
  disk : s.disk.IsProper
  sound : s.disk.IsSound
  root : s.pipeline.root.IsProper
  roots : ∀ root ∈ s.pipeline.searchPath.roots, root.IsCanonical
  short : ∀ root ∈ s.pipeline.searchPath.roots, ∀ n ∈ root.names, Disk.isTooLong n = false
  manifest : s.pipeline.manifest.path = some s.pipeline.manifestPath

/-- Tidy, with the same search path and no fewer files. -/
structure StaysTidy (s t : Site) : Prop where
  tidy : t.IsTidy
  searchPath : t.pipeline.searchPath = s.pipeline.searchPath
  files : s.disk.KeepsFiles t.disk

theorem IsTidy.stays (hs : s.IsTidy) : s.StaysTidy s := ⟨hs, rfl, refl_of Disk.KeepsFiles _⟩

theorem StaysTidy.trans {u : Site} (h : s.StaysTidy t) (h' : t.StaysTidy u) : s.StaysTidy u :=
  ⟨h'.tidy, h'.searchPath.trans h.searchPath, h.files.trans h'.files⟩

theorem IsTidy.noting (hs : s.IsTidy) (text : String) : s.StaysTidy (s.noting text) :=
  ⟨⟨hs.disk, hs.sound, hs.root, hs.roots, hs.short, hs.manifest⟩, rfl, refl_of Disk.KeepsFiles _⟩

/-- What publishing keeps of the disk and the manifest of a tidy site. -/
structure KeepsTidy (s : Site) (m : Manifest.Store) : Prop where
  orderly : m.IsOrderly s.pipeline s.disk.here
  proper : m.disk.IsProper
  files : s.disk.KeepsFiles m.disk

theorem IsTidy.of_framed (hs : s.IsTidy) (h : t.Framed s.pipeline s.KeepsTidy) : s.StaysTidy t := by
  refine ⟨⟨h.store.proper, h.store.orderly.sound, ?_, ?_, ?_, ?_⟩, h.searchPath, h.store.files⟩
  · rw [h.root]
    exact hs.root
  · rw [h.searchPath]
    exact hs.roots
  · rw [h.searchPath]
    exact hs.short
  · rw [h.manifestPath]
    exact h.store.orderly.path

theorem KeepsTidy.writeText {m : Manifest.Store} (h : s.KeepsTidy m) {path : Path} (hpath : path.IsProper)
    (text : String) {manifest : Manifest} (hmanifest : manifest.path = m.manifest.path) :
    s.KeepsTidy ⟨finalState (Disk.writeText path text m.disk), manifest⟩ where
  orderly := h.orderly.moves (Disk.keepsSound_writeText path text m.disk) hmanifest
  proper := Disk.keepsProper_writeText hpath text m.disk h.proper
  files := h.files.trans (Disk.keepsFiles_writeText path text m.disk)

theorem KeepsTidy.add {m : Manifest.Store} (h : s.KeepsTidy m) (hroot : s.pipeline.root.IsProper)
    (key value : String) : s.KeepsTidy (finalState (Manifest.add key value m)) := by
  rw [Manifest.finalState_add h.orderly.path]
  exact h.writeText (Pipeline.isProper_manifestPath hroot) _ rfl

theorem staysTidy_publishAs {p : Published} (hs : s.IsTidy) (h : publishAs name file s = .ok p t) :
    s.StaysTidy t := by
  obtain ⟨built, hpublish⟩ := publishAs_eq_ok.1 h
  let before : Asset.State := ⟨s.noting ("   Compiling -> " ++ name), .ofFile file (some name)⟩
  have htidy : before.site.Framed s.pipeline s.KeepsTidy :=
    ⟨rfl, ⟨rfl, hs.sound, hs.manifest⟩, hs.disk, refl_of Disk.KeepsFiles _⟩
  have hpath : ∀ text, (Asset.filePath before text).IsProper := fun text ↦
    (Pipeline.isProper_targetPath hs.root).join _
  have hwritten : ∀ text, s.KeepsTidy
      ⟨finalState (Disk.writeText (Asset.filePath before text) text s.disk), s.pipeline.manifest⟩ :=
    fun text ↦ htidy.store.writeText (hpath text) text rfl
  have hafter := framed_publish htidy (Asset.digestFits_ofFile file (some name)) hwritten
    fun _ text disk hwrite ↦ by
      have hkept := hwritten text
      change Disk.writeText (Asset.filePath before text) text s.disk = .ok () disk at hwrite
      rw [hwrite, finalState_ok] at hkept
      exact hkept.add hs.root _ _
  rw [hpublish] at hafter
  exact hs.of_framed hafter

/-- Another description of the files of a root. -/
theorem CompilesRoot.imp (hs : s.IsTidy) (h : CompilesRoot P root made s t)
    (himp : ∀ u name file, s.StaysTidy u → IsCompiledName name → P u name file → Q u name file) :
    CompilesRoot Q root made s t ∧ s.StaysTidy t := by
  obtain ⟨hturns, hstays⟩ := h.turns.imp (Q := PublishesBy Q) (I := s.StaysTidy)
    (fun name hname c u v hu hstep ↦ by
      obtain ⟨rfl, hP, hpublish⟩ := hstep
      exact ⟨⟨rfl, himp u _ _ hu ((h.names _).1 hname).2 hP, hpublish⟩,
        hu.trans (staysTidy_publishAs hu.tidy hpublish)⟩) hs.stays
  exact ⟨⟨h.sorted, h.names, hturns⟩, hstays⟩

theorem CompilesRoot.staysTidy (hs : s.IsTidy) (h : CompilesRoot P root made s t) : s.StaysTidy t :=
  (h.imp hs fun _ _ _ _ _ hP ↦ hP).2

/-- Another description of all files. -/
theorem Compiles.imp (hs : s.IsTidy) (h : s.Compiles P mades t)
    (himp : ∀ u name file, s.StaysTidy u → IsCompiledName name → P u name file → Q u name file) :
    s.Compiles Q mades t :=
  (Runs.imp h (fun _ _ _ u _ hu hrun ↦ by
    obtain ⟨hrun, hstays⟩ := hrun.imp hu.tidy fun v name file hv ↦ himp v name file (hu.trans hv)
    exact ⟨hrun, hu.trans hstays⟩) (hs.noting _)).1

/-- A root has the turns of its names where the files are those that are looked up. -/
theorem compileRootBy_eq_ok (hfind : ∀ s text name, find (noting s text) name = find s name) (hs : s.IsTidy)
    (hroot : root ∈ s.pipeline.searchPath.roots) :
    compileRootBy (traceBy find) root s = .ok made t ↔ CompilesRoot (LooksUp find) root made s t := by
  have hlist : ∀ {names : List String}, compiledNames s.disk root = .ok names ↔ _ :=
    compiledNames_eq_ok_iff hs.sound (hs.roots root hroot) (hs.short root hroot)
  have hturns : ∀ {names : List String}, names.mapM (traceBy find) s = .ok made t ↔
      Runs (PublishesBy (LooksUp find)) names made s t := by
    intro names
    rw [mapM_eq_ok_iff]
    exact ⟨fun h ↦ h.mono fun _ _ _ _ ↦ (traceBy_eq_ok hfind).1,
      fun h ↦ h.mono fun _ _ _ _ ↦ (traceBy_eq_ok hfind).2⟩
  constructor
  · intro h
    obtain ⟨names, u, hask, hnamed⟩ := bind_eq_ok.1 h
    obtain ⟨hnames, rfl⟩ := ask_eq_ok hask
    have hruns := hturns.1 hnamed
    obtain rfl := hruns.map_eq fun _ _ _ _ h ↦ h.name_eq
    obtain ⟨hsorted, hmem⟩ := hlist.1 (Disk.orFail_eq_ok.1 hnames)
    exact ⟨hsorted, hmem, hruns⟩
  · intro h
    have hnames := Disk.orFail_eq_ok.2 (hlist.2 ⟨h.sorted, h.names⟩)
    exact bind_eq_ok.2 ⟨_, s, ask_of_ok hnames, hturns.2 h.turns⟩

/-- Compiling with a lookup returns in the runs where every file is the one that is looked up. -/
theorem compileBy_eq_ok (hfind : ∀ s text name, find (noting s text) name = find s name) (hs : s.IsTidy) :
    compileBy find s = .ok mades t ↔ s.Compiles (LooksUp find) mades t := by
  have hstart := hs.noting "Precompiling assets"
  have hturn : ∀ root ∈ s.pipeline.searchPath.roots, ∀ made u v, s.StaysTidy u →
      (compileRootBy (traceBy find) root u = .ok made v ↔ CompilesRoot (LooksUp find) root made u v) := by
    intro root hroot made u v hu
    exact compileRootBy_eq_ok hfind hu.tidy (hu.searchPath.symm ▸ hroot)
  change s.pipeline.searchPath.roots.mapM (compileRootBy (traceBy find))
    (s.noting "Precompiling assets") = _ ↔ _
  rw [mapM_eq_ok_iff]
  constructor
  · intro h
    refine (h.imp (I := s.StaysTidy) (fun root hroot made u v hu hrun ↦ ?_) hstart).1
    have hrun' := (hturn root hroot made u v hu).1 hrun
    exact ⟨hrun', hu.trans (hrun'.staysTidy hu.tidy)⟩
  · intro h
    refine (Runs.imp h (I := s.StaysTidy) (fun root hroot made u v hu hrun ↦ ?_) hstart).1
    exact ⟨(hturn root hroot made u v hu).2 hrun, hu.trans (hrun.staysTidy hu.tidy)⟩

/-- What compiling returns, with the files that it publishes. -/
theorem compileBy_getFile_eq_ok (hs : s.IsTidy) :
    compileBy getFile s = .ok mades t ↔ s.Compiles Finds mades t :=
  compileBy_eq_ok (fun _ _ _ ↦ rfl) hs

/-- The run that publishes every name from the first root that has it can be computed. -/
theorem compileBy_firstSource_eq_ok (hs : s.IsTidy) :
    compileBy firstSource s = .ok mades t ↔ s.Compiles IsSource mades t := by
  rw [compileBy_eq_ok (fun _ _ _ ↦ rfl) hs]
  exact ⟨fun h ↦ h.imp hs fun _ _ _ _ _ ↦ isSource_iff.2, fun h ↦ h.imp hs fun _ _ _ _ _ ↦ isSource_iff.1⟩

/-! ## Runs without a failure -/

/-- A site on the way of compiling, while all goes well. -/
inductive Reaches (s : Site) : Site → Prop where
  | start : Reaches s (s.noting "Precompiling assets")
  | publish {t u : Site} {name : String} {file : Path} {p : Published} (h : Reaches s t)
    (hname : IsCompiledName name) (hsource : t.IsSource name file)
    (hpublish : publishAs name file t = .ok p u) : Reaches s u

theorem StaysTidy.hasFile (h : s.StaysTidy t) (hname : IsCompiledName name)
    (hfile : s.disk.HasFile root name) : t.disk.HasFile root name := by
  have hkept := h.files.file (root.names ++ [name]) (hname.not_isTemporary _) ?_
  · exact Option.ne_none_iff_exists'.1 hkept
  · exact Option.ne_none_iff_exists'.2 hfile

section Succeeding

variable (hall : ∀ u, s.Reaches u → ∀ name file, IsCompiledName name → u.IsSource name file →
  ∃ p v, publishAs name file u = .ok p v)

include hall

theorem exists_compilesRoot (ht : t.IsTidy) (hreach : s.Reaches t)
    (hroot : root ∈ t.pipeline.searchPath.roots) :
    ∃ made u, CompilesRoot IsSource root made t u ∧ s.Reaches u := by
  obtain ⟨names, -, hsorted, hmem⟩ :=
    exists_compiledNames ht.sound (ht.roots root hroot) (ht.short root hroot)
  have hstep : ∀ name ∈ names, ∀ v, s.Reaches v ∧ t.StaysTidy v →
      ∃ c w, PublishesBy IsSource name c v w ∧ s.Reaches w ∧ t.StaysTidy w := by
    rintro name hlisted v ⟨hreach, hstays⟩
    obtain ⟨hfile, hname⟩ := (hmem name).1 hlisted
    obtain ⟨first, hfirst⟩ := exists_isFirst (P := fun r ↦ v.disk.HasFile r name)
      ⟨root, hstays.searchPath.symm ▸ hroot, hstays.hasFile hname hfile⟩
    have hsource : v.IsSource name (first.join name) := ⟨first, hfirst, rfl⟩
    obtain ⟨p, w, hpublish⟩ := hall v hreach name _ hname hsource
    exact ⟨⟨name, first.join name, p⟩, w, ⟨rfl, hsource, hpublish⟩,
      hreach.publish hname hsource hpublish, hstays.trans (staysTidy_publishAs hstays.tidy hpublish)⟩
  obtain ⟨made, u, hturns, hu, -⟩ := exists_runs hstep ⟨hreach, ht.stays⟩
  obtain rfl := hturns.map_eq fun _ _ _ _ h ↦ h.name_eq
  exact ⟨made, u, ⟨hsorted, hmem, hturns⟩, hu⟩

theorem exists_compiles (hs : s.IsTidy) : ∃ mades t, s.Compiles IsSource mades t := by
  have hstep : ∀ root ∈ s.pipeline.searchPath.roots, ∀ v, s.Reaches v ∧ s.StaysTidy v →
      ∃ made w, CompilesRoot IsSource root made v w ∧ s.Reaches w ∧ s.StaysTidy w := by
    rintro root hroot v ⟨hreach, hstays⟩
    obtain ⟨made, w, hrun, hw⟩ :=
      exists_compilesRoot hall hstays.tidy hreach (hstays.searchPath.symm ▸ hroot)
    exact ⟨made, w, hrun, hw, hstays.trans (hrun.staysTidy hstays.tidy)⟩
  obtain ⟨mades, t, hruns, -⟩ := exists_runs hstep ⟨.start, hs.noting _⟩
  exact ⟨mades, t, hruns⟩

end Succeeding

/-- Only what cannot be built or written is in the way of publishing all, each from the first root that has
it. -/
theorem exists_compiles_or_fails (hs : s.IsTidy) : (∃ mades t, s.Compiles IsSource mades t) ∨
    ∃ u name file e v, s.Reaches u ∧ IsCompiledName name ∧ u.IsSource name file ∧
      publishAs name file u = .error e v := by
  rw [or_iff_not_imp_right]
  refine fun hnone ↦ exists_compiles (fun u hreach name file hname hsource ↦ ?_) hs
  rcases hpublish : publishAs name file u with ⟨p, v⟩ | ⟨e, v⟩
  · exact ⟨p, v, rfl⟩
  · exact absurd ⟨u, name, file, e, v, hreach, hname, hsource, hpublish⟩ hnone

/-! ## What the lookup finds -/

theorem finds_iff : s.Finds name file ↔
    s.pipeline.searchPath.resolve s.disk name [] true = .ok (some file) ∧ s.disk.isFile file = .ok true := by
  constructor
  · intro h
    obtain ⟨hresolve, hfile⟩ := resolves_of_getFile h
    exact ⟨hresolve, Disk.orFail_eq_ok.1 hfile⟩
  · rintro ⟨hresolve, hfile⟩
    have hfound : s.findFile name = .ok (some file) := by
      refine except_bind_eq_ok.2 ⟨_, Disk.orFail_eq_ok.2 hresolve, ?_⟩
      exact except_bind_eq_ok.2 ⟨true, Disk.orFail_eq_ok.2 hfile, rfl⟩
    exact except_bind_eq_ok.2 ⟨_, hfound, rfl⟩

/-- The lookup leads to the file in the first root that has one. -/
def FindsSource (s : Site) (name : String) (file : Path) : Prop := s.IsSource name file ∧ s.Finds name file

/-- A name that is looked up below the roots, with its first file in front of everything that could be taken
for it: in no root before, something has the name or the name with an extension. -/
structure IsInSight (s : Site) (name : String) : Prop where
  relative : isAbsolute name = false
  short : Disk.isTooLong name = false
  seen : ∃ front root back, s.pipeline.searchPath.roots = front ++ root :: back ∧ s.disk.HasFile root name ∧
    ∀ r ∈ front, ∀ x ∈ "" :: s.pipeline.searchPath.extensions, s.disk.exists? (r.join (name ++ x)) = .ok false

/-- A file of a root is found where its name says. -/
theorem isFile_entry (hs : s.IsTidy) (hroot : root ∈ s.pipeline.searchPath.roots)
    (hname : IsCompiledName name) (hshort : Disk.isTooLong name = false) (hfile : s.disk.HasFile root name) :
    (root.join name).IsCanonical ∧ s.disk.isFile (root.join name) = .ok true := by
  obtain ⟨n, hn, -⟩ := hasFile_iff_node?.1 hfile
  have hroot' := hs.roots root hroot
  have hentry : Path.IsName name := Session.isName_of_node? hs.disk hn
  have hjoin := Session.join_entry hroot' hentry
  have hcanonical : (root.join name).IsCanonical :=
    Session.isCanonical_entry hroot' hentry (ne_of_beq_false hname.1)
  have hnames : ∀ n ∈ (root.join name).names, Disk.isTooLong n = false := by
    rw [hjoin]
    exact List.forall_mem_append.2 ⟨hs.short root hroot, List.forall_mem_singleton.2 hshort⟩
  have hholds : s.disk.HoldsFile (root.join name) := by
    obtain ⟨bytes, hbytes⟩ := hfile
    refine (Disk.holdsFile_iff_kindAt ⟨hcanonical.anchor_ne, hcanonical.no_up, hnames⟩).2 ⟨bytes, ?_⟩
    rw [hjoin]
    exact Disk.bytesAt_eq_some.1 hbytes
  exact ⟨hcanonical, (Disk.answers_of_short hnames).isFile_eq_ok.2 (iff_of_true rfl hholds)⟩

/-- The file of a name that is in sight is the one that the lookup finds. -/
theorem IsInSight.isSource_iff (h : s.IsInSight name) (hs : s.IsTidy) (hname : IsCompiledName name) :
    s.IsSource name file ↔ s.Finds name file := by
  obtain ⟨front, root, back, hroots, hhas, hclear⟩ := h.seen
  have hfront : ∀ r ∈ front, r ∈ s.pipeline.searchPath.roots :=
    fun r hr ↦ hroots ▸ List.mem_append_left _ hr
  have hroot : root ∈ s.pipeline.searchPath.roots :=
    hroots ▸ List.mem_append_right _ List.mem_cons_self
  obtain ⟨hcanonical, hfile⟩ := isFile_entry hs hroot hname h.short hhas
  have hfirst : IsFirst (fun r ↦ s.disk.HasFile r name) s.pipeline.searchPath.roots root := by
    refine ⟨front, back, hroots, fun r hr hhas' ↦ ?_, hhas⟩
    obtain ⟨-, hfile'⟩ := isFile_entry hs (hfront r hr) hname h.short hhas'
    have hmissing := hclear r hr "" List.mem_cons_self
    rw [String.append_empty, Disk.exists?_eq_ok] at hmissing
    exact Bool.false_ne_true (hmissing.2.2 (Disk.holdsFile_of_isFile hfile').exists)
  rw [finds_iff, SearchPath.resolve_of_clear hroots h.relative hclear hcanonical hfile]
  constructor
  · rintro ⟨root', hfirst', rfl⟩
    obtain rfl := hfirst'.unique hfirst
    exact ⟨rfl, hfile⟩
  · rintro ⟨⟨⟩, -⟩
    exact ⟨root, hfirst, rfl⟩

/-- Unless a stylesheet or script of a root cannot be built or written, there is a run that publishes them
all, root by root in the order of their names, each from the first root that has it. Compiling does that run
and returns the names if at each turn the lookup leads to that file, and only then; it is enough that the
names are in sight. -/
theorem compile_exact (hs : s.IsTidy) :
    ((∃ mades t, s.Compiles IsSource mades t) ∨ ∃ u name file e v, s.Reaches u ∧ IsCompiledName name ∧
      u.IsSource name file ∧ publishAs name file u = .error e v) ∧
    ∀ mades t, s.Compiles IsSource mades t →
      (compileBy getFile s = .ok mades t ∧ compileAll s = .ok (mades.flatten.map Compiled.name) t ↔
        s.Compiles FindsSource mades t) ∧
      (s.Compiles (fun u name _ ↦ u.IsInSight name) mades t → s.Compiles FindsSource mades t) := by
  refine ⟨exists_compiles_or_fails hs, fun mades t hrun ↦ ⟨⟨fun h ↦ ?_, fun h ↦ ?_⟩, fun hsight ↦ ?_⟩⟩
  · obtain ⟨-, hboth⟩ := hrun.and ((compileBy_getFile_eq_ok hs).1 h.1)
    exact hboth
  · have hfinds : s.Compiles Finds mades t := h.imp hs fun _ _ _ _ _ hboth ↦ hboth.2
    have hcompile := (compileBy_getFile_eq_ok hs).2 hfinds
    rw [compileAll_eq_compileBy, map_eq_pure_bind]
    exact ⟨hcompile, bind_eq_ok.2 ⟨mades, t, hcompile, rfl⟩⟩
  · obtain ⟨-, hboth⟩ := hrun.and hsight
    refine hboth.imp hs fun u name file hu hname h ↦ ?_
    exact ⟨h.1, (h.2.isSource_iff hu.tidy hname).1 h.1⟩

/-- A site with two roots. -/
def annex (first second : Node.Entries) : Site :=
  let site := Site.sample "local" first []
  { site with
    disk := site.disk.attach ["more"] (.folder 0 second)
    pipeline := { site.pipeline with
      searchPath := { site.pipeline.searchPath with roots := [.absolute ["src"], .absolute ["more"]] } } }

theorem isTidy_annex {first second : Node.Entries} (hproper : (annex first second).disk.top.IsProper)
    (hdistinct : (annex first second).disk.top.HasDistinctNames) : (annex first second).IsTidy where
  disk := ⟨List.forall_mem_nil _, hproper⟩
  sound := ⟨rfl, hdistinct⟩
  root := List.forall_mem_nil _
  roots := by
    have hroot : ∀ name : String, Path.IsName name → name ≠ ".." → (Path.absolute [name]).IsCanonical :=
      fun name hname hup ↦ ⟨rfl, List.forall_mem_singleton.2 hname, List.mem_singleton.not.2 hup.symm⟩
    refine List.forall_mem_cons.2 ⟨hroot _ (by decide) (by decide), ?_⟩
    exact List.forall_mem_singleton.2 (hroot _ (by decide) (by decide))
  short := (by decide : ∀ root ∈ (annex [] []).pipeline.searchPath.roots, ∀ n ∈ root.names,
    Disk.isTooLong n = false)
  manifest := (by decide : (annex [] []).pipeline.manifest.path = some (annex [] []).pipeline.manifestPath)

/-- What was published of a script of an annex. -/
def annexScript (source : List String) (isWritten : Bool) : Compiled :=
  ⟨"app.js", .absolute source,
    ⟨.absolute ["public", "assets", "app.js"], "/assets/app.js", "app.js", isWritten, false⟩⟩

/-- A script in both roots is compiled twice, from the first root. -/
theorem doubled_compiled :
    let s := annex [("app.js", .file "A();\n".toUTF8 1)] [("app.js", .file "B();\n".toUTF8 1)]
    s.IsTidy ∧ ∃ mades t, s.Compiles IsSource mades t ∧ compileBy getFile s = .ok mades t ∧
      compileAll s = .ok ["app.js", "app.js"] t ∧
      mades.flatten.map Compiled.source = [.absolute ["src", "app.js"], .absolute ["src", "app.js"]] := by
  intro s
  have htidy : s.IsTidy := isTidy_annex (by decide) (by decide)
  have hsources := eq_ok_of_result? (show result? (compileBy firstSource s) =
    some [[annexScript ["src", "app.js"] true], [annexScript ["src", "app.js"] false]] by decide +kernel)
  have hfinds := eq_ok_of_result? (show result? (compileBy getFile s) =
    some [[annexScript ["src", "app.js"] true], [annexScript ["src", "app.js"] false]] by decide +kernel)
  have hrun := (compileBy_firstSource_eq_ok htidy).1 hsources
  obtain ⟨hend, hboth⟩ := hrun.and ((compileBy_getFile_eq_ok htidy).1 hfinds)
  obtain ⟨hcompile, hall⟩ := ((compile_exact htidy).2 _ _ hrun).1.2 hboth
  exact ⟨htidy, _, _, hrun, hcompile, hall, rfl⟩

/-- A script in the second root is not found below a folder of its name in the first one. -/
theorem covered_missed :
    let s := annex [("app.js", .folder 1 [("x.txt", .file "x".toUTF8 1)])]
      [("app.js", .file "A();\n".toUTF8 1)]
    s.IsTidy ∧ (∃ t, s.Compiles IsSource [[], [annexScript ["more", "app.js"] true]] t) ∧
      (failure? (compileAll s)).map Failure.message = some "Asset 'app.js' not found" := by
  intro s
  have htidy : s.IsTidy := isTidy_annex (by decide) (by decide)
  have hsources := eq_ok_of_result? (show result? (compileBy firstSource s) =
    some [[], [annexScript ["more", "app.js"] true]] by decide +kernel)
  exact ⟨htidy, ⟨_, (compileBy_firstSource_eq_ok htidy).1 hsources⟩, by decide +kernel⟩

end Site

end AssetBundler
