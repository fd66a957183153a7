import AssetBundler.Release
import AssetBundler.Proofs.Static.Copy
import AssetBundler.Proofs.Asset.Address

/-!
# What a release makes

A tracked release does what a release does and keeps the copies and the compiled assets themselves
instead of their names. Main statements: a release is its tracked one up to this
(`Site.exists_tracked_of_release`), and after it the manifest has for the path of a copied file the last
copy of that path and nothing of the time before (`Site.Recorded`), where no compiled asset has that base
name (`Site.Kept`).
-/

namespace AssetBundler

open AssetBundler.Action

theorem Pipeline.fingerprintsCopies_congr {p q : Pipeline} (hconfig : q.config = p.config)
    (henvironment : q.environment = p.environment) :
    q.fingerprintsCopies = p.fingerprintsCopies := by
  unfold fingerprintsCopies
  rw [inProduction_congr hconfig henvironment, hconfig]

namespace Site

variable {α β γ δ : Type} {s t u : Site}

theorem ask_eq_ok {question : Site → Except Failure α} {a : α} (h : ask question s = .ok a t) :
    question s = .ok a ∧ t = s := by
  unfold ask at h
  cases hquestion : question s with
  | ok b =>
    rw [hquestion] at h
    cases h
    exact ⟨rfl, rfl⟩
  | error e =>
    rw [hquestion] at h
    cases h

theorem ask_of_ok {question : Site → Except Failure α} {a : α} (h : question s = .ok a) :
    ask question s = .ok a s := by
  unfold ask
  rw [h]

theorem ask_bind_pure (question : Site → Except Failure α) (f : α → β) :
    (ask fun s ↦ question s >>= fun a ↦ pure (f a)) = f <$> ask question := by
  funext s
  simp only [ask, Functor.map, EStateM.map]
  cases question s <;> rfl

theorem say_ok {level : Level} {text : String} {x : Unit} (h : say level text s = .ok x t) :
    t = { s with messages := s.messages ++ [⟨level, text⟩] } := by
  cases h
  rfl

theorem pipeline_of_ofDisk {action : Disk.Action α} {fail : Disk.Error → Failure} {a : α}
    (h : ofDisk action fail s = .ok a t) : t.pipeline = s.pipeline := by
  unfold ofDisk at h
  cases haction : action s.disk with
  | ok b disk =>
    rw [haction] at h
    cases h
    rfl
  | error e disk =>
    rw [haction] at h
    cases h

/-- Copies everything that a source stands for, each file by the same action. -/
def copySourceBy (copy : String → Static.Source → Action α) (skips : String → Bool)
    (destination source : String) : Action (List α) := do
  let path := (← get).pipeline.root.join source
  match ← ask fun s ↦ Disk.orFail (Static.sourcesAt s.disk path) with
  | none =>
    say .warning ("Static source not found: " ++ path.text)
    return []
  | some files => (files.filter fun f ↦ !skips f.rel).mapM (copy destination)

def copyAllBy (copy : String → Static.Source → Action α) (skips : String → Bool) :
    Action (List α) := do
  return (← (staticPairs (← get).pipeline).mapM fun (destination, source) ↦
    copySourceBy copy skips destination source).flatten

theorem copyAll_eq (skips : String → Bool) : copyAll skips = copyAllBy copyFile skips :=
  rfl

def compileRootBy (compile : String → Action α) (root : Path) : Action (List α) := do
  (← ask fun s ↦ Disk.orFail (Release.compiledNames s.disk root)).mapM compile

def compileAllBy (compile : String → Action α) : Action (List α) := do
  say .info "Precompiling assets"
  return (← (← get).pipeline.searchPath.roots.mapM (compileRootBy compile)).flatten

theorem compileAll_eq : compileAll = compileAllBy compileFile := rfl

/-- Copies a file and keeps what was copied. -/
def track (destination : String) (source : Static.Source) : Action Static.Copy := do
  let bytes ← ask fun s ↦ Disk.orFail (s.disk.readBytes source.path)
  let _ ← copyFile destination source
  return ⟨destination, source, bytes⟩

/-- Compiles a file and keeps the asset. -/
def trackCompiled (name : String) : Action (String × Asset) := do
  let asset ← ask fun s ↦ s.getAsset name
  let _ ← compileFile name
  return (name, asset)

/-- What a release makes. -/
structure Products where
  copies : List Static.Copy
  compiled : List (String × Asset)
  deriving DecidableEq

/-- A release that keeps what it makes. -/
def trackedRelease (compiles : Bool) : Action Products := do
  let skips ← ignored
  announce
  clearTarget
  let copies ← copyAllBy track skips
  let compiled ← if compiles then compileAllBy trackCompiled else pure []
  return ⟨copies, compiled⟩

/-- A relation of a site to a later one by what was made in between. -/
structure IsHistory (R : Site → List δ → Site → Prop) : Prop where
  nil : ∀ {s t}, t.pipeline = s.pipeline → R s [] t
  append : ∀ {s t u xs ys}, R s xs t → R t ys u → R s (xs ++ ys) u
  config : ∀ {s t xs}, R s xs t → t.pipeline.config = s.pipeline.config
  environment : ∀ {s t xs}, R s xs t → t.pipeline.environment = s.pipeline.environment

theorem IsHistory.fingerprintsCopies {R : Site → List δ → Site → Prop} (hR : IsHistory R)
    {made : List δ} (h : R s made t) (hs : s.pipeline.fingerprintsCopies = true) :
    t.pipeline.fingerprintsCopies = true :=
  (Pipeline.fingerprintsCopies_congr (hR.config h) (hR.environment h)).trans hs

/-- After copies were made the manifest has for a path the last copy of it, or what it had. -/
structure Recorded (s : Site) (copies : List Static.Copy) (t : Site) : Prop where
  config : t.pipeline.config = s.pipeline.config
  environment : t.pipeline.environment = s.pipeline.environment
  entry : ∀ key, (∃ c ∈ copies, toSlashes c.plain = key ∧
      t.pipeline.manifest.get? key = some c.url) ∨
    ((∀ c ∈ copies, toSlashes c.plain ≠ key) ∧
      t.pipeline.manifest.get? key = s.pipeline.manifest.get? key)

/-- After assets were compiled the manifest has what it had under all names but theirs. -/
structure Kept (s : Site) (compiled : List (String × Asset)) (t : Site) : Prop where
  config : t.pipeline.config = s.pipeline.config
  environment : t.pipeline.environment = s.pipeline.environment
  entry : ∀ key, (∀ e ∈ compiled, toSlashes e.2.basename ≠ key) →
    t.pipeline.manifest.get? key = s.pipeline.manifest.get? key

theorem isHistory_recorded : IsHistory Recorded where
  nil h := ⟨congrArg _ h, congrArg _ h, fun _ ↦ .inr ⟨List.forall_mem_nil _, by rw [h]⟩⟩
  append {s t u xs ys} hst htu := by
    refine ⟨htu.config.trans hst.config, htu.environment.trans hst.environment, fun key ↦ ?_⟩
    rcases htu.entry key with ⟨c, hc, hkey, hget⟩ | ⟨hnot, hget⟩
    · exact .inl ⟨c, List.mem_append_right _ hc, hkey, hget⟩
    · rcases hst.entry key with ⟨c, hc, hkey, hold⟩ | ⟨hnot', hold⟩
      · exact .inl ⟨c, List.mem_append_left _ hc, hkey, hget.trans hold⟩
      · refine .inr ⟨fun c hc ↦ ?_, hget.trans hold⟩
        rcases List.mem_append.1 hc with hc | hc
        · exact hnot' c hc
        · exact hnot c hc
  config h := h.config
  environment h := h.environment

theorem isHistory_kept : IsHistory Kept where
  nil h := ⟨congrArg _ h, congrArg _ h, fun _ _ ↦ by rw [h]⟩
  append hst htu := by
    refine ⟨htu.config.trans hst.config, htu.environment.trans hst.environment, fun key hkey ↦ ?_⟩
    rw [htu.entry key fun e he ↦ hkey e (List.mem_append_right _ he),
      hst.entry key fun e he ↦ hkey e (List.mem_append_left _ he)]
  config h := h.config
  environment h := h.environment

/-- Where copies are fingerprinted, one action does what the other does and keeps more of it. -/
def Tracks (R : Site → List δ → Site → Prop) (made : γ → β) (parts : γ → List δ) (plain : Action β)
    (tracked : Action γ) : Prop :=
  ∀ s t b, s.pipeline.fingerprintsCopies = true → plain s = .ok b t →
    ∃ c, tracked s = .ok c t ∧ b = made c ∧ R s (parts c) t

namespace Tracks

variable {R : Site → List δ → Site → Prop} {made : γ → β} {parts : γ → List δ}

theorem mapM (hR : IsHistory R) {f : α → Action β} {g : α → Action γ}
    (h : ∀ x, Tracks R made parts (f x) (g x)) (xs : List α) :
    Tracks R (List.map made) (List.flatMap parts) (xs.mapM f) (xs.mapM g) := by
  induction xs with
  | nil =>
    intro s t b _ hrun
    rw [List.mapM_nil] at hrun ⊢
    cases hrun
    exact ⟨[], rfl, rfl, hR.nil rfl⟩
  | cons x xs ih =>
    intro s t b hs hrun
    rw [List.mapM_cons] at hrun
    obtain ⟨b, u, hfirst, hrun⟩ := bind_eq_ok.1 hrun
    obtain ⟨bs, _, hrest, hrun⟩ := bind_eq_ok.1 hrun
    cases hrun
    obtain ⟨c, hc, rfl, hsu⟩ := h x s u b hs hfirst
    obtain ⟨cs, hcs, rfl, hut⟩ := ih u _ bs (hR.fingerprintsCopies hsu hs) hrest
    refine ⟨c :: cs, ?_, rfl, hR.append hsu hut⟩
    rw [List.mapM_cons, bind_of_ok hc, bind_of_ok hcs]
    rfl

theorem flatten {made : δ → β} {plain : Action (List (List β))} {tracked : Action (List (List δ))}
    (h : Tracks R (List.map (List.map made)) (List.flatMap id) plain tracked) :
    Tracks R (List.map made) id (do return (← plain).flatten) (do return (← tracked).flatten) := by
  intro s t b hs hrun
  obtain ⟨bs, _, hplain, hrun⟩ := bind_eq_ok.1 hrun
  cases hrun
  obtain ⟨cs, hcs, rfl, hst⟩ := h s _ bs hs hplain
  refine ⟨cs.flatten, bind_of_ok hcs, List.map_flatten.symm, ?_⟩
  rwa [List.flatMap_id] at hst

end Tracks

theorem staticName_ok {destination : String} {source : Static.Source} {filename : String}
    (hs : s.pipeline.fingerprintsCopies = true) (h : staticName destination source s = .ok filename t) :
    ∃ bytes, Disk.orFail (s.disk.readBytes source.path) = .ok bytes ∧
      filename = fingerprintedName source.rel (Sha1.hex bytes) ∧
      t.pipeline = s.pipeline.recording (Static.Copy.plain ⟨destination, source, bytes⟩)
        (Static.Copy.url ⟨destination, source, bytes⟩) := by
  unfold staticName at h
  rw [bind_of_ok (get_apply s), if_pos hs] at h
  obtain ⟨bytes, u, hread, hrest⟩ := bind_eq_ok.1 h
  obtain ⟨hbytes, rfl⟩ := ask_eq_ok hread
  obtain ⟨_, v, hadd, hname⟩ := bind_eq_ok.1 hrest
  cases hname
  exact ⟨bytes, hbytes, rfl, pipeline_add hadd⟩

theorem copyFile_ok {destination : String} {source : Static.Source} {url : String}
    (hs : s.pipeline.fingerprintsCopies = true) (h : copyFile destination source s = .ok url t) :
    ∃ c, track destination source s = .ok c t ∧ url = c.url ∧
      t.pipeline = s.pipeline.recording c.plain c.url := by
  obtain ⟨filename, u, hname, hcopy⟩ := bind_eq_ok.1 h
  obtain ⟨bytes, hbytes, rfl, hpipeline⟩ := staticName_ok hs hname
  obtain ⟨_, _, hget, hcopy⟩ := bind_eq_ok.1 hcopy
  cases hget
  obtain ⟨_, v, hdisk, hcopy⟩ := bind_eq_ok.1 hcopy
  cases hcopy
  refine ⟨⟨destination, source, bytes⟩, ?_, rfl, (pipeline_of_ofDisk hdisk).trans hpipeline⟩
  unfold track
  rw [bind_of_ok (ask_of_ok hbytes), bind_of_ok h]
  rfl

theorem tracks_copyFile (destination : String) (source : Static.Source) :
    Tracks Recorded Static.Copy.url (fun c ↦ [c]) (copyFile destination source)
      (track destination source) := by
  intro s t url hs h
  obtain ⟨c, htrack, hurl, hpipeline⟩ := copyFile_ok hs h
  refine ⟨c, htrack, hurl, ?_, ?_, fun key ↦ ?_⟩
  · rw [hpipeline]
    rfl
  · rw [hpipeline]
    rfl
  · have hget : t.pipeline.manifest.get? key =
        if toSlashes c.plain = key then some c.url else s.pipeline.manifest.get? key := by
      rw [hpipeline]
      exact Manifest.get?_recording ..
    by_cases hkey : toSlashes c.plain = key
    · exact .inl ⟨c, List.mem_singleton_self c, hkey, hget.trans (if_pos hkey)⟩
    · exact .inr ⟨List.forall_mem_singleton.2 hkey, hget.trans (if_neg hkey)⟩

theorem tracks_copySource (skips : String → Bool) (destination source : String) :
    Tracks Recorded (List.map Static.Copy.url) id
      (copySourceBy copyFile skips destination source)
      (copySourceBy track skips destination source) := by
  intro s t urls hs h
  unfold copySourceBy at h ⊢
  rw [bind_of_ok (get_apply s)] at h ⊢
  obtain ⟨files, u, hask, hrest⟩ := bind_eq_ok.1 h
  rw [bind_of_ok hask]
  obtain ⟨-, rfl⟩ := ask_eq_ok hask
  cases files with
  | none =>
    cases hrest
    exact ⟨[], rfl, rfl, isHistory_recorded.nil rfl⟩
  | some files =>
    obtain ⟨copies, hcopies, hurls, hrecorded⟩ :=
      Tracks.mapM isHistory_recorded (tracks_copyFile destination) _ u t urls hs hrest
    rw [List.flatMap_singleton'] at hrecorded
    exact ⟨copies, hcopies, hurls, hrecorded⟩

theorem tracks_copyAll (skips : String → Bool) :
    Tracks Recorded (List.map Static.Copy.url) id (copyAll skips) (copyAllBy track skips) := by
  intro s t urls hs h
  rw [copyAll_eq] at h
  unfold copyAllBy at h ⊢
  rw [bind_of_ok (get_apply s)] at h ⊢
  exact (Tracks.mapM isHistory_recorded (fun pair : String × String ↦
    tracks_copySource skips pair.1 pair.2) _).flatten s t urls hs h

/-! ## Compiled assets -/

theorem runOn_ok {asset : Asset} {action : Asset.Action α} {made : α × Asset}
    (h : Asset.runOn asset action s = .ok made t) : action ⟨s, asset⟩ = .ok made.1 ⟨t, made.2⟩ := by
  unfold Asset.runOn at h
  cases haction : action ⟨s, asset⟩ with
  | ok a u =>
    rw [haction] at h
    cases h
    rfl
  | error e u =>
    rw [haction] at h
    cases h

theorem kept_of_render {name tag : String} (hs : s.pipeline.fingerprintsCopies = true)
    (h : render name s = .ok tag t) : ∃ a, s.getAsset name = .ok a ∧ Kept s [(name, a)] t := by
  have hprod : s.pipeline.inProduction = true := (Bool.and_eq_true_iff.1 hs).1
  obtain ⟨a, u, hask, hpublish⟩ := bind_eq_ok.1 h
  obtain ⟨ha, rfl⟩ := ask_eq_ok hask
  obtain ⟨made, v, hrun, htag⟩ := bind_eq_ok.1 hpublish
  cases htag
  obtain ⟨hconfig, henvironment, hentry⟩ := Asset.frame_of_publish hprod (runOn_ok hrun)
  exact ⟨a, ha, hconfig, henvironment, fun key hkey ↦
    hentry key (hkey (name, a) (List.mem_singleton_self _))⟩

theorem tracks_compileFile (name : String) :
    Tracks Kept Prod.fst (fun e ↦ [e]) (compileFile name) (trackCompiled name) := by
  intro s t b hs h
  obtain ⟨_, u, hsay, hrender⟩ := bind_eq_ok.1 h
  obtain ⟨tag, _, hrender', hname⟩ := bind_eq_ok.1 hrender
  cases hname
  have hu := say_ok hsay
  have hs' : u.pipeline.fingerprintsCopies = true := by
    rw [hu]
    exact hs
  obtain ⟨a, ha, hkept⟩ := kept_of_render hs' hrender'
  have ha' : s.getAsset name = .ok a := by
    rw [hu] at ha
    exact ha
  refine ⟨(name, a), ?_, rfl, isHistory_kept.append (isHistory_kept.nil ?_) hkept⟩
  · unfold trackCompiled
    rw [bind_of_ok (ask_of_ok ha'), bind_of_ok h]
    rfl
  · rw [hu]

theorem tracks_compileRoot (root : Path) :
    Tracks Kept (List.map Prod.fst) id (compileRootBy compileFile root)
      (compileRootBy trackCompiled root) := by
  intro s t names hs h
  unfold compileRootBy at h ⊢
  obtain ⟨found, u, hask, hrest⟩ := bind_eq_ok.1 h
  rw [bind_of_ok hask]
  obtain ⟨-, rfl⟩ := ask_eq_ok hask
  obtain ⟨compiled, hcompiled, hnames, hkept⟩ :=
    Tracks.mapM isHistory_kept tracks_compileFile found u t names hs hrest
  rw [List.flatMap_singleton'] at hkept
  exact ⟨compiled, hcompiled, hnames, hkept⟩

theorem tracks_compileAll :
    Tracks Kept (List.map Prod.fst) id compileAll (compileAllBy trackCompiled) := by
  intro s t names hs h
  rw [compileAll_eq] at h
  unfold compileAllBy at h ⊢
  obtain ⟨_, u, hsay, hrest⟩ := bind_eq_ok.1 h
  have hu := say_ok hsay
  have hs' : u.pipeline.fingerprintsCopies = true := by
    rw [hu]
    exact hs
  rw [bind_of_ok hsay]
  rw [bind_of_ok (get_apply u)] at hrest ⊢
  obtain ⟨compiled, hcompiled, hnames, hkept⟩ :=
    (Tracks.mapM isHistory_kept tracks_compileRoot _).flatten u t names hs' hrest
  refine ⟨compiled, hcompiled, hnames, isHistory_kept.append (isHistory_kept.nil ?_) hkept⟩
  rw [hu]

/-! ## The whole release -/

theorem entries_of_delete {r : EStateM.Result Failure Manifest.Store Bool} {m : Manifest.Store}
    (h : Manifest.delete m = r) : (finalState r).manifest.entries = [] := by
  rw [← h]
  unfold Manifest.delete
  dsimp only
  split
  · rfl
  · split
    · rfl
    · rfl

/-- Clearing the target forgets every name and keeps the settings. -/
theorem clearTarget_ok {x : Unit} (h : clearTarget s = .ok x t) :
    t.pipeline.config = s.pipeline.config ∧ t.pipeline.environment = s.pipeline.environment ∧
      t.pipeline.manifest.entries = [] := by
  obtain ⟨_, u, hsay, hrest⟩ := bind_eq_ok.1 h
  obtain rfl := say_ok hsay
  obtain ⟨removed, v, hdelete, hclear⟩ := bind_eq_ok.1 hrest
  obtain ⟨_, _, hget, hclear'⟩ := bind_eq_ok.1 hclear
  cases hget
  rw [pipeline_of_ofDisk hclear']
  unfold ofManifest at hdelete
  rcases hstore : Manifest.delete ⟨s.disk, s.pipeline.manifest⟩ with ⟨_, store⟩ | ⟨e, store⟩
  · rw [hstore] at hdelete
    cases hdelete
    exact ⟨rfl, rfl, entries_of_delete hstore⟩
  · rw [hstore] at hdelete
    cases hdelete

theorem announce_ok {x : Unit} (h : announce s = .ok x t) : t.pipeline = s.pipeline := by
  unfold announce at h
  rw [bind_of_ok (get_apply s)] at h
  by_cases hprod : s.pipeline.inProduction = true
  · rw [if_pos hprod] at h
    rw [say_ok h]
  · rw [if_neg hprod] at h
    rw [say_ok h]

/-- What the manifest has after a release, by what the release made. -/
structure Released (s : Site) (made : Products) (t : Site) : Prop where
  config : t.pipeline.config = s.pipeline.config
  environment : t.pipeline.environment = s.pipeline.environment
  entry : ∀ key, (∀ e ∈ made.compiled, toSlashes e.2.basename ≠ key) →
    (∃ c ∈ made.copies, toSlashes c.plain = key ∧ t.pipeline.manifest.get? key = some c.url) ∨
      ((∀ c ∈ made.copies, toSlashes c.plain ≠ key) ∧ t.pipeline.manifest.get? key = none)

/-- Once the names are forgotten, only the copies and the compiled assets give the manifest entries. -/
theorem released_of_parts {made : Products} (hconfig : t.pipeline.config = s.pipeline.config)
    (henvironment : t.pipeline.environment = s.pipeline.environment)
    (hempty : t.pipeline.manifest.entries = []) (hrecorded : Recorded t made.copies u)
    {v : Site} (hkept : Kept u made.compiled v) : Released s made v where
  config := hkept.config.trans (hrecorded.config.trans hconfig)
  environment := hkept.environment.trans (hrecorded.environment.trans henvironment)
  entry key hkey := by
    have hnone : t.pipeline.manifest.get? key = none := by
      unfold Manifest.get?
      rw [hempty]
      rfl
    rw [hkept.entry key hkey, ← hnone]
    exact hrecorded.entry key

/-- A release with fingerprints is a tracked one. -/
theorem exists_tracked_of_release {compiles : Bool} {report : Report}
    (hs : s.pipeline.fingerprintsCopies = true) (h : release compiles s = .ok report t) :
    ∃ made, trackedRelease compiles s = .ok made t ∧
      report.copied = made.copies.map Static.Copy.url ∧
      report.compiled = made.compiled.map Prod.fst ∧ Released s made t := by
  obtain ⟨skips, u, hskips, hrest⟩ := bind_eq_ok.1 h
  unfold trackedRelease
  rw [bind_of_ok hskips]
  obtain ⟨-, rfl⟩ := ask_eq_ok hskips
  rw [bind_of_ok (get_apply u)] at hrest
  obtain ⟨_, v, hannounce, hrest⟩ := bind_eq_ok.1 hrest
  rw [bind_of_ok hannounce]
  obtain ⟨_, w, hclear, hrest⟩ := bind_eq_ok.1 hrest
  rw [bind_of_ok hclear]
  obtain ⟨copied, x, hcopied, hrest⟩ := bind_eq_ok.1 hrest
  obtain ⟨hconfig, henvironment, hempty⟩ := clearTarget_ok hclear
  rw [announce_ok hannounce] at hconfig henvironment
  have hw : w.pipeline.fingerprintsCopies = true :=
    (Pipeline.fingerprintsCopies_congr hconfig henvironment).trans hs
  obtain ⟨copies, hcopies, rfl, hrecorded⟩ := tracks_copyAll skips w x copied hw hcopied
  have hx := isHistory_recorded.fingerprintsCopies hrecorded hw
  rw [bind_of_ok hcopies]
  by_cases hcompiles : compiles = true
  · rw [if_pos hcompiles] at hrest
    obtain ⟨names, y, hnames, hreport⟩ := bind_eq_ok.1 hrest
    cases hreport
    obtain ⟨compiled, hcompiled, rfl, hkept⟩ := tracks_compileAll x _ names hx hnames
    refine ⟨⟨copies, compiled⟩, ?_, rfl, rfl,
      released_of_parts hconfig henvironment hempty hrecorded hkept⟩
    dsimp only
    rw [if_pos hcompiles, bind_of_ok hcompiled]
    rfl
  · rw [if_neg hcompiles] at hrest
    cases hrest
    refine ⟨⟨copies, []⟩, ?_, rfl, rfl,
      released_of_parts hconfig henvironment hempty hrecorded (isHistory_kept.nil rfl)⟩
    dsimp only
    rw [if_neg hcompiles]
    rfl

end Site

end AssetBundler
