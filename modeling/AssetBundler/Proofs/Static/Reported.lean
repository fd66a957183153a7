import AssetBundler.Proofs.Action.Runs
import AssetBundler.Proofs.Path.Descent
import AssetBundler.Proofs.Release.Address

/-!
# What copying reports

Copying goes through the entries of the configuration, finds out for each of them which files its source
stands for, and reports the path that each file is published under. The files are those that are there when
the turn of the entry comes, so a source that lies in the target stands for what was copied before. Main
statement: which paths are reported where nothing is fingerprinted, and that they are those of the files
which are there at the beginning if no source lies in the target and the target in none
(`Site.copying_reports`).
-/

namespace AssetBundler

open AssetBundler.Action

namespace Disk

/-- Copying makes folders on the way to its target and touches the target or a file in it. -/
theorem changesOnly_copy (source target : Path) :
    MovesAlong (ChangesOnly target.parent.upTo [target, target.join source.name]) (copy source target) :=
  movesAlong_copy source target (movesAlong_ensureParent target)
    (fun goal bytes hgoal ↦ movesAlong_writeBytes (by simpa using hgoal) bytes)
    fun _ d place t _ _ ↦ changesOnly_setTime d place t

theorem hasDistinctNames_copy {source target : Path} {d e : Disk} (hd : d.top.HasDistinctNames)
    (h : copy source target d = .ok () e) : e.top.HasDistinctNames := by
  have hkeeps := keepsInherited_copy Node.isHeritable_hasDistinctNames source
    (fun _ (_ : _ ∈ target.names) ↦ trivial) fun _ _ ↦ trivial
  exact (hkeeps.ok h ⟨fun _ _ ↦ trivial, hd⟩).top

end Disk

theorem Path.IsProper.no_up_name {p : Path} (hp : p.IsProper) (hup : ".." ∉ p.names) :
    ".." ∉ namesOf p.name := by
  unfold name
  rcases List.eq_nil_or_concat p.names with hnil | ⟨above, last, hnames⟩
  · rw [hnil]
    decide
  · rw [List.concat_eq_append] at hnames
    have hmem : last ∈ p.names := by simp [hnames]
    rw [hnames, List.getLastD_concat, namesOf_of_isName (hp _ hmem), List.mem_singleton]
    rintro rfl
    exact hup hmem

namespace Static

variable {d e : Disk} {p : Path} {files : List Source} {places : List (List String)}

/-- The files that a source stands for: none if nothing is there, a file under its own name, and the shown
files of a folder. -/
inductive Comprises (d : Disk) (p : Path) : List Source → Prop where
  | missing (h : ¬d.Exists p) : Comprises d p []
  | file (h : d.HoldsFile p) : Comprises d p [⟨p, p.name⟩]
  | folder {t : Nat} {entries : Node.Entries} {places : List (List String)}
    (h : d.find p = .ok (.folder t entries)) (hplaces : Lists (.folder t entries) places) :
    Comprises d p (places.map (sourceAt p ""))

theorem comprises_of_sourcesAt (hd : d.top.HasDistinctNames) {found : Option (List Source)}
    (h : sourcesAt d p = .ok found) : Comprises d p (found.getD []) := by
  unfold sourcesAt at h
  obtain ⟨node, hfind, h⟩ := except_bind_eq_ok.1 h
  rcases node with _ | ⟨bytes, t⟩ | ⟨t, entries⟩
  · cases h
    refine .missing fun ⟨n, hn⟩ ↦ ?_
    unfold Disk.find? at hfind
    rw [hn] at hfind
    cases hfind
  · cases h
    exact .file ⟨bytes, t, Disk.find?_eq_some.1 hfind⟩
  · cases h
    have hnode := Disk.find?_eq_some.1 hfind
    obtain ⟨start, -, hstart⟩ := Disk.find_eq_ok.1 hnode
    have hdistinct := Node.isHeritable_hasDistinctNames.of_get? hd start _ hstart
    obtain ⟨places, hplaces, hwalk⟩ := exists_lists hdistinct p ""
    change Comprises d p (walk p "" (.folder t entries))
    rw [hwalk]
    exact .folder hnode hplaces

theorem comprises_of_files (hd : d.top.HasDistinctNames) (h : sourcesAt d p = .ok (some files)) :
    Comprises d p files := comprises_of_sourcesAt hd h

/-- A source stands for one list of files only. -/
theorem Comprises.eq {others : List Source} (h : Comprises d p files) (h' : Comprises d p others) :
    files = others := by
  cases h with
  | missing h =>
    cases h' with
    | missing => rfl
    | file h' => exact absurd h'.exists h
    | folder h' => exact absurd ⟨_, h'⟩ h
  | file h =>
    cases h' with
    | missing h' => exact absurd h.exists h'
    | file => rfl
    | folder h' => exact absurd ⟨_, _, h'⟩ h.not_holdsFolder
  | folder h hplaces =>
    cases h' with
    | missing h' => exact absurd ⟨_, h⟩ h'
    | file h' => exact absurd ⟨_, _, h⟩ h'.not_holdsFolder
    | folder h' hplaces' =>
      cases h.symm.trans h'
      rw [hplaces.eq hplaces']

theorem exists_comprises (hd : d.top.HasDistinctNames) (hp : p.IsDirect) :
    ∃ files, Comprises d p files := by
  by_cases hexists : d.Exists p
  · obtain ⟨⟨bytes, t⟩ | ⟨t, entries⟩, hn⟩ := hexists
    · exact ⟨_, .file ⟨bytes, t, hn⟩⟩
    · have hdistinct := Node.isHeritable_hasDistinctNames.of_get? hd p.names _
        ((Disk.find_eq_ok_iff_node? hp).1 hn)
      obtain ⟨places, hplaces, -⟩ := exists_lists hdistinct p ""
      exact ⟨_, .folder hn hplaces⟩
  · exact ⟨[], .missing hexists⟩

/-- What a folder shows is a matter of what the disk holds below it. -/
theorem shows_iff_kindAt {n : Node} {names place : List String} (hn : d.node? names = some n) :
    Shows n place ↔
      (∃ bytes, d.kindAt (names ++ place) = some (some bytes)) ∧ ∀ name ∈ place, isDotted name = false := by
  have hfile : (∃ bytes t, Node.get? place n = some (.file bytes t)) ↔
      ∃ bytes, d.kindAt (names ++ place) = some (some bytes) := by
    refine exists_congr fun bytes ↦ ?_
    rw [Disk.kindAt_eq_file, Disk.node?_append, hn, Option.bind_some]
  rw [← hfile]
  exact shows_iff

/-- Where two disks agree below a source, it stands for the same files on both. -/
theorem Comprises.of_agreesBelow (hp : p.IsDirect) (hsame : Disk.AgreesBelow p d e)
    (h : Comprises e p files) : Comprises d p files := by
  have hself := List.prefix_refl p.names
  cases h with
  | missing h => exact .missing fun hd ↦ h ((hsame.exists_iff hself hp).2 hd)
  | file h => exact .file ((hsame.holdsFile_iff hself hp).1 h)
  | folder h hplaces =>
    obtain ⟨t, entries, hfind⟩ := (hsame.holdsFolder_iff hself hp).1 ⟨_, _, h⟩
    have hd := (Disk.find_eq_ok_iff_node? hp).1 hfind
    have he := (Disk.find_eq_ok_iff_node? hp).1 h
    refine .folder hfind ⟨hplaces.sorted, fun place ↦ (hplaces.mem_iff place).trans ?_⟩
    rw [shows_iff_kindAt hd, shows_iff_kindAt he, hsame _ (List.prefix_append ..)]

/-- A file that is reached without going upwards, under a relative path that does not go upwards either. -/
structure Source.GoesDown (f : Source) : Prop where
  head : f.rel.toList.head? ≠ some '/'
  no_up : ".." ∉ Path.namesOf f.rel
  proper : f.path.IsProper
  no_up_path : ".." ∉ f.path.names

theorem goesDown_of_comprises (hd : d.IsProper) (hp : p.IsProper) (hup : ".." ∉ p.names)
    (h : Comprises d p files) : ∀ f ∈ files, f.GoesDown := by
  cases h with
  | missing => exact List.forall_mem_nil _
  | file h =>
    refine List.forall_mem_singleton.2 ⟨fun hhead ↦ ?_, hp.no_up_name hup, hp, hup⟩
    exact hp.no_slash_name (List.mem_of_mem_head? hhead)
  | @folder t entries places h hplaces =>
    intro f hf
    obtain ⟨place, hplace, rfl⟩ := List.mem_map.1 hf
    obtain ⟨⟨bytes, u, hfile⟩, hundotted⟩ := shows_iff.1 ((hplaces.mem_iff place).1 hplace)
    obtain ⟨start, -, hnode⟩ := Disk.find_eq_ok.1 h
    have hnames : ∀ name ∈ place, Path.IsName name :=
      (Node.isName_of_mem_descendants (Node.isProper_get? hd.top start _ hnode) _
        (List.mem_filter.1 (Node.mem_files_of_get? hfile)).1).2
    have hdots : ".." ∉ place := fun hmem ↦ absurd (hundotted _ hmem) (by decide)
    rw [sourceAt_nil_lead]
    refine ⟨Path.head_intercalate hnames, by rwa [Path.namesOf_intercalate hnames], ?_, ?_⟩
    · exact List.forall_mem_append.2 ⟨hp, hnames⟩
    · exact fun hmem ↦ (List.mem_append.1 hmem).elim hup hdots

end Static

/-! ## Copying outside of the sources -/

namespace Disk

/-- Copying to a place below `top` changes nothing below a path that lies apart from `top`. -/
theorem agreesBelow_of_copy {source target root : Path} {top : List String} {d e : Disk}
    (hanchor : target.anchor ≠ .none) (hup : ".." ∉ target.names) (hsource : source.IsProper)
    (hsource_up : ".." ∉ source.names) (htop : top <+: target.names) (hbelow : ¬root.names <+: top)
    (habove : ¬top <+: root.names) (h : copy source target d = .ok () e) : AgreesBelow root d e := by
  intro place hplace
  have hplace_of (q : Path) (hq : q.anchor ≠ .none) (hqup : ".." ∉ q.names) :
      q.place d.here = q.names := by
    rw [Path.place, if_neg hq, Path.follow_of_no_up hqup, List.nil_append]
  have hapart {names : List String} (hnames : top <+: names) : ¬place <+: names := fun hmem ↦
    (List.prefix_or_prefix_of_prefix (hplace.trans hmem) hnames).elim hbelow habove
  have hinside : target.join source.name =
      ⟨target.anchor, target.names ++ Path.namesOf source.name⟩ :=
    Path.join_of_head fun hhead ↦ hsource.no_slash_name (List.mem_of_mem_head? hhead)
  have hinside_up : ".." ∉ target.names ++ Path.namesOf source.name := fun hmem ↦
    (List.mem_append.1 hmem).elim hup (hsource.no_up_name hsource_up)
  have hfiles : ¬d.Spelled [target, target.join source.name] place := by
    rintro ⟨q, hq, hspelled⟩
    rcases List.mem_pair.1 hq with rfl | rfl
    · rw [hplace_of _ hanchor hup] at hspelled
      exact hapart htop ⟨[], (List.append_nil place).trans hspelled⟩
    · rw [hinside, hplace_of ⟨_, target.names ++ _⟩ hanchor hinside_up] at hspelled
      exact hapart (htop.trans (List.prefix_append ..)) ⟨[], (List.append_nil place).trans hspelled⟩
  have hfolders : ¬d.Spelled target.parent.upTo place := by
    rintro ⟨q, hq, hspelled⟩
    obtain ⟨hqanchor, hqnames⟩ := Path.mem_upTo.1 (Path.mem_upTo_of_parent hq)
    rw [hplace_of _ (hqanchor ▸ hanchor) fun hmem ↦ hup (hqnames.subset hmem)] at hspelled
    exact hapart htop (hspelled ▸ hqnames)
  rcases ((changesOnly_copy source target).ok h).kind place with hsame | ⟨-, ⟨-, hfile⟩ | ⟨-, hfolder, -⟩⟩
  · exact hsame
  · exact absurd hfile hfiles
  · exact absurd hfolder hfolders

end Disk

/-- No source lies in the target and the target in none; the destinations lie in the target. -/
structure Pipeline.KeepsApart (p : Pipeline) : Prop where
  root : p.root.IsProper
  anchored : p.targetPath.anchor ≠ .none
  no_up : ".." ∉ p.targetPath.names
  source : ∀ e ∈ Site.staticPairs p, (p.root.join e.2).IsDirect
  destination : ∀ e ∈ Site.staticPairs p, e.1.toList.head? ≠ some '/' ∧ ".." ∉ Path.namesOf e.1
  below : ∀ e ∈ Site.staticPairs p, ¬(p.root.join e.2).names <+: p.targetPath.names
  above : ∀ e ∈ Site.staticPairs p, ¬p.targetPath.names <+: (p.root.join e.2).names

theorem Pipeline.KeepsApart.agreesBelow {p : Pipeline} (hp : p.KeepsApart) {pair other : String × String}
    (hpair : pair ∈ Site.staticPairs p) (hother : other ∈ Site.staticPairs p) {f : Static.Source}
    (hf : f.GoesDown) {d e : Disk} (h : Disk.copy f.path (p.copyTarget pair.1 f.rel) d = .ok () e) :
    Disk.AgreesBelow (p.root.join other.2) d e := by
  obtain ⟨hrelative, hdown⟩ := hp.destination pair hpair
  have htarget : p.copyTarget pair.1 f.rel =
      ⟨p.targetPath.anchor, p.targetPath.names ++ [pair.1, f.rel].flatMap Path.namesOf⟩ := by
    rw [Pipeline.copyTarget_eq hrelative hf.head, Pipeline.publishedPath_eq, Pipeline.namesOf_slashed]
  have hup : ".." ∉ p.targetPath.names ++ [pair.1, f.rel].flatMap Path.namesOf := by
    intro hmem
    rcases List.mem_append.1 hmem with hmem | hmem
    · exact hp.no_up hmem
    · obtain ⟨part, hpart, hmem⟩ := List.mem_flatMap.1 hmem
      rcases List.mem_pair.1 hpart with rfl | rfl
      · exact hdown hmem
      · exact hf.no_up hmem
  have htop : p.targetPath.names <+: (p.copyTarget pair.1 f.rel).names := by
    rw [htarget]
    exact List.prefix_append ..
  exact Disk.agreesBelow_of_copy (htarget ▸ hp.anchored) (htarget ▸ hup) hf.proper hf.no_up_path htop
    (hp.below other hother) (hp.above other hother) h

/-- A later disk on which the sources stand for what they stood for. -/
structure Pipeline.Undisturbed (p : Pipeline) (d e : Disk) : Prop where
  proper : e.IsProper
  distinct : e.top.HasDistinctNames
  agrees : ∀ pair ∈ Site.staticPairs p, Disk.AgreesBelow (p.root.join pair.2) d e

theorem Pipeline.Undisturbed.copy {p : Pipeline} (hp : p.KeepsApart) {pair : String × String}
    (hpair : pair ∈ Site.staticPairs p) {f : Static.Source} (hf : f.GoesDown) {c d e : Disk}
    (hd : p.Undisturbed c d) (h : Disk.copy f.path (p.copyTarget pair.1 f.rel) d = .ok () e) :
    p.Undisturbed c e where
  proper := (Disk.keepsProper_copy _ (isProper_copyTarget hp.root _ _)).ok h hd.proper
  distinct := Disk.hasDistinctNames_copy hd.distinct h
  agrees other hother place hplace :=
    (hp.agreesBelow hpair hother hf h place hplace).trans (hd.agrees other hother place hplace)

/-! ## Turns -/

namespace Site

variable {s t : Site} {skips : String → Bool} {destination source : String} {urls : List String}

/-- The paths that files are published under, if they are not to be skipped. -/
def reported (skips : String → Bool) (destination : String) (files : List Static.Source) : List String :=
  (files.filter fun f ↦ !skips f.rel).map fun f ↦ Pipeline.slashed [destination, f.rel]

/-- Where nothing is fingerprinted, a file is copied under its own name. -/
theorem copyFile_of_plain (hs : s.pipeline.fingerprintsCopies = false) {f : Static.Source} {url : String}
    (h : copyFile destination f s = .ok url t) :
    url = Pipeline.slashed [destination, f.rel] ∧ t.pipeline = s.pipeline ∧
      Disk.copy f.path (s.pipeline.copyTarget destination f.rel) s.disk = .ok () t.disk := by
  have hname : staticName destination f s = .ok f.rel s := by
    unfold staticName
    rw [bind_of_ok (get_apply s), if_neg (by rw [hs]; exact Bool.false_ne_true)]
    rfl
  unfold copyFile at h
  rw [bind_of_ok hname, bind_of_ok (get_apply s)] at h
  obtain ⟨_, u, hwrite, hrest⟩ := bind_eq_ok.1 h
  obtain ⟨_, _, hsay, hurl⟩ := bind_eq_ok.1 hrest
  cases hurl
  unfold ofDisk at hwrite
  cases hcopy : Disk.copy f.path (s.pipeline.copyTarget destination f.rel) s.disk with
  | error why d =>
    rw [hcopy] at hwrite
    cases hwrite
  | ok x d =>
    rw [hcopy] at hwrite
    cases hwrite
    rw [say_ok hsay]
    exact ⟨rfl, rfl, rfl⟩

/-- Every file of a source that is not to be skipped is copied, and what copies keep is kept. -/
theorem copySource_ok {I : Disk → Prop} (hs : s.pipeline.fingerprintsCopies = false)
    (hdisk : I s.disk)
    (hcopy : ∀ files, Static.sourcesAt s.disk (s.pipeline.root.join source) = .ok (some files) →
      ∀ f ∈ files, ∀ d e, I d →
        Disk.copy f.path (s.pipeline.copyTarget destination f.rel) d = .ok () e → I e)
    (h : copySource skips destination source s = .ok urls t) :
    ∃ found, Static.sourcesAt s.disk (s.pipeline.root.join source) = .ok found ∧
      urls = reported skips destination (found.getD []) ∧ t.pipeline = s.pipeline ∧ I t.disk := by
  unfold copySource at h
  rw [bind_of_ok (get_apply s)] at h
  obtain ⟨found, u, hask, hrest⟩ := bind_eq_ok.1 h
  obtain ⟨hfound, rfl⟩ := ask_eq_ok hask
  have hfound := Disk.orFail_eq_ok.1 hfound
  refine ⟨found, hfound, ?_⟩
  cases found with
  | none =>
    obtain ⟨_, _, hsay, hurls⟩ := bind_eq_ok.1 hrest
    cases hurls
    rw [say_ok hsay]
    exact ⟨rfl, rfl, hdisk⟩
  | some files =>
    obtain ⟨hruns, hpipeline, hkept⟩ := (mapM_eq_ok_iff.1 hrest).imp
      (I := fun v ↦ v.pipeline = u.pipeline ∧ I v.disk)
      (Q := fun f url _ _ ↦ url = Pipeline.slashed [destination, f.rel])
      (fun f hf url v w ⟨hv, hdisk⟩ hstep ↦ by
        rw [← hv] at hs
        obtain ⟨hurl, hw, hwrite⟩ := copyFile_of_plain hs hstep
        rw [hv] at hw hwrite
        exact ⟨hurl, hw, hcopy files hfound f (List.mem_filter.1 hf).1 _ _ hdisk hwrite⟩)
      ⟨rfl, hdisk⟩
    exact ⟨hruns.eq_map fun _ _ _ _ hurl ↦ hurl, hpipeline, hkept⟩

theorem copyStatic_ok (h : copyStatic s = .ok urls t) :
    ∃ skips, s.pipeline.library.packages.ignores s.pipeline.config.staticIgnore = .ok skips ∧
      copyAll skips s = .ok urls t := by
  unfold copyStatic at h
  obtain ⟨skips, _, hignored, hrest⟩ := bind_eq_ok.1 h
  obtain ⟨hskips, rfl⟩ := ask_eq_ok hignored
  exact ⟨skips, orRaise_eq_ok.1 hskips, hrest⟩

theorem copyAll_ok (h : copyAll skips s = .ok urls t) :
    ∃ turns, Runs (fun pair made u v ↦ copySource skips pair.1 pair.2 u = .ok made v)
      (staticPairs s.pipeline) turns s t ∧ urls = turns.flatten := by
  unfold copyAll at h
  rw [bind_of_ok (get_apply s)] at h
  obtain ⟨turns, _, hturns, hurls⟩ := bind_eq_ok.1 h
  cases hurls
  exact ⟨turns, mapM_eq_ok_iff.1 hturns, rfl⟩

/-- The turn of an entry of the configuration: its source is copied, and the paths of the files that it
stands for at that moment are reported. -/
structure Turn (skips : String → Bool) (pair : String × String) (urls : List String) (s t : Site) :
    Prop where
  run : copySource skips pair.1 pair.2 s = .ok urls t
  reports : ∃ files, Static.Comprises s.disk (s.pipeline.root.join pair.2) files ∧
    urls = reported skips pair.1 files

section Runs

variable (hplain : s.pipeline.fingerprintsCopies = false) (hdistinct : s.disk.top.HasDistinctNames)
  (h : copyAll skips s = .ok urls t)

include hplain hdistinct h

/-- The entries of the configuration take their turns in order. -/
theorem exists_turns :
    ∃ turns, Runs (Turn skips) (staticPairs s.pipeline) turns s t ∧ urls = turns.flatten := by
  obtain ⟨turns, hturns, hurls⟩ := copyAll_ok h
  refine ⟨turns, (hturns.imp
    (I := fun v ↦ v.pipeline = s.pipeline ∧ v.disk.top.HasDistinctNames) ?_ ⟨rfl, hdistinct⟩).1, hurls⟩
  rintro pair - made v w ⟨hv, hd⟩ hstep
  obtain ⟨found, hfound, hmade, hw, he⟩ := copySource_ok (hv ▸ hplain) hd
    (fun _ _ _ _ _ _ hd hcopy ↦ Disk.hasDistinctNames_copy hd hcopy) hstep
  exact ⟨⟨hstep, _, Static.comprises_of_sourcesAt hd hfound, hmade⟩, hw.trans hv, he⟩

/-- Where sources and target lie apart, all turns find what was there at the beginning. -/
theorem reports_of_keepsApart (hproper : s.disk.IsProper) (hp : s.pipeline.KeepsApart) :
    ∃ files : String → List Static.Source,
      (∀ pair ∈ staticPairs s.pipeline,
        Static.Comprises s.disk (s.pipeline.root.join pair.2) (files pair.2)) ∧
      urls = (staticPairs s.pipeline).flatMap fun pair ↦ reported skips pair.1 (files pair.2) := by
  have hexists (source : String) : ∃ files,
      (∃ destination, (destination, source) ∈ staticPairs s.pipeline) →
        Static.Comprises s.disk (s.pipeline.root.join source) files := by
    by_cases hsource : ∃ destination, (destination, source) ∈ staticPairs s.pipeline
    · obtain ⟨destination, hmem⟩ := hsource
      obtain ⟨files, hfiles⟩ := Static.exists_comprises hdistinct (hp.source _ hmem)
      exact ⟨files, fun _ ↦ hfiles⟩
    · exact ⟨[], fun hmem ↦ absurd hmem hsource⟩
  choose files hfiles using hexists
  refine ⟨files, fun pair hpair ↦ hfiles pair.2 ⟨pair.1, hpair⟩, ?_⟩
  obtain ⟨turns, hturns, rfl⟩ := copyAll_ok h
  have hruns := (hturns.imp
    (I := fun v ↦ v.pipeline = s.pipeline ∧ s.pipeline.Undisturbed s.disk v.disk)
    (Q := fun pair made _ _ ↦ made = reported skips pair.1 (files pair.2)) ?_
    ⟨rfl, hproper, hdistinct, fun _ _ _ _ ↦ rfl⟩).1
  · rw [hruns.eq_map fun _ _ _ _ hmade ↦ hmade, List.flatMap_def]
  · rintro pair hpair made v w ⟨hv, hdisk⟩ hstep
    have hdown : ∀ found, Static.sourcesAt v.disk (v.pipeline.root.join pair.2) = .ok (some found) →
        ∀ f ∈ found, f.GoesDown := fun found hfound ↦
      Static.goesDown_of_comprises hdisk.proper (hv ▸ hp.root.join _) (hv ▸ (hp.source pair hpair).no_up)
        (Static.comprises_of_sourcesAt hdisk.distinct hfound)
    obtain ⟨found, hfound, hmade, hw, hkept⟩ := copySource_ok (hv ▸ hplain) hdisk
      (fun found hfound f hf _ _ hd hcopy ↦ hd.copy hp hpair (hdown found hfound f hf) (hv ▸ hcopy)) hstep
    have hthere := Static.comprises_of_sourcesAt hdisk.distinct hfound
    rw [hv] at hthere
    have hbefore := hthere.of_agreesBelow (hp.source pair hpair) (hdisk.agrees pair hpair)
    rw [hmade, hbefore.eq (hfiles pair.2 ⟨pair.1, hpair⟩)]
    exact ⟨rfl, hw.trans hv, hkept⟩

end Runs

def sheets : Node.Entries := [("css", .folder 0 [("site.css", .file "S".toUTF8 1)])]

/-- A site that publishes a file in a folder of a folder, a hidden file, a single file that it ignores and a
source that is missing. -/
def gallery : Site :=
  let site := Site.sample "local" [] []
  { site with
    disk := ((site.disk.attach ["static"] (.folder 0 sheets)).attach ["private"]
      (.folder 0 [(".key", .file "K".toUTF8 1)])).attach ["logo.png"] (.file "L".toUTF8 1)
    pipeline := { site.pipeline with
      config := { site.pipeline.config with
        staticFiles := [("", ["static", "private", "gone"]), ("img", ["logo.png", "static"])]
        staticIgnore := ["logo.png"] } } }

theorem keepsApart_gallery : gallery.pipeline.KeepsApart where
  root := List.forall_mem_nil _
  anchored := by decide
  no_up := by decide
  source := by
    have hanchored : ∀ e ∈ staticPairs gallery.pipeline, (gallery.pipeline.root.join e.2).anchor ≠ .none := by
      decide
    have hup : ∀ e ∈ staticPairs gallery.pipeline, ".." ∉ (gallery.pipeline.root.join e.2).names := by decide
    have hshort : ∀ e ∈ staticPairs gallery.pipeline, ∀ name ∈ (gallery.pipeline.root.join e.2).names,
        Disk.isTooLong name = false := by decide
    exact fun e he ↦ ⟨hanchored e he, hup e he, hshort e he⟩
  destination := by decide
  below := by decide
  above := by decide

/-- A site that publishes a file and then what is in the folder that it publishes to. -/
def mirrored : Site :=
  let site := Site.sample "local" [] []
  { site with
    disk := site.disk.attach ["a"] (.folder 0 [("x.txt", .file "X".toUTF8 1)])
    pipeline := { site.pipeline with
      config := { site.pipeline.config with
        staticFiles := [("", ["a"]), ("again", ["public/assets"])] } } }

end Site

end AssetBundler
