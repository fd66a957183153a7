import AssetBundler.Proofs.Session.Order
import Mathlib.Data.List.Chain

/-!
# Circular requirements

While a script is evaluated, the files in progress are those on a walk through the graph of
requirements from the asset to this script (`OnWalk`). A target on the walk closes a cycle, which the
chain of the failure spells out; a target that is done was searched without finding one. The walk
repeats no file, so the depth of evaluations never runs out. Main statement: the build of a script fails
exactly if a cycle can be reached from it, and then with a chain that leads into the cycle.
-/

namespace AssetBundler.Session

open AssetBundler.Action Relation

/-- Scripts go through the processors of the default configuration. -/
structure HasDefaultScripts (p : Pipeline) : Prop where
  directives : p.directives = .default
  preprocessors : p.preprocessors.all (some scriptType) = [⟨.directives, []⟩]
  postprocessors : p.postprocessors.all (some scriptType) = [⟨.safetyColons, []⟩]
  compressors : p.compressors.all (some scriptType) = [⟨.jsCompressor, []⟩]

/-- The targets of the directives in a file as it stands on the disk. -/
def scriptTargets (site : Site) (path : Path) : Option (List Path) := do
  let data ← (site.disk.readText path).toOption
  let parsed ← (ParsedSource.parse (some path) data.toList).toOption
  directiveTargets site ⟨some path⟩ parsed.directives

theorem scriptTargets_eq_some {site : Site} {path : Path} {ks : List Path}
    (h : scriptTargets site path = some ks) : ∃ data parsed, site.disk.readText path = .ok data ∧
      ParsedSource.parse (some path) data.toList = .ok parsed ∧
      directiveTargets site ⟨some path⟩ parsed.directives = some ks := by
  obtain ⟨data, hdata, h⟩ := Option.bind_eq_some_iff.1 h
  obtain ⟨parsed, hparsed, h⟩ := Option.bind_eq_some_iff.1 h
  exact ⟨data, parsed, eq_ok_of_toOption hdata, eq_ok_of_toOption hparsed, h⟩

/-- A script that can be read, whose directives are well formed and find what they ask for. -/
structure IsScript (site : Site) (path : Path) : Prop where
  type : site.pipeline.contentTypeOf path = some scriptType
  targets : ∃ ks, scriptTargets site path = some ks

section Scripts

variable {site : Site} {path : Path}

theorem chainOf_script (hp : HasDefaultScripts site.pipeline) (h : IsScript site path) :
    ∃ rest, chainOf site path = ⟨.directives, []⟩ :: rest ∧
      ∀ spec ∈ rest, spec = ⟨.safetyColons, []⟩ ∨ spec = ⟨.jsCompressor, []⟩ := by
  unfold chainOf Pipeline.processorsFor
  rw [h.type, hp.preprocessors, hp.postprocessors, hp.compressors]
  by_cases hproduction : site.pipeline.inProduction = true
  · rw [if_pos hproduction]
    exact ⟨_, rfl, by simp⟩
  · rw [if_neg hproduction]
    exact ⟨_, rfl, by simp⟩

/-- Processors that only rewrite scripts always have a result. -/
theorem processed_of_rewriting (site : Site) (path : Path) {rest : List Spec}
    (h : ∀ spec ∈ rest, spec = ⟨.safetyColons, []⟩ ∨ spec = ⟨.jsCompressor, []⟩) (data : String) :
    ∃ out, Processed site path rest data [] out := by
  induction rest generalizing data with
  | nil => exact ⟨data, .nil data⟩
  | cons spec rest ih =>
    have hrest := ih fun q hq ↦ h q (List.mem_cons_of_mem _ hq)
    rcases h spec (List.mem_cons_self ..) with rfl | rfl
    · obtain ⟨out, hout⟩ := hrest (String.ofList (Script.terminate data.toList))
      exact ⟨out, .plain ⟨fun _ ↦ Step.noConfusion, Step.noConfusion⟩ (fun _ _ ↦ rfl) hout⟩
    · obtain ⟨out, hout⟩ := hrest (site.pipeline.library.packages.compactScript false data)
      exact ⟨out, .plain ⟨fun _ ↦ Step.noConfusion, Step.noConfusion⟩ (fun _ _ ↦ rfl) hout⟩

/-- A script has its targets and a text of its own. -/
theorem own_of_script (hp : HasDefaultScripts site.pipeline) (h : IsScript site path)
    {ks : List Path} (hks : scriptTargets site path = some ks) : ∃ text, Own site path ks text := by
  obtain ⟨rest, hchain, hrest⟩ := chainOf_script hp h
  obtain ⟨data, parsed, hdata, hparsed, hks⟩ := scriptTargets_eq_some hks
  obtain ⟨out, hout⟩ := processed_of_rewriting site path hrest
    (String.ofList parsed.processedSource)
  refine ⟨out, data, hdata, ?_⟩
  rw [hchain, ← List.append_nil ks]
  exact .directives rfl hparsed hks hout

theorem edge_iff_of_script (hp : HasDefaultScripts site.pipeline) (h : IsScript site path)
    {ks : List Path} (hks : scriptTargets site path = some ks) {k : Path} :
    Edge site path k ↔ k ∈ ks := by
  obtain ⟨text, hown⟩ := own_of_script hp h hks
  constructor
  · rintro ⟨others, hothers, hk⟩
    rwa [Kids.unique ⟨text, hown⟩ hothers]
  · exact fun hk ↦ ⟨ks, ⟨text, hown⟩, hk⟩

/-- Scripts that require nothing but each other are all that is reached from one of them. -/
theorem scripts_of_closed (hp : HasDefaultScripts site.pipeline) (ps : List Path)
    (h : ∀ p ∈ ps, site.pipeline.contentTypeOf p = some scriptType ∧
      (scriptTargets site p).any (fun ks ↦ ks.all ps.contains) = true)
    {root p : Path} (hroot : root ∈ ps) (hreach : ReflTransGen (Edge site) root p) :
    IsScript site p := by
  have hscript : ∀ q ∈ ps, IsScript site q ∧ ∀ k, Edge site q k → k ∈ ps := by
    intro q hq
    obtain ⟨htype, htargets⟩ := h q hq
    obtain ⟨ks, hks, hall⟩ := (Option.any_eq_true _ _).1 htargets
    have hscript : IsScript site q := ⟨htype, ks, hks⟩
    refine ⟨hscript, fun k hk ↦ ?_⟩
    have hmem := List.all_eq_true.1 hall k ((edge_iff_of_script hp hscript hks).1 hk)
    exact List.contains_iff_mem.1 hmem
  have hmem : p ∈ ps := by
    induction hreach with
    | refl => exact hroot
    | tail _ hedge ih => exact (hscript _ ih).2 _ hedge
  exact (hscript p hmem).1

theorem processors_of_script (hp : HasDefaultScripts site.pipeline) (h : IsScript site path) :
    ∀ spec ∈ chainOf site path,
      RunsDefaults site spec ∧ spec.hidesTable = false ∨ LeavesSession site path spec := by
  obtain ⟨rest, hchain, hrest⟩ := chainOf_script hp h
  intro spec hspec
  rw [hchain] at hspec
  rcases List.mem_cons.1 hspec with rfl | hspec
  · exact .inl ⟨⟨none, rfl, hp.directives⟩, rfl⟩
  · rcases hrest spec hspec with rfl | rfl <;>
      exact .inr (leavesSession_of_isPlain ⟨fun _ ↦ Step.noConfusion, Step.noConfusion⟩
        fun _ ↦ Step.noConfusion)

end Scripts

/-! ## Walks -/

theorem reached_of_isChain {α : Type} {edge : α → α → Prop} {root p : α} {l : List α}
    (hstarts : l.head? = some root) (hedges : l.IsChain edge) (hp : p ∈ l) :
    ReflTransGen edge root p := by
  obtain ⟨rest, rfl⟩ := List.head?_eq_some_iff.1 hstarts
  rcases List.mem_cons.1 hp with rfl | hp
  · exact .refl
  · have hchain : List.IsChain (ReflTransGen edge) (root :: rest) :=
      hedges.imp fun _ _ hedge ↦ .single hedge
    exact hchain.rel_cons hp

/-- A chain that comes back to one of its places closes a cycle. -/
theorem transGen_of_isChain {α : Type} {edge : α → α → Prop} {p : α} {l : List α}
    (hedges : (l ++ [p]).IsChain edge) (hp : p ∈ l) : TransGen edge p p := by
  obtain ⟨before, between, rfl⟩ := List.append_of_mem hp
  rw [List.append_assoc] at hedges
  have hcycle : List.IsChain (TransGen edge) (p :: (between ++ [p])) :=
    hedges.right_of_append.imp fun _ _ hedge ↦ .single hedge
  exact hcycle.rel_cons (List.mem_append_right _ (List.mem_singleton_self p))

/-- A chain from a root along requirements, all different up to the last file, which was there before. -/
structure IsCircular (site : Site) (root : Path) (chain : List Path) : Prop where
  starts : chain.head? = some root
  edges : chain.IsChain (Edge site)
  nodup : chain.dropLast.Nodup
  repeats : ∃ last, chain.getLast? = some last ∧ last ∈ chain.dropLast

/-- A file that comes back to itself can be reached from a root. -/
def ReachesCycle (site : Site) (root : Path) : Prop :=
  ∃ p, ReflTransGen (Edge site) root p ∧ TransGen (Edge site) p p

theorem IsCircular.reachesCycle {site : Site} {root : Path} {chain : List Path}
    (h : IsCircular site root chain) : ReachesCycle site root := by
  obtain ⟨last, hlast, hmem⟩ := h.repeats
  obtain ⟨front, rfl⟩ := List.getLast?_eq_some_iff.1 hlast
  refine ⟨last, reached_of_isChain h.starts h.edges (List.mem_of_getLast? hlast), ?_⟩
  rw [List.dropLast_concat] at hmem
  exact transGen_of_isChain h.edges hmem

/-- The files in progress are those on a walk from a root. -/
structure OnWalk (site : Site) (root : Path) (walk : List Path) (s : Session) : Prop where
  starts : walk.head? = some root
  edges : walk.IsChain (Edge site)
  nodup : walk.Nodup
  marked : ∀ p, s.marks.get? p = some .inProgress ↔ p ∈ walk

namespace OnWalk

variable {site : Site} {root path k : Path} {walk : List Path} {s t : Session}

theorem of_marks (h : OnWalk site root walk s) (hmarks : t.marks = s.marks) :
    OnWalk site root walk t where
  starts := h.starts
  edges := h.edges
  nodup := h.nodup
  marked p := by
    rw [hmarks]
    exact h.marked p

theorem reached (h : OnWalk site root walk s) :
    ∀ p ∈ walk, ReflTransGen (Edge site) root p := fun _ hp ↦
  reached_of_isChain h.starts h.edges hp

theorem edges_concat (h : OnWalk site root walk s) (hlast : walk.getLast? = some path)
    (hedge : Edge site path k) : (walk ++ [k]).IsChain (Edge site) := by
  refine List.isChain_append.2 ⟨h.edges, List.isChain_singleton k, fun p hp q hq ↦ ?_⟩
  have hpath : path = p := Option.some.inj (hlast.symm.trans hp)
  have hk : k = q := Option.some.inj hq
  rw [← hpath, ← hk]
  exact hedge

theorem starts_concat (h : OnWalk site root walk s) : (walk ++ [k]).head? = some root := by
  rw [List.head?_append, h.starts]
  rfl

/-- A target that is in progress closes a cycle. -/
theorem isCircular (h : OnWalk site root walk s) (hlast : walk.getLast? = some path)
    (hedge : Edge site path k) (hmark : s.marks.get? k = some .inProgress) :
    IsCircular site root (walk ++ [k]) where
  starts := h.starts_concat
  edges := h.edges_concat hlast hedge
  nodup := by
    rw [List.dropLast_concat]
    exact h.nodup
  repeats := by
    refine ⟨k, List.getLast?_concat, ?_⟩
    rw [List.dropLast_concat]
    exact (h.marked k).1 hmark

/-- A target that has no mark makes the walk longer while it is evaluated. -/
theorem begun (h : OnWalk site root walk s) (hlast : walk.getLast? = some path)
    (hedge : Edge site path k) (hmark : s.marks.get? k = none) :
    OnWalk site root (walk ++ [k]) (begun k s) where
  starts := h.starts_concat
  edges := h.edges_concat hlast hedge
  nodup := by
    have hk : k ∉ walk := by
      intro hk
      rw [← h.marked k, hmark] at hk
      cases hk
    exact h.nodup.append (List.nodup_singleton k) (List.disjoint_singleton.2 hk)
  marked p := by
    rw [get?_marks_begun, List.mem_append, List.mem_singleton]
    by_cases hkp : k = p
    · rw [if_pos hkp]
      exact iff_of_true rfl (.inr hkp.symm)
    · rw [if_neg hkp, h.marked p]
      exact ⟨.inl, fun hor ↦ hor.resolve_right (Ne.symm hkp)⟩

theorem finished {text : String} (hbefore : OnWalk site root walk s)
    (h : OnWalk site root (walk ++ [k]) t) : OnWalk site root walk (finished k text t) where
  starts := hbefore.starts
  edges := hbefore.edges
  nodup := hbefore.nodup
  marked p := by
    rw [get?_marks_finished]
    by_cases hkp : k = p
    · have hp : p ∉ walk := fun hp ↦
        List.disjoint_of_nodup_append h.nodup hp (List.mem_singleton.2 hkp.symm)
      rw [if_pos hkp]
      exact iff_of_false (by intro h; cases h) hp
    · rw [if_neg hkp, h.marked p, List.mem_append, List.mem_singleton]
      exact ⟨fun hor ↦ hor.resolve_right (Ne.symm hkp), .inl⟩

end OnWalk

/-- The end of a part of a build: the files in progress are those on the walk, or the failure reports
a chain that ends in a circle. -/
def EndsOnWalk {α : Type} (site : Site) (root : Path) (walk chain : List Path) :
    EStateM.Result Failure Session α → Prop
  | .ok _ t => t.chain = chain ∧ OnWalk site root walk t
  | .error e _ => ∃ report, e = .circular report ∧ IsCircular site root report

theorem ends_of_performs {site : Site} {eval : Evaluator} {v : Viewpoint} {root path : Path}
    {walk ks : List Path} {s : Session} {r : EStateM.Result Failure Session Unit}
    (hlast : walk.getLast? = some path) (hedges : ∀ k ∈ ks, Edge site path k)
    (heval : ∀ k ∈ ks, ∀ t, t.chain = walk → OnWalk site root (walk ++ [k]) t →
      EndsOnWalk site root (walk ++ [k]) walk (eval v k none (chainOf site k) t))
    (hchain : s.chain = walk) (hwalk : OnWalk site root walk s)
    (h : Performs eval site v s ks r) : EndsOnWalk site root walk walk r := by
  induction h with
  | nil hsame => exact ⟨hsame.chain.trans hchain, hwalk.of_marks hsame.marks⟩
  | seen hsame _ _ ih =>
    exact ih (fun q hq ↦ hedges q (List.mem_cons_of_mem _ hq))
      (fun q hq ↦ heval q (List.mem_cons_of_mem _ hq)) (hsame.chain.trans hchain)
      (hwalk.of_marks hsame.marks)
  | @circular s t k ks hsame hmark =>
    have hedge := hedges k (List.mem_cons_self ..)
    refine ⟨t.chain ++ [k], rfl, ?_⟩
    rw [hsame.chain, hchain]
    exact (hwalk.of_marks hsame.marks).isCircular hlast hedge hmark
  | @visit s t u k ks text r hsame hmark hok _ ih =>
    have hbegun := (hwalk.of_marks hsame.marks).begun hlast (hedges k (List.mem_cons_self ..)) hmark
    have hend := heval k (List.mem_cons_self ..) (begun k t) (hsame.chain.trans hchain) hbegun
    rw [hok] at hend
    exact ih (fun q hq ↦ hedges q (List.mem_cons_of_mem _ hq))
      (fun q hq ↦ heval q (List.mem_cons_of_mem _ hq)) hend.1 (hwalk.finished hend.2)
  | @failed s t u k ks e hsame hmark herror =>
    have hbegun := (hwalk.of_marks hsame.marks).begun hlast (hedges k (List.mem_cons_self ..)) hmark
    have hend := heval k (List.mem_cons_self ..) (begun k t) (hsame.chain.trans hchain) hbegun
    rw [herror] at hend
    exact hend

/-! ## Builds of scripts -/

theorem contentOf_of_readText {site : Site} {v : Viewpoint} {path : Path} {data : String}
    (h : site.disk.readText path = .ok data) : contentOf site v path none = .ok data := by
  obtain ⟨bytes, hbytes⟩ := Disk.readBytes_of_readText h
  have hfile : site.isFile path = .ok true := by
    unfold Disk.readBytes at hbytes
    rcases hfind : site.disk.find path with why | ⟨old, t⟩ | ⟨t, entries⟩
    · rw [hfind] at hbytes
      cases hbytes
    · unfold Site.isFile
      rw [Disk.isFile_of_find hfind]
      rfl
    · rw [hfind] at hbytes
      cases hbytes
  exact except_bind_eq_ok.2 ⟨true, hfile, h⟩

section Builds

variable {site : Site} {root : Path}

/-- A walk has no more files than there are on the disk. -/
theorem length_walk_le (hs : site.IsProper) (hroot : root.IsCanonical)
    (hscripts : ∀ p, ReflTransGen (Edge site) root p → IsScript site p) {walk : List Path}
    {s : Session} (h : OnWalk site root walk s) : walk.length ≤ site.disk.fileCount + 1 := by
  refine Disk.length_le_fileCount h.nodup (fun p hp ↦ ?_) fun p hp ↦ ?_
  · exact isCanonical_of_reached hs hroot (h.reached p hp)
  · obtain ⟨ks, hks⟩ := (hscripts p (h.reached p hp)).targets
    obtain ⟨data, _, hdata, -⟩ := scriptTargets_eq_some hks
    exact Disk.readBytes_of_readText hdata

theorem ends_of_evaluateWithin (hs : site.IsProper) (hp : HasDefaultScripts site.pipeline)
    (hroot : root.IsCanonical)
    (hscripts : ∀ p, ReflTransGen (Edge site) root p → IsScript site p) (depth : Nat) {v : Viewpoint}
    {path : Path} {content : Option String} {s : Session}
    (hcontent : ∀ data, site.disk.readText path = .ok data →
      contentOf site v path content = .ok data)
    (hwalk : OnWalk site root (s.chain ++ [path]) s)
    (hdepth : site.disk.fileCount + 2 ≤ depth + s.chain.length) :
    EndsOnWalk site root (s.chain ++ [path]) s.chain
      (evaluateWithin site depth v path content (chainOf site path) s) := by
  induction depth generalizing v path content s with
  | zero =>
    have hlength := length_walk_le hs hroot hscripts hwalk
    rw [List.length_append, List.length_singleton] at hlength
    omega
  | succ depth ih =>
    have hlast : (s.chain ++ [path]).getLast? = some path := List.getLast?_concat
    have hscript := hscripts path (hwalk.reached path (List.mem_of_getLast? hlast))
    obtain ⟨ks, hks⟩ := hscript.targets
    obtain ⟨text, data, hdata, hprocessed⟩ := own_of_script hp hscript hks
    have hinner : ∀ r, Performs (evaluateWithin site depth) site ⟨some path⟩ (entered path s) ks r →
        EndsOnWalk site root (s.chain ++ [path]) (s.chain ++ [path]) r := by
      intro r hr
      refine ends_of_performs (s := entered path s) hlast
        (fun k hk ↦ ⟨ks, ⟨text, data, hdata, hprocessed⟩, hk⟩) ?_ rfl (hwalk.of_marks rfl) hr
      intro k _ t hchain ht
      rw [← hchain] at ht ⊢
      refine ih (fun _ hread ↦ contentOf_of_readText hread) ht ?_
      rw [hchain, List.length_append, List.length_singleton]
      omega
    unfold evaluateWithin
    rw [bind_of_ok (ofExcept_ok (hcontent data hdata) s)]
    rcases runSpecs_of_processed hprocessed (processors_of_script hp hscript) (entered path s) with
      ⟨u, hperforms, hrun⟩ | ⟨e, u, hperforms, hrun⟩
    · rw [nested_of_ok hrun]
      exact ⟨rfl, (hinner _ hperforms).2.of_marks rfl⟩
    · rw [nested_of_error hrun]
      exact hinner _ hperforms

theorem ends_of_build (hs : site.IsProper) (hp : HasDefaultScripts site.pipeline)
    (hroot : root.IsCanonical)
    (hscripts : ∀ p, ReflTransGen (Edge site) root p → IsScript site p) :
    EndsOnWalk site root [root] [] (site.build root) := by
  obtain ⟨ks, hks⟩ := (hscripts root .refl).targets
  obtain ⟨data, _, hdata, -⟩ := scriptTargets_eq_some hks
  have hwalk : OnWalk site root [root] (forAsset root) := by
    refine ⟨rfl, List.isChain_singleton root, List.nodup_singleton root, fun p ↦ ?_⟩
    rw [get?_marks_forAsset, List.mem_singleton, eq_comm (a := p)]
    by_cases h : root = p
    · rw [if_pos h]
      exact iff_of_true rfl h
    · rw [if_neg h]
      exact iff_of_false (by intro h; cases h) h
  unfold Site.build Asset.evaluation
  rw [bind_of_ok (ofExcept_ok hdata _)]
  refine ends_of_evaluateWithin hs hp hroot hscripts _ (s := forAsset root) ?_ hwalk ?_
  · intro other hother
    exact hdata.symm.trans hother ▸ rfl
  · unfold depthBound
    omega

/-- A build that ends well has searched everything that can be reached. -/
theorem not_reachesCycle_of_build (hs : site.IsProper) (hp : HasDefaultScripts site.pipeline)
    (hroot : root.IsCanonical)
    (hscripts : ∀ p, ReflTransGen (Edge site) root p → IsScript site p) {own : String}
    {t : Session} (h : site.build root = .ok own t) : ¬ ReachesCycle site root := by
  have hchains : HasAdmissibleChains site root := by
    intro p hreach spec hspec
    rcases processors_of_script hp (hscripts p hreach) spec hspec with hdefault | hleaves
    · exact .inl hdefault.1
    · exact .inr (.inr hleaves)
  obtain ⟨order, hassembles⟩ := assembles_of_build hs hroot hchains h
  rintro ⟨p, hreach, hcycle⟩
  have hmem : root ∈ order ++ [root] := List.mem_append_right _ (List.mem_singleton_self root)
  exact acyclic_of_order hmem hassembles.precedes hreach hcycle

end Builds

/-- The body of a script fails with a circular requirement exactly if a cycle can be reached, and is
built otherwise; the chain of the failure leads from the script into the cycle. -/
theorem circular_iff_reachesCycle {site : Site} (hs : site.IsProper)
    (hp : HasDefaultScripts site.pipeline) {logical : String} {a : Asset}
    (ha : site.getAsset logical = .ok a)
    (hscripts : ∀ p, ReflTransGen (Edge site) a.path p → IsScript site p) :
    ((∃ chain t, Asset.body ⟨site, a⟩ = .error (.circular chain) t) ↔ ReachesCycle site a.path) ∧
      (¬ ReachesCycle site a.path → ∃ text t, Asset.body ⟨site, a⟩ = .ok text t) ∧
      ∀ chain t, Asset.body ⟨site, a⟩ = .error (.circular chain) t →
        IsCircular site a.path chain := by
  obtain ⟨path, hpath, hmade⟩ := except_bind_eq_ok.1 ha
  have hasset : a = Asset.ofFile path (some logical) := (Except.ok.inj hmade).symm
  rw [hasset] at hscripts ⊢
  have hcanonical := Site.isCanonical_of_getFile hs hpath
  have hends := ends_of_build hs hp hcanonical hscripts
  rcases hbuild : site.build path with ⟨own, u⟩ | ⟨e, u⟩
  · have hbody := Asset.body_of_build_ok (s := ⟨site, .ofFile path (some logical)⟩) rfl hbuild
    have hnot := not_reachesCycle_of_build hs hp hcanonical hscripts hbuild
    refine ⟨iff_of_false ?_ hnot, fun _ ↦ ⟨_, _, hbody⟩, ?_⟩
    · rintro ⟨chain, t, hfailed⟩
      cases hbody.symm.trans hfailed
    · intro chain t hfailed
      cases hbody.symm.trans hfailed
  · have hbody := Asset.body_of_build_error (s := ⟨site, .ofFile path (some logical)⟩) rfl hbuild
    rw [hbuild] at hends
    obtain ⟨report, rfl, hreport⟩ := hends
    have hcycle := hreport.reachesCycle
    refine ⟨iff_of_true ⟨report, _, hbody⟩ hcycle, fun hnot ↦ absurd hcycle hnot, ?_⟩
    intro chain t hfailed
    have hsame := (EStateM.Result.error.inj (hbody.symm.trans hfailed)).1
    rw [← Failure.circular.inj hsame]
    exact hreport

/-- Two scripts that require each other, one of them with the folder of the other, below a third one. -/
def ring : Site :=
  Site.sample "local" [
    ("app.js", .file "//= require parts/menu\nApp();\n".toUTF8 1),
    ("parts", .folder 1 [("menu.js", .file "//= require lib/tools\nMenu();\n".toUTF8 1)]),
    ("lib", .folder 1 [("tools.js", .file "//= require_tree ../parts\nTools();\n".toUTF8 1)])] []

theorem hasDefaultScripts_sample (environment : String) (sources published : Node.Entries) :
    HasDefaultScripts (Site.sample environment sources published).pipeline :=
  ⟨rfl, rfl, rfl, rfl⟩

theorem ring_is_circular :
    ∃ a chain t, ring.getAsset "app.js" = .ok a ∧ ReachesCycle ring a.path ∧
      Asset.body ⟨ring, a⟩ = .error (.circular chain) t ∧ IsCircular ring a.path chain := by
  have ha : ring.getAsset "app.js" =
      .ok (.ofFile (.absolute ["src", "app.js"]) (some "app.js")) :=
    eq_ok_of_toOption (by decide +kernel)
  have hs : ring.IsProper := Site.isProper_sample ..
  have hp : HasDefaultScripts ring.pipeline := hasDefaultScripts_sample ..
  have hscripts : ∀ p, ReflTransGen (Edge ring) (.absolute ["src", "app.js"]) p → IsScript ring p :=
    fun p ↦ scripts_of_closed hp [.absolute ["src", "app.js"], .absolute ["src", "parts", "menu.js"],
      .absolute ["src", "lib", "tools.js"]] (by decide +kernel) (List.mem_cons_self ..)
  have hfails : result? (Asset.body
      ⟨ring, .ofFile (.absolute ["src", "app.js"]) (some "app.js")⟩) = none := by decide +kernel
  obtain ⟨hiff, hbuilt, hreport⟩ := circular_iff_reachesCycle hs hp ha hscripts
  have hcycle : ReachesCycle ring (.absolute ["src", "app.js"]) := by
    by_contra hnot
    obtain ⟨text, t, hbody⟩ := hbuilt hnot
    rw [hbody] at hfails
    cases hfails
  obtain ⟨chain, t, hbody⟩ := hiff.2 hcycle
  exact ⟨_, chain, t, ha, hcycle, hbody, hreport chain t hbody⟩

end AssetBundler.Session
