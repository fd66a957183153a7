import AssetBundler.Proofs.Asset.Body
import AssetBundler.Proofs.Disk.Reading
import AssetBundler.Proofs.Session.Chain
import AssetBundler.Proofs.Session.Postorder
import Mathlib.Data.List.Forall2
import Mathlib.Data.List.Nodup
import Mathlib.Data.Set.Function

/-!
# The order of a body

A build that ends well has visited the graph of requirements depth first. What an evaluation adds to
its session are the own texts of files that had no mark before (`Grown`), and they are added in
post-order (`Grows`); both compose over the targets of a file and over the depth of evaluations. Main
statement: the body of an asset is made of the own texts of all files it needs, each once and behind
those that it needs itself, with its own text at the end.
-/

namespace AssetBundler.Session

open AssetBundler.Action

/-- A text that a file gives without what it includes. -/
def OwnText (site : Site) (path : Path) (text : String) : Prop := ∃ targets, Own site path targets text

/-- What a part of a build adds to a session: the own texts of new files, which are done from then on. -/
structure Grown (site : Site) (s t : Session) (new : List Path) : Prop where
  chain : t.chain = s.chain
  included : ∃ texts, List.Forall₂ (OwnText site) new texts ∧ t.included = s.included ++ texts
  done : ∀ p ∈ new, t.marks.get? p = some .done
  kept : ∀ p, p ∉ new → t.marks.get? p = s.marks.get? p
  fresh : ∀ p ∈ new, s.marks.get? p = none
  nodup : new.Nodup

namespace Grown

variable {site : Site} {s t u : Session} {new more : List Path}

/-- What an evaluation adds in a session of its own is added to the session around it. -/
theorem of_entered {path : Path} (h : Grown site (entered path s) t new) :
    Grown site s (returned s t) new where
  chain := rfl
  included := by
    obtain ⟨texts, htexts, hadded⟩ := h.included
    exact ⟨texts, htexts, congrArg (s.included ++ ·) hadded⟩
  done := h.done
  kept := h.kept
  fresh := h.fresh
  nodup := h.nodup

theorem of_same (h : SameBuild s t) : Grown site s t [] where
  chain := h.chain
  included := ⟨[], .nil, by rw [List.append_nil, h.included]⟩
  done _ hp := absurd hp List.not_mem_nil
  kept p _ := by rw [h.marks]
  fresh _ hp := absurd hp List.not_mem_nil
  nodup := List.nodup_nil

theorem marks_of_fresh (h : Grown site s t new) {p : Path} (hp : t.marks.get? p = none) :
    s.marks.get? p = none := by
  by_cases hmem : p ∈ new
  · exact h.fresh p hmem
  · rw [← h.kept p hmem]
    exact hp

protected theorem trans (h : Grown site s t new) (h' : Grown site t u more) :
    Grown site s u (new ++ more) := by
  have hdisjoint : ∀ p ∈ new, p ∉ more := by
    intro p hp hmore
    have hdone := h.done p hp
    rw [h'.fresh p hmore] at hdone
    cases hdone
  constructor
  · exact h'.chain.trans h.chain
  · obtain ⟨texts, htexts, hincluded⟩ := h.included
    obtain ⟨others, hothers, hincluded'⟩ := h'.included
    refine ⟨texts ++ others, List.rel_append htexts hothers, ?_⟩
    rw [hincluded', hincluded, List.append_assoc]
  · intro p hp
    rcases List.mem_append.1 hp with hp | hp
    · rw [h'.kept p (hdisjoint p hp)]
      exact h.done p hp
    · exact h'.done p hp
  · intro p hp
    rw [List.mem_append, not_or] at hp
    rw [h'.kept p hp.2, h.kept p hp.1]
  · intro p hp
    rcases List.mem_append.1 hp with hp | hp
    · exact h.fresh p hp
    · exact h.marks_of_fresh (h'.fresh p hp)
  · exact h.nodup.append h'.nodup hdisjoint

theorem of_same_trans (h : SameBuild s t) (h' : Grown site t u new) : Grown site s u new :=
  (of_same h).trans h'

/-- A file that is visited is new, after all that its visit adds. -/
theorem visit {k : Path} {text : String} (hmark : s.marks.get? k = none) (htext : OwnText site k text)
    (h : Grown site (begun k s) t new) : Grown site s (finished k text t) (new ++ [k]) := by
  have hother : ∀ p, p ≠ k → (begun k s).marks.get? p = s.marks.get? p := by
    intro p hp
    rw [get?_marks_begun, if_neg (Ne.symm hp)]
  have hnot : k ∉ new := by
    intro hk
    have hnone := h.fresh k hk
    rw [get?_marks_begun, if_pos rfl] at hnone
    cases hnone
  constructor
  · exact h.chain
  · obtain ⟨texts, htexts, hincluded⟩ := h.included
    refine ⟨texts ++ [text], List.rel_append htexts (.cons htext .nil), ?_⟩
    change t.included ++ [text] = _
    rw [hincluded, List.append_assoc]
    rfl
  · intro p hp
    rw [get?_marks_finished]
    by_cases hkp : k = p
    · rw [if_pos hkp]
    · rw [if_neg hkp]
      rcases List.mem_append.1 hp with hp | hp
      · exact h.done p hp
      · exact absurd (List.mem_singleton.1 hp).symm hkp
  · intro p hp
    rw [List.mem_append, not_or, List.mem_singleton] at hp
    rw [get?_marks_finished, if_neg (Ne.symm hp.2), h.kept p hp.1, hother p hp.2]
  · intro p hp
    rcases List.mem_append.1 hp with hp | hp
    · have hne : p ≠ k := fun heq ↦ hnot (heq ▸ hp)
      rw [← hother p hne]
      exact h.fresh p hp
    · rw [List.mem_singleton.1 hp]
      exact hmark
  · exact h.nodup.append (List.nodup_singleton k) (List.disjoint_singleton.2 hnot)

end Grown

/-- The files that are done in a session. -/
def IsDone (s : Session) (done : List Path) : Prop :=
  ∀ p, s.marks.get? p = some .done ↔ p ∈ done

theorem IsDone.of_same {s t : Session} {done : List Path} (h : IsDone s done)
    (hsame : SameBuild s t) : IsDone t done := by
  intro p
  rw [hsame.marks]
  exact h p

theorem IsDone.grown {site : Site} {s t : Session} {done new : List Path} (h : IsDone s done)
    (hgrown : Grown site s t new) : IsDone t (done ++ new) := by
  intro p
  rw [List.mem_append]
  by_cases hp : p ∈ new
  · exact iff_of_true (hgrown.done p hp) (.inr hp)
  · rw [hgrown.kept p hp, h p]
    exact ⟨.inl, fun hor ↦ hor.resolve_right hp⟩

theorem IsDone.begun {s : Session} {done : List Path} {k : Path} (h : IsDone s done)
    (hmark : s.marks.get? k = none) : IsDone (begun k s) done := by
  intro p
  rw [get?_marks_begun]
  by_cases hkp : k = p
  · rw [if_pos hkp, ← h p, ← hkp, hmark]
    exact iff_of_false (by intro h; cases h) (by intro h; cases h)
  · rw [if_neg hkp]
    exact h p

/-- What is added while some targets are performed, is added in post-order. -/
def Grows (site : Site) (s t : Session) (ks : List Path) : Prop :=
  ∀ done, IsDone s done →
    ∃ new, Grown site s t new ∧ Postorder (Kids site) done ks (done ++ new)

/-- An evaluation of a file that ends well gives its own text and performs its targets. -/
def Visits (site : Site) (eval : Evaluator) (k : Path) : Prop :=
  ∀ v content specs s text t, (∀ data, contentOf site v k content = .ok data →
      site.disk.readText k = .ok data) → specs = chainOf site k →
    eval v k content specs s = .ok text t → ∃ ks, Own site k ks text ∧ Grows site s t ks

theorem grows_of_performs {site : Site} {eval : Evaluator} {v : Viewpoint} {s t : Session}
    {ks : List Path} (hvisits : ∀ k ∈ ks, Visits site eval k)
    (h : Performs eval site v s ks (.ok () t)) : Grows site s t ks := by
  generalize hr : (EStateM.Result.ok () t : EStateM.Result Failure Session Unit) = r at h
  induction h with
  | nil hsame =>
    cases hr
    intro done _
    refine ⟨[], .of_same hsame, ?_⟩
    rw [List.append_nil]
    exact .nil done
  | seen hsame hmark _ ih =>
    intro done hdone
    have hdone' := hdone.of_same hsame
    obtain ⟨new, hgrown, hpost⟩ := ih (fun q hq ↦ hvisits q (List.mem_cons_of_mem _ hq)) hr done hdone'
    exact ⟨new, hgrown.of_same_trans hsame, .seen ((hdone' _).1 hmark) hpost⟩
  | circular => cases hr
  | failed => cases hr
  | @visit s u w k ks text r hsame hmark heval _ ih =>
    intro done hdone
    have hdone' := hdone.of_same hsame
    obtain ⟨kids, hown, hgrows⟩ := hvisits k (List.mem_cons_self ..) _ _ _ _ _ _
      (fun _ hdata ↦ readText_of_contentOf hdata) rfl heval
    obtain ⟨below, hbelow, hpost⟩ := hgrows done (hdone'.begun hmark)
    have hvisit := Grown.visit hmark ⟨kids, hown⟩ hbelow
    obtain ⟨new, hnew, hrest⟩ := ih (fun q hq ↦ hvisits q (List.mem_cons_of_mem _ hq)) hr _
      (hdone'.grown hvisit)
    refine ⟨below ++ [k] ++ new, (hvisit.trans hnew).of_same_trans hsame, ?_⟩
    have hk : k ∉ done := by
      intro hk
      have hmarked := (hdone' k).2 hk
      rw [hmark] at hmarked
      cases hmarked
    rw [← List.append_assoc] at hrest
    rw [← List.append_assoc, ← List.append_assoc]
    exact .visit hk ⟨text, hown⟩ hpost hrest

/-- Every processor of a file and of all files that it needs can be followed. -/
def HasAdmissibleChains (site : Site) (path : Path) : Prop :=
  ∀ p, Relation.ReflTransGen (Edge site) path p → ∀ spec ∈ chainOf site p, IsAdmissible site p spec

theorem visits_evaluateWithin {site : Site} (depth : Nat) {path : Path}
    (hchains : HasAdmissibleChains site path) : Visits site (evaluateWithin site depth) path := by
  induction depth generalizing path with
  | zero =>
    intro v content specs s text t _ _ h
    cases h
  | succ depth ih =>
    intro v content specs s text t hcontent hspecs h
    unfold evaluateWithin at h
    obtain ⟨data, u, hread, hnested⟩ := bind_eq_ok.1 h
    obtain ⟨hdata, rfl⟩ := ofExcept_eq_ok.1 hread
    obtain ⟨w, hrun, rfl⟩ := nested_ok hnested
    rw [hspecs] at hrun
    obtain ⟨ks, hprocessed, hperforms⟩ :=
      processed_of_runSpecs (expandsImports_evaluateWithin site depth) (hchains path .refl) hrun
    have hown : Own site path ks text := ⟨data, hcontent data hdata, hprocessed⟩
    have hgrows : Grows site (entered path u) w ks := by
      refine grows_of_performs (fun k hk ↦ ih fun p hp ↦ hchains p ?_) hperforms
      exact .head ⟨ks, ⟨text, hown⟩, hk⟩ hp
    refine ⟨ks, hown, fun done hdone ↦ ?_⟩
    obtain ⟨new, hnew, hpost⟩ := hgrows done hdone
    refine ⟨new, hnew.of_entered, hpost⟩

/-- A text is made of the own texts of all files that a file needs, in the post-order of the graph of
requirements, and of its own text. Paths that lead to one place are one path. -/
structure Assembles (site : Site) (path : Path) (order : List Path) (text : String) : Prop where
  postorder : Postorder (Kids site) [] [path] (order ++ [path])
  nodup : (order ++ [path]).Nodup
  precedes : ∀ p ∈ order ++ [path], ∀ k, Edge site p k →
    (order ++ [path]).idxOf k < (order ++ [path]).idxOf p
  distinct : ∀ p ∈ order ++ [path], ∀ q ∈ order ++ [path],
    site.disk.locate p = site.disk.locate q → p = q
  text : ∃ texts own, List.Forall₂ (OwnText site) order texts ∧ OwnText site path own ∧
    text = "\n".intercalate texts ++ own

/-- Canonical paths of files are told apart by the places that they lead to. -/
theorem eq_of_locate_eq {site : Site} {p q : Path} {data : String} (hp : p.IsCanonical)
    (hq : q.IsCanonical) (hread : site.disk.readText p = .ok data)
    (h : site.disk.locate p = site.disk.locate q) : p = q := by
  obtain ⟨bytes, hbytes⟩ := Disk.readBytes_of_readText hread
  obtain ⟨place, hplace, -⟩ := Disk.readBytes_eq_ok.1 hbytes
  have hnames : ∀ r : Path, r.IsCanonical → site.disk.locate r = .ok place → r.names = place :=
    fun r hr hlocate ↦ (hr.place_eq site.disk.here).symm.trans (Disk.locate_eq_place hlocate).symm
  rw [hp.eq_absolute, hq.eq_absolute, hnames p hp hplace, hnames q hq (h ▸ hplace)]

theorem ownText_of_postorder {site : Site} {todo order : List Path}
    (h : Postorder (Kids site) [] todo order) {p : Path} (hp : p ∈ order) :
    ∃ text, OwnText site p text := by
  rcases h.kids_precede hp with hnil | ⟨_, _, ks, _, ⟨text, hown⟩, _⟩
  · exact absurd hnil List.not_mem_nil
  · exact ⟨text, ks, hown⟩

/-- What a build that ends well leaves in its session. -/
theorem postorder_of_build {site : Site} {path : Path} (hchains : HasAdmissibleChains site path)
    {own : String} {t : Session} (h : site.build path = .ok own t) :
    ∃ order, Grown site (forAsset path) t order ∧ OwnText site path own ∧
      Postorder (Kids site) [] [path] (order ++ [path]) := by
  unfold Site.build Asset.evaluation at h
  obtain ⟨data, u, hread, hrun⟩ := bind_eq_ok.1 h
  obtain ⟨hdata, rfl⟩ := ofExcept_eq_ok.1 hread
  obtain ⟨kids, hown, hgrows⟩ := visits_evaluateWithin _ hchains _ (some data) _ _ _ _
    (fun _ hcontent ↦ Except.ok.inj hcontent ▸ hdata) rfl hrun
  have hnone : IsDone (forAsset path) [] := by
    intro p
    rw [get?_marks_forAsset]
    by_cases hp : path = p
    · rw [if_pos hp]
      exact iff_of_false (by intro h; cases h) List.not_mem_nil
    · rw [if_neg hp]
      exact iff_of_false (by intro h; cases h) List.not_mem_nil
  obtain ⟨order, hgrown, hpost⟩ := hgrows [] hnone
  exact ⟨order, hgrown, ⟨kids, hown⟩, .visit List.not_mem_nil ⟨own, hown⟩ hpost (.nil _)⟩

theorem assembles_of_build {site : Site} (hs : site.IsProper) {path : Path} (hpath : path.IsCanonical)
    (hchains : HasAdmissibleChains site path) {own : String} {t : Session}
    (h : site.build path = .ok own t) :
    ∃ order, Assembles site path order (Asset.assemble t.included own) := by
  obtain ⟨order, hgrown, hown, hpost⟩ := postorder_of_build hchains h
  have hself : path ∉ order := by
    intro hmem
    have hmark := hgrown.fresh path hmem
    rw [get?_marks_forAsset, if_pos rfl] at hmark
    cases hmark
  have hnodup : (order ++ [path]).Nodup :=
    hgrown.nodup.append (List.nodup_singleton path) (List.disjoint_singleton.2 hself)
  have hcanonical : ∀ p ∈ order ++ [path], p.IsCanonical := by
    intro p hp
    rcases hpost.reached hp with hnil | ⟨q, hq, hreach⟩
    · exact absurd hp (absurd hnil List.not_mem_nil)
    · rw [List.mem_singleton.1 hq] at hreach
      exact isCanonical_of_reached hs hpath hreach
  refine ⟨order, hpost, hnodup, ?_, ?_, ?_⟩
  · intro p hp k hk
    exact hpost.idxOf_lt (fun _ _ _ hks hls ↦ hks.unique hls) hnodup hp hk
  · intro p hp q hq hlocate
    obtain ⟨_, _, data, hread, -⟩ := ownText_of_postorder hpost hp
    exact eq_of_locate_eq (hcanonical p hp) (hcanonical q hq) hread hlocate
  · obtain ⟨texts, htexts, hincluded⟩ := hgrown.included
    refine ⟨texts, own, htexts, hown, ?_⟩
    rw [hincluded]
    rfl

/-- The body of an asset is assembled in the post-order of its requirements, which is the only one. -/
theorem body_in_postorder {site : Site} (hs : site.IsProper) {logical : String} {a : Asset}
    (ha : site.getAsset logical = .ok a) (hchains : HasAdmissibleChains site a.path) {text : String}
    {t : Asset.State} (h : Asset.body ⟨site, a⟩ = .ok text t) :
    ∃ order, Assembles site a.path order text ∧
      ∀ other, Postorder (Kids site) [] [a.path] other → other = order ++ [a.path] := by
  obtain ⟨path, hpath, hmade⟩ := except_bind_eq_ok.1 ha
  have hasset : a = Asset.ofFile path (some logical) := (Except.ok.inj hmade).symm
  rw [hasset] at h hchains ⊢
  obtain ⟨own, u, hbuild, rfl⟩ := Site.bodyOf_eq_ok.1 (Asset.bodyOf_of_body rfl h)
  obtain ⟨order, hassembles⟩ :=
    assembles_of_build hs (Site.isCanonical_of_getFile hs hpath) hchains hbuild
  exact ⟨order, hassembles,
    fun other hother ↦ hother.unique hassembles.postorder fun _ _ _ hks hls ↦ hks.unique hls⟩

/-- The standard processors can be followed wherever a build leads. -/
theorem hasAdmissibleChains_of_isStandard {site : Site} (h : IsStandard site.pipeline) (path : Path) :
    HasAdmissibleChains site path := fun _ _ _ hspec ↦ isAdmissible_of_isStandard h hspec

theorem isStandard_sample (environment : String) (sources published : Node.Entries) :
    IsStandard (Site.sample environment sources published).pipeline where
  directives := rfl
  processors := by
    intro spec hspec
    change spec ∈ [⟨.imports, []⟩, ⟨.directives, []⟩, ⟨.directives, []⟩, ⟨.less, []⟩,
      ⟨.safetyColons, []⟩, ⟨.cssCompressor, []⟩, ⟨.jsCompressor, []⟩] at hspec
    simp only [List.mem_cons, List.not_mem_nil, or_false] at hspec
    rcases hspec with rfl | rfl | rfl | rfl | rfl | rfl | rfl <;> simp [Library.allProcessors]

/-- A menu and tools that share a file, which they spell in two ways. The tools are required with their
folder only. -/
def toolbox : Site :=
  Site.sample "local" [
    ("app.js", .file "//= require ./menu\n//= require_tree lib\nApp();\n".toUTF8 1),
    ("menu.js", .file "//= require base\nMenu();\n".toUTF8 1),
    ("base.js", .file "Base();\n".toUTF8 1),
    ("lib", .folder 1 [
      ("tools.js", .file "//= require ../lib/../base.js\nTools();\n".toUTF8 1)])] []

theorem toolbox_in_postorder :
    ∃ a t order, toolbox.getAsset "app.js" = .ok a ∧
      Asset.body ⟨toolbox, a⟩ = .ok "Base();\n\n\nMenu();\n\n\nTools();\n\n\nApp();\n" t ∧
      Assembles toolbox a.path order "Base();\n\n\nMenu();\n\n\nTools();\n\n\nApp();\n" := by
  have ha : toolbox.getAsset "app.js" =
      .ok (.ofFile (.absolute ["src", "app.js"]) (some "app.js")) :=
    eq_ok_of_toOption (by decide +kernel)
  have hbody := eq_ok_of_result? (r := Asset.body ⟨toolbox, _⟩)
    (a := "Base();\n\n\nMenu();\n\n\nTools();\n\n\nApp();\n")
    (by decide +kernel : result? (Asset.body
      ⟨toolbox, .ofFile (.absolute ["src", "app.js"]) (some "app.js")⟩) = _)
  obtain ⟨order, hassembles, -⟩ := body_in_postorder (Site.isProper_sample ..) ha
    (hasAdmissibleChains_of_isStandard (isStandard_sample ..) _) hbody
  exact ⟨_, _, order, ha, hbody, hassembles⟩

end AssetBundler.Session
