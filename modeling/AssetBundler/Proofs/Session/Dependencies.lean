import AssetBundler.Proofs.Session.Contents
import AssetBundler.Proofs.Session.Gathering

/-!
# The dependencies of a build

Processors gather what they ask for, and so do evaluations of any depth. Main statement: the dependencies
of an asset that was built are the files that it requires, directly or over others, and what it and these
files count otherwise: the targets of dependencies, the folders that are required, the files that imports
reach and the files whose bytes are inlined. All of them are canonical, and no other file but the asset
itself is read: whatever else is changed in what files hold, the asset is built to the same
(`dependencies_exact`).
-/

namespace AssetBundler

namespace Session

open AssetBundler.Action Relation

section Processors

variable {eval : Evaluator} {site : Site} {path : Path} {spec : Spec} {data : String}

/-- Directives gather what they ask for. -/
theorem collects_runDirectives (hs : site.IsProper) (hpath : path.IsProper)
    (heval : EvalGathers site eval) {own : Option DirectiveTable}
    (hstep : spec.processor.step = .directives own) :
    Collects site {q | SpecRequires site path spec data q} {q | SpecCounts site path spec data q}
      (runDirectives eval site (some ⟨some path⟩) own (some path) data) := by
  refine Collects.ofExcept_bind fun parsed hparsed ↦ ?_
  let table := directiveTable site (some ⟨some path⟩) own
  have hdirective : ∀ d ∈ parsed.directives, Collects site
      {q | ∃ requests, table.requests (some path) d = .ok requests ∧
        ∃ request ∈ requests, q ∈ requestRequires site path request}
      {q | ∃ requests, table.requests (some path) d = .ok requests ∧
        ∃ request ∈ requests, q ∈ {q | RequestCounts site path request q}}
      (runDirective eval site (some ⟨some path⟩) table (some path) d) := by
    intro d _
    refine Collects.ofExcept_bind fun requests hrequests ↦ ?_
    have hlogs : Collects site ∅ ∅ (logDirective (some path) d) := by
      rintro s _ t ⟨⟩
      exact .of_same rfl rfl
    refine (hlogs.bind fun _ ↦
      Collects.forM fun request _ ↦ collects_fulfil hs hpath heval request).congr ?_ ?_ <;>
      ext q <;> simp [hrequests]
  refine ((Collects.forM hdirective).bind_left fun _ ↦ .pure _).congr ?_ ?_
  · ext q
    constructor
    · rintro ⟨d, hd, requests, hrequests, request, hrequest, hq⟩
      exact ⟨request, ⟨own, parsed, hstep, hparsed, d, hd, requests, hrequests, hrequest⟩, hq⟩
    · rintro ⟨request, ⟨own', parsed', hstep', hparsed', d, hd, requests, hrequests, hrequest⟩, hq⟩
      cases hstep.symm.trans hstep'
      cases hparsed.symm.trans hparsed'
      exact ⟨d, hd, requests, hrequests, request, hrequest, hq⟩
  · ext q
    constructor
    · rintro ⟨d, hd, requests, hrequests, request, hrequest, hq⟩
      exact .asked ⟨own, parsed, hstep, hparsed, d, hd, requests, hrequests, hrequest⟩ hq
    · intro h
      cases h with
      | asked hasks hq =>
        obtain ⟨own', parsed', hstep', hparsed', d, hd, requests, hrequests, hrequest⟩ := hasks
        cases hstep.symm.trans hstep'
        cases hparsed.symm.trans hparsed'
        exact ⟨d, hd, requests, hrequests, _, hrequest, hq⟩
      | imported hstep' => cases hstep.symm.trans hstep'
      | inlined hstep' => cases hstep.symm.trans hstep'

/-- The processor of imports requires nothing and counts the files that the imports reach. -/
theorem requiredFrom_imports (k : Path) (text : String) :
    requiredFrom site k [⟨.imports, []⟩] text = ∅ := by
  unfold requiredFrom
  rw [askedFrom_singleton]
  exact specRequires_eq_empty (fun _ ↦ Step.noConfusion) text

theorem countedFrom_imports {k : Path} {text : String} (htext : site.disk.readText k = .ok text) :
    countedFrom site k [⟨.imports, []⟩] text = {q | TransGen (ImportEdge site) k q} := by
  unfold countedFrom
  rw [askedFrom_singleton]
  ext q
  constructor
  · intro h
    cases h with
    | asked hasks =>
      obtain ⟨own, parsed, hstep, -⟩ := hasks
      cases hstep
    | imported _ hname htarget hreach => exact .head' ⟨text, htext, _, hname, htarget⟩ hreach
    | inlined hstep => cases hstep
  · intro h
    obtain ⟨first, ⟨text', htext', name, hname, htarget⟩, hreach⟩ := TransGen.head'_iff.1 h
    cases htext.symm.trans htext'
    exact .imported rfl hname htarget hreach

/-- A file that is imported is counted, and so is every file that its imports reach. -/
theorem collects_includeFile (hs : site.IsProper) (hpath : path.IsProper)
    (heval : EvalGathers site eval) {name : String} {found : Path}
    (htarget : importTarget site path name = .ok (some found)) :
    Collects site ∅ {q | ReflTransGen (ImportEdge site) found q}
      (includeFile eval site ⟨some path⟩ found) := by
  obtain ⟨hfound, hfile⟩ := importTarget_eq_some.1 htarget
  have hcanonical : found.IsCanonical :=
    Viewpoint.isCanonical_of_resolve hs (fun p hp ↦ Option.some.inj hp ▸ hpath) hfound
  have hrequire := Viewpoint.require_of_isFile (v := ⟨some path⟩) hcanonical hfile
  intro s out t h
  obtain ⟨u, text, hcounted, htext, -⟩ := exists_of_includeFile h
  obtain ⟨data, hdata, hgathers⟩ := heval _ _ _ _ _ _ hcanonical.proper htext
  rw [requiredFrom_imports, countedFrom_imports hdata] at hgathers
  have hall := (collects_dependOn hrequire s _ u hcounted).trans hgathers
  rw [Set.empty_union] at hall
  convert hall using 1
  ext q
  exact reflTransGen_iff_eq_or_transGen

theorem collects_expandImport (hs : site.IsProper) (hpath : path.IsProper)
    (heval : EvalGathers site eval) (name : String) (source : List Char) :
    Collects site ∅ {q | ∃ first, importTarget site path name = .ok (some first) ∧
      ReflTransGen (ImportEdge site) first q}
      (expandImport eval site ⟨some path⟩ name source) := by
  rw [expandImport_eq]
  refine Collects.ofExcept_bind fun found? htarget ↦ ?_
  cases found? with
  | none => exact (Collects.pure source).congr rfl (by ext; simp [htarget])
  | some found =>
    exact (collects_includeFile hs hpath heval htarget).congr rfl (by ext; simp [htarget])

theorem collects_expandImports (hs : site.IsProper) (hpath : path.IsProper)
    (heval : EvalGathers site eval) (hstep : spec.processor.step = .expandImports) :
    Collects site {q | SpecRequires site path spec data q} {q | SpecCounts site path spec data q}
      (expandImports eval site ⟨some path⟩ data) := by
  have hpiece : ∀ piece ∈ Stylesheet.imports data, Collects site ∅
      {q | ∃ name source, piece = .found name source ∧ ∃ first,
        importTarget site path name = .ok (some first) ∧ ReflTransGen (ImportEdge site) first q}
      (expandPiece eval site ⟨some path⟩ piece) := by
    intro piece _
    cases piece with
    | plain c => exact (Collects.pure [c]).congr rfl (by ext; simp)
    | found name source =>
      exact (collects_expandImport hs hpath heval name source).congr rfl (by ext; simp)
  rw [specRequires_eq_empty (by rw [hstep]; exact fun _ ↦ Step.noConfusion)]
  refine ((Collects.mapM hpiece).bind_left fun _ ↦ .pure _).congr rfl ?_
  ext q
  constructor
  · rintro ⟨_, hmem, name, source, rfl, first, htarget, hreach⟩
    exact .imported hstep (mem_importedNames.2 ⟨source, hmem⟩) htarget hreach
  · intro h
    cases h with
    | asked hasks =>
      obtain ⟨own, parsed, hstep', -⟩ := hasks
      cases hstep.symm.trans hstep'
    | imported _ hname htarget hreach =>
      obtain ⟨source, hmem⟩ := mem_importedNames.1 hname
      exact ⟨_, hmem, _, source, rfl, _, htarget, hreach⟩
    | inlined hstep' => cases hstep.symm.trans hstep'

theorem collects_fragmentText (site : Site) (path : Path) (fragment : Fragment) :
    Collects site ∅ {q | ∃ name, fragment = .dataUri name ∧
      Viewpoint.requireFile ⟨some path⟩ site name = .ok q}
      (fragmentText site (some ⟨some path⟩) fragment) := by
  cases fragment with
  | text s => exact (Collects.pure s).congr rfl (by ext; simp)
  | dataUri name => exact (collects_dataUri site ⟨some path⟩ name).congr rfl (by ext; simp)
  | raised e =>
    rintro s text t h
    cases h

/-- A processor of one's own counts the files whose bytes it asks for. -/
theorem collects_custom {run : Value.Fields → Option String → String → List Fragment}
    (hstep : spec.processor.step = .custom run) :
    Collects site {q | SpecRequires site path spec data q} {q | SpecCounts site path spec data q}
      ((run spec.options (some path.name) data).mapM (fragmentText site (some ⟨some path⟩))) := by
  rw [specRequires_eq_empty (by rw [hstep]; exact fun _ ↦ Step.noConfusion)]
  refine (Collects.mapM fun fragment _ ↦ collects_fragmentText site path fragment).congr rfl ?_
  ext q
  constructor
  · rintro ⟨_, hmem, name, rfl, hq⟩
    exact .inlined hstep hmem hq
  · intro h
    cases h with
    | asked hasks =>
      obtain ⟨own, parsed, hstep', -⟩ := hasks
      cases hstep.symm.trans hstep'
    | imported hstep' => cases hstep.symm.trans hstep'
    | inlined hstep' hmem hq =>
      cases hstep.symm.trans hstep'
      exact ⟨_, hmem, _, rfl, hq⟩

theorem specCounts_eq_empty (hsilent : IsSilent spec) :
    {q | SpecCounts site path spec data q} = ∅ := by
  refine Set.eq_empty_iff_forall_notMem.2 fun q h ↦ ?_
  cases h with
  | asked hasks =>
    obtain ⟨own, parsed, hstep, -⟩ := hasks
    exact hsilent.1.1 own hstep
  | imported hstep => exact hsilent.1.2 hstep
  | inlined hstep => exact hsilent.2 _ hstep

theorem fragmentValue_of_ok {v : Viewpoint} {fragment : Fragment} {text : String} {s t : Session}
    (h : fragmentText site (some v) fragment s = .ok text t) :
    fragmentValue site v fragment = .ok text := by
  cases fragment with
  | text _ =>
    cases h
    rfl
  | raised e => cases h
  | dataUri name =>
    change dataUri site v name s = .ok text t at h
    obtain ⟨found, u, hfound, h⟩ := bind_eq_ok.1 h
    obtain ⟨_, w, -, h⟩ := bind_eq_ok.1 h
    obtain ⟨bytes, x, hbytes, h⟩ := bind_eq_ok.1 h
    cases h
    refine except_bind_eq_ok.2 ⟨found, (ofExcept_eq_ok.1 hfound).1, ?_⟩
    exact except_bind_eq_ok.2 ⟨bytes, (ofExcept_eq_ok.1 hbytes).1, rfl⟩

theorem fragmentValues_of_ok {v : Viewpoint} {fragments : List Fragment} {texts : List String}
    {s t : Session} (h : fragments.mapM (fragmentText site (some v)) s = .ok texts t) :
    fragments.mapM (fragmentValue site v) = .ok texts := by
  induction fragments generalizing s texts with
  | nil =>
    cases h
    rfl
  | cons fragment fragments ih =>
    rw [List.mapM_cons] at h ⊢
    obtain ⟨text, u, htext, h⟩ := bind_eq_ok.1 h
    obtain ⟨rest, w, hrest, h⟩ := bind_eq_ok.1 h
    cases h
    refine except_bind_eq_ok.2 ⟨text, fragmentValue_of_ok htext, ?_⟩
    exact except_bind_eq_ok.2 ⟨rest, ih hrest, rfl⟩

/-- A processor that ends well makes a text, whatever build is running, and gathers what it asks for. -/
theorem runSpec_ok (hs : site.IsProper) (hpath : path.IsProper) (heval : EvalGathers site eval)
    (hexpands : ExpandsImports site eval) {s t : Session} {out : String}
    (h : runSpec eval site (some ⟨some path⟩) (some path) spec data s = .ok out t) :
    Makes site path spec data out ∧
      Gathers site {q | SpecRequires site path spec data q} {q | SpecCounts site path spec data q}
        s t := by
  by_cases hsilent : IsSilent spec
  · have hplain : LeavesSession site path spec :=
      leavesSession_of_isPlain hsilent.1 fun run hrun ↦ absurd hrun (hsilent.2 run)
    obtain ⟨-, hleaves⟩ := hplain
    obtain ⟨r, hr⟩ := hleaves data
    rw [hr] at h
    obtain ⟨hout, rfl⟩ := ofExcept_eq_ok.1 h
    rw [specRequires_eq_empty hsilent.1.1, specCounts_eq_empty hsilent]
    refine ⟨.silent hsilent fun eval s ↦ ?_, .refl site t⟩
    rw [hr]
    exact ofExcept_ok hout s
  · cases hstep : spec.processor.step with
    | directives own =>
      have h := runDirectives_of_runSpec hstep h
      have hgathers := collects_runDirectives hs hpath heval hstep s out t h
      obtain ⟨parsed, u, hparsed, h⟩ := bind_eq_ok.1 h
      obtain ⟨_, w, -, h⟩ := bind_eq_ok.1 h
      cases h
      exact ⟨.directives hstep (ofExcept_eq_ok.1 hparsed).1, hgathers⟩
    | expandImports =>
      unfold runSpec at h
      rw [hstep] at h
      obtain ⟨-, pieces, hpieces, rfl⟩ := expandImports_ok hexpands h
      exact ⟨.imports hstep hpieces, collects_expandImports hs hpath heval hstep s _ t h⟩
    | custom run =>
      unfold runSpec at h
      rw [hstep] at h
      obtain ⟨texts, u, htexts, h⟩ := bind_eq_ok.1 h
      cases h
      exact ⟨.custom hstep (fragmentValues_of_ok htexts), collects_custom hstep s texts t htexts⟩
    | _ =>
      refine absurd ⟨⟨fun own ↦ ?_, ?_⟩, fun run ↦ ?_⟩ hsilent <;> simp [hstep]

theorem gathers_runSpecs (hs : site.IsProper) (hpath : path.IsProper)
    (heval : EvalGathers site eval) (hexpands : ExpandsImports site eval) {specs : List Spec}
    {s t : Session} {out : String} (h : runSpecs eval site path data specs s = .ok out t) :
    Gathers site (requiredFrom site path specs data) (countedFrom site path specs data) s t := by
  unfold requiredFrom countedFrom
  induction specs generalizing data s with
  | nil =>
    cases h
    rw [askedFrom_nil, askedFrom_nil]
    exact .refl site t
  | cons spec specs ih =>
    unfold runSpecs at h
    rw [List.foldlM_cons] at h
    obtain ⟨next, u, hfirst, hrest⟩ := bind_eq_ok.1 h
    obtain ⟨hmakes, hgathers⟩ := runSpec_ok hs hpath heval hexpands hfirst
    rw [askedFrom_cons hmakes, askedFrom_cons hmakes]
    exact hgathers.trans (ih hrest)

end Processors

/-! ## Builds -/

theorem gathers_nested {site : Site} {R C : Set Path} {path : Path} {inner : Action String}
    (hinner : Collects site R C inner) : Collects site R C (nested path inner) := by
  intro s text t h
  obtain ⟨u, hrun, rfl⟩ := nested_ok h
  exact (hinner _ _ _ hrun).of_entered

theorem collects_evaluateWithin {site : Site} (hs : site.IsProper) (depth : Nat) :
    EvalGathers site (evaluateWithin site depth) := by
  induction depth with
  | zero =>
    intro v k specs s text t _ h
    cases h
  | succ depth ih =>
    intro v k specs s text t hk h
    unfold evaluateWithin at h
    obtain ⟨data, u, hcontent, hnested⟩ := bind_eq_ok.1 h
    obtain ⟨hdata, rfl⟩ := ofExcept_eq_ok.1 hcontent
    refine ⟨data, readText_of_contentOf hdata, ?_⟩
    exact gathers_nested (fun _ _ _ hrun ↦ gathers_runSpecs hs hk ih
      (expandsImports_evaluateWithin site depth) hrun) _ _ _ hnested

/-- A build gathers what its file requires and counts. -/
theorem gathers_build {site : Site} (hs : site.IsProper) {path : Path} (hpath : path.IsCanonical)
    {own : String} {t : Session} (h : site.build path = .ok own t) :
    Gathers site {q | Requires site path q} {q | Counts site path q} (forAsset path) t := by
  obtain ⟨data, u, hread, hrun⟩ := bind_eq_ok.1 h
  obtain ⟨hdata, rfl⟩ := ofExcept_eq_ok.1 hread
  let depth := 2 * site.disk.fileCount + 3
  change nested path (runSpecs (evaluateWithin site depth) site path data (chainOf site path))
    (forAsset path) = .ok own t at hrun
  have hgathers := gathers_nested (fun _ _ _ hrun ↦ gathers_runSpecs hs hpath.proper
    (collects_evaluateWithin hs depth) (expandsImports_evaluateWithin site depth) hrun) _ _ _ hrun
  convert hgathers using 1
  · ext q
    exact requires_iff hdata
  · ext q
    exact counts_iff hdata

section Exact

variable {site : Site} {path : Path} {own : String} {t : Session}

/-- The files that are done at the end are those that are reached by requirements. -/
theorem done_iff_of_build (hs : site.IsProper) (hpath : path.IsCanonical)
    (h : site.build path = .ok own t) (q : Path) :
    BecomesDone (forAsset path) t q ↔ TransGen (Requires site) path q := by
  have hgathers := gathers_build hs hpath h
  have hbecomes : ∀ k, t.marks.get? k = some .done → BecomesDone (forAsset path) t k := by
    refine fun k hk ↦ ⟨hk, ?_⟩
    rw [get?_marks_forAsset]
    by_cases hpk : path = k
    · rw [if_pos hpk]
      intro h
      cases h
    · rw [if_neg hpk]
      intro h
      cases h
  constructor
  · intro hq
    obtain ⟨r, hr, hreach⟩ := hgathers.reached q hq
    exact .head' hr hreach
  · intro hq
    induction hq with
    | single hq => exact hbecomes _ (hgathers.performed _ hq)
    | tail _ hq ih => exact hbecomes _ (hgathers.closed _ ih _ hq)

/-- What a build counts is what is reached by requirements, and what the file itself and the files that
are reached count otherwise. -/
theorem mem_dependencies_of_build (hs : site.IsProper) (hpath : path.IsCanonical)
    (h : site.build path = .ok own t) (q : Path) :
    q ∈ t.dependencies ↔ TransGen (Requires site) path q ∨
      ∃ p, ReflTransGen (Requires site) path p ∧ Counts site p q := by
  obtain ⟨new, hnew, hmem⟩ := (gathers_build hs hpath h).dependencies
  have hstart : t.dependencies = new := hnew.trans (List.nil_append new)
  rw [hstart, hmem]
  simp only [Adds, done_iff_of_build hs hpath h, reflTransGen_iff_eq_or_transGen, or_and_right,
    exists_or, exists_eq_left, Set.mem_ofPred_eq]
  exact or_left_comm

end Exact

/-! ## Canonical dependencies -/

section Canonical

variable {site : Site} {p q : Path}

theorem isCanonical_of_requireFile (hs : site.IsProper) {v : Viewpoint}
    (hv : ∀ p, v.path = some p → p.IsProper) {name : String}
    (h : v.requireFile site name = .ok q) : q.IsCanonical := by
  obtain ⟨found, hfound, h⟩ := except_bind_eq_ok.1 h
  obtain ⟨isFile, -, h⟩ := except_bind_eq_ok.1 h
  cases isFile with
  | false => cases h
  | true =>
    cases h
    exact isCanonical_of_require hs hv hfound

theorem isCanonical_of_requires (hs : site.IsProper) (hp : p.IsProper) (h : Requires site p q) :
    q.IsCanonical := by
  obtain ⟨_, -, _, _, -, request, -, ks, hks, hq⟩ := h
  exact isCanonical_of_requestTargets hs (fun _ h ↦ Option.some.inj h ▸ hp) hks q hq

theorem isCanonical_of_counts (hs : site.IsProper) (hp : p.IsProper) (h : Counts site p q) :
    q.IsCanonical := by
  have hview : ∀ r, some p = some r → r.IsProper := fun _ h ↦ Option.some.inj h ▸ hp
  obtain ⟨_, -, _, _, -, hcounts⟩ := h
  cases hcounts with
  | asked _ hq =>
    cases hq with
    | dependOn hq => exact isCanonical_of_require hs hview hq
    | requireTree hq => exact Viewpoint.isCanonical_of_resolve hs hview hq
    | note _ hq => exact isCanonical_of_requireFile hs hview hq
  | imported _ _ htarget hreach =>
    obtain ⟨hfound, hfile⟩ := importTarget_eq_some.1 htarget
    have hfirst := Viewpoint.isCanonical_of_resolve hs hview hfound
    exact (isCanonical_and_isFile_of_reached hs hfirst hfile hreach).1
  | inlined _ _ hq => exact isCanonical_of_requireFile hs hview hq

theorem isCanonical_of_requires_reached (hs : site.IsProper) (hp : p.IsCanonical)
    (h : ReflTransGen (Requires site) p q) : q.IsCanonical := by
  induction h with
  | refl => exact hp
  | tail _ hq ih => exact isCanonical_of_requires hs ih.proper hq

end Canonical

/-- The dependencies of an asset that was built are what it requires and what it and the files that it
requires count otherwise. They are canonical, and changing what other files hold changes nothing. -/
theorem dependencies_exact {site : Site} (hs : site.IsProper) {logical : String} {a : Asset}
    (ha : site.getAsset logical = .ok a) {text : String} {t : Asset.State}
    (hbody : Asset.body ⟨site, a⟩ = .ok text t) :
    (∀ q, q ∈ t.asset.dependencies ↔ TransGen (Requires site) a.path q ∨
      ∃ p, ReflTransGen (Requires site) a.path p ∧ Counts site p q) ∧
      (∀ q ∈ t.asset.dependencies, q.IsCanonical) ∧
      ∀ f : List String → ByteArray → ByteArray,
        (∀ q ∈ a.path :: t.asset.dependencies, ∀ bytes, f q.names bytes = bytes) →
        Asset.body ⟨site.onDisk (site.disk.withContents f), a⟩ =
          .ok text ⟨t.site.onDisk (site.disk.withContents f), t.asset⟩ := by
  obtain ⟨path, hpath, hmade⟩ := except_bind_eq_ok.1 ha
  have hasset : a = Asset.ofFile path (some logical) := (Except.ok.inj hmade).symm
  subst hasset
  have hcanonical := Site.isCanonical_of_getFile hs hpath
  rcases hbuild : site.build path with ⟨own, u⟩ | ⟨e, u⟩
  · have hbody' := Asset.body_of_build_ok
      (s := ⟨site, .ofFile path (some logical)⟩) rfl hbuild
    cases hbody.symm.trans hbody'
    have hmem := mem_dependencies_of_build hs hcanonical hbuild
    have hall : ∀ q ∈ u.dependencies, q.IsCanonical := by
      intro q hq
      rcases (hmem q).1 hq with hreach | ⟨p, hreach, hcounts⟩
      · exact isCanonical_of_requires_reached hs hcanonical hreach.to_reflTransGen
      · exact isCanonical_of_counts hs (isCanonical_of_requires_reached hs hcanonical hreach).proper
          hcounts
    refine ⟨hmem, hall, fun f hf ↦ ?_⟩
    have hsame : ∀ q ∈ path :: u.dependencies,
        ReadsAlike site.disk (site.disk.withContents f) q := by
      intro q hq
      have hcanonicalq : q.IsCanonical := by
        rcases List.mem_cons.1 hq with rfl | hq
        · exact hcanonical
        · exact hall q hq
      refine Disk.readBytes_withContents site.disk fun bytes ↦ ?_
      rw [hcanonicalq.place_eq]
      exact hf q hq bytes
    have hagain := build_of_sameLayout hs (site.disk.sameLayout_withContents f) hcanonical hbuild
      hsame
    exact Asset.body_of_build_ok (s := ⟨site.onDisk (site.disk.withContents f),
      .ofFile path (some logical)⟩) rfl hagain
  · cases hbody.symm.trans (Asset.body_of_build_error
      (s := ⟨site, .ofFile path (some logical)⟩) rfl hbuild)

/-- Puts the bytes of a file after every stylesheet. -/
def inlineDot : Spec :=
  ⟨⟨"InlineProcessor", "inline", .custom fun _ _ data ↦ [.text data, .dataUri "dot.png"]⟩, []⟩

/-- A stylesheet that requires, counts and imports others, over a folder and over each other. -/
def collage : Site :=
  let site := Site.sample "local" [
    ("main.css", .file
      "/*= require list */\n/*= depend_on notes */\n@import \"sizes\";\nmain;\n".toUTF8 1),
    ("list.css", .file "/*= require_tree parts */\nlist;\n".toUTF8 1),
    ("notes.css", .file "notes;\n".toUTF8 1),
    ("other.css", .file "other;\n".toUTF8 1),
    ("sizes.css", .file "@import \"./hues\";\nsizes;\n".toUTF8 1),
    ("hues.css", .file "hues;\n".toUTF8 1),
    ("dot.png", .file "dot".toUTF8 1),
    ("parts", .folder 1 [("one.css", .file "one;\n".toUTF8 1)])] []
  { site with pipeline := { site.pipeline with postprocessors := [(stylesheetType, [inlineDot])] } }

/-- The dependencies of the main stylesheet, in the order in which they are counted. -/
def collageCounted : List Path :=
  [["sizes.css"], ["hues.css"], ["list.css"], ["parts"], ["parts", "one.css"], ["dot.png"],
    ["dot.png"], ["notes.css"], ["dot.png"]].map fun names ↦ .absolute ("src" :: names)

/-- Empties one file. -/
def emptied (place : List String) : List String → ByteArray → ByteArray :=
  fun other bytes ↦ if other = place then .empty else bytes

theorem collage_dependencies : ∃ a text t, collage.getAsset "main.css" = .ok a ∧
    Asset.body ⟨collage, a⟩ = .ok text t ∧
    t.asset.dependencies = collageCounted ∧
    (TransGen (Requires collage) a.path (.absolute ["src", "parts", "one.css"]) ∨
      ∃ p, ReflTransGen (Requires collage) a.path p ∧
        Counts collage p (.absolute ["src", "parts", "one.css"])) ∧
    Asset.body ⟨collage.onDisk (collage.disk.withContents (emptied ["src", "other.css"])), a⟩ =
      .ok text ⟨t.site.onDisk (collage.disk.withContents (emptied ["src", "other.css"])), t.asset⟩ := by
  have ha : collage.getAsset "main.css" =
      .ok (.ofFile (.absolute ["src", "main.css"]) (some "main.css")) :=
    eq_ok_of_toOption (by decide +kernel)
  have hbuild : collage.bodyOf (.absolute ["src", "main.css"]) = .ok
      ("one;\ndata:image/png;base64,ZG90\n\nlist;\ndata:image/png;base64,ZG90" ++
        "\n\nhues;\n\n\nsizes;\n\n\nmain;\ndata:image/png;base64,ZG90") :=
    eq_ok_of_toOption (by decide +kernel)
  have hcounted : (finalState (collage.build (.absolute ["src", "main.css"]))).dependencies =
      collageCounted := by decide +kernel
  obtain ⟨own, u, hok, -⟩ := Site.bodyOf_eq_ok.1 hbuild
  have hbody := Asset.body_of_build_ok
    (s := ⟨collage, .ofFile (.absolute ["src", "main.css"]) (some "main.css")⟩) rfl hok
  rw [hok] at hcounted
  have hs : collage.IsProper := ⟨List.forall_mem_nil _, (Site.isProper_sample "local" [] []).roots⟩
  obtain ⟨hmem, -, hsame⟩ := dependencies_exact hs ha hbody
  refine ⟨_, _, _, ha, hbody, hcounted, (hmem _).1 ?_, hsame _ fun q hq bytes ↦ if_neg ?_⟩
  · change _ ∈ u.dependencies
    rw [show u.dependencies = collageCounted from hcounted]
    decide
  · change q ∈ _ :: u.dependencies at hq
    rw [show u.dependencies = collageCounted from hcounted] at hq
    have hne : ∀ q ∈ Path.absolute ["src", "main.css"] :: collageCounted,
        q.names ≠ ["src", "other.css"] := by decide
    exact hne q hq

end Session

end AssetBundler
