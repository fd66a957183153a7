import AssetBundler.Proofs.Session.Performing

/-!
# Chains of processors in a build

A chain of processors that ends well gives the own text of its file and has performed its targets,
provided each processor runs directives of the default table, expands imports, or does not touch the
session. Imports are evaluations of their own, but leave the build as it is. In the other direction a
chain without imports performs the targets that its reading has, whether that ends well or not.
-/

namespace AssetBundler

/-- All processors that a pipeline has registered. -/
def Pipeline.specs (p : Pipeline) : List Spec :=
  (p.preprocessors ++ p.postprocessors ++ p.compressors).flatMap Prod.snd

namespace Session

open AssetBundler.Action

theorem checkTable_of_not_hidesTable {spec : Spec} (own : Option DirectiveTable) (source : Option Path)
    (data : String) (h : spec.hidesTable = false) : checkTable spec own source data = .ok () := by
  unfold checkTable
  rw [h, Bool.and_false, if_neg Bool.false_ne_true]

/-- A processor that gives the same answer to every session and leaves it as it is. -/
def LeavesSession (site : Site) (path : Path) (spec : Spec) : Prop :=
  IsPlain spec ∧ ∀ data, ∃ r : Except Failure String, ∀ eval s,
    runSpec eval site (some ⟨some path⟩) (some path) spec data s = (ofExcept r : Action String) s

/-- Directives of the default table. -/
def RunsDefaults (site : Site) (spec : Spec) : Prop :=
  ∃ own, spec.processor.step = .directives own ∧ own.getD site.pipeline.directives = .default

def IsAdmissible (site : Site) (path : Path) (spec : Spec) : Prop :=
  RunsDefaults site spec ∨ spec.processor.step = .expandImports ∨ LeavesSession site path spec

section Standard

variable {site : Site} {path : Path} {spec : Spec}

/-- Texts that a custom step makes need no session. -/
theorem fragments_of_texts (site : Site) (v : Option Viewpoint) {fragments : List Fragment}
    (h : ∀ fragment ∈ fragments, ∃ text, fragment = .text text) :
    ∃ texts, ∀ s, (fragments.mapM (fragmentText site v) : Action (List String)) s = .ok texts s := by
  induction fragments with
  | nil => exact ⟨[], fun _ ↦ rfl⟩
  | cons fragment fragments ih =>
    obtain ⟨text, rfl⟩ := h fragment (List.mem_cons_self ..)
    obtain ⟨texts, htexts⟩ := ih fun f hf ↦ h f (List.mem_cons_of_mem _ hf)
    refine ⟨text :: texts, fun s ↦ ?_⟩
    have hfirst : fragmentText site v (.text text) s = .ok text s := rfl
    rw [List.mapM_cons, bind_of_ok hfirst, bind_of_ok (htexts s)]
    rfl

theorem compileNested_leaves (packages : Packages) (path : Path) (minified : Bool) (data : String) :
    ∃ r : Except Failure String, ∀ s,
      compileNested packages minified (some path) data s = (ofExcept r : Action String) s := by
  unfold compileNested
  by_cases hext : (extensionsOf path.name).contains nestedExtension = true
  · simp only [if_pos hext]
    cases packages.compileNested minified data with
    | none => exact ⟨.error (.notCompiled path), fun _ ↦ rfl⟩
    | some text => exact ⟨.ok text, fun _ ↦ rfl⟩
  · simp only [if_neg hext]
    exact ⟨.ok data, fun _ ↦ rfl⟩

/-- A step other than directives and imports leaves the session, if it is none of the custom ones that
ask for the bytes of a file. -/
theorem leavesSession_of_isPlain (hplain : IsPlain spec)
    (hcustom : ∀ run, spec.processor.step = .custom run → ∀ name data,
      ∀ fragment ∈ run spec.options name data, ∃ text, fragment = .text text) :
    LeavesSession site path spec := by
  refine ⟨hplain, fun data ↦ ?_⟩
  unfold runSpec
  cases hstep : spec.processor.step with
  | directives own => exact absurd hstep (hplain.1 own)
  | expandImports => exact absurd hstep hplain.2
  | keep => exact ⟨.ok data, fun _ _ ↦ rfl⟩
  | terminateScript => exact ⟨.ok _, fun _ _ ↦ rfl⟩
  | compactStylesheet => exact ⟨.ok _, fun _ _ ↦ rfl⟩
  | compactScript => exact ⟨.ok _, fun _ _ ↦ rfl⟩
  | publishReferences => exact ⟨.ok _, fun _ _ ↦ rfl⟩
  | callOption => exact ⟨.error .notFunction, fun _ _ ↦ rfl⟩
  | compileNested =>
    obtain ⟨r, hr⟩ := compileNested_leaves site.pipeline.library.packages path (spec.flag "minify") data
    exact ⟨r, fun _ ↦ hr⟩
  | custom run =>
    obtain ⟨texts, htexts⟩ :=
      fragments_of_texts site (some ⟨some path⟩) (hcustom run hstep (some path.name) data)
    refine ⟨.ok ("".intercalate texts), fun _ s ↦ ?_⟩
    exact bind_of_ok (htexts s)

theorem step_of_mem {p : Processor} (h : p ∈ Library.allProcessors) :
    p.step = .directives none ∨ p.step = .expandImports ∨
      (∀ own, p.step ≠ .directives own) ∧ p.step ≠ .expandImports ∧ ∀ run, p.step ≠ .custom run := by
  simp only [Library.allProcessors, List.mem_cons, List.not_mem_nil, or_false] at h
  rcases h with rfl | rfl | rfl | rfl | rfl | rfl | rfl | rfl | rfl
  case inr.inr.inr.inr.inr.inl => exact .inl rfl
  case inr.inr.inr.inr.inr.inr.inl => exact .inr (.inl rfl)
  all_goals
    exact .inr (.inr ⟨fun _ ↦ Step.noConfusion, Step.noConfusion, fun _ ↦ Step.noConfusion⟩)

/-- All processors that come with the pipeline are admissible where its directives are the default. -/
theorem isAdmissible_of_mem (hspec : spec.processor ∈ Library.allProcessors)
    (hdirectives : site.pipeline.directives = .default) : IsAdmissible site path spec := by
  rcases step_of_mem hspec with hstep | hstep | ⟨hnone, himports, hcustom⟩
  · exact .inl ⟨none, hstep, hdirectives⟩
  · exact .inr (.inl hstep)
  · exact .inr (.inr (leavesSession_of_isPlain ⟨hnone, himports⟩ fun run hrun ↦
      absurd hrun (hcustom run)))

/-- The processors that are registered come with the pipeline, and so do the directives. -/
structure IsStandard (p : Pipeline) : Prop where
  directives : p.directives = .default
  processors : ∀ spec ∈ (p.preprocessors ++ p.postprocessors ++ p.compressors).flatMap Prod.snd,
    spec.processor ∈ Library.allProcessors

theorem mem_of_mem_all {r : Registry} {contentType : Option String} (h : spec ∈ r.all contentType) :
    spec ∈ r.flatMap Prod.snd := by
  cases contentType with
  | none => exact absurd h List.not_mem_nil
  | some t =>
    unfold Registry.all at h
    by_cases ht : t = ""
    · simp only [if_pos ht] at h
      exact absurd h List.not_mem_nil
    · simp only [if_neg ht] at h
      unfold Table.get? at h
      cases hfind : List.find? (fun e ↦ decide (e.1 = t)) r with
      | none =>
        rw [hfind] at h
        exact absurd h List.not_mem_nil
      | some entry =>
        rw [hfind] at h
        exact List.mem_flatMap.2 ⟨entry, List.mem_of_find?_eq_some hfind, h⟩

theorem mem_specs_of_mem_chainOf (hspec : spec ∈ chainOf site path) :
    spec ∈ site.pipeline.specs := by
  unfold chainOf Pipeline.processorsFor at hspec
  unfold Pipeline.specs
  rw [List.flatMap_append, List.flatMap_append]
  rcases List.mem_append.1 hspec with hspec | hspec
  · rcases List.mem_append.1 hspec with hspec | hspec
    · exact List.mem_append_left _ (List.mem_append_left _ (mem_of_mem_all hspec))
    · exact List.mem_append_left _ (List.mem_append_right _ (mem_of_mem_all hspec))
  · by_cases hproduction : site.pipeline.inProduction = true
    · rw [if_pos hproduction] at hspec
      exact List.mem_append_right _ (mem_of_mem_all hspec)
    · rw [if_neg hproduction] at hspec
      exact absurd hspec List.not_mem_nil

theorem mem_allProcessors_of_isStandard (hstandard : IsStandard site.pipeline)
    (hspec : spec ∈ chainOf site path) : spec.processor ∈ Library.allProcessors :=
  hstandard.processors spec (mem_specs_of_mem_chainOf hspec)

theorem isAdmissible_of_isStandard (hstandard : IsStandard site.pipeline)
    (hspec : spec ∈ chainOf site path) : IsAdmissible site path spec :=
  isAdmissible_of_mem (mem_allProcessors_of_isStandard hstandard hspec) hstandard.directives

end Standard

/-- The evaluator expands the imports of a file and leaves the build as it is. -/
def ExpandsImports (site : Site) (eval : Evaluator) : Prop :=
  ∀ v found s text t, eval v found none [⟨.imports, []⟩] s = .ok text t → SameBuild s t ∧
    ∃ data pieces, site.disk.readText found = .ok data ∧
      Expands site found (Stylesheet.imports data) pieces ∧ text = String.ofList pieces.flatten

/-- The content of a file that is imported, with a line feed after it. -/
def includeFile (eval : Evaluator) (site : Site) (v : Viewpoint) (found : Path) :
    Action (List Char) := do
  if (← get).chain.contains found then throw (.circular ((← get).chain ++ [found]))
  dependOn site v found.text
  let text ← eval v found none [⟨.imports, []⟩]
  return text.toList ++ ['\n']

section Imports

variable {eval : Evaluator} {site : Site} {path : Path} {s t : Session}

theorem dependOn_ok {v : Viewpoint} {name : String} (h : dependOn site v name s = .ok () t) :
    SameBuild s t := by
  unfold dependOn at h
  obtain ⟨k, u, hk, hcounted⟩ := bind_eq_ok.1 h
  obtain ⟨-, rfl⟩ := ofExcept_eq_ok.1 hk
  rw [← (EStateM.Result.ok.inj hcounted).2]
  exact ⟨rfl, rfl, rfl⟩

/-- What an import that ends well has done. -/
theorem exists_of_includeFile {v : Viewpoint} {found : Path} {out : List Char}
    (h : includeFile eval site v found s = .ok out t) :
    ∃ u text, dependOn site v found.text s = .ok () u ∧
      eval v found none [⟨.imports, []⟩] u = .ok text t ∧ out = text.toList ++ ['\n'] := by
  unfold includeFile at h
  rw [bind_of_ok (get_apply s)] at h
  by_cases hchain : s.chain.contains found = true
  · rw [if_pos hchain] at h
    cases h
  · rw [if_neg hchain] at h
    obtain ⟨_, u, hcounted, h⟩ := bind_eq_ok.1 h
    obtain ⟨text, w, htext, h⟩ := bind_eq_ok.1 h
    cases h
    exact ⟨u, text, hcounted, htext, rfl⟩

theorem includeFile_ok (heval : ExpandsImports site eval) {v : Viewpoint} {found : Path}
    {out : List Char} (h : includeFile eval site v found s = .ok out t) :
    SameBuild s t ∧ ∃ inner, (∃ data, site.disk.readText found = .ok data ∧
      Expands site found (Stylesheet.imports data) inner) ∧ out = inner.flatten ++ ['\n'] := by
  obtain ⟨u, text, hcounted, htext, rfl⟩ := exists_of_includeFile h
  obtain ⟨hsame, data, inner, hdata, hexpands, rfl⟩ := heval _ _ _ _ _ htext
  refine ⟨(dependOn_ok hcounted).trans hsame, inner, ⟨data, hdata, hexpands⟩, ?_⟩
  rw [String.toList_ofList]

theorem expandImport_ok (heval : ExpandsImports site eval) {name : String} {source out : List Char}
    {rest : List (Text.Piece String)} {outs : List (List Char)}
    (h : expandImport eval site ⟨some path⟩ name source s = .ok out t)
    (hrest : Expands site path rest outs) :
    SameBuild s t ∧ Expands site path (.found name source :: rest) (out :: outs) := by
  unfold expandImport at h
  obtain ⟨found?, u, hlookup, h⟩ := bind_eq_ok.1 h
  obtain ⟨hfound, rfl⟩ := ofExcept_eq_ok.1 hlookup
  cases found? with
  | none =>
    cases h
    exact ⟨SameBuild.refl _, .missing name source hfound hrest⟩
  | some found =>
    obtain ⟨isFile, w, hkind, h⟩ := bind_eq_ok.1 h
    obtain ⟨hfile, rfl⟩ := ofExcept_eq_ok.1 hkind
    cases isFile with
    | false =>
      cases h
      exact ⟨SameBuild.refl _, .folder name source hfound hfile hrest⟩
    | true =>
      obtain ⟨hsame, inner, hinner, rfl⟩ := includeFile_ok heval h
      exact ⟨hsame, hinner.elim fun data hdata ↦
        .file name source hfound hfile hdata.1 hdata.2 hrest⟩

theorem expandPieces_ok (heval : ExpandsImports site eval) {pieces : List (Text.Piece String)}
    {outs : List (List Char)}
    (h : pieces.mapM (expandPiece eval site ⟨some path⟩) s = .ok outs t) :
    SameBuild s t ∧ Expands site path pieces outs := by
  induction pieces generalizing s outs with
  | nil =>
    cases h
    exact ⟨SameBuild.refl _, .nil path⟩
  | cons piece pieces ih =>
    rw [List.mapM_cons] at h
    obtain ⟨out, u, hout, h⟩ := bind_eq_ok.1 h
    obtain ⟨rest, w, hrest, h⟩ := bind_eq_ok.1 h
    cases h
    obtain ⟨hsame, hexpands⟩ := ih hrest
    cases piece with
    | plain c =>
      cases hout
      exact ⟨hsame, .plain c hexpands⟩
    | found name source =>
      obtain ⟨hfirst, hall⟩ := expandImport_ok heval hout hexpands
      exact ⟨hfirst.trans hsame, hall⟩

theorem expandImports_ok (heval : ExpandsImports site eval) {data out : String}
    (h : expandImports eval site ⟨some path⟩ data s = .ok out t) :
    SameBuild s t ∧ ∃ pieces, Expands site path (Stylesheet.imports data) pieces ∧
      out = String.ofList pieces.flatten := by
  unfold expandImports at h
  obtain ⟨outs, u, houts, h⟩ := bind_eq_ok.1 h
  cases h
  obtain ⟨hsame, hexpands⟩ := expandPieces_ok heval houts
  exact ⟨hsame, outs, hexpands, rfl⟩

end Imports

/-! ## Evaluations inside evaluations -/

/-- The session in which a file is evaluated. -/
def entered (path : Path) (s : Session) : Session :=
  { s with chain := s.chain ++ [path], dependencies := [], included := [] }

/-- The session around an evaluation that ends well in `t`: what it collected is kept. -/
def returned (s t : Session) : Session :=
  { t with
    chain := s.chain
    dependencies := s.dependencies ++ t.dependencies
    included := s.included ++ t.included }

/-- The session around an evaluation that fails in `t`: what it collected is dropped. -/
def abandoned (s t : Session) : Session :=
  { t with chain := s.chain, dependencies := s.dependencies, included := s.included }

section Nested

variable {α : Type} {path : Path} {inner : Action α} {s t u : Session}

theorem nested_of_ok {a : α} (h : inner (entered path s) = .ok a u) :
    nested path inner s = .ok a (returned s u) := by
  unfold entered at h
  unfold nested
  rw [h]
  rfl

theorem nested_of_error {e : Failure} (h : inner (entered path s) = .error e u) :
    nested path inner s = .error e (abandoned s u) := by
  unfold entered at h
  unfold nested
  rw [h]
  rfl

theorem nested_ok {a : α} (h : nested path inner s = .ok a t) :
    ∃ u, inner (entered path s) = .ok a u ∧ t = returned s u := by
  rcases hinner : inner (entered path s) with ⟨b, u⟩ | ⟨e, u⟩
  · rw [nested_of_ok hinner] at h
    cases h
    exact ⟨u, rfl, rfl⟩
  · rw [nested_of_error hinner] at h
    cases h

end Nested

theorem readText_of_contentOf {site : Site} {v : Viewpoint} {path : Path} {data : String}
    (h : contentOf site v path none = .ok data) : site.disk.readText path = .ok data := by
  unfold contentOf at h
  obtain ⟨isFile, -, h⟩ := except_bind_eq_ok.1 h
  cases isFile with
  | false => cases h
  | true => exact h

/-- Evaluations of any depth expand imports and leave the build as it is. -/
theorem expandsImports_evaluateWithin (site : Site) (depth : Nat) :
    ExpandsImports site (evaluateWithin site depth) := by
  induction depth with
  | zero =>
    intro v found s text t h
    cases h
  | succ depth ih =>
    intro v found s text t h
    unfold evaluateWithin at h
    obtain ⟨data, u, hcontent, hnested⟩ := bind_eq_ok.1 h
    obtain ⟨hdata, rfl⟩ := ofExcept_eq_ok.1 hcontent
    obtain ⟨w, hrun, rfl⟩ := nested_ok hnested
    unfold runSpecs at hrun
    rw [List.foldlM_cons] at hrun
    obtain ⟨out, x, hspec, hrest⟩ := bind_eq_ok.1 hrun
    cases hrest
    obtain ⟨hsame, pieces, hexpands, hout⟩ := expandImports_ok ih hspec
    refine ⟨⟨hsame.marks, rfl, ?_⟩, data, pieces, readText_of_contentOf hdata, hexpands, hout⟩
    change u.included ++ w.included = u.included
    rw [hsame.included]
    exact List.append_nil _

/-! ## Chains -/

section Runs

variable {eval : Evaluator} {site : Site} {path : Path} {s t : Session}

theorem runSpec_of_directives {spec : Spec} {own : Option DirectiveTable} (v : Option Viewpoint)
    (source : Option Path) (hstep : spec.processor.step = .directives own) (data : String) :
    runSpec eval site v source spec data = (ofExcept (checkTable spec own source data) >>= fun _ ↦
      runDirectives eval site v own source data) := by
  unfold runSpec
  rw [hstep]

/-- A processor of directives that ends well has run them. -/
theorem runDirectives_of_runSpec {spec : Spec} {own : Option DirectiveTable} {v : Option Viewpoint}
    {source : Option Path} {data out : String} (hstep : spec.processor.step = .directives own)
    (h : runSpec eval site v source spec data s = .ok out t) :
    runDirectives eval site v own source data s = .ok out t := by
  rw [runSpec_of_directives v source hstep] at h
  obtain ⟨_, u, hcheck, hrun⟩ := bind_eq_ok.1 h
  obtain ⟨-, rfl⟩ := ofExcept_eq_ok.1 hcheck
  exact hrun

theorem directiveTable_of_default {own : Option DirectiveTable} (v : Viewpoint)
    (h : own.getD site.pipeline.directives = .default) :
    directiveTable site (some v) own = .default := by
  cases own with
  | none => exact h
  | some table => exact h

theorem runDirectives_ok {own : Option DirectiveTable} {data out : String}
    (hown : own.getD site.pipeline.directives = .default)
    (h : runDirectives eval site (some ⟨some path⟩) own (some path) data s = .ok out t) :
    ∃ parsed ks, ParsedSource.parse (some path) data.toList = .ok parsed ∧
      directiveTargets site ⟨some path⟩ parsed.directives = some ks ∧
      Performs eval site ⟨some path⟩ s ks (.ok () t) ∧
      out = String.ofList parsed.processedSource := by
  unfold runDirectives at h
  obtain ⟨parsed, u, hparse, hrun⟩ := bind_eq_ok.1 h
  obtain ⟨hparsed, rfl⟩ := ofExcept_eq_ok.1 hparse
  obtain ⟨_, w, hall, hout⟩ := bind_eq_ok.1 hrun
  cases hout
  rw [directiveTable_of_default _ hown] at hall
  obtain ⟨ks, hks⟩ := targets_of_directives hall
  refine ⟨parsed, ks, hparsed, hks, ?_, rfl⟩
  rw [← hall]
  exact directives_perform hks u

/-- Directives whose targets are known perform them, up to the first that fails. -/
theorem runDirectives_of_targets {own : Option DirectiveTable} {data : String}
    {parsed : ParsedSource} {ks : List Path} (hown : own.getD site.pipeline.directives = .default)
    (hparsed : ParsedSource.parse (some path) data.toList = .ok parsed)
    (hks : directiveTargets site ⟨some path⟩ parsed.directives = some ks) (s : Session) :
    (∃ t, Performs eval site ⟨some path⟩ s ks (.ok () t) ∧
      runDirectives eval site (some ⟨some path⟩) own (some path) data s =
        .ok (String.ofList parsed.processedSource) t) ∨
    ∃ e t, Performs eval site ⟨some path⟩ s ks (.error e t) ∧
      runDirectives eval site (some ⟨some path⟩) own (some path) data s = .error e t := by
  have hperforms : Performs eval site ⟨some path⟩ s ks (parsed.directives.forM
      (runDirective eval site (some ⟨some path⟩) .default (some path)) s) :=
    directives_perform hks s
  unfold runDirectives
  rw [bind_of_ok (ofExcept_ok hparsed s), directiveTable_of_default _ hown]
  rcases hall : parsed.directives.forM
      (runDirective eval site (some ⟨some path⟩) .default (some path)) s with ⟨_, t⟩ | ⟨e, t⟩
  · rw [hall] at hperforms
    exact .inl ⟨t, hperforms, bind_of_ok hall⟩
  · rw [hall] at hperforms
    exact .inr ⟨e, t, hperforms, bind_of_error hall⟩

/-- A chain that ends well has a reading, and has performed the targets of the reading. -/
theorem processed_of_runSpecs (heval : ExpandsImports site eval) {specs : List Spec}
    {data out : String} (hspecs : ∀ spec ∈ specs, IsAdmissible site path spec)
    (h : runSpecs eval site path data specs s = .ok out t) :
    ∃ ks, Processed site path specs data ks out ∧
      Performs eval site ⟨some path⟩ s ks (.ok () t) := by
  induction specs generalizing data s with
  | nil =>
    cases h
    exact ⟨[], .nil _, .nil (SameBuild.refl _)⟩
  | cons spec specs ih =>
    unfold runSpecs at h
    rw [List.foldlM_cons] at h
    obtain ⟨next, u, hfirst, hrest⟩ := bind_eq_ok.1 h
    obtain ⟨ks, hprocessed, hperforms⟩ :=
      ih (fun q hq ↦ hspecs q (List.mem_cons_of_mem _ hq)) hrest
    rcases hspecs spec (List.mem_cons_self ..) with ⟨own, hstep, hown⟩ | hstep | ⟨hplain, hrun⟩
    · obtain ⟨parsed, first, hparsed, htargets, hbefore, rfl⟩ :=
        runDirectives_ok hown (runDirectives_of_runSpec hstep hfirst)
      exact ⟨first ++ ks, .directives hstep hparsed htargets hprocessed,
        hbefore.append_ok rfl hperforms⟩
    · unfold runSpec at hfirst
      rw [hstep] at hfirst
      obtain ⟨hsame, pieces, hexpands, rfl⟩ := expandImports_ok heval hfirst
      exact ⟨ks, .imports hstep hexpands hprocessed, hperforms.of_same hsame⟩
    · obtain ⟨r, hr⟩ := hrun data
      rw [hr] at hfirst
      obtain ⟨hok, rfl⟩ := ofExcept_eq_ok.1 hfirst
      refine ⟨ks, .plain hplain (fun eval s ↦ ?_) hprocessed, hperforms⟩
      rw [hr]
      exact ofExcept_ok hok s

/-- A chain without imports whose reading is known performs the targets of the reading, up to the
first that fails. -/
theorem runSpecs_of_processed {specs : List Spec} {data out : String} {ks : List Path}
    (h : Processed site path specs data ks out)
    (hspecs : ∀ spec ∈ specs, RunsDefaults site spec ∧ spec.hidesTable = false ∨
      LeavesSession site path spec) (s : Session) :
    (∃ t, Performs eval site ⟨some path⟩ s ks (.ok () t) ∧
      runSpecs eval site path data specs s = .ok out t) ∨
    ∃ e t, Performs eval site ⟨some path⟩ s ks (.error e t) ∧
      runSpecs eval site path data specs s = .error e t := by
  induction h generalizing s with
  | nil data => exact .inl ⟨s, .nil (SameBuild.refl s), rfl⟩
  | @plain spec specs data next out targets hplain hrun hrest ih =>
    unfold runSpecs
    rw [List.foldlM_cons, bind_of_ok (hrun eval s)]
    exact ih (fun q hq ↦ hspecs q (List.mem_cons_of_mem _ hq)) s
  | imports hstep _ _ _ =>
    rcases hspecs _ (List.mem_cons_self ..) with ⟨⟨own, hstep', -⟩, -⟩ | ⟨hplain, -⟩
    · cases hstep.symm.trans hstep'
    · exact absurd hstep hplain.2
  | @directives spec specs own data out parsed first targets hstep hparsed hfirst hrest ih =>
    obtain ⟨hown, htable⟩ : own.getD site.pipeline.directives = .default ∧ spec.hidesTable = false := by
      rcases hspecs _ (List.mem_cons_self ..) with ⟨⟨own', hstep', hown⟩, htable⟩ | ⟨hplain, -⟩
      · cases hstep.symm.trans hstep'
        exact ⟨hown, htable⟩
      · exact absurd hstep (hplain.1 own)
    have hstart : runSpec eval site (some ⟨some path⟩) (some path) spec data s =
        runDirectives eval site (some ⟨some path⟩) own (some path) data s := by
      rw [runSpec_of_directives _ _ hstep]
      exact bind_of_ok (ofExcept_ok (checkTable_of_not_hidesTable own (some path) data htable) s)
    unfold runSpecs
    rw [List.foldlM_cons]
    rcases runDirectives_of_targets hown hparsed hfirst s with
      ⟨u, hbefore, hrun⟩ | ⟨e, u, hbefore, hrun⟩
    · rw [bind_of_ok (hstart.trans hrun)]
      rcases ih (fun q hq ↦ hspecs q (List.mem_cons_of_mem _ hq)) u with
        ⟨t, hafter, hrest⟩ | ⟨e, t, hafter, hrest⟩
      · exact .inl ⟨t, hbefore.append_ok rfl hafter, hrest⟩
      · exact .inr ⟨e, t, hbefore.append_ok rfl hafter, hrest⟩
    · rw [bind_of_error (hstart.trans hrun)]
      exact .inr ⟨e, u, hbefore.append_error rfl, rfl⟩

end Runs

end Session

end AssetBundler
