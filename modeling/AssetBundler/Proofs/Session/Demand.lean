import AssetBundler.Proofs.Session.ImportGraph
import Mathlib.Data.Set.Basic

/-!
# What a file requires and what it counts

The files that a file includes and the files and folders that it counts without including them are read
off the disk alone, for directives of any table and for processors of one's own. Each processor of a file
receives a text (`Receives`), which is determined because what a processor makes of a text is
(`Makes.unique`); so what a list of processors asks for is what the first asks for and what the others
ask for on the text that it makes (`receives_cons`).
-/

namespace AssetBundler.Session

open AssetBundler.Action Relation

/-- The text that a fragment stands for. -/
def fragmentValue (site : Site) (v : Viewpoint) : Fragment → Except Failure String
  | .text s => .ok s
  | .dataUri name => do
    let found ← v.requireFile site name
    return dataUriOf (site.pipeline.contentTypeOf found)
      (← Disk.orFail (site.disk.readBytes found))
  | .raised e => .error e.1

/-- A processor that neither runs directives nor expands imports nor is one of one's own. -/
def IsSilent (spec : Spec) : Prop := IsPlain spec ∧ ∀ run, spec.processor.step ≠ .custom run

/-- A processor makes a text of another one, whatever build is running. -/
inductive Makes (site : Site) (path : Path) (spec : Spec) (data : String) : String → Prop where
  | silent {out : String} (hsilent : IsSilent spec)
      (hrun : ∀ eval s, runSpec eval site (some ⟨some path⟩) (some path) spec data s = .ok out s) :
      Makes site path spec data out
  | directives {own : Option DirectiveTable} {parsed : ParsedSource}
      (hstep : spec.processor.step = .directives own)
      (hparsed : ParsedSource.parse (some path) data.toList = .ok parsed) :
      Makes site path spec data (String.ofList parsed.processedSource)
  | imports {pieces : List (List Char)} (hstep : spec.processor.step = .expandImports)
      (hexpands : Expands site path (Stylesheet.imports data) pieces) :
      Makes site path spec data (String.ofList pieces.flatten)
  | custom {run : Value.Fields → Option String → String → List Fragment} {texts : List String}
      (hstep : spec.processor.step = .custom run)
      (htexts : (run spec.options (some path.name) data).mapM (fragmentValue site ⟨some path⟩) =
        .ok texts) : Makes site path spec data ("".intercalate texts)

/-- A processor of a list receives a text when the first one receives `data`. -/
inductive Receives (site : Site) (path : Path) : List Spec → String → Spec → String → Prop where
  | here {spec : Spec} {specs : List Spec} {data : String} :
      Receives site path (spec :: specs) data spec data
  | later {first spec : Spec} {specs : List Spec} {data next text : String}
      (hmakes : Makes site path first data next) (hrest : Receives site path specs next spec text) :
      Receives site path (first :: specs) data spec text

section Texts

variable {site : Site} {path : Path} {spec : Spec} {data : String}

theorem Makes.unique {out other : String} (h : Makes site path spec data out)
    (h' : Makes site path spec data other) : out = other := by
  cases h with
  | silent hsilent hrun =>
    cases h' with
    | silent _ hrun' =>
      have hsame := hrun' (evaluate site) empty
      rw [hrun (evaluate site) empty] at hsame
      exact (EStateM.Result.ok.inj hsame).1
    | directives hstep => exact absurd hstep (hsilent.1.1 _)
    | imports hstep => exact absurd hstep hsilent.1.2
    | custom hstep => exact absurd hstep (hsilent.2 _)
  | directives hstep hparsed =>
    cases h' with
    | silent hsilent => exact absurd hstep (hsilent.1.1 _)
    | directives _ hparsed' => rw [Except.ok.inj (hparsed.symm.trans hparsed')]
    | imports hstep' => cases hstep.symm.trans hstep'
    | custom hstep' => cases hstep.symm.trans hstep'
  | imports hstep hexpands =>
    cases h' with
    | silent hsilent => exact absurd hstep hsilent.1.2
    | directives hstep' => cases hstep.symm.trans hstep'
    | imports _ hexpands' => rw [hexpands.unique hexpands']
    | custom hstep' => cases hstep.symm.trans hstep'
  | custom hstep htexts =>
    cases h' with
    | silent hsilent => exact absurd hstep (hsilent.2 _)
    | directives hstep' => cases hstep.symm.trans hstep'
    | imports hstep' => cases hstep.symm.trans hstep'
    | custom hstep' htexts' =>
      cases hstep.symm.trans hstep'
      rw [Except.ok.inj (htexts.symm.trans htexts')]

theorem receives_cons {other : Spec} {specs : List Spec} {next text : String}
    (hmakes : Makes site path spec data next) :
    Receives site path (spec :: specs) data other text ↔
      other = spec ∧ text = data ∨ Receives site path specs next other text := by
  constructor
  · intro h
    cases h with
    | here => exact .inl ⟨rfl, rfl⟩
    | later hmakes' hrest => exact .inr (hmakes.unique hmakes' ▸ hrest)
  · rintro (⟨rfl, rfl⟩ | hrest)
    · exact .here
    · exact .later hmakes hrest

end Texts

/-- A request that the directives of a processor make on a text. -/
def Asks (site : Site) (path : Path) (spec : Spec) (data : String) (request : Request) : Prop :=
  ∃ own parsed, spec.processor.step = .directives own ∧
    ParsedSource.parse (some path) data.toList = .ok parsed ∧ ∃ d ∈ parsed.directives, ∃ requests,
      (directiveTable site (some ⟨some path⟩) own).requests (some path) d = .ok requests ∧
      request ∈ requests

/-- The files that a request includes. -/
def requestRequires (site : Site) (path : Path) (request : Request) : Set Path :=
  {q | ∃ ks, requestTargets site ⟨some path⟩ request = .ok ks ∧ q ∈ ks}

/-- What a request counts without including it. -/
inductive RequestCounts (site : Site) (path : Path) : Request → Path → Prop where
  | dependOn {name : String} {q : Path}
      (hq : Viewpoint.require ⟨some path⟩ site name true = .ok q) :
      RequestCounts site path (.dependOn name) q
  | requireTree {name : String} {q : Path}
      (hq : Viewpoint.resolve ⟨some path⟩ site name false = .ok (some q))
      (hfolder : Disk.orFail (site.disk.isFolder q) = .ok true) :
      RequestCounts site path (.requireTree name) q
  | note {fields : List NoteField} {name : String} {q : Path} (hname : .dataUri name ∈ fields)
      (hq : Viewpoint.requireFile ⟨some path⟩ site name = .ok q) :
      RequestCounts site path (.note fields) q

/-- A file that a processor requires on a text. -/
def SpecRequires (site : Site) (path : Path) (spec : Spec) (data : String) (q : Path) : Prop :=
  ∃ request, Asks site path spec data request ∧ q ∈ requestRequires site path request

/-- A file or folder that a processor counts on a text without requiring it. -/
inductive SpecCounts (site : Site) (path : Path) (spec : Spec) (data : String) : Path → Prop where
  | asked {request : Request} {q : Path} (hasks : Asks site path spec data request)
      (hq : RequestCounts site path request q) : SpecCounts site path spec data q
  | imported {name : String} {first q : Path} (hstep : spec.processor.step = .expandImports)
      (hname : name ∈ importedNames data) (htarget : importTarget site path name = .ok (some first))
      (hreach : ReflTransGen (ImportEdge site) first q) : SpecCounts site path spec data q
  | inlined {run : Value.Fields → Option String → String → List Fragment} {name : String} {q : Path}
      (hstep : spec.processor.step = .custom run)
      (hname : .dataUri name ∈ run spec.options (some path.name) data)
      (hq : Viewpoint.requireFile ⟨some path⟩ site name = .ok q) : SpecCounts site path spec data q

/-- Only directives require files. -/
theorem specRequires_eq_empty {site : Site} {path : Path} {spec : Spec}
    (h : ∀ own, spec.processor.step ≠ .directives own) (data : String) :
    {q | SpecRequires site path spec data q} = ∅ := by
  refine Set.eq_empty_iff_forall_notMem.2 ?_
  rintro q ⟨request, ⟨own, parsed, hstep, -⟩, -⟩
  exact h own hstep

/-- The paths that some processor of a list asks for, in one way or another, on the text that it receives
when the first one receives `data`. -/
def askedFrom (site : Site) (path : Path) (asks : Spec → String → Path → Prop) (specs : List Spec)
    (data : String) : Set Path :=
  {q | ∃ spec text, Receives site path specs data spec text ∧ asks spec text q}

theorem askedFrom_cons {site : Site} {path : Path} {asks : Spec → String → Path → Prop} {spec : Spec}
    {specs : List Spec} {data next : String} (hmakes : Makes site path spec data next) :
    askedFrom site path asks (spec :: specs) data =
      {q | asks spec data q} ∪ askedFrom site path asks specs next := by
  ext q
  constructor
  · rintro ⟨other, text, hreceives, hq⟩
    rcases (receives_cons hmakes).1 hreceives with ⟨rfl, rfl⟩ | hrest
    · exact .inl hq
    · exact .inr ⟨other, text, hrest, hq⟩
  · rintro (hq | ⟨other, text, hrest, hq⟩)
    · exact ⟨spec, data, .here, hq⟩
    · exact ⟨other, text, .later hmakes hrest, hq⟩

theorem askedFrom_nil {site : Site} {path : Path} {asks : Spec → String → Path → Prop}
    {data : String} : askedFrom site path asks [] data = ∅ := by
  refine Set.eq_empty_iff_forall_notMem.2 ?_
  rintro q ⟨spec, text, hreceives, -⟩
  cases hreceives

theorem askedFrom_singleton {site : Site} {path : Path} {asks : Spec → String → Path → Prop}
    {spec : Spec} {data : String} :
    askedFrom site path asks [spec] data = {q | asks spec data q} := by
  ext q
  constructor
  · rintro ⟨other, text, hreceives, hq⟩
    cases hreceives with
    | here => exact hq
    | later _ hrest => cases hrest
  · exact fun hq ↦ ⟨spec, data, .here, hq⟩

/-- The files that a list of processors requires. -/
def requiredFrom (site : Site) (path : Path) : List Spec → String → Set Path :=
  askedFrom site path (SpecRequires site path)

/-- What a list of processors counts without requiring it. -/
def countedFrom (site : Site) (path : Path) : List Spec → String → Set Path :=
  askedFrom site path (SpecCounts site path)

/-- A file includes another one. -/
def Requires (site : Site) (p q : Path) : Prop :=
  ∃ data, site.disk.readText p = .ok data ∧ q ∈ requiredFrom site p (chainOf site p) data

/-- A file counts a file or folder without including it. -/
def Counts (site : Site) (p q : Path) : Prop :=
  ∃ data, site.disk.readText p = .ok data ∧ q ∈ countedFrom site p (chainOf site p) data

section Files

variable {site : Site} {p q : Path} {data : String}

theorem requires_iff (hdata : site.disk.readText p = .ok data) :
    Requires site p q ↔ q ∈ requiredFrom site p (chainOf site p) data := by
  constructor
  · rintro ⟨data', hdata', hq⟩
    cases hdata.symm.trans hdata'
    exact hq
  · exact fun hq ↦ ⟨data, hdata, hq⟩

theorem counts_iff (hdata : site.disk.readText p = .ok data) :
    Counts site p q ↔ q ∈ countedFrom site p (chainOf site p) data := by
  constructor
  · rintro ⟨data', hdata', hq⟩
    cases hdata.symm.trans hdata'
    exact hq
  · exact fun hq ↦ ⟨data, hdata, hq⟩

end Files

end AssetBundler.Session
