import AssetBundler.Proofs.Disk.Reading
import AssetBundler.Proofs.Path.Resolution
import AssetBundler.Session.Evaluation
import Mathlib.Logic.Relation

/-!
# What a file asks for and what it gives

The reading of a file looks at the disk alone and knows nothing of the build that is running: its own
text is what its processors make of it, and its targets are the files that its directives include, in
the order of the header. What the three directives include is said here and not taken from the table of
handlers: a `require` the file it names, a `depend_on` none, and a `require_tree` those that the entries
of the folder stand for, in the order of their names. Imports are expanded in place. Main statement: own
text and targets of a file are determined (`Own.unique`), and the targets are canonical paths however
they are spelled (`isCanonical_of_reached`).
-/

namespace AssetBundler

/-- What a directive asks for. There are three that take one path each; any other is refused. -/
def Directive.request? (d : Directive) : Option Request :=
  match d.name, d.arguments with
  | "require", [path] => some (.require path)
  | "depend_on", [path] => some (.dependOn path)
  | "require_tree", [path] => some (.requireTree path)
  | _, _ => none

theorem Directive.request?_eq_some {d : Directive} {request : Request} :
    d.request? = some request ↔ ∃ path, d.arguments = [path] ∧
      (d.name = "require" ∧ request = .require path ∨ d.name = "depend_on" ∧ request = .dependOn path ∨
        d.name = "require_tree" ∧ request = .requireTree path) := by
  obtain ⟨lineIndex, name, arguments⟩ := d
  constructor
  · intro h
    unfold request? at h
    split at h
    case h_1 path hname harguments =>
      exact ⟨path, harguments, .inl ⟨hname, (Option.some.inj h).symm⟩⟩
    case h_2 path hname harguments =>
      exact ⟨path, harguments, .inr (.inl ⟨hname, (Option.some.inj h).symm⟩)⟩
    case h_3 path hname harguments =>
      exact ⟨path, harguments, .inr (.inr ⟨hname, (Option.some.inj h).symm⟩)⟩
    case h_4 => cases h
  · rintro ⟨path, harguments, hcases⟩
    obtain rfl : arguments = [path] := harguments
    rcases hcases with ⟨hname, rfl⟩ | ⟨hname, rfl⟩ | ⟨hname, rfl⟩ <;>
      obtain rfl := (hname : name = _) <;> rfl

namespace Session

open AssetBundler.Action

/-- The file that an entry of a required folder stands for. A dot file and the file that asks stand for
none, and neither does a folder without an index file. -/
def entryTarget (site : Site) (v : Viewpoint) (entry : Disk.Listed) :
    Except Failure (Option Path) :=
  let path := site.disk.resolve entry.path
  let target := some <$> v.require site path.text true
  if entry.name.toList.head? = some '.' ∨ v.path = some path then .ok none
  else if entry.isFolder then do
    match ← Disk.orFail (site.pipeline.searchPath.findIndex site.disk path v.preferred) with
    | some _ => target
    | none => .ok none
  else target

/-- The files that entries of a required folder stand for, one entry after another. -/
def entryTargets (site : Site) (v : Viewpoint) : List Disk.Listed → Except Failure (List Path)
  | [] => .ok []
  | entry :: entries => do return (← entryTarget site v entry).toList ++ (← entryTargets site v entries)

/-- The files that a request includes. A dependency has to be found but is not included, and a folder
stands for its entries in the order of their names. -/
def requestTargets (site : Site) (v : Viewpoint) : Request → Except Failure (List Path)
  | .require path => do return [← v.require site path true]
  | .dependOn path => do
    let _ ← v.require site path true
    return []
  | .requireTree path => do
    match ← v.resolve site path false with
    | none => .error (.assetNotFound path v.path)
    | some folder =>
      if ← Disk.orFail (site.disk.isFolder folder) then
        let entries ← Disk.orFail (site.disk.list folder)
        entryTargets site v (entries.mergeSort fun a b ↦ a.name ≤ b.name)
      else .error (.assetNotFound path v.path)
  | .note _ => .ok []

/-- The files that directives include, one directive after another, if none is refused and each finds
what it names. -/
def directiveTargets (site : Site) (v : Viewpoint) : List Directive → Option (List Path)
  | [] => some []
  | d :: ds => do
    let request ← d.request?
    let first ← (requestTargets site v request).toOption
    return first ++ (← directiveTargets site v ds)

section Targets

variable {site : Site} {v : Viewpoint}

/-- An entry stands for a file if the build selects it. -/
theorem entryTarget_eq (entry : Disk.Listed) : entryTarget site v entry = (do
    if ← isSelected site v entry then
      return some (← v.require site (site.disk.resolve entry.path).text true)
    else return none) := by
  unfold entryTarget isSelected
  by_cases hdot : entry.name.toList.head? = some '.'
  · simp only [hdot, true_or, if_true]
    rfl
  · by_cases hself : v.path = some (site.disk.resolve entry.path)
    · simp only [hself, or_true, if_true, if_neg hdot]
      rfl
    · simp only [hdot, hself, or_self, if_false]
      cases entry.isFolder with
      | false => rfl
      | true =>
        simp only [if_true]
        cases Disk.orFail (site.pipeline.searchPath.findIndex site.disk
          (site.disk.resolve entry.path) v.preferred) with
        | error e => rfl
        | ok index => cases index <;> rfl

theorem entryTargets_cons (entry : Disk.Listed) (entries : List Disk.Listed) :
    entryTargets site v (entry :: entries) = (do
      if ← isSelected site v entry then
        let found ← v.require site (site.disk.resolve entry.path).text true
        return found :: (← entryTargets site v entries)
      else entryTargets site v entries) := by
  rw [entryTargets, entryTarget_eq]
  cases isSelected site v entry with
  | error e => rfl
  | ok selected =>
    cases selected with
    | true => cases v.require site (site.disk.resolve entry.path).text true <;> rfl
    | false => cases entryTargets site v entries <;> rfl

/-- A folder that is required is there and stands for its entries as it lists them. -/
theorem requireTree_eq_ok {path : String} {ks : List Path} :
    requestTargets site v (.requireTree path) = .ok ks ↔ ∃ folder entries,
      v.resolve site path false = .ok (some folder) ∧
      Disk.orFail (site.disk.isFolder folder) = .ok true ∧
      Disk.orFail (site.disk.list folder) = .ok entries ∧ entryTargets site v entries = .ok ks := by
  have hsorted : ∀ {folder entries}, Disk.orFail (site.disk.list folder) = .ok entries →
      entries.mergeSort (fun a b ↦ decide (a.name ≤ b.name)) = entries := fun h ↦
    List.mergeSort_of_pairwise
      ((Disk.pairwise_list (Disk.orFail_eq_ok.1 h)).imp fun hle ↦ decide_eq_true hle)
  constructor
  · intro h
    obtain ⟨found?, hfound, h⟩ := except_bind_eq_ok.1 h
    cases found? with
    | none => cases h
    | some folder =>
      obtain ⟨isFolder, hfolder, h⟩ := except_bind_eq_ok.1 h
      cases isFolder with
      | false => cases h
      | true =>
        obtain ⟨entries, hentries, h⟩ := except_bind_eq_ok.1 h
        rw [hsorted hentries] at h
        exact ⟨folder, entries, hfound, hfolder, hentries, h⟩
  · rintro ⟨folder, entries, hfound, hfolder, hentries, h⟩
    refine except_bind_eq_ok.2 ⟨some folder, hfound, ?_⟩
    refine except_bind_eq_ok.2 ⟨true, hfolder, ?_⟩
    refine except_bind_eq_ok.2 ⟨entries, hentries, ?_⟩
    rw [hsorted hentries]
    exact h

theorem directiveTargets_cons {d : Directive} {ds : List Directive} {ks : List Path} :
    directiveTargets site v (d :: ds) = some ks ↔ ∃ request first rest, d.request? = some request ∧
      requestTargets site v request = .ok first ∧ directiveTargets site v ds = some rest ∧
      ks = first ++ rest := by
  simp only [directiveTargets, Option.bind_eq_bind, Option.bind_eq_some_iff, Option.pure_def,
    Option.some.injEq]
  constructor
  · rintro ⟨request, hrequest, first, hfirst, rest, hrest, rfl⟩
    exact ⟨request, first, rest, hrequest, eq_ok_of_toOption hfirst, hrest, rfl⟩
  · rintro ⟨request, first, rest, hrequest, hfirst, hrest, rfl⟩
    exact ⟨request, hrequest, first, by rw [hfirst]; rfl, rest, hrest, rfl⟩

end Targets

/-- The pieces of a stylesheet with its imports expanded, as seen from its path. A statement that names
no file stays, one that names a file gives the text of the file with a line feed after it. -/
inductive Expands (site : Site) : Path → List (Text.Piece String) → List (List Char) → Prop where
  | nil (path : Path) : Expands site path [] []
  | plain {path : Path} (c : Char) {rest : List (Text.Piece String)} {out : List (List Char)}
      (hrest : Expands site path rest out) : Expands site path (.plain c :: rest) ([c] :: out)
  | missing {path : Path} (name : String) (source : List Char) {rest : List (Text.Piece String)}
      {out : List (List Char)} (hfound : Viewpoint.resolve ⟨some path⟩ site name true = .ok none)
      (hrest : Expands site path rest out) :
      Expands site path (.found name source :: rest) (source :: out)
  | folder {path : Path} (name : String) (source : List Char) {found : Path}
      {rest : List (Text.Piece String)} {out : List (List Char)}
      (hfound : Viewpoint.resolve ⟨some path⟩ site name true = .ok (some found))
      (hfile : site.isFile found = .ok false) (hrest : Expands site path rest out) :
      Expands site path (.found name source :: rest) (source :: out)
  | file {path : Path} (name : String) (source : List Char) {found : Path} {data : String}
      {rest : List (Text.Piece String)} {inner out : List (List Char)}
      (hfound : Viewpoint.resolve ⟨some path⟩ site name true = .ok (some found))
      (hfile : site.isFile found = .ok true) (hdata : site.disk.readText found = .ok data)
      (hinner : Expands site found (Stylesheet.imports data) inner)
      (hrest : Expands site path rest out) :
      Expands site path (.found name source :: rest) ((inner.flatten ++ ['\n']) :: out)

theorem Expands.unique {site : Site} {path : Path} {pieces : List (Text.Piece String)}
    {out other : List (List Char)} (h : Expands site path pieces out)
    (h' : Expands site path pieces other) : out = other := by
  induction h generalizing other with
  | nil path =>
    cases h'
    rfl
  | plain c _ ih =>
    cases h' with
    | plain _ hrest => rw [ih hrest]
  | missing name source hfound _ ih =>
    cases h' with
    | missing _ _ _ hrest => rw [ih hrest]
    | folder _ _ hfound' => cases hfound.symm.trans hfound'
    | file _ _ hfound' => cases hfound.symm.trans hfound'
  | folder name source hfound hfile _ ih =>
    cases h' with
    | missing _ _ hfound' => cases hfound.symm.trans hfound'
    | folder _ _ _ _ hrest => rw [ih hrest]
    | file _ _ hfound' hfile' =>
      cases hfound.symm.trans hfound'
      cases hfile.symm.trans hfile'
  | file name source hfound hfile hdata _ _ ihinner ihrest =>
    cases h' with
    | missing _ _ hfound' => cases hfound.symm.trans hfound'
    | folder _ _ hfound' hfile' =>
      cases hfound.symm.trans hfound'
      cases hfile.symm.trans hfile'
    | file _ _ hfound' _ hdata' hinner hrest =>
      cases hfound.symm.trans hfound'
      cases hdata.symm.trans hdata'
      rw [ihinner hinner, ihrest hrest]

/-- A processor other than directives and imports. -/
def IsPlain (spec : Spec) : Prop :=
  (∀ own, spec.processor.step ≠ .directives own) ∧ spec.processor.step ≠ .expandImports

/-- Processors make a text of the content of a file, and their directives include some targets. -/
inductive Processed (site : Site) (path : Path) :
    List Spec → String → List Path → String → Prop where
  | nil (data : String) : Processed site path [] data [] data
  | plain {spec : Spec} {specs : List Spec} {data next out : String} {targets : List Path}
      (hplain : IsPlain spec)
      (hrun : ∀ eval s, runSpec eval site (some ⟨some path⟩) (some path) spec data s = .ok next s)
      (hrest : Processed site path specs next targets out) :
      Processed site path (spec :: specs) data targets out
  | imports {spec : Spec} {specs : List Spec} {data out : String} {pieces : List (List Char)}
      {targets : List Path} (hstep : spec.processor.step = .expandImports)
      (hexpands : Expands site path (Stylesheet.imports data) pieces)
      (hrest : Processed site path specs (String.ofList pieces.flatten) targets out) :
      Processed site path (spec :: specs) data targets out
  | directives {spec : Spec} {specs : List Spec} {own : Option DirectiveTable}
      {data out : String} {parsed : ParsedSource} {first targets : List Path}
      (hstep : spec.processor.step = .directives own)
      (hparsed : ParsedSource.parse (some path) data.toList = .ok parsed)
      (hfirst : directiveTargets site ⟨some path⟩ parsed.directives = some first)
      (hrest : Processed site path specs (String.ofList parsed.processedSource) targets out) :
      Processed site path (spec :: specs) data (first ++ targets) out

theorem Processed.unique {site : Site} {path : Path} {specs : List Spec} {data out other : String}
    {targets others : List Path} (h : Processed site path specs data targets out)
    (h' : Processed site path specs data others other) : targets = others ∧ out = other := by
  induction h generalizing others other with
  | nil data =>
    cases h'
    exact ⟨rfl, rfl⟩
  | plain hplain hrun _ ih =>
    cases h' with
    | plain _ hrun' hrest =>
      have hsame := hrun' (evaluate site) empty
      rw [hrun (evaluate site) empty] at hsame
      rw [(EStateM.Result.ok.inj hsame).1] at ih
      exact ih hrest
    | imports hstep => exact absurd hstep hplain.2
    | directives hstep => exact absurd hstep (hplain.1 _)
  | imports hstep hexpands _ ih =>
    cases h' with
    | plain hplain => exact absurd hstep hplain.2
    | imports _ hexpands' hrest =>
      rw [hexpands.unique hexpands'] at ih
      exact ih hrest
    | directives hstep' => cases hstep.symm.trans hstep'
  | directives hstep hparsed hfirst _ ih =>
    cases h' with
    | plain hplain => exact absurd hstep (hplain.1 _)
    | imports hstep' => cases hstep.symm.trans hstep'
    | directives _ hparsed' hfirst' hrest =>
      cases hparsed.symm.trans hparsed'
      cases hfirst.symm.trans hfirst'
      obtain ⟨htargets, hout⟩ := ih hrest
      exact ⟨by rw [htargets], hout⟩

/-- The processors of a file. -/
def chainOf (site : Site) (path : Path) : List Spec :=
  site.pipeline.processorsFor (site.pipeline.contentTypeOf path)

/-- The targets of a file and the text that it gives, without what it includes. -/
def Own (site : Site) (path : Path) (targets : List Path) (text : String) : Prop :=
  ∃ data, site.disk.readText path = .ok data ∧
    Processed site path (chainOf site path) data targets text

theorem Own.unique {site : Site} {path : Path} {targets others : List Path} {text other : String}
    (h : Own site path targets text) (h' : Own site path others other) :
    targets = others ∧ text = other := by
  obtain ⟨data, hdata, hprocessed⟩ := h
  obtain ⟨data', hdata', hprocessed'⟩ := h'
  cases hdata.symm.trans hdata'
  exact hprocessed.unique hprocessed'

/-- The files that a file includes. -/
def Kids (site : Site) (path : Path) (targets : List Path) : Prop := ∃ text, Own site path targets text

theorem Kids.unique {site : Site} {path : Path} {targets others : List Path}
    (h : Kids site path targets) (h' : Kids site path others) : targets = others := by
  obtain ⟨text, hown⟩ := h
  obtain ⟨other, hown'⟩ := h'
  exact (hown.unique hown').1

/-- An edge of the graph of requirements. -/
def Edge (site : Site) (p q : Path) : Prop := ∃ targets, Kids site p targets ∧ q ∈ targets

/-! ## Canonical targets -/

section Canonical

variable {site : Site} {v : Viewpoint}

theorem isCanonical_of_require (hs : site.IsProper) (hv : ∀ p, v.path = some p → p.IsProper)
    {name : String} {k : Path} (h : v.require site name true = .ok k) : k.IsCanonical := by
  obtain ⟨found?, hfound, h⟩ := except_bind_eq_ok.1 h
  cases found? with
  | none => cases h
  | some found =>
    cases h
    exact Viewpoint.isCanonical_of_resolve hs hv hfound

theorem isCanonical_of_entryTargets (hs : site.IsProper)
    (hv : ∀ p, v.path = some p → p.IsProper) {entries : List Disk.Listed} {ks : List Path}
    (h : entryTargets site v entries = .ok ks) : ∀ k ∈ ks, k.IsCanonical := by
  induction entries generalizing ks with
  | nil =>
    cases h
    exact List.forall_mem_nil _
  | cons entry entries ih =>
    rw [entryTargets_cons] at h
    obtain ⟨selected, -, h⟩ := except_bind_eq_ok.1 h
    cases selected with
    | false => exact ih h
    | true =>
      obtain ⟨first, hfirst, h⟩ := except_bind_eq_ok.1 h
      obtain ⟨rest, hrest, h⟩ := except_bind_eq_ok.1 h
      cases h
      exact List.forall_mem_cons.2 ⟨isCanonical_of_require hs hv hfirst, ih hrest⟩

theorem isCanonical_of_requestTargets (hs : site.IsProper)
    (hv : ∀ p, v.path = some p → p.IsProper) {request : Request} {ks : List Path}
    (h : requestTargets site v request = .ok ks) : ∀ k ∈ ks, k.IsCanonical := by
  cases request with
  | require path =>
    obtain ⟨k, hk, h⟩ := except_bind_eq_ok.1 h
    cases h
    exact List.forall_mem_singleton.2 (isCanonical_of_require hs hv hk)
  | dependOn path =>
    obtain ⟨k, hk, h⟩ := except_bind_eq_ok.1 h
    cases h
    exact List.forall_mem_nil _
  | requireTree path =>
    obtain ⟨folder, entries, -, -, -, htargets⟩ := requireTree_eq_ok.1 h
    exact isCanonical_of_entryTargets hs hv htargets
  | note fields =>
    cases h
    exact List.forall_mem_nil _

theorem isCanonical_of_directiveTargets (hs : site.IsProper)
    (hv : ∀ p, v.path = some p → p.IsProper) {ds : List Directive} {ks : List Path}
    (h : directiveTargets site v ds = some ks) : ∀ k ∈ ks, k.IsCanonical := by
  induction ds generalizing ks with
  | nil =>
    cases h
    exact List.forall_mem_nil _
  | cons d ds ih =>
    obtain ⟨request, first, rest, -, hfirst, hrest, rfl⟩ := directiveTargets_cons.1 h
    exact List.forall_mem_append.2 ⟨isCanonical_of_requestTargets hs hv hfirst, ih hrest⟩

theorem Processed.isCanonical {path : Path} {specs : List Spec} {data out : String}
    {targets : List Path} (hs : site.IsProper) (hpath : path.IsProper)
    (h : Processed site path specs data targets out) : ∀ k ∈ targets, k.IsCanonical := by
  induction h with
  | nil => exact List.forall_mem_nil _
  | plain _ _ _ ih => exact ih
  | imports _ _ _ ih => exact ih
  | directives _ _ hfirst _ ih =>
    have hview : ∀ p, some path = some p → p.IsProper := fun p hp ↦ Option.some.inj hp ▸ hpath
    exact List.forall_mem_append.2 ⟨isCanonical_of_directiveTargets hs hview hfirst, ih⟩

/-- Files that are reached from a canonical path have canonical paths. -/
theorem isCanonical_of_reached (hs : site.IsProper) {p q : Path} (hp : p.IsCanonical)
    (h : Relation.ReflTransGen (Edge site) p q) : q.IsCanonical := by
  induction h with
  | refl => exact hp
  | tail _ hedge ih =>
    obtain ⟨targets, ⟨text, data, -, hprocessed⟩, hmem⟩ := hedge
    exact hprocessed.isCanonical hs ih.proper _ hmem

end Canonical

end Session

end AssetBundler
