import AssetBundler.Proofs.Disk.Existence
import AssetBundler.Proofs.Session.Chain

/-!
# What a build fails with

A build asks the disk about paths, reads files and lists folders, and reports what it does not find. A
path without names that are too long is answered, and what is read or listed was found to be a file or a
folder before, so the one failure of reading that is not reported is that a file holds no text. Main
statement: besides the failures that are reported, a build fails for a file or a name that cannot be read,
or because a processor of the pipeline is misused or raises something itself
(`Session.raisesOnly_evaluateWithin`).
-/

namespace AssetBundler

open AssetBundler.Action

/-- What a processor raises, as it is registered, whatever the files hold that it asks for. -/
inductive Spec.Raises (spec : Spec) : Failure → Prop
  /-- It has no function to call. -/
  | noFunction (hstep : spec.processor.step = .callOption) : Raises spec .notFunction
  /-- It has an option in the place of its table of directives. -/
  | noTable (hstep : spec.processor.step = .directives none) (hhides : spec.hidesTable = true) :
      Raises spec .noSession
  /-- It is code outside the pipeline. -/
  | custom {run : Value.Fields → Option String → String → List Fragment} {name : Option String}
      {data : String} {e : Raised} (hstep : spec.processor.step = .custom run)
      (h : .raised e ∈ run spec.options name data) : Raises spec e.1

theorem Spec.Raises.ne_tooDeep {spec : Spec} {e : Failure} (h : spec.Raises e) : e ≠ .nestedTooDeep := by
  cases h with
  | noFunction => exact Failure.noConfusion
  | noTable => exact Failure.noConfusion
  | @custom _ _ _ raised => exact raised.2

namespace Session

/-- What a build fails with: what is reported, what cannot be read, or what a processor raises. -/
inductive Fails (site : Site) : Failure → Prop
  | reported {e : Failure} (h : e.isReported = true) : Fails site e
  | unreadable {e : Failure} (h : e.IsUnreadable site.disk) : Fails site e
  | raised {spec : Spec} {e : Failure} (hspec : spec ∈ site.pipeline.specs) (h : spec.Raises e) :
      Fails site e

theorem Fails.ne_tooDeep {site : Site} {e : Failure} (h : Fails site e) : e ≠ .nestedTooDeep := by
  rintro rfl
  cases h with
  | reported h => cases h
  | unreadable h => exact h
  | raised _ h => exact h.ne_tooDeep rfl

section Questions

variable {site : Site} {v : Viewpoint} {source : Option Path}

theorem fails_resolve (path : String) (index : Bool) :
    FailsOnly (Fails site) (v.resolve site path index) :=
  (Viewpoint.failsOnly_resolve path).mono fun _ ↦ .unreadable

theorem fails_isFile (path : Path) : FailsOnly (Fails site) (site.isFile path) :=
  (site.failsOnly_isFile path).mono fun _ ↦ .unreadable

theorem fails_require (path : String) (index : Bool) :
    FailsOnly (Fails site) (v.require site path index) := by
  refine (fails_resolve path index).bind fun found? ↦ ?_
  cases found? with
  | none => exact .error (.reported rfl)
  | some found => exact .ok _

theorem fails_requireFile (path : String) : FailsOnly (Fails site) (v.requireFile site path) := by
  refine (fails_require path true).bind fun found ↦ (fails_isFile found).bind fun isFile ↦ ?_
  cases isFile with
  | false => exact .error (.reported rfl)
  | true => exact .ok _

theorem fails_isFolder (path : Path) :
    FailsOnly (Fails site) (Disk.orFail (site.disk.isFolder path)) :=
  (failsOnly_orFail site.disk (Disk.failsOnly_isFolder site.disk path)).mono fun _ ↦ .unreadable

theorem fails_isSelected (entry : Disk.Listed) :
    FailsOnly (Fails site) (isSelected site v entry) := by
  unfold isSelected
  by_cases hdot : entry.name.toList.head? = some '.'
  · rw [if_pos hdot]
    exact .ok _
  · rw [if_neg hdot]
    by_cases hself : v.path = some (site.disk.resolve entry.path)
    · rw [if_pos hself]
      exact .ok _
    · rw [if_neg hself]
      cases entry.isFolder with
      | false => exact .ok _
      | true =>
        have hindex := failsOnly_orFail site.disk (SearchPath.failsOnly_firstSuch
          (Disk.failsOnly_isFile site.disk) (site.pipeline.searchPath.indexCandidates
            (site.disk.resolve entry.path) v.preferred))
        exact (hindex.mono fun _ ↦ Fails.unreadable).bind fun _ ↦ .ok _

theorem fails_contentOf (path : Path) (content : Option String) :
    FailsOnly (Fails site) (contentOf site v path content) := by
  cases content with
  | some data => exact .ok _
  | none =>
    refine (fails_isFile path).bind_of_eq_ok fun isFile hfile ↦ ?_
    cases isFile with
    | false => exact .error (.reported rfl)
    | true =>
      exact (Disk.failsOnly_readText (Disk.orFail_eq_ok.1 hfile)).mono fun _ ↦ .unreadable

theorem reported_ofLine (lineIndex : Nat) (line : List Char) :
    FailsOnly (·.isReported = true) (Directive.ofLine source lineIndex line) := by
  unfold Directive.ofLine
  cases Directive.argumentText? line with
  | none => exact .ok _
  | some text =>
    rcases hwords : Directive.words text with _ | _ | ⟨name, arguments⟩
    · simp only [hwords]
      exact .error rfl
    · simp only [hwords]
      exact .ok _
    · simp only [hwords]
      exact .ok _

theorem reported_parse (source : Option Path) (text : List Char) :
    FailsOnly (·.isReported = true) (ParsedSource.parse source text) := by
  have hlines : ∀ ls lineIndex,
      FailsOnly (·.isReported = true) (Directive.ofLines source lineIndex ls) := by
    intro ls
    induction ls with
    | nil => exact fun _ ↦ .ok _
    | cons l ls ih =>
      exact fun _ ↦ (reported_ofLine _ _).bind fun _ ↦ (ih _).bind fun _ ↦ .ok _
  exact (hlines _ _).bind fun _ ↦ .ok _

theorem fails_parse (site : Site) (text : List Char) :
    FailsOnly (Fails site) (ParsedSource.parse source text) :=
  (reported_parse source text).mono fun _ ↦ .reported

theorem fails_requests (site : Site) (table : DirectiveTable) (d : Directive) :
    FailsOnly (Fails site) (table.requests source d) := by
  unfold DirectiveTable.requests
  cases table.get? d.name with
  | none => exact .error (.reported rfl)
  | some handler =>
    cases hfault : handler.signature.fault? d.arguments.length with
    | none =>
      simp only [hfault]
      exact .ok _
    | some fault =>
      simp only [hfault]
      exact .error (.reported rfl)

/-- What is found as a file can be read. -/
theorem readBytes_of_requireFile {path : String} {found : Path}
    (h : v.requireFile site path = .ok found) : ∃ bytes, site.disk.readBytes found = .ok bytes := by
  obtain ⟨p, -, h⟩ := except_bind_eq_ok.1 h
  obtain ⟨isFile, hfile, h⟩ := except_bind_eq_ok.1 h
  cases isFile with
  | false => cases h
  | true =>
    cases h
    obtain ⟨bytes, t, hfind⟩ := Disk.find_of_isFile (Disk.orFail_eq_ok.1 hfile)
    exact ⟨bytes, Disk.readBytes_of_find hfind⟩

end Questions

/-- What an evaluation fails with, unless it is nested too deep. -/
def MayRaise (site : Site) (e : Failure) : Prop := e ≠ .nestedTooDeep → Fails site e

theorem Fails.mayRaise {site : Site} {e : Failure} (h : Fails site e) : MayRaise site e := fun _ ↦ h

section Evaluations

variable {site : Site} {eval : Evaluator} {v : Viewpoint}

theorem raisesOnly_ofExcept_bind {α β : Type} {x : Except Failure α} {f : α → Action β}
    (hx : FailsOnly (Fails site) x) (hf : ∀ a, x = .ok a → RaisesOnly (MayRaise site) (f a)) :
    RaisesOnly (MayRaise site) (ofExcept x >>= f) := by
  cases x with
  | ok a => exact hf a rfl
  | error e =>
    rintro s _ t ⟨⟩
    exact (hx e rfl).mayRaise

theorem raisesOnly_nested {α : Type} {path : Path} {inner : Action α}
    (h : RaisesOnly (MayRaise site) inner) : RaisesOnly (MayRaise site) (nested path inner) := by
  intro s e t hfails
  unfold nested at hfails
  split at hfails
  · cases hfails
  · next hinner =>
    cases hfails
    exact h _ _ _ hinner

/-- The processors are registered, or expand imports. -/
def AreRegistered (site : Site) (specs : List Spec) : Prop :=
  ∀ spec ∈ specs, spec ∈ site.pipeline.specs ∨ spec.processor.step = .expandImports

theorem areRegistered_chainOf (path : Path) : AreRegistered site (chainOf site path) :=
  fun _ hspec ↦ .inl (mem_specs_of_mem_chainOf hspec)

theorem areRegistered_imports : AreRegistered site [⟨.imports, []⟩] :=
  List.forall_mem_singleton.2 (.inr rfl)

/-- What an evaluator fails with on processors that are registered. -/
def EvalRaises (site : Site) (eval : Evaluator) : Prop :=
  ∀ v path specs, AreRegistered site specs → RaisesOnly (MayRaise site) (eval v path none specs)

theorem raisesOnly_dependOn (path : String) : RaisesOnly (MayRaise site) (dependOn site v path) :=
  raisesOnly_ofExcept_bind (fails_require path true) fun _ _ ↦ .modify _

theorem raisesOnly_requireAsset (heval : EvalRaises site eval) (path : String) :
    RaisesOnly (MayRaise site) (requireAsset eval site v path) := by
  refine raisesOnly_ofExcept_bind (fails_require path true) fun found _ ↦ .bind .get fun s ↦ ?_
  rcases s.marks.get? found with _ | _ | _
  · refine .bind (.modify _) fun _ ↦ .bind (.modify _) fun _ ↦ ?_
    refine (heval v found _ (areRegistered_chainOf found)).bind fun text ↦ ?_
    exact .bind (.modify _) fun _ ↦ .modify _
  · exact .bind .get fun _ ↦ .throw (Fails.reported rfl).mayRaise
  · exact .pure ()

theorem raisesOnly_requireEntries (heval : EvalRaises site eval) (entries : List Disk.Listed) :
    RaisesOnly (MayRaise site) (requireEntries eval site v entries) := by
  induction entries with
  | nil => exact .pure ()
  | cons entry entries ih =>
    refine raisesOnly_ofExcept_bind (fails_isSelected entry) fun selected _ ↦ ?_
    cases selected with
    | false => exact ih
    | true => exact (raisesOnly_requireAsset heval _).bind fun _ ↦ ih

theorem raisesOnly_requireTree (heval : EvalRaises site eval) (path : String) :
    RaisesOnly (MayRaise site) (requireTree eval site v path) := by
  refine raisesOnly_ofExcept_bind (fails_resolve path false) fun found? _ ↦ ?_
  cases found? with
  | none => exact .throw (Fails.reported rfl).mayRaise
  | some folder =>
    refine raisesOnly_ofExcept_bind (fails_isFolder folder) fun isFolder hfolder ↦ ?_
    cases isFolder with
    | false => exact .throw (Fails.reported rfl).mayRaise
    | true =>
      obtain ⟨entries, hlist⟩ := Disk.list_of_isFolder (Disk.orFail_eq_ok.1 hfolder)
      refine .bind (.modify _) fun _ ↦ ?_
      rw [hlist]
      exact raisesOnly_ofExcept_bind (.ok entries) fun entries _ ↦ raisesOnly_requireEntries heval entries

theorem raisesOnly_dataUri (path : String) : RaisesOnly (MayRaise site) (dataUri site v path) := by
  refine raisesOnly_ofExcept_bind (fails_requireFile path) fun found hfound ↦ ?_
  obtain ⟨bytes, hbytes⟩ := readBytes_of_requireFile hfound
  refine .bind (.modify _) fun _ ↦ ?_
  rw [hbytes]
  exact raisesOnly_ofExcept_bind (.ok bytes) fun _ _ ↦ .pure _

theorem raisesOnly_noteField (field : NoteField) :
    RaisesOnly (MayRaise site) (noteField site (some v) field) := by
  cases field with
  | text s => exact .pure _
  | currentName => exact .pure _
  | dataUri path => exact .bind (.pure v) fun _ ↦ (raisesOnly_dataUri path).bind fun _ ↦ .pure _
  | contentType path =>
    exact .bind (.pure v) fun v ↦ raisesOnly_ofExcept_bind (fails_requireFile path) fun _ _ ↦ .pure _

theorem raisesOnly_fulfil (heval : EvalRaises site eval) (request : Request) :
    RaisesOnly (MayRaise site) (fulfil eval site (some v) request) := by
  cases request with
  | require path => exact .bind (.pure v) fun _ ↦ raisesOnly_requireAsset heval path
  | dependOn path => exact .bind (.pure v) fun _ ↦ raisesOnly_dependOn path
  | requireTree path => exact .bind (.pure v) fun _ ↦ raisesOnly_requireTree heval path
  | note fields =>
    exact .bind (.mapM fun field _ ↦ raisesOnly_noteField field) fun _ ↦ .modify _

theorem raisesOnly_runDirectives (heval : EvalRaises site eval) (own : Option DirectiveTable)
    (source : Option Path) (data : String) :
    RaisesOnly (MayRaise site) (runDirectives eval site (some v) own source data) := by
  refine raisesOnly_ofExcept_bind (fails_parse site _) fun parsed _ ↦ ?_
  refine .bind (.forM fun d _ ↦ ?_) fun _ ↦ .pure _
  refine raisesOnly_ofExcept_bind (fails_requests site _ d) fun requests _ ↦ ?_
  exact .bind (.modify _) fun _ ↦ .forM fun request _ ↦ raisesOnly_fulfil heval request

theorem raisesOnly_expandPiece (heval : EvalRaises site eval) (piece : Text.Piece String) :
    RaisesOnly (MayRaise site) (expandPiece eval site v piece) := by
  cases piece with
  | plain c => exact .pure _
  | found path source =>
    refine raisesOnly_ofExcept_bind (fails_resolve path true) fun found? _ ↦ ?_
    cases found? with
    | none => exact .pure _
    | some found =>
      refine raisesOnly_ofExcept_bind (fails_isFile found) fun isFile _ ↦ ?_
      cases isFile with
      | false => exact .pure _
      | true =>
        have hrest : RaisesOnly (MayRaise site) (do
            dependOn site v found.text
            let text ← eval v found none [⟨.imports, []⟩]
            return text.toList ++ ['\n']) :=
          (raisesOnly_dependOn _).bind fun _ ↦
            (heval v found _ areRegistered_imports).bind fun _ ↦ .pure _
        refine .bind .get fun s ↦ ?_
        split
        · exact .bind .get fun _ ↦ .bind (.throw (Fails.reported rfl).mayRaise) fun _ ↦ hrest
        · exact hrest

theorem fails_checkTable {spec : Spec} {own : Option DirectiveTable}
    (hspec : spec ∈ site.pipeline.specs) (hstep : spec.processor.step = .directives own)
    (source : Option Path) (data : String) :
    FailsOnly (Fails site) (checkTable spec own source data) := by
  unfold checkTable
  cases own with
  | some table => exact .ok ()
  | none =>
    cases hhides : spec.hidesTable with
    | false => exact .ok ()
    | true =>
      refine (fails_parse site _).bind fun parsed ↦ ?_
      split
      · exact .ok ()
      · exact .error (.raised hspec (.noTable hstep hhides))

theorem raisesOnly_compileNested (packages : Packages) (isMinified : Bool) (source : Option Path)
    (data : String) : RaisesOnly (MayRaise site) (compileNested packages isMinified source data) := by
  cases source with
  | none => exact .pure _
  | some path =>
    unfold compileNested
    dsimp only
    split
    · split
      · exact .pure _
      · exact .throw (Fails.reported rfl).mayRaise
    · exact .pure _

theorem raisesOnly_runSpec (heval : EvalRaises site eval) {spec : Spec}
    (hspec : spec ∈ site.pipeline.specs ∨ spec.processor.step = .expandImports) (source : Option Path)
    (data : String) : RaisesOnly (MayRaise site) (runSpec eval site (some v) source spec data) := by
  have hregistered : spec.processor.step ≠ .expandImports → spec ∈ site.pipeline.specs :=
    hspec.resolve_right
  unfold runSpec
  cases hstep : spec.processor.step with
  | directives own =>
    have hmem := hregistered (hstep ▸ Step.noConfusion)
    exact raisesOnly_ofExcept_bind (fails_checkTable hmem hstep source data) fun _ _ ↦
      raisesOnly_runDirectives heval own source data
  | expandImports => exact .bind (.mapM fun piece _ ↦ raisesOnly_expandPiece heval piece) fun _ ↦ .pure _
  | compileNested => exact raisesOnly_compileNested _ _ source data
  | callOption =>
    exact .throw (Fails.raised (hregistered (hstep ▸ Step.noConfusion)) (.noFunction hstep)).mayRaise
  | custom run =>
    have hmem := hregistered (hstep ▸ Step.noConfusion)
    refine .bind (.mapM fun fragment hfragment ↦ ?_) fun _ ↦ .pure _
    cases fragment with
    | text s => exact .pure _
    | dataUri path => exact .bind (.pure v) fun _ ↦ raisesOnly_dataUri path
    | raised e => exact .throw (Fails.raised hmem (.custom hstep hfragment)).mayRaise
  | keep => exact .pure _
  | terminateScript => exact .pure _
  | compactStylesheet => exact .pure _
  | compactScript => exact .pure _
  | publishReferences => exact .pure _

/-- An evaluation fails for a reported reason, for what cannot be read, for what a processor raises, or
because it is nested too deep. -/
theorem raisesOnly_evaluateWithin (depth : Nat) {v : Viewpoint} {path : Path}
    {content : Option String} {specs : List Spec} (hspecs : AreRegistered site specs) :
    RaisesOnly (MayRaise site) (evaluateWithin site depth v path content specs) := by
  induction depth generalizing v path content specs with
  | zero => exact .throw fun hne ↦ absurd rfl hne
  | succ depth ih =>
    have heval : EvalRaises site (evaluateWithin site depth) := fun _ _ _ hspecs ↦ ih hspecs
    refine raisesOnly_ofExcept_bind (fails_contentOf path content) fun data _ ↦ ?_
    refine raisesOnly_nested (.foldlM (fun data spec hspec ↦ ?_) data)
    exact raisesOnly_runSpec heval (hspecs spec hspec) _ data

end Evaluations

end Session

end AssetBundler
