import AssetBundler.Proofs.Session.Restoration

/-!
# The log of one file

While a file is in progress it is not required again, and an import of it runs no directives. So the
evaluations of other files leave the part of the log that belongs to it as it is (`Quiet`), whatever
processors and directives they use. A run of directives of the file itself that ends well has logged
each of them, in order (`logOf_of_runDirectives`).
-/

namespace AssetBundler.Session

open AssetBundler.Action

/-- The directives that were executed with a file as the current one, in order. -/
def logOf (file : Path) (s : Session) : List Execution := s.log.filter (·.source = some file)

/-- A directive as it is logged for a file. -/
def record (file : Path) (d : Directive) : Execution := ⟨some file, d.name, d.arguments⟩

theorem logOf_logged_self (file : Path) (d : Directive) (s : Session) :
    logOf file (logged (some file) d s) = logOf file s ++ [record file d] := by
  simp [logOf, logged, record]

theorem logOf_logged_of_ne {file path : Path} (h : path ≠ file) (d : Directive) (s : Session) :
    logOf file (logged (some path) d s) = logOf file s := by
  simp [logOf, logged, h]

/-- A file that is in progress stays so and gets nothing into its log. -/
def IsQuiet (file : Path) (s t : Session) : Prop :=
  s.marks.get? file = some .inProgress →
    t.marks.get? file = some .inProgress ∧ logOf file t = logOf file s

instance (file : Path) : IsPreorder Session (IsQuiet file) where
  refl _ hs := ⟨hs, rfl⟩
  trans _ _ _ h h' hs := by
    obtain ⟨ht, hlog⟩ := h hs
    obtain ⟨hu, hlog'⟩ := h' ht
    exact ⟨hu, hlog'.trans hlog⟩

abbrev Quiet (file : Path) {α : Type} (x : Action α) : Prop := MovesAlong (IsQuiet file) x

section Quiet

variable {file path k : Path} {eval : Evaluator} {site : Site} {v : Viewpoint} {α β γ : Type}

theorem SameTrail.isQuiet {s t : Session} (h : SameTrail s t) : IsQuiet file s t := by
  intro hs
  rw [h.marks, logOf, h.log]
  exact ⟨hs, rfl⟩

theorem quiet_of_sameTrail {x : Action α} (h : MovesAlong SameTrail x) : Quiet file x :=
  h.mono fun _ _ ↦ SameTrail.isQuiet

theorem quiet_ofExcept (x : Except Failure α) : Quiet file (ofExcept x : Action α) :=
  quiet_of_sameTrail (sameTrail_ofExcept x)

theorem quiet_forM {f : β → Action Unit} {xs : List β} (h : ∀ x ∈ xs, Quiet file (f x)) :
    Quiet file (xs.forM f) := by
  induction xs with
  | nil => exact .pure ()
  | cons x xs ih =>
    refine (h x (List.mem_cons_self ..)).bind fun _ ↦ ih fun y hy ↦ ?_
    exact h y (List.mem_cons_of_mem _ hy)

theorem quiet_foldlM {f : γ → β → Action γ} {xs : List β} (h : ∀ c, ∀ x ∈ xs, Quiet file (f c x))
    (c : γ) : Quiet file (xs.foldlM f c) := by
  induction xs generalizing c with
  | nil => exact .pure c
  | cons x xs ih =>
    rw [List.foldlM_cons]
    refine (h c x (List.mem_cons_self ..)).bind fun d ↦ ih (fun d y hy ↦ ?_) d
    exact h d y (List.mem_cons_of_mem _ hy)

theorem quiet_nested {inner : Action α} (h : Quiet file inner) : Quiet file (nested path inner) := by
  intro s hs
  rw [marks_nested, logOf, log_nested]
  exact h (entered path s) hs

theorem quiet_setMark (h : k ≠ file) (m : Mark) : Quiet file (setMark k m) := by
  intro s hs
  refine ⟨?_, rfl⟩
  change (s.marks.insert k m).get? file = _
  rw [Table.get?_insert, if_neg h]
  exact hs

/-- Evaluations of other files are quiet, and imports of any file are. -/
structure EvalQuiet (site : Site) (file : Path) (eval : Evaluator) : Prop where
  others : ∀ v k specs, k ≠ file → Quiet file (eval v k none specs)
  imports : ∀ v k, MovesAlong SameTrail (eval v k none [⟨.imports, []⟩])

theorem quiet_requireAsset (heval : EvalQuiet site file eval) (v : Viewpoint) (name : String) :
    Quiet file (requireAsset eval site v name) := by
  refine (quiet_ofExcept _).bind fun found s hs ↦ ?_
  rw [bind_of_ok (get_apply s)]
  rcases hmark : s.marks.get? found with _ | _ | _
  · have hother : found ≠ file := by
      rintro rfl
      cases hmark.symm.trans hs
    have hvisit : Quiet file (do
        setMark found .inProgress
        addDependency found
        let text ← eval v found none (site.pipeline.processorsFor (site.pipeline.contentTypeOf found))
        addText text
        setMark found .done) :=
      (quiet_setMark hother _).bind fun _ ↦
        (quiet_of_sameTrail (sameTrail_addDependency found)).bind fun _ ↦
          (heval.others v found _ hother).bind fun text ↦
            MovesAlong.bind (fun t ht ↦ ⟨ht, rfl⟩) fun _ ↦ quiet_setMark hother _
    exact hvisit s hs
  · exact ⟨hs, rfl⟩
  · exact ⟨hs, rfl⟩

theorem quiet_requireTree (heval : EvalQuiet site file eval) (v : Viewpoint) (name : String) :
    Quiet file (requireTree eval site v name) := by
  have hentries : ∀ entries, Quiet file (requireEntries eval site v entries) := by
    intro entries
    induction entries with
    | nil => exact .pure ()
    | cons entry entries ih =>
      refine (quiet_ofExcept _).bind fun selected ↦ ?_
      cases selected with
      | false => exact ih
      | true => exact (quiet_requireAsset heval v _).bind fun _ ↦ ih
  refine (quiet_ofExcept _).bind fun found? ↦ ?_
  cases found? with
  | none => exact .throw _
  | some folder =>
    refine (quiet_ofExcept _).bind fun isFolder ↦ ?_
    cases isFolder with
    | false => exact .throw _
    | true =>
      exact (quiet_of_sameTrail (sameTrail_addDependency folder)).bind fun _ ↦
        (quiet_ofExcept _).bind hentries

theorem quiet_fulfil (heval : EvalQuiet site file eval) (v : Viewpoint) (request : Request) :
    Quiet file (fulfil eval site (some v) request) := by
  cases request with
  | require name => exact quiet_requireAsset heval v name
  | dependOn name => exact quiet_of_sameTrail (sameTrail_dependOn site v name)
  | requireTree name => exact quiet_requireTree heval v name
  | note fields =>
    exact quiet_of_sameTrail ((sameTrail_mapM (sameTrail_noteField site v) fields).bind
      fun _ _ ↦ ⟨rfl, rfl, rfl⟩)

theorem quiet_runDirectives (heval : EvalQuiet site file eval) (v : Viewpoint) (hpath : path ≠ file)
    (own : Option DirectiveTable) (data : String) :
    Quiet file (runDirectives eval site (some v) own (some path) data) := by
  refine (quiet_ofExcept _).bind fun parsed ↦ (quiet_forM fun d _ ↦ ?_).bind fun _ ↦ .pure _
  refine (quiet_ofExcept _).bind fun requests ↦ ?_
  have hlogs : Quiet file (logDirective (some path) d) := fun s hs ↦
    ⟨hs, logOf_logged_of_ne hpath d s⟩
  exact hlogs.bind fun _ ↦ quiet_forM fun request _ ↦ quiet_fulfil heval v request

/-- A processor is quiet on other files, and one that runs no directives on every file. -/
theorem quiet_runSpec (heval : EvalQuiet site file eval) {spec : Spec}
    (h : path ≠ file ∨ ∀ own, spec.processor.step ≠ .directives own) (data : String) :
    Quiet file (runSpec eval site (some ⟨some path⟩) (some path) spec data) := by
  by_cases hdirectives : ∃ own, spec.processor.step = .directives own
  · obtain ⟨own, hstep⟩ := hdirectives
    have hpath := h.resolve_right fun hnone ↦ hnone own hstep
    rw [runSpec_of_directives _ _ hstep]
    exact (quiet_ofExcept _).bind fun _ ↦ quiet_runDirectives heval _ hpath own data
  · exact quiet_of_sameTrail (sameTrail_runSpec heval.imports fun own hown ↦ hdirectives ⟨own, hown⟩)

theorem evalQuiet_evaluateWithin (site : Site) (file : Path) (depth : Nat) :
    EvalQuiet site file (evaluateWithin site depth) := by
  refine ⟨?_, sameTrail_evaluateWithin site depth⟩
  induction depth with
  | zero => exact fun _ _ _ _ ↦ .throw Failure.nestedTooDeep
  | succ depth ih =>
    intro v k specs hk
    refine (quiet_ofExcept _).bind fun data ↦ quiet_nested (quiet_foldlM (fun data spec _ ↦ ?_) data)
    exact quiet_runSpec ⟨ih, sameTrail_evaluateWithin site depth⟩ (.inl hk) data

end Quiet

section Own

variable {file : Path} {eval : Evaluator} {site : Site} {s t : Session}

/-- A directive of the file that ends well is logged, and what it asked for was known. -/
theorem logOf_of_runDirective (heval : EvalQuiet site file eval) {v : Viewpoint}
    {table : DirectiveTable} {d : Directive} (hmark : s.marks.get? file = some .inProgress)
    (h : runDirective eval site (some v) table (some file) d s = .ok () t) :
    (∃ requests, table.requests (some file) d = .ok requests) ∧
      t.marks.get? file = some .inProgress ∧ logOf file t = logOf file s ++ [record file d] := by
  obtain ⟨requests, _, hasked, hrun⟩ := bind_eq_ok.1 h
  obtain ⟨hrequests, rfl⟩ := ofExcept_eq_ok.1 hasked
  obtain ⟨_, _, ⟨⟩, hfulfil⟩ := bind_eq_ok.1 hrun
  have hquiet : Quiet file (requests.forM (fulfil eval site (some v))) :=
    quiet_forM fun request _ ↦ quiet_fulfil heval v request
  obtain ⟨hmark', hlog⟩ := hquiet.ok hfulfil hmark
  exact ⟨⟨requests, hrequests⟩, hmark', hlog.trans (logOf_logged_self file d _)⟩

theorem logOf_of_forM (heval : EvalQuiet site file eval) {v : Viewpoint} {table : DirectiveTable}
    {ds : List Directive} (hmark : s.marks.get? file = some .inProgress)
    (h : ds.forM (runDirective eval site (some v) table (some file)) s = .ok () t) :
    (∀ d ∈ ds, ∃ requests, table.requests (some file) d = .ok requests) ∧
      t.marks.get? file = some .inProgress ∧ logOf file t = logOf file s ++ ds.map (record file) := by
  induction ds generalizing s with
  | nil =>
    cases h
    exact ⟨List.forall_mem_nil _, hmark, (List.append_nil _).symm⟩
  | cons d ds ih =>
    obtain ⟨_, u, hfirst, hrest⟩ := bind_eq_ok.1 h
    obtain ⟨hknown, hmark', hlog⟩ := logOf_of_runDirective heval hmark hfirst
    obtain ⟨hall, hmark'', hlog'⟩ := ih hmark' hrest
    refine ⟨List.forall_mem_cons.2 ⟨hknown, hall⟩, hmark'', ?_⟩
    rw [hlog', hlog, List.append_assoc]
    rfl

/-- A run of directives of the file that ends well has executed those that it found, in order. -/
theorem logOf_of_runDirectives (heval : EvalQuiet site file eval) {v : Viewpoint}
    {own : Option DirectiveTable} {data out : String} (hmark : s.marks.get? file = some .inProgress)
    (h : runDirectives eval site (some v) own (some file) data s = .ok out t) : ∃ parsed,
      ParsedSource.parse (some file) data.toList = .ok parsed ∧
      (∀ d ∈ parsed.directives, ∃ requests,
        (directiveTable site (some v) own).requests (some file) d = .ok requests) ∧
      t.marks.get? file = some .inProgress ∧
      logOf file t = logOf file s ++ parsed.directives.map (record file) := by
  obtain ⟨parsed, _, hparse, hrun⟩ := bind_eq_ok.1 h
  obtain ⟨hparsed, rfl⟩ := ofExcept_eq_ok.1 hparse
  obtain ⟨_, _, hall, hout⟩ := bind_eq_ok.1 hrun
  cases hout
  exact ⟨parsed, hparsed, logOf_of_forM heval hmark hall⟩

end Own

end AssetBundler.Session
