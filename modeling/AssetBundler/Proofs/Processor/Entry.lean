import AssetBundler.Proofs.Processor.Options
import AssetBundler.Proofs.Processor.Reference

/-!
# Registering processors

An entry is accepted exactly if every mapping on the way to its end gives options that are a mapping or count
as false and a processor, a function or something registered already stands there. What is registered
already stays as it is. Otherwise the options are those of the registration, then those of the mappings from
the outermost to the innermost, and a function stands among its own. What is refused is reported as an
invalid processor, unless a reference raised something itself (`Entry.coerce_exact`). A registry holds what
was accepted, in order (`Registry.all_attempts`).
-/

namespace AssetBundler

open AssetBundler.Action

variable {library : Library}

/-- A function is found under its key and hides any other value there. -/
theorem Assignment.get?_settings (a : Assignment) (key : String) : a.settings.get? key =
    if a.isFunction = true ∧ key = Spec.functionKey then some (.function a.spec.processor)
    else (a.spec.options.get? key).map .value := by
  have hvalues := Table.get?_map Setting.value a.spec.options.texts key
  rw [Value.Fields.get?_texts] at hvalues
  unfold settings
  cases a.isFunction with
  | false => simpa using hvalues
  | true =>
    simp only [if_true, true_and, Table.get?_insert, hvalues, eq_comm]

namespace Entry

variable {entry last : Entry} {levels : List (Option Value)} {outcome : Except Failure Entry}
  {options : Value.Fields}

/-- The first value for a key counts, of the options from outside and then of the mappings. -/
theorem get?_merged (hoptions : options.IsMapping) (hlevels : ∀ given ∈ levels,
      (fieldsIn given).IsMapping) (key : String) :
    (merged levels options).get? key =
      (options :: levels.map fieldsIn).findSome? fun fields ↦ Value.Fields.get? fields key := by
  induction levels generalizing options with
  | nil => cases h : Value.Fields.get? options key <;> simp [merged, h]
  | cons given levels ih =>
    rw [List.forall_mem_cons] at hlevels
    have hfirst : merged (given :: levels) options = merged levels ((fieldsIn given).merge options) := rfl
    rw [hfirst, ih (Value.Fields.isMapping_merge hlevels.1 options) hlevels.2, List.map_cons,
      List.findSome?_cons, List.findSome?_cons, List.findSome?_cons, Value.Fields.get?_merge hoptions]
    cases Value.Fields.get? options key <;> cases Value.Fields.get? (fieldsIn given) key <;> rfl

/-- An entry that something can be registered as. -/
def IsProcessor : Entry → Prop
  | .processor _ | .function _ | .registered _ => True
  | _ => False

theorem exists_coerceWith_iff (hlast : last.IsLast)
    {follow : String → Value.Fields → Except Failure Assignment} :
    (∃ a, last.coerceWith follow options = .ok a) ↔ last.IsProcessor := by
  cases last with
  | reference reference => exact hlast.elim
  | mapping inner given => exact hlast.elim
  | processor p => exact iff_of_true ⟨_, rfl⟩ trivial
  | function p => exact iff_of_true ⟨_, rfl⟩ trivial
  | registered a => exact iff_of_true ⟨_, rfl⟩ trivial
  | otherClass name => exact iff_of_false (fun ⟨_, h⟩ ↦ nomatch h) id
  | classless shown => exact iff_of_false (fun ⟨_, h⟩ ↦ nomatch h) id
  | other shown => exact iff_of_false (fun ⟨_, h⟩ ↦ nomatch h) id

/-- What is registered already keeps its options, a processor or a function takes those it is given. -/
theorem coerceWith_eq_ok (hlast : last.IsLast)
    {follow : String → Value.Fields → Except Failure Assignment} {a : Assignment}
    (h : last.coerceWith follow options = .ok a) :
    last = .registered a ∨ last = a.target ∧ a.spec.options = options := by
  cases last with
  | reference reference => exact hlast.elim
  | mapping inner given => exact hlast.elim
  | processor p =>
    cases h
    exact .inr ⟨rfl, rfl⟩
  | function p =>
    cases h
    exact .inr ⟨rfl, rfl⟩
  | registered b =>
    cases h
    exact .inl rfl
  | otherClass name => cases h
  | classless shown => cases h
  | other shown => cases h

/-- What is accepted. -/
theorem exists_coerce_iff (hends : Ends library entry levels outcome) :
    (∃ a, entry.coerce library options = .ok a) ↔
      (∀ given ∈ levels, IsOptions given) ∧ ∃ last, outcome = .ok last ∧ last.IsProcessor := by
  by_cases hlevels : ∀ given ∈ levels, IsOptions given
  · rw [coerce_of_ends hends hlevels, and_iff_right hlevels]
    obtain ⟨n, hn⟩ := hends
    cases outcome with
    | error e => exact iff_of_false (fun ⟨_, h⟩ ↦ nomatch h) fun ⟨_, h, _⟩ ↦ nomatch h
    | ok last =>
      refine (exists_coerceWith_iff hn.isLast).trans ⟨fun h ↦ ⟨last, rfl, h⟩, ?_⟩
      rintro ⟨_, heq, h⟩
      exact Except.ok.inj heq ▸ h
  · obtain ⟨v, hv⟩ := coerce_of_not_isOptions options hends hlevels
    refine iff_of_false (fun ⟨a, ha⟩ ↦ ?_) fun h ↦ hlevels h.1
    cases hv.symm.trans ha

/-- As what an entry is accepted. -/
theorem coerce_eq_ok (hends : Ends library entry levels outcome) {a : Assignment}
    (h : entry.coerce library options = .ok a) : outcome = .ok (.registered a) ∨
      outcome = .ok a.target ∧ a.spec.options = merged levels options := by
  have hlevels := ((exists_coerce_iff hends).1 ⟨a, h⟩).1
  rw [coerce_of_ends hends hlevels] at h
  obtain ⟨last, rfl, hlast⟩ := except_bind_eq_ok.1 h
  obtain ⟨n, hn⟩ := hends
  exact (coerceWith_eq_ok hn.isLast hlast).imp (congrArg _) (And.imp_left (congrArg _))

end Entry

namespace Registry

variable {contentType : String} {entry : Entry} {options : Value.Fields} {r r' : Registry}

theorem enter_eq_error {e : Failure} :
    enter library contentType entry options r = .error e r' ↔
      entry.coerce library options = .error e ∧ r' = r := by
  unfold enter
  cases entry.coerce library options with
  | error e' => simp [eq_comm]
  | ok a => exact ⟨fun h ↦ (nomatch h), fun h ↦ (nomatch h.1)⟩

/-- Registering an entry of a configuration. -/
theorem register_eq (r : Registry) (contentType : String) (v : Value) :
    register library r contentType v options =
      ((Entry.ofValue v).coerce library options).map fun a ↦ r.add contentType a.spec := by
  unfold register Spec.ofEntry
  cases (Entry.ofValue v).coerce library options <;> rfl

theorem all_add (r : Registry) (spec : Spec) (other : String) :
    (r.add contentType spec).all (some other) =
      r.all (some other) ++ if contentType = other ∧ other ≠ "" then [spec] else [] := by
  unfold all
  by_cases hempty : other = ""
  · simp [hempty]
  · simp only [if_neg hempty, add, Table.get?_insert]
    by_cases hsame : contentType = other <;> simp [hsame, hempty]

/-- An attempt to register a processor. -/
structure Attempt where
  contentType : String
  entry : Entry
  options : Value.Fields

/-- The registry after an attempt, whether it succeeds or fails. -/
def attempt (library : Library) (r : Registry) (x : Attempt) : Registry :=
  finalState (enter library x.contentType x.entry x.options r)

/-- What an attempt adds to the processors for a content type. -/
def Attempt.gain (library : Library) (x : Attempt) (other : String) : List Spec :=
  match x.entry.coerce library x.options with
  | .ok a => if x.contentType = other ∧ other ≠ "" then [a.spec] else []
  | .error _ => []

theorem all_attempt (r : Registry) (x : Attempt) (other : String) :
    (attempt library r x).all (some other) = r.all (some other) ++ x.gain library other := by
  unfold attempt Attempt.gain enter
  cases x.entry.coerce library x.options with
  | error e => exact (List.append_nil _).symm
  | ok a => exact all_add r a.spec other

/-- After any attempts a registry has what it had before and then what was accepted, in order. -/
theorem all_attempts (r : Registry) (xs : List Attempt) (other : String) :
    (xs.foldl (attempt library) r).all (some other) =
      r.all (some other) ++ xs.flatMap fun x ↦ x.gain library other := by
  induction xs generalizing r with
  | nil => exact (List.append_nil _).symm
  | cons x xs ih => rw [List.foldl_cons, ih, all_attempt, List.flatMap_cons, List.append_assoc]

end Registry

namespace Entry

variable {entry : Entry} {levels : List (Option Value)} {outcome : Except Failure Entry}
  {options : Value.Fields}

/-- An entry whose references end is accepted exactly if all mappings on the way give options that are a
mapping or false, and a processor, a function or something registered already stands at the end. What is
registered already is taken as it is. Otherwise each option has the first value for its key among those of
the registration and of the mappings from the outermost on, but a function stands under its own key.
Anything else is refused as an invalid processor, unless the last reference raised something itself, which
is passed on. A refusal leaves the registry as it was. The entries of a configuration are registered so. -/
theorem coerce_exact (hends : Ends library entry levels outcome) (hoptions : options.IsMapping)
    (hlevels : ∀ given ∈ levels, (fieldsIn given).IsMapping) :
    ((∃ a, entry.coerce library options = .ok a) ↔
      (∀ given ∈ levels, IsOptions given) ∧ ∃ last, outcome = .ok last ∧ last.IsProcessor) ∧
    (∀ a, entry.coerce library options = .ok a → outcome = .ok (.registered a) ∨
      outcome = .ok a.target ∧ ∀ key, a.settings.get? key =
        if a.isFunction = true ∧ key = Spec.functionKey then some (.function a.spec.processor)
        else ((options :: levels.map fieldsIn).findSome? fun fields ↦
          Value.Fields.get? fields key).map .value) ∧
    (∀ e, entry.coerce library options = .error e → (∃ fault, e = .invalidProcessor fault) ∨
      (∀ given ∈ levels, IsOptions given) ∧ outcome = .error e ∧ library.Raises e) ∧
    ((∀ given ∈ levels, IsOptions given) → ∀ e, outcome = .error e →
      entry.coerce library options = .error e) ∧
    (∀ contentType r e r', Registry.enter library contentType entry options r = .error e r' →
      entry.coerce library options = .error e ∧ r' = r) ∧
    ∀ v, ofValue v = entry → ∀ r contentType, Registry.register library r contentType v options =
      (entry.coerce library options).map fun a ↦ r.add contentType a.spec := by
  refine ⟨exists_coerce_iff hends, fun a ha ↦ ?_, fun e he ↦ coerce_error_of_ends hends he,
    fun hall e he ↦ ?_, fun contentType r e r' h ↦ Registry.enter_eq_error.1 h, ?_⟩
  · refine (coerce_eq_ok hends ha).imp_right (And.imp_right fun hmerged key ↦ ?_)
    rw [Assignment.get?_settings, hmerged, get?_merged hoptions hlevels]
  · rw [coerce_of_ends hends hall, he]
    rfl
  · rintro v rfl r contentType
    exact Registry.register_eq r contentType v

/-- A module with a function, references to it and to a class that is no processor, and a processor that is
registered already. -/
def toolbox : Library :=
  Library.standard ++ [("tools", [("shout", .function ⟨"shout", "function", .keep⟩),
    ("loud", .reference "tools.shout"), ("trouble", .reference "assetpipe.errors:ConfigError"),
    ("ready", .registered ⟨⟨.identity, [(.text "depth", .int 3)]⟩, false⟩)])]

/-- A reference in two mappings, which give one option differently and one under the key of functions. -/
def parcel (reference : String) : Entry :=
  .mapping (.mapping (.reference reference)
      (some (.map [(.text "depth", .int 2), (.text "kept", .bool true)])))
    (some (.map [(.text "function", .null), (.text "depth", .int 1)]))

/-- The options of a parcel. -/
def wrapping : List (Option Value) :=
  [some (.map [(.text "function", .null), (.text "depth", .int 1)]),
    some (.map [(.text "depth", .int 2), (.text "kept", .bool true)])]

theorem isOptions_wrapping : ∀ given ∈ wrapping, IsOptions given := by
  intro given hgiven
  simp only [wrapping, List.mem_cons, List.not_mem_nil, or_false] at hgiven
  rcases hgiven with rfl | rfl <;> exact fun v hv ↦ .inl ⟨_, (Option.some.inj hv).symm⟩

theorem isMapping_wrapping : ∀ given ∈ wrapping, (fieldsIn given).IsMapping := by
  intro given hgiven
  simp only [wrapping, List.mem_cons, List.not_mem_nil, or_false] at hgiven
  rcases hgiven with rfl | rfl <;> decide

theorem ends_loud :
    Ends toolbox (parcel "tools:loud") wrapping (.ok (.function ⟨"shout", "function", .keep⟩)) :=
  ⟨2, .inside (.inside (.next rfl (.next rfl (.stays trivial))))⟩

theorem ends_trouble :
    Ends toolbox (parcel "tools:trouble") wrapping (.ok (.otherClass "assetpipe.errors.ConfigError")) :=
  ⟨2, .inside (.inside (.next rfl (.next rfl (.stays trivial))))⟩

/-- The registration comes before the mappings and the outer mapping before the inner one, and a function
is not hidden; a class of another kind is refused. -/
theorem coerce_exact_parcel :
    (∃ a, (parcel "tools:loud").coerce toolbox [(.text "depth", .int 0)] = .ok a ∧
      a.target = .function ⟨"shout", "function", .keep⟩ ∧
      a.settings.get? "depth" = some (.value (.int 0)) ∧
      a.settings.get? "kept" = some (.value (.bool true)) ∧
      a.settings.get? "function" = some (.function ⟨"shout", "function", .keep⟩)) ∧
    ∃ e, (parcel "tools:trouble").coerce toolbox [] = .error e ∧ ∃ fault, e = .invalidProcessor fault := by
  constructor
  · obtain ⟨haccepted, hsettings, -⟩ := @coerce_exact toolbox (parcel "tools:loud") wrapping _
      [(.text "depth", .int 0)] ends_loud (by decide) isMapping_wrapping
    obtain ⟨a, ha⟩ := haccepted.2 ⟨isOptions_wrapping, _, rfl, trivial⟩
    rcases hsettings a ha with hregistered | ⟨htarget, hkeys⟩
    · cases hregistered
    obtain ⟨⟨p, fields⟩, isFunction⟩ := a
    cases isFunction with
    | false => cases htarget
    | true =>
      cases htarget
      exact ⟨_, ha, rfl, hkeys "depth", hkeys "kept", hkeys "function"⟩
  · obtain ⟨haccepted, -, hrefused, -⟩ := @coerce_exact toolbox (parcel "tools:trouble") wrapping _ []
      ends_trouble (by decide) isMapping_wrapping
    cases h : (parcel "tools:trouble").coerce toolbox [] with
    | ok a =>
      obtain ⟨-, last, hlast, hprocessor⟩ := haccepted.1 ⟨a, h⟩
      cases hlast
      exact hprocessor.elim
    | error e =>
      refine ⟨e, rfl, (hrefused e h).resolve_right ?_⟩
      rintro ⟨-, hlast, -⟩
      cases hlast

/-- What is registered already takes no option of the mappings around it, and a module that begins with a
dot is not reported as an invalid processor. -/
theorem coerce_ready :
    (Ends toolbox (parcel "tools:ready") wrapping
        (.ok (.registered ⟨⟨.identity, [(.text "depth", .int 3)]⟩, false⟩)) ∧
      ∃ a, (parcel "tools:ready").coerce toolbox [] = .ok a ∧
        a.settings.get? "depth" = some (.value (.int 3)) ∧ a.settings.get? "kept" = none) ∧
    Ends toolbox (.reference ".base:Processor") [] (.error (.relativeReference ".base:Processor")) ∧
      (reference ".base:Processor").coerce toolbox [] = .error (.relativeReference ".base:Processor") := by
  have hready : Ends toolbox (parcel "tools:ready") wrapping
      (.ok (.registered ⟨⟨.identity, [(.text "depth", .int 3)]⟩, false⟩)) :=
    ⟨1, .inside (.inside (.next rfl (.stays trivial)))⟩
  have hdotted : Ends toolbox (.reference ".base:Processor") []
      (.error (.relativeReference ".base:Processor")) := ⟨1, .fails rfl⟩
  exact ⟨⟨hready, _, coerce_of_ends hready isOptions_wrapping, rfl, rfl⟩, hdotted,
    coerce_of_ends hdotted (List.forall_mem_nil _)⟩

end Entry

end AssetBundler
