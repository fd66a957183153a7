import AssetBundler.Command.Run
import AssetBundler.Proofs.Release.Failing

/-!
# Exit codes

An invocation is answered with the code 0 or 2 unless it fails with something that is not reported. What
is wrong with the text of a configuration, an asset or a manifest is reported, and so is what cannot be
written; what remains are files that hold no text, names that are too long, what code outside the pipeline
raises, and a few slips of the commands (`Escapes`). Main statement: the invocations that end without a
code (`Command.run_exits_exact`).
-/

namespace AssetBundler

open AssetBundler.Action

def Json.isSurrogate (n : Nat) : Bool := 0xD800 ≤ n && n < 0xE000

/-- Whether a text spells half of a surrogate pair: an escape of the one that is not followed by an escape
of the other. -/
def Json.spellsHalf : List Char → Bool
  | '\\' :: 'u' :: a :: b :: c :: d :: cs =>
    match unit? a b c d with
    | some n =>
      if isSurrogate n then
        match cs with
        | '\\' :: 'u' :: e :: f :: g :: h :: rest =>
          ((unit? e f g h).bind (pair? n)).isNone || spellsHalf rest
        | _ => true
      else spellsHalf cs
    | none => spellsHalf cs
  | '\\' :: _ :: cs => spellsHalf cs
  | _ :: cs => spellsHalf cs
  | [] => false

/-- Whether a text spells a unit of a surrogate pair, with four digits or with eight. -/
def Yaml.spellsUnit : List Char → Bool
  | '\\' :: 'u' :: a :: b :: c :: d :: cs => (Json.unit? a b c d).any Json.isSurrogate || spellsUnit cs
  | '\\' :: 'U' :: '0' :: '0' :: '0' :: '0' :: a :: b :: c :: d :: cs =>
    (Json.unit? a b c d).any Json.isSurrogate || spellsUnit cs
  | '\\' :: _ :: cs => spellsUnit cs
  | _ :: cs => spellsUnit cs
  | [] => false

mutual

/-- Whether an integer that is too long to be printed occurs in a value. -/
def Value.holdsLong : Value → Bool
  | .int n => 10 ^ Json.maxDigits ≤ n.natAbs
  | .list items => itemsHoldLong items
  | .map fields => fieldsHoldLong fields
  | _ => false

def Value.itemsHoldLong : List Value → Bool
  | [] => false
  | v :: vs => v.holdsLong || itemsHoldLong vs

def Value.fieldsHoldLong : List (Value × Value) → Bool
  | [] => false
  | (k, v) :: fields => k.holdsLong || v.holdsLong || fieldsHoldLong fields

end

def Text.holdsNull (s : String) : Bool := s.toList.contains '\x00'

/-- The value that the configuration file in a root folder holds. -/
def Config.value? (packages : Packages) (d : Disk) (root : Path) : Option Value := do
  let text ← (d.readText (d.resolve (root.join fileName))).toOption
  (← (packages.parseYaml text).toOption)

/-- The texts of a configuration that become parts of paths. -/
def Config.pathTexts (c : Config) : List String :=
  c.paths ++ [c.publicDir, c.assetDir.development, c.assetDir.production] ++
    c.targetExtensions.map Prod.snd ++ c.staticFiles.keys ++ c.staticFiles.flatMap Prod.snd

namespace Command

namespace Task

/-- Whether a task builds assets. -/
def builds : Task → Bool
  | .render _ | .body _ => true
  | .release compiles => compiles
  | .url _ | .manifest => false

/-- Whether a task publishes assets. -/
def publishes : Task → Bool
  | .render _ => true
  | .release compiles => compiles
  | .body _ | .url _ | .manifest => false

/-- What a task fails with where it is not reported, on the site that it leaves. -/
inductive Breaks : Task → Site → Failure → Prop
  | unreadable {task : Task} {s : Site} {e : Failure} (h : e.IsUnreadable s.disk) : Breaks task s e
  | longInteger {task : Task} {s : Site} {e : Failure} (h : e.IsLongInteger s.disk) : Breaks task s e
  | misused {task : Task} {s : Site} {entry : Value} {spec : Spec} {e : Failure}
      (hbuilds : task.builds = true) (hentry : entry ∈ s.pipeline.config.entries)
      (hspec : Spec.ofEntry s.pipeline.library entry [] = .ok spec) (h : spec.Raises e)
      (he : e.isReported = false) : Breaks task s e
  | missing {task : Task} {s : Site} {e : Failure} (hpublishes : task.publishes = true)
      (h : s.Misses e) : Breaks task s e
  | badPattern {compiles : Bool} {s : Site} {raised : Raised}
      (h : s.pipeline.library.packages.ignores s.pipeline.config.staticIgnore = .error raised)
      (he : raised.1.isReported = false) : Breaks (.release compiles) s raised.1
  | manifestFolder {compiles : Bool} {s : Site}
      (hfolder : s.disk.isFolder s.pipeline.manifestPath = .ok true) :
      Breaks (.release compiles) s (.disk (.refused .isFolder s.pipeline.manifestPath))

def Fails (task : Task) (e : Failure) (s : Site) : Prop := e.isReported = true ∨ task.Breaks s e

section Failures

variable {task : Task} {s : Site} {e : Failure}

theorem fails_of_isOrdinary (h : e.IsOrdinary s.disk) : task.Fails e s := h.imp_right .unreadable

theorem fails_of_buildFails (hbuilds : task.builds = true) (h : s.BuildFails e) : task.Fails e s := by
  cases h with
  | ordinary h => exact fails_of_isOrdinary h
  | raised hentry hspec h =>
    exact (Bool.eq_false_or_eq_true _).imp_right fun he ↦ .misused hbuilds hentry hspec h he

theorem fails_of_renderFails (hbuilds : task.builds = true) (hpublishes : task.publishes = true)
    (h : Site.RenderFails e s) : task.Fails e s :=
  h.elim (fails_of_buildFails hbuilds) fun hmisses ↦ .inr (.missing hpublishes hmisses)

theorem fails_of_releaseFails {compiles : Bool} (h : Site.ReleaseFails compiles s e) :
    (release compiles).Fails e s := by
  cases h with
  | ordinary h => exact fails_of_isOrdinary h
  | badPattern h => exact (Bool.eq_false_or_eq_true _).imp_right fun he ↦ .badPattern h he
  | manifestFolder hfolder => exact .inr (.manifestFolder hfolder)
  | render hcompiles h => exact fails_of_renderFails hcompiles hcompiles h

end Failures

end Task

open Manifest.Store in
theorem ensures_perform {p : Pipeline} {here : List String} (hp : p.Works here) (task : Task) :
    Ensures (Site.Framed p (IsOrderly p here)) (perform task) (fun _ _ ↦ True) task.Fails := by
  cases task with
  | render logical =>
    refine Ensures.bind ((Site.ensures_renderAsset hp logical).failing fun _ _ h ↦
      Task.fails_of_renderFails rfl rfl h) fun _ ↦ ?_
    exact Ensures.pure _ fun _ _ ↦ trivial
  | body logical =>
    exact (Site.ensures_showBody hp logical).failing fun _ _ h ↦ Task.fails_of_buildFails rfl h
  | url logical => exact fun _ _ ↦ trivial
  | release compiles =>
    refine Ensures.bind ((Site.ensures_releaseSite hp compiles).failing fun _ _ h ↦
      Task.fails_of_releaseFails h) fun _ ↦ ?_
    exact Ensures.pure _ fun _ _ ↦ trivial
  | manifest => exact fun _ _ ↦ trivial

/-- On a sound disk an opened pipeline does its task, or fails with what is reported or breaks the task. -/
theorem fails_of_work {d : Disk} (hhere : ∀ name ∈ d.here, Path.IsName name ∧ name ≠ "..")
    (hd : d.IsSound) {p : Pipeline} (hp : p.IsOpened) {i : Invocation} {e : Failure} {s : Site}
    (h : work i ⟨d, p, [], []⟩ = .error e s) : i.task.Fails e s := by
  unfold work at h
  cases hprod : i.production with
  | false =>
    rw [hprod] at h
    exact (ensures_perform (p := p) ⟨hp.toIsAssembled, hhere⟩ i.task).error
      ⟨rfl, rfl, hd, hp.manifest⟩ h
  | true =>
    rw [hprod] at h
    rcases Site.setEnvironment_cases p.productionName ⟨d, p, [], []⟩ with
      ⟨manifest, hmanifest, hset⟩ | ⟨e', t, hset, hdisk, he⟩
    · rcases bind_eq_error.1 h with hturn | ⟨_, t, hturn, hperform⟩
      · cases hturn.symm.trans hset
      · cases hturn.symm.trans hset
        refine (ensures_perform (p := { p with environment := p.productionName }) ⟨?_, hhere⟩
          i.task).error ⟨rfl, rfl, hd, hmanifest⟩ hperform
        exact ⟨hp.directives, hp.specs, hp.root, hp.roots⟩
    · rcases bind_eq_error.1 h with hturn | ⟨_, t', hturn, -⟩
      · cases hturn.symm.trans hset
        rw [← hdisk] at he
        exact he.elim Task.fails_of_isOrdinary fun hlong ↦ .inr (.longInteger hlong)
      · cases hturn.symm.trans hset

/-! ## Runs -/

/-- A file that holds no text, or a text without a null character; in a manifest it spells no half of a
surrogate pair, and in a configuration no unit of one. -/
def isPlainFile (f : List String × Node) : Bool :=
  (f.2.bytes?.bind String.fromUTF8?).all fun text ↦ !Text.holdsNull text &&
    !(f.1.getLast? == some Manifest.fileName && Json.spellsHalf text.toList) &&
    !(f.1.getLast? == some Config.fileName && Yaml.spellsUnit text.toList)

/-- A project whose files and whose configuration spell paths, characters and integers only that there are: a
null character is in no path, half of a surrogate pair is no character, and an integer that is too long is
not printed. Its disk is sound. -/
structure IsPlain (library : Library) (d : Disk) (i : Invocation) : Prop where
  here : ∀ name ∈ d.here, Path.IsName name ∧ name ≠ ".."
  sound : d.IsSound
  texts : d.top.files.all isPlainFile = true
  integers : (Config.value? library.packages d (d.resolve (rootOf d i))).all (!·.holdsLong) = true
  paths : (Config.load d (d.resolve (rootOf d i)) library.packages).toOption.all
    (fun config ↦ !config.pathTexts.any Text.holdsNull) = true

/-- How an invocation ends without a code, and the disk that it leaves. -/
inductive Escapes (library : Library) (d : Disk) (inherited : Option String) (i : Invocation) :
    Failure → Disk → Prop
  | unreadable {e : Failure} (hopen : openProject library d inherited i = .error e)
      (h : e.IsUnreadable d) : Escapes library d inherited i e d
  | longInteger {e : Failure} (hopen : openProject library d inherited i = .error e)
      (h : e.IsLongInteger d) : Escapes library d inherited i e d
  | unparsed {e : Failure} (hopen : openProject library d inherited i = .error e)
      (h : Config.Unparsed library.packages d (d.resolve (rootOf d i)) e) (he : e.isReported = false) :
      Escapes library d inherited i e d
  | stopped {config : Config} {entry : Value} {e : Failure}
      (hopen : openProject library d inherited i = .error e)
      (hconfig : Config.load d (d.resolve (rootOf d i)) library.packages = .ok config)
      (hentry : entry ∈ config.entries) (h : (Entry.ofValue entry).Stops library e)
      (he : e.isReported = false) : Escapes library d inherited i e d
  | working {p : Pipeline} {e : Failure} {s : Site}
      (hopen : openProject library d inherited i = .ok p) (hwork : work i ⟨d, p, [], []⟩ = .error e s)
      (h : i.task.Breaks s e) : Escapes library d inherited i e s.disk

section Runs

variable {library : Library} {d : Disk} {inherited : Option String} {i : Invocation} {e : Failure}

theorem isReported_of_isUnreadable (h : e.IsUnreadable d) : e.isReported = false := by
  cases e with
  | disk why => rfl
  | notText p => rfl
  | _ => exact h.elim

theorem isReported_of_isLongInteger (h : e.IsLongInteger d) : e.isReported = false := by
  cases e with
  | notText p => rfl
  | _ => exact h.elim

theorem Task.isReported_of_breaks {task : Task} {s : Site} (h : task.Breaks s e) :
    e.isReported = false := by
  cases h with
  | unreadable h => exact isReported_of_isUnreadable h
  | longInteger h => exact isReported_of_isLongInteger h
  | misused _ _ _ _ he => exact he
  | badPattern _ he => exact he
  | missing hpublishes h =>
    obtain ⟨_, _, _, -, -, -, -, -, _, _, _, -, -, -, rfl⟩ := h
    rfl
  | manifestFolder => rfl

theorem refusal_of_isReported (verbosity : Nat) (messages : List Message) (h : e.isReported = true) :
    ∃ o, refusal verbosity messages e = .ok o ∧ o.code = 2 ∧ o.output = "" := by
  unfold refusal
  rw [if_pos h]
  exact ⟨_, rfl, rfl, rfl⟩

theorem refusal_of_not_isReported (verbosity : Nat) (messages : List Message)
    (h : e.isReported = false) : refusal verbosity messages e = .error e := by
  unfold refusal
  rw [if_neg (by simp [h])]

/-- What opening a project fails with. -/
theorem failsOnly_openProject :
    FailsOnly (fun e ↦ ((e.IsOrdinary d ∨ e.IsLongInteger d) ∨
      Config.Unparsed library.packages d (d.resolve (rootOf d i)) e) ∨
      ∃ config, Config.load d (d.resolve (rootOf d i)) library.packages = .ok config ∧
        ∃ entry ∈ config.entries, (Entry.ofValue entry).Stops library e)
      (openProject library d inherited i) := by
  refine FailsOnly.bind_of_eq_ok ?_ fun config hconfig ↦ ?_
  · exact (Config.failsOnly_load library.packages d _).mono fun _ he ↦ .inl (he.imp_left .inl)
  · exact Site.failsOnly_openPipeline.mono fun _ ↦ Or.imp .inl fun hstops ↦ ⟨config, hconfig, hstops⟩

theorem openProject_error (h : openProject library d inherited i = .error e) :
    e.isReported = true ∨ Escapes library d inherited i e d := by
  cases he : e.isReported with
  | true => exact .inl rfl
  | false =>
    right
    obtain (((hreported | hunreadable) | hlong) | hunparsed) | ⟨config, hconfig, entry, hentry, hstops⟩ :=
      failsOnly_openProject e h
    · rw [he] at hreported
      cases hreported
    · exact .unreadable h hunreadable
    · exact .longInteger h hlong
    · exact .unparsed h hunparsed he
    · exact .stopped h hconfig hentry hstops he

theorem opened_of_openProject (hhere : ∀ name ∈ d.here, Path.IsName name ∧ name ≠ "..") {p : Pipeline}
    (h : openProject library d inherited i = .ok p) : p.IsOpened ∧ p.library = library := by
  have hroot : (rootOf d i).IsProper := by
    unfold rootOf
    cases i.root with
    | none => exact fun name hname ↦ (hhere name hname).1
    | some text => exact Path.isProper_ofText text
  obtain ⟨config, -, h⟩ := except_bind_eq_ok.1 h
  have hopened := Site.opened_of_openPipeline hhere (Path.isCanonical_resolve hroot hhere).proper h
  exact ⟨hopened.1, hopened.2.2⟩

theorem run_of_openProject_error (h : openProject library d inherited i = .error e) :
    run library d inherited i = (refusal i.verbosity [] e, d) := by
  unfold run
  rw [h]

theorem run_of_work_ok {p : Pipeline} {output : String} {s : Site}
    (hopen : openProject library d inherited i = .ok p) (hwork : work i ⟨d, p, [], []⟩ = .ok output s) :
    run library d inherited i = (.ok ⟨0, output, messagesText i.verbosity s.messages⟩, s.disk) := by
  unfold run
  rw [hopen]
  dsimp only
  rw [hwork]

theorem run_of_work_error {p : Pipeline} {s : Site} (hopen : openProject library d inherited i = .ok p)
    (hwork : work i ⟨d, p, [], []⟩ = .error e s) :
    run library d inherited i = (refusal i.verbosity s.messages e, s.disk) := by
  unfold run
  rw [hopen]
  dsimp only
  rw [hwork]

theorem Escapes.isReported {left : Disk} (h : Escapes library d inherited i e left) :
    e.isReported = false := by
  cases h with
  | unreadable _ h => exact isReported_of_isUnreadable h
  | longInteger _ h => exact isReported_of_isLongInteger h
  | unparsed _ _ he => exact he
  | stopped _ _ _ _ he => exact he
  | working _ _ h => exact Task.isReported_of_breaks h

theorem Escapes.run_eq {left : Disk} (h : Escapes library d inherited i e left) :
    run library d inherited i = (.error e, left) := by
  have hrefused := fun verbosity messages ↦ refusal_of_not_isReported verbosity messages h.isReported
  cases h with
  | working hopen hwork => rw [run_of_work_error hopen hwork, hrefused]
  | unreadable hopen => rw [run_of_openProject_error hopen, hrefused]
  | longInteger hopen => rw [run_of_openProject_error hopen, hrefused]
  | unparsed hopen => rw [run_of_openProject_error hopen, hrefused]
  | stopped hopen => rw [run_of_openProject_error hopen, hrefused]

/-- A run ends with the code 0, or with the code 2 and without output. -/
def Exits (library : Library) (d : Disk) (inherited : Option String) (i : Invocation) : Prop :=
  ∃ o left, run library d inherited i = (.ok o, left) ∧ (o.code = 0 ∨ o.code = 2 ∧ o.output = "")

theorem exits_of_toOption {o : Outcome} (h : (run library d inherited i).1.toOption = some o)
    (hcode : o.code = 0 ∨ o.code = 2 ∧ o.output = "") : Exits library d inherited i :=
  ⟨o, _, Prod.ext (eq_ok_of_toOption h) rfl, hcode⟩

theorem exits_of_isReported {left : Disk} {messages : List Message} (hreported : e.isReported = true)
    (h : run library d inherited i = (refusal i.verbosity messages e, left)) :
    Exits library d inherited i := by
  obtain ⟨o, hrefusal, hcode⟩ := refusal_of_isReported i.verbosity messages hreported
  exact ⟨o, left, by rw [h, hrefusal], .inr hcode⟩

theorem exits_or_escapes (library : Library)
    (hhere : ∀ name ∈ d.here, Path.IsName name ∧ name ≠ "..") (hd : d.IsSound)
    (inherited : Option String) (i : Invocation) :
    Exits library d inherited i ∨ ∃ e left, Escapes library d inherited i e left := by
  rcases hopen : openProject library d inherited i with e | p
  · rcases openProject_error hopen with hreported | hescapes
    · exact .inl (exits_of_isReported hreported (run_of_openProject_error hopen))
    · exact .inr ⟨e, d, hescapes⟩
  · obtain ⟨hopened, rfl⟩ := opened_of_openProject hhere hopen
    rcases hwork : work i ⟨d, p, [], []⟩ with ⟨output, s⟩ | ⟨e, s⟩
    · exact .inl ⟨_, _, run_of_work_ok hopen hwork, .inl rfl⟩
    · rcases fails_of_work hhere hd hopened hwork with hreported | hbreaks
      · exact .inl (exits_of_isReported hreported (run_of_work_error hopen hwork))
      · exact .inr ⟨e, s.disk, .working hopen hwork hbreaks⟩

/-- In a plain project an invocation has an exit code unless it escapes, and a run that fails does so by an
escape, whatever code outside the pipeline does. -/
theorem run_exits_exact {library : Library} {d : Disk} {i : Invocation} (hplain : IsPlain library d i)
    (inherited : Option String) :
    (Exits library d inherited i ↔ ∀ e left, ¬ Escapes library d inherited i e left) ∧
      ∀ e left, run library d inherited i = (.error e, left) ↔ Escapes library d inherited i e left := by
  have hcases := exits_or_escapes library hplain.here hplain.sound inherited i
  have hnot : Exits library d inherited i → ∀ e left, ¬ Escapes library d inherited i e left := by
    rintro ⟨o, left, hrun, -⟩ e left' hescapes
    cases hrun.symm.trans hescapes.run_eq
  refine ⟨⟨hnot, fun hnone ↦ ?_⟩, fun e left ↦ ⟨fun hrun ↦ ?_, Escapes.run_eq⟩⟩
  · rcases hcases with hexits | ⟨e, left, hescapes⟩
    · exact hexits
    · exact absurd hescapes (hnone e left)
  · rcases hcases with ⟨o, left', hexits, -⟩ | ⟨e', left', hescapes⟩
    · cases hrun.symm.trans hexits
    · cases hrun.symm.trans hescapes.run_eq
      exact hescapes

end Runs

/-- A project with one script of the given bytes. -/
def slate (bytes : ByteArray) : Disk :=
  ⟨.folder 0 [("src", .folder 0 [("a.js", .file bytes 0)]),
    ("assetpipe.yaml", .file "paths: [src]\n".toUTF8 0)], [], 0⟩

theorem isSound_slate (bytes : ByteArray) : (slate bytes).IsSound where
  root := rfl
  distinct := by simp [slate, Node.HasDistinctNames, Node.AreDistinct]

def reading : Invocation := ⟨.body "a.js", none, none, false, 0⟩

/-- The file for which a run ends because it holds no text. -/
def blotted? : Except Failure Outcome × Disk → Option Path
  | (.error (.notText p), _) => some p
  | _ => none

theorem eq_of_blotted? {r : Except Failure Outcome × Disk} {p : Path} (h : blotted? r = some p) :
    r = (.error (.notText p), r.2) := by
  unfold blotted? at h
  split at h
  · cases h
    rfl
  · cases h

theorem blotted?_slate : blotted? (run .standard (slate ⟨#[255]⟩) none reading) =
    some (.absolute ["src", "a.js"]) := by decide +kernel

/-- The file is there and not in UTF-8, and the invocation has no exit code. -/
theorem blot_has_no_code : (slate ⟨#[255]⟩).IsSound ∧
    (slate ⟨#[255]⟩).HoldsNoText (.absolute ["src", "a.js"]) ∧
    ¬Exits .standard (slate ⟨#[255]⟩) none reading := by
  refine ⟨isSound_slate _, ⟨⟨#[255]⟩, rfl, by decide +kernel⟩, ?_⟩
  rintro ⟨o, left, hrun, -⟩
  cases hrun.symm.trans (eq_of_blotted? blotted?_slate)

/-- With a text nothing escapes; without one the file does. -/
theorem slate_escapes : (∀ e left, ¬Escapes .standard (slate "A();\n".toUTF8) none reading e left) ∧
    ∃ left, Escapes .standard (slate ⟨#[255]⟩) none reading (.notText (.absolute ["src", "a.js"])) left := by
  have hexits : (run .standard (slate "A();\n".toUTF8) none reading).1.toOption =
      some ⟨0, "A();\n", ""⟩ := by decide +kernel
  have hplain : IsPlain .standard (slate "A();\n".toUTF8) reading :=
    ⟨List.forall_mem_nil _, isSound_slate _, by decide +kernel, by decide +kernel, by decide +kernel⟩
  have hblotted : IsPlain .standard (slate ⟨#[255]⟩) reading :=
    ⟨List.forall_mem_nil _, isSound_slate _, by decide +kernel, by decide +kernel, by decide +kernel⟩
  constructor
  · exact (run_exits_exact hplain none).1.1 (exits_of_toOption hexits (.inl rfl))
  · exact ⟨_, ((run_exits_exact hblotted none).2 _ _).1 (eq_of_blotted? blotted?_slate)⟩

end Command

end AssetBundler
