import AssetBundler.Proofs.Session.Reading

/-!
# How a build asks for files

What the directives of a file do to a session is to ask for its targets one after another, up to the
first that fails (`Performs`). A target that is done is passed over, one that is in progress is a
circular requirement, and any other is evaluated between two marks. Main statements: directives whose
targets are found perform them, and directives that end well have found them.
-/

namespace AssetBundler.Session

open AssetBundler.Action

/-- Sessions that differ in what they collected of dependencies and notes only. -/
structure SameBuild (s t : Session) : Prop where
  marks : t.marks = s.marks
  chain : t.chain = s.chain
  included : t.included = s.included

namespace SameBuild

variable {s t u : Session}

protected theorem refl (s : Session) : SameBuild s s := ⟨rfl, rfl, rfl⟩

protected theorem trans (h : SameBuild s t) (h' : SameBuild t u) : SameBuild s u :=
  ⟨h'.marks.trans h.marks, h'.chain.trans h.chain, h'.included.trans h.included⟩

instance : IsPreorder Session SameBuild where
  refl := SameBuild.refl
  trans _ _ _ := SameBuild.trans

end SameBuild

theorem get?_marks_forAsset (path p : Path) :
    (forAsset path).marks.get? p = if path = p then some .inProgress else none :=
  Table.get?_cons (path, Mark.inProgress) [] p

/-- A session that has just begun to include a file. -/
def begun (k : Path) (s : Session) : Session :=
  { s with marks := s.marks.insert k .inProgress, dependencies := s.dependencies ++ [k] }

/-- A session that has included a file with its text. -/
def finished (k : Path) (text : String) (s : Session) : Session :=
  { s with included := s.included ++ [text], marks := s.marks.insert k .done }

theorem get?_marks_begun (k p : Path) (s : Session) :
    (begun k s).marks.get? p = if k = p then some .inProgress else s.marks.get? p :=
  Table.get?_insert s.marks k p .inProgress

theorem get?_marks_finished (k p : Path) (text : String) (s : Session) :
    (finished k text s).marks.get? p = if k = p then some .done else s.marks.get? p :=
  Table.get?_insert s.marks k p .done

/-- Asking for files one after another from a viewpoint, and how it ends. -/
inductive Performs (eval : Evaluator) (site : Site) (v : Viewpoint) :
    Session → List Path → EStateM.Result Failure Session Unit → Prop where
  | nil {s t : Session} (hsame : SameBuild s t) : Performs eval site v s [] (.ok () t)
  | seen {s t : Session} {k : Path} {ks : List Path} {r : EStateM.Result Failure Session Unit}
      (hsame : SameBuild s t) (hmark : t.marks.get? k = some .done)
      (hrest : Performs eval site v t ks r) : Performs eval site v s (k :: ks) r
  | circular {s t : Session} {k : Path} {ks : List Path} (hsame : SameBuild s t)
      (hmark : t.marks.get? k = some .inProgress) :
      Performs eval site v s (k :: ks) (.error (.circular (t.chain ++ [k])) t)
  | visit {s t u : Session} {k : Path} {ks : List Path} {text : String}
      {r : EStateM.Result Failure Session Unit} (hsame : SameBuild s t)
      (hmark : t.marks.get? k = none)
      (heval : eval v k none (chainOf site k) (begun k t) = .ok text u)
      (hrest : Performs eval site v (finished k text u) ks r) : Performs eval site v s (k :: ks) r
  | failed {s t u : Session} {k : Path} {ks : List Path} {e : Failure} (hsame : SameBuild s t)
      (hmark : t.marks.get? k = none)
      (heval : eval v k none (chainOf site k) (begun k t) = .error e u) :
      Performs eval site v s (k :: ks) (.error e u)

namespace Performs

variable {eval : Evaluator} {site : Site} {v : Viewpoint} {s t u : Session} {ks more : List Path}
  {r : EStateM.Result Failure Session Unit}

theorem of_same (hsame : SameBuild s t) (h : Performs eval site v t ks r) :
    Performs eval site v s ks r := by
  cases h with
  | nil h => exact .nil (hsame.trans h)
  | seen h hmark hrest => exact .seen (hsame.trans h) hmark hrest
  | circular h hmark => exact .circular (hsame.trans h) hmark
  | visit h hmark heval hrest => exact .visit (hsame.trans h) hmark heval hrest
  | failed h hmark heval => exact .failed (hsame.trans h) hmark heval

theorem append_ok {q : EStateM.Result Failure Session Unit} (h : Performs eval site v s ks q)
    (hq : q = .ok () t) (h' : Performs eval site v t more r) :
    Performs eval site v s (ks ++ more) r := by
  induction h with
  | nil hsame =>
    cases hq
    exact h'.of_same hsame
  | seen hsame hmark _ ih => exact .seen hsame hmark (ih hq)
  | circular => cases hq
  | visit hsame hmark heval _ ih => exact .visit hsame hmark heval (ih hq)
  | failed => cases hq

theorem append_error {q : EStateM.Result Failure Session Unit} {e : Failure}
    (h : Performs eval site v s ks q) (hq : q = .error e t) :
    Performs eval site v s (ks ++ more) q := by
  induction h with
  | nil => cases hq
  | seen hsame hmark _ ih => exact .seen hsame hmark (ih hq)
  | circular hsame hmark => exact .circular hsame hmark
  | visit hsame hmark heval _ ih => exact .visit hsame hmark heval (ih hq)
  | failed hsame hmark heval => exact .failed hsame hmark heval

/-- Two actions in a row perform the targets of both. -/
theorem bind {x y : Action Unit} (hx : Performs eval site v s ks (x s))
    (hy : ∀ t, Performs eval site v t more (y t)) :
    Performs eval site v s (ks ++ more) ((x >>= fun _ ↦ y) s) := by
  rcases hr : x s with ⟨_, t⟩ | ⟨e, t⟩
  · rw [bind_of_ok hr]
    rw [hr] at hx
    exact hx.append_ok rfl (hy t)
  · rw [bind_of_error hr]
    rw [hr] at hx
    exact hx.append_error rfl

end Performs

section Requirements

variable {eval : Evaluator} {site : Site} {v : Viewpoint} {s t : Session}

theorem ofExcept_ok {α : Type} {x : Except Failure α} {a : α} (h : x = .ok a) (s : Session) :
    (ofExcept x : Action α) s = .ok a s := by
  rw [h]
  rfl

theorem ofExcept_eq_ok {α : Type} {x : Except Failure α} {a : α} :
    (ofExcept x : Action α) s = .ok a t ↔ x = .ok a ∧ t = s := by
  cases x with
  | ok b =>
    change EStateM.Result.ok b s = .ok a t ↔ _
    rw [EStateM.Result.ok.injEq, Except.ok.injEq, eq_comm (a := s)]
  | error e =>
    change EStateM.Result.error e s = .ok a t ↔ _
    constructor
    · intro h
      cases h
    · rintro ⟨h, -⟩
      cases h

theorem requireAsset_performs {path : String} {k : Path} (h : v.require site path true = .ok k)
    (s : Session) : Performs eval site v s [k] (requireAsset eval site v path s) := by
  unfold requireAsset
  rw [bind_of_ok (ofExcept_ok h s), bind_of_ok (get_apply s)]
  rcases hmark : s.marks.get? k with _ | _ | _
  · change Performs eval site v s [k] ((eval v k none (chainOf site k) >>= fun text ↦
      addText text >>= fun _ ↦ setMark k .done) (begun k s))
    rcases heval : eval v k none (chainOf site k) (begun k s) with ⟨text, u⟩ | ⟨e, u⟩
    · rw [bind_of_ok heval]
      exact .visit (SameBuild.refl s) hmark heval (.nil (SameBuild.refl _))
    · rw [bind_of_error heval]
      exact .failed (SameBuild.refl s) hmark heval
  · change Performs eval site v s [k] ((do throw (.circular ((← get).chain ++ [k])) :
      Action Unit) s)
    rw [bind_of_ok (get_apply s)]
    exact .circular (SameBuild.refl s) hmark
  · exact .seen (SameBuild.refl s) hmark (.nil (SameBuild.refl s))

theorem require_of_requireAsset {path : String} (h : requireAsset eval site v path s = .ok () t) :
    ∃ k, v.require site path true = .ok k := by
  unfold requireAsset at h
  obtain ⟨k, u, hfound, -⟩ := bind_eq_ok.1 h
  exact ⟨k, (ofExcept_eq_ok.1 hfound).1⟩

theorem requireEntries_performs {entries : List Disk.Listed} {ks : List Path}
    (h : entryTargets site v entries = .ok ks) (s : Session) :
    Performs eval site v s ks (requireEntries eval site v entries s) := by
  induction entries generalizing ks s with
  | nil =>
    cases h
    exact .nil (SameBuild.refl s)
  | cons entry entries ih =>
    rw [entryTargets_cons] at h
    obtain ⟨selected, hselected, h⟩ := except_bind_eq_ok.1 h
    unfold requireEntries
    rw [bind_of_ok (ofExcept_ok hselected s)]
    cases selected with
    | false => exact ih h s
    | true =>
      obtain ⟨k, hk, h⟩ := except_bind_eq_ok.1 h
      obtain ⟨ls, hls, h⟩ := except_bind_eq_ok.1 h
      cases h
      exact (requireAsset_performs hk s).bind fun t ↦ ih hls t

theorem targets_of_requireEntries {entries : List Disk.Listed}
    (h : requireEntries eval site v entries s = .ok () t) :
    ∃ ks, entryTargets site v entries = .ok ks := by
  induction entries generalizing s with
  | nil => exact ⟨[], rfl⟩
  | cons entry entries ih =>
    unfold requireEntries at h
    obtain ⟨selected, u, hselected, h⟩ := bind_eq_ok.1 h
    rw [entryTargets_cons, (ofExcept_eq_ok.1 hselected).1]
    cases selected with
    | false => exact ih h
    | true =>
      obtain ⟨_, w, hasset, h⟩ := bind_eq_ok.1 h
      obtain ⟨k, hk⟩ := require_of_requireAsset hasset
      obtain ⟨ks, hks⟩ := ih h
      refine ⟨k :: ks, ?_⟩
      change (do
        let found ← v.require site (site.disk.resolve entry.path).text true
        return found :: (← entryTargets site v entries)) = _
      rw [hk, hks]
      rfl

theorem fulfil_performs {request : Request} {ks : List Path}
    (hnote : ∀ fields, request ≠ .note fields) (h : requestTargets site v request = .ok ks)
    (s : Session) : Performs eval site v s ks (fulfil eval site (some v) request s) := by
  cases request with
  | require path =>
    obtain ⟨k, hk, h⟩ := except_bind_eq_ok.1 h
    cases h
    exact requireAsset_performs hk s
  | dependOn path =>
    obtain ⟨k, hk, h⟩ := except_bind_eq_ok.1 h
    cases h
    change Performs eval site v s [] (dependOn site v path s)
    unfold dependOn
    rw [bind_of_ok (ofExcept_ok hk s)]
    exact .nil ⟨rfl, rfl, rfl⟩
  | requireTree path =>
    obtain ⟨folder, entries, hfound, hfolder, hentries, htargets⟩ := requireTree_eq_ok.1 h
    have hcounted : addDependency folder s =
      .ok () { s with dependencies := s.dependencies ++ [folder] } := rfl
    change Performs eval site v s ks (requireTree eval site v path s)
    unfold requireTree
    rw [bind_of_ok (ofExcept_ok hfound s)]
    dsimp only
    rw [bind_of_ok (ofExcept_ok hfolder s), if_pos rfl, bind_of_ok hcounted,
      bind_of_ok (ofExcept_ok hentries _)]
    exact Performs.of_same (t := { s with dependencies := s.dependencies ++ [folder] })
      ⟨rfl, rfl, rfl⟩ (requireEntries_performs htargets _)
  | note fields => exact absurd rfl (hnote fields)

theorem targets_of_fulfil {request : Request}
    (h : fulfil eval site (some v) request s = .ok () t) :
    ∃ ks, requestTargets site v request = .ok ks := by
  cases request with
  | require path =>
    obtain ⟨k, hk⟩ := require_of_requireAsset (h : requireAsset eval site v path s = .ok () t)
    exact ⟨[k], except_bind_eq_ok.2 ⟨k, hk, rfl⟩⟩
  | dependOn path =>
    change dependOn site v path s = .ok () t at h
    unfold dependOn at h
    obtain ⟨k, u, hk, -⟩ := bind_eq_ok.1 h
    exact ⟨[], except_bind_eq_ok.2 ⟨k, (ofExcept_eq_ok.1 hk).1, rfl⟩⟩
  | requireTree path =>
    change requireTree eval site v path s = .ok () t at h
    unfold requireTree at h
    obtain ⟨found?, u, hfound, h⟩ := bind_eq_ok.1 h
    cases found? with
    | none => cases h
    | some folder =>
      obtain ⟨isFolder, w, hfolder, h⟩ := bind_eq_ok.1 h
      cases isFolder with
      | false => cases h
      | true =>
        obtain ⟨_, x, -, h⟩ := bind_eq_ok.1 h
        obtain ⟨entries, y, hentries, h⟩ := bind_eq_ok.1 h
        obtain ⟨ks, hks⟩ := targets_of_requireEntries h
        exact ⟨ks, requireTree_eq_ok.2 ⟨folder, entries, (ofExcept_eq_ok.1 hfound).1,
          (ofExcept_eq_ok.1 hfolder).1, (ofExcept_eq_ok.1 hentries).1, hks⟩⟩
  | note fields => exact ⟨[], rfl⟩

/-- A handler of one path is asked with one argument. -/
theorem requests_onePath {table : DirectiveTable} {source : Option Path} {d : Directive}
    {request : String → Request} (h : table.get? d.name = some (.onePath request))
    {requests : List Request} : table.requests source d = .ok requests ↔
      ∃ path, d.arguments = [path] ∧ requests = [request path] := by
  unfold DirectiveTable.requests
  rw [h]
  rcases d.arguments with _ | ⟨path, _ | ⟨more, rest⟩⟩
  · refine iff_of_false (fun h ↦ by cases h) ?_
    rintro ⟨path, h, -⟩
    cases h
  · constructor
    · intro h
      exact ⟨path, rfl, (Except.ok.inj h).symm⟩
    · rintro ⟨_, ⟨⟩, rfl⟩
      rfl
  · have hfault : (Handler.onePath request).signature.fault? (path :: more :: rest).length =
        some .tooMany := by
      simp [Signature.fault?, Handler.onePath]
    simp only [hfault]
    refine iff_of_false (fun h ↦ by cases h) ?_
    rintro ⟨path, h, -⟩
    cases h

/-- The default table asks for what a directive says, and refuses all others. -/
theorem requests_default {source : Option Path} {d : Directive} {requests : List Request} :
    DirectiveTable.default.requests source d = .ok requests ↔
      ∃ request, d.request? = some request ∧ requests = [request] := by
  have hone : ∀ ask : String → Request, DirectiveTable.default.get? d.name = some (.onePath ask) →
      (∀ request, d.request? = some request ↔ ∃ path, d.arguments = [path] ∧ request = ask path) →
      (DirectiveTable.default.requests source d = .ok requests ↔
        ∃ request, d.request? = some request ∧ requests = [request]) := by
    intro ask hget hrequest
    rw [requests_onePath hget]
    constructor
    · rintro ⟨path, harguments, rfl⟩
      exact ⟨_, (hrequest _).2 ⟨path, harguments, rfl⟩, rfl⟩
    · rintro ⟨request, hsome, rfl⟩
      obtain ⟨path, harguments, rfl⟩ := (hrequest _).1 hsome
      exact ⟨path, harguments, rfl⟩
  by_cases hrequire : d.name = "require"
  · exact hone .require (by rw [hrequire]; rfl) fun _ ↦ by
      simp [Directive.request?_eq_some, hrequire]
  · by_cases hdepend : d.name = "depend_on"
    · exact hone .dependOn (by rw [hdepend]; rfl) fun _ ↦ by
        simp [Directive.request?_eq_some, hdepend]
    · by_cases htree : d.name = "require_tree"
      · exact hone .requireTree (by rw [htree]; rfl) fun _ ↦ by
          simp [Directive.request?_eq_some, htree]
      · have hget : DirectiveTable.default.get? d.name = none := by
          simp [DirectiveTable.default, Table.get?_cons, Ne.symm hrequire, Ne.symm hdepend, Ne.symm htree]
        refine iff_of_false (fun h ↦ ?_) ?_
        · unfold DirectiveTable.requests at h
          rw [hget] at h
          cases h
        · rintro ⟨request, hsome, -⟩
          obtain ⟨_, -, hcases⟩ := Directive.request?_eq_some.1 hsome
          rcases hcases with ⟨hname, -⟩ | ⟨hname, -⟩ | ⟨hname, -⟩
          · exact hrequire hname
          · exact hdepend hname
          · exact htree hname

theorem ne_note_of_request? {d : Directive} {request : Request} (h : d.request? = some request)
    (fields : List NoteField) : request ≠ .note fields := by
  obtain ⟨path, -, ⟨-, rfl⟩ | ⟨-, rfl⟩ | ⟨-, rfl⟩⟩ := Directive.request?_eq_some.1 h <;>
    exact Request.noConfusion

theorem runDirective_eq {d : Directive} {request : Request} (h : d.request? = some request)
    (source : Option Path) : runDirective eval site (some v) .default source d = (do
      logDirective source d
      fulfil eval site (some v) request) := by
  unfold runDirective
  rw [requests_default.2 ⟨request, h, rfl⟩]
  change (do logDirective source d; fulfil eval site (some v) request; pure ()) = _
  exact congrArg (logDirective source d >>= ·) (funext fun _ ↦ bind_pure_unit)

theorem directives_perform {source : Option Path} {ds : List Directive} {ks : List Path}
    (h : directiveTargets site v ds = some ks) (s : Session) :
    Performs eval site v s ks
      (ds.forM (runDirective eval site (some v) .default source) s) := by
  induction ds generalizing ks s with
  | nil =>
    cases h
    exact .nil (SameBuild.refl s)
  | cons d ds ih =>
    obtain ⟨request, first, rest, hrequest, hfirst, hrest, rfl⟩ := directiveTargets_cons.1 h
    have hd : Performs eval site v s first
        (runDirective eval site (some v) .default source d s) := by
      have hlogged : SameBuild s (logged source d s) := ⟨rfl, rfl, rfl⟩
      rw [runDirective_eq hrequest]
      exact .of_same hlogged (fulfil_performs (ne_note_of_request? hrequest) hfirst _)
    exact hd.bind fun t ↦ ih hrest t

theorem targets_of_directives {source : Option Path} {ds : List Directive}
    (h : ds.forM (runDirective eval site (some v) .default source) s = .ok () t) :
    ∃ ks, directiveTargets site v ds = some ks := by
  induction ds generalizing s with
  | nil => exact ⟨[], rfl⟩
  | cons d ds ih =>
    obtain ⟨_, u, hd, h⟩ := bind_eq_ok.1 h
    obtain ⟨requests, _, hrequests, -⟩ := bind_eq_ok.1 hd
    obtain ⟨request, hrequest, rfl⟩ := requests_default.1 (ofExcept_eq_ok.1 hrequests).1
    rw [runDirective_eq hrequest] at hd
    obtain ⟨_, _, -, hd⟩ := bind_eq_ok.1 hd
    obtain ⟨first, hfirst⟩ := targets_of_fulfil hd
    obtain ⟨rest, hrest⟩ := ih h
    exact ⟨first ++ rest, directiveTargets_cons.2 ⟨request, first, rest, hrequest, hfirst, hrest, rfl⟩⟩

end Requirements

end AssetBundler.Session
