import AssetBundler.Proofs.Asset.Body
import AssetBundler.Proofs.Session.Chain

/-!
# What a call leaves behind in a session

A session answers calls one after another, each of which ends well or fails. No call changes the chain of
evaluations or a mark that is there (`Steady`), and one that ends well leaves the same files in progress.
One that fails does so too unless it breaks off inside the evaluation of a file that it requires for the
first time (`BreaksAt`): nothing takes back the mark that the file got before, so that every later
requirement of it is refused as circular, whatever has become of the files. Main statement: the files in
progress are restored exactly if the call does not break off there (`restoration_exact`).
-/

namespace AssetBundler.Session

open AssetBundler.Action

structure SameTrail (s t : Session) : Prop where
  marks : t.marks = s.marks
  chain : t.chain = s.chain
  log : t.log = s.log

instance : IsPreorder Session SameTrail where
  refl _ := ⟨rfl, rfl, rfl⟩
  trans _ _ _ h h' := ⟨h'.marks.trans h.marks, h'.chain.trans h.chain, h'.log.trans h.log⟩

/-- The chain is the same and every mark that was there is as it was. -/
structure KeepsMarks (s t : Session) : Prop where
  chain : t.chain = s.chain
  marks : ∀ p m, s.marks.get? p = some m → t.marks.get? p = some m

instance : IsPreorder Session KeepsMarks where
  refl _ := ⟨rfl, fun _ _ h ↦ h⟩
  trans _ _ _ h h' := ⟨h'.chain.trans h.chain, fun p m hp ↦ h'.marks p m (h.marks p m hp)⟩

def SameInProgress (s t : Session) : Prop :=
  ∀ p, t.marks.get? p = some .inProgress ↔ s.marks.get? p = some .inProgress

section Marks

variable {s t u : Session}

theorem SameTrail.keepsMarks (h : SameTrail s t) : KeepsMarks s t :=
  ⟨h.chain, fun _ _ hp ↦ h.marks ▸ hp⟩

theorem SameInProgress.of_marks (h : t.marks = s.marks) : SameInProgress s t := fun _ ↦ h ▸ Iff.rfl

theorem SameInProgress.refl (s : Session) : SameInProgress s s := .of_marks rfl

theorem SameInProgress.congr_right (h : SameInProgress s t) :
    SameInProgress s u ↔ SameInProgress t u :=
  forall_congr' fun p ↦ by rw [h p]

end Marks

/-- An action that keeps marks and chain, and that leaves nothing in progress when it ends well. -/
structure Steady {α : Type} (x : Action α) : Prop where
  keeps : MovesAlong KeepsMarks x
  settles : ∀ s a t, x s = .ok a t → SameInProgress s t

/-- A steady action that changes the files in progress exactly in the sessions in which it breaks off. -/
structure BreaksAt {α : Type} (breaks : Session → Prop) (x : Action α) : Prop extends Steady x where
  restores_iff : ∀ s, SameInProgress s (finalState (x s)) ↔ ¬breaks s

/-- Going through a list from a value on comes to an element at which the step breaks off. -/
inductive BreaksAlong {β γ : Type} (step : γ → β → Action γ) (breaks : γ → β → Session → Prop) :
    γ → List β → Session → Prop where
  | here {c : γ} {x : β} {xs : List β} {s : Session} (h : breaks c x s) :
      BreaksAlong step breaks c (x :: xs) s
  | later {c d : γ} {x : β} {xs : List β} {s t : Session} (hstep : step c x s = .ok d t)
      (hrest : BreaksAlong step breaks d xs t) : BreaksAlong step breaks c (x :: xs) s

theorem breaksAlong_cons {β γ : Type} {step : γ → β → Action γ} {breaks : γ → β → Session → Prop}
    {c : γ} {x : β} {xs : List β} {s : Session} :
    BreaksAlong step breaks c (x :: xs) s ↔
      breaks c x s ∨ ∃ d t, step c x s = .ok d t ∧ BreaksAlong step breaks d xs t := by
  constructor
  · intro h
    cases h with
    | here h => exact .inl h
    | later hstep hrest => exact .inr ⟨_, _, hstep, hrest⟩
  · rintro (h | ⟨d, t, hstep, hrest⟩)
    · exact .here h
    · exact .later hstep hrest

/-- Going through a list whose steps give nothing. -/
abbrev BreaksAmong {β : Type} (step : β → Action Unit) (breaks : β → Session → Prop) :
    List β → Session → Prop :=
  BreaksAlong (fun _ x ↦ step x) (fun _ x ↦ breaks x) ()

section Closure

variable {α β γ : Type}

theorem sameTrail_ofExcept (x : Except Failure α) : MovesAlong SameTrail (ofExcept x : Action α) :=
  .of_stays fun s ↦ by cases x <;> rfl

theorem Steady.of_same {x : Action α} (h : MovesAlong SameTrail x) : Steady x where
  keeps s := (h s).keepsMarks
  settles _ _ _ hx := .of_marks (h.ok hx).marks

theorem Steady.bind {x : Action α} {f : α → Action β} (hx : Steady x) (hf : ∀ a, Steady (f a)) :
    Steady (x >>= f) where
  keeps := hx.keeps.bind fun a ↦ (hf a).keeps
  settles s b u h := by
    obtain ⟨a, t, ha, hb⟩ := bind_eq_ok.1 h
    exact (hx.settles s a t ha).congr_right.2 ((hf a).settles t b u hb)

namespace BreaksAt

variable {breaks breaks' : Session → Prop}

theorem of_same {x : Action α} (h : MovesAlong SameTrail x) : BreaksAt (fun _ ↦ False) x where
  toSteady := .of_same h
  restores_iff s := iff_of_true (.of_marks (h s).marks) not_false

theorem congr {x : Action α} (h : BreaksAt breaks x) (hbreaks : ∀ s, breaks s ↔ breaks' s) :
    BreaksAt breaks' x where
  toSteady := h.toSteady
  restores_iff s := (h.restores_iff s).trans (not_congr (hbreaks s))

theorem not_breaks_of_ok {x : Action α} (h : BreaksAt breaks x) {s t : Session} {a : α}
    (hx : x s = .ok a t) : ¬breaks s := by
  have hrestores := h.restores_iff s
  rw [hx] at hrestores
  exact hrestores.1 (h.settles s a t hx)

/-- A sequence breaks off in its first action, or after that in the second. -/
theorem bind {x : Action α} {f : α → Action β} {rest : α → Session → Prop} (hx : BreaksAt breaks x)
    (hf : ∀ a, BreaksAt (rest a) (f a)) :
    BreaksAt (fun s ↦ breaks s ∨ ∃ a t, x s = .ok a t ∧ rest a t) (x >>= f) where
  toSteady := hx.toSteady.bind fun a ↦ (hf a).toSteady
  restores_iff s := by
    rcases h : x s with ⟨a, t⟩ | ⟨e, t⟩
    · have hnot := hx.not_breaks_of_ok h
      have hrest := (hf a).restores_iff t
      rw [bind_of_ok h, (hx.settles s a t h).congr_right, hrest]
      refine not_congr ⟨fun hbreaks ↦ .inr ⟨a, t, rfl, hbreaks⟩, ?_⟩
      rintro (hbreaks | ⟨_, _, ⟨⟩, hbreaks⟩)
      · exact absurd hbreaks hnot
      · exact hbreaks
    · have hfirst := hx.restores_iff s
      rw [h] at hfirst
      rw [bind_of_error h]
      refine hfirst.trans (not_congr ⟨.inl, ?_⟩)
      rintro (hbreaks | ⟨_, _, ⟨⟩, _⟩)
      exact hbreaks

theorem bind_same {x : Action α} {f : α → Action β} (hx : BreaksAt breaks x)
    (hf : ∀ a, MovesAlong SameTrail (f a)) : BreaksAt breaks (x >>= f) :=
  (hx.bind fun a ↦ .of_same (hf a)).congr fun s ↦ by simp

theorem ofExcept_bind {e : Except Failure α} {f : α → Action β} {rest : α → Session → Prop}
    (hf : ∀ a, BreaksAt (rest a) (f a)) :
    BreaksAt (fun s ↦ ∃ a, e = .ok a ∧ rest a s) ((ofExcept e : Action α) >>= f) := by
  refine ((of_same (sameTrail_ofExcept e)).bind hf).congr fun s ↦ ?_
  simp only [false_or, ofExcept_eq_ok]
  constructor
  · rintro ⟨a, t, ⟨ha, rfl⟩, hrest⟩
    exact ⟨a, ha, hrest⟩
  · rintro ⟨a, ha, hrest⟩
    exact ⟨a, s, ⟨ha, rfl⟩, hrest⟩

theorem foldlM {step : γ → β → Action γ} {broken : γ → β → Session → Prop}
    (h : ∀ c x, BreaksAt (broken c x) (step c x)) (xs : List β) (c : γ) :
    BreaksAt (BreaksAlong step broken c xs) (xs.foldlM step c) := by
  induction xs generalizing c with
  | nil => exact (of_same (MovesAlong.pure c)).congr fun s ↦ ⟨False.elim, by rintro ⟨⟩⟩
  | cons x xs ih =>
    rw [List.foldlM_cons]
    exact ((h c x).bind ih).congr fun s ↦ breaksAlong_cons.symm

theorem forM {step : β → Action Unit} {broken : β → Session → Prop}
    (h : ∀ x, BreaksAt (broken x) (step x)) (xs : List β) :
    BreaksAt (BreaksAmong step broken xs) (xs.forM step) := by
  induction xs with
  | nil => exact (of_same (MovesAlong.pure ())).congr fun s ↦ ⟨False.elim, by rintro ⟨⟩⟩
  | cons x xs ih =>
    refine ((h x).bind fun _ ↦ ih).congr fun s ↦ ?_
    exact (breaksAlong_cons : BreaksAmong step broken (x :: xs) s ↔ _).symm

end BreaksAt

theorem marks_nested (path : Path) (inner : Action α) (s : Session) :
    (finalState (nested path inner s)).marks = (finalState (inner (entered path s))).marks := by
  rcases hinner : inner (entered path s) with ⟨a, t⟩ | ⟨e, t⟩
  · rw [nested_of_ok hinner]
    rfl
  · rw [nested_of_error hinner]
    rfl

theorem chain_nested (path : Path) (inner : Action α) (s : Session) :
    (finalState (nested path inner s)).chain = s.chain := by
  rcases hinner : inner (entered path s) with ⟨a, t⟩ | ⟨e, t⟩
  · rw [nested_of_ok hinner]
    rfl
  · rw [nested_of_error hinner]
    rfl

theorem log_nested (path : Path) (inner : Action α) (s : Session) :
    (finalState (nested path inner s)).log = (finalState (inner (entered path s))).log := by
  rcases hinner : inner (entered path s) with ⟨a, t⟩ | ⟨e, t⟩
  · rw [nested_of_ok hinner]
    rfl
  · rw [nested_of_error hinner]
    rfl

theorem sameTrail_nested (path : Path) {inner : Action α} (h : MovesAlong SameTrail inner) :
    MovesAlong SameTrail (nested path inner) :=
  fun s ↦ ⟨(marks_nested path inner s).trans (h (entered path s)).marks, chain_nested path inner s,
    (log_nested path inner s).trans (h (entered path s)).log⟩

theorem BreaksAt.nested (path : Path) {inner : Action α} {breaks : Session → Prop}
    (h : BreaksAt breaks inner) :
    BreaksAt (fun s ↦ breaks (entered path s)) (Session.nested path inner) where
  keeps s := ⟨chain_nested path inner s, fun p m hp ↦ by
    rw [marks_nested]
    exact (h.keeps (entered path s)).marks p m hp⟩
  settles s a t hx := by
    obtain ⟨u, hinner, rfl⟩ := nested_ok hx
    intro p
    exact h.settles _ a u hinner p
  restores_iff s := by
    rw [← h.restores_iff (entered path s)]
    unfold SameInProgress
    rw [marks_nested]
    rfl

end Closure

section Requirements

variable {eval : Evaluator} {site : Site} {v : Viewpoint} {path : String} {k : Path}

theorem requireAsset_eq (h : v.require site path true = .ok k) (s : Session) :
    requireAsset eval site v path s =
      match s.marks.get? k with
      | some .done => .ok () s
      | some .inProgress => .error (.circular (s.chain ++ [k])) s
      | none =>
        match eval v k none (chainOf site k) (begun k s) with
        | .ok text t => .ok () (finished k text t)
        | .error e t => .error e t := by
  unfold requireAsset
  rw [bind_of_ok (ofExcept_ok h s), bind_of_ok (get_apply s)]
  rcases hmark : s.marks.get? k with _ | _ | _
  · change (eval v k none (chainOf site k) >>= fun text ↦
      addText text >>= fun _ ↦ setMark k .done) (begun k s) = _
    rcases heval : eval v k none (chainOf site k) (begun k s) with ⟨text, t⟩ | ⟨e, t⟩
    · rw [bind_of_ok heval]
      rfl
    · rw [bind_of_error heval]
  · rfl
  · rfl

theorem requireAsset_of_not_found {e : Failure} (h : v.require site path true = .error e)
    (s : Session) : requireAsset eval site v path s = .error e s := by
  unfold requireAsset
  rw [h]
  rfl

/-- The file has no mark yet, and its evaluation fails. -/
def BreaksRequiring (eval : Evaluator) (site : Site) (v : Viewpoint) (path : String) (s : Session) :
    Prop :=
  ∃ k, v.require site path true = .ok k ∧ s.marks.get? k = none ∧
    ∃ e t, eval v k none (chainOf site k) (begun k s) = .error e t

/-- An evaluator that is steady on every file that is required. -/
def EvalSteady (site : Site) (eval : Evaluator) : Prop :=
  ∀ v k, Steady (eval v k none (chainOf site k))

theorem marks_begun_of_marked {s : Session} (hmark : s.marks.get? k = none) {p : Path} {m : Mark}
    (hp : s.marks.get? p = some m) : (begun k s).marks.get? p = some m ∧ k ≠ p := by
  have hne : k ≠ p := by
    rintro rfl
    rw [hmark] at hp
    cases hp
  rw [get?_marks_begun, if_neg hne]
  exact ⟨hp, hne⟩

/-- A file whose evaluation ended well is no longer in progress. -/
theorem restored_finished {s t : Session} (hmark : s.marks.get? k = none)
    (hkeeps : KeepsMarks (begun k s) t) (hsettles : SameInProgress (begun k s) t) (text : String) :
    KeepsMarks s (finished k text t) ∧ SameInProgress s (finished k text t) := by
  refine ⟨⟨hkeeps.chain, fun p m hp ↦ ?_⟩, fun p ↦ ?_⟩
  · obtain ⟨hbegun, hne⟩ := marks_begun_of_marked hmark hp
    rw [get?_marks_finished, if_neg hne]
    exact hkeeps.marks p m hbegun
  · rw [get?_marks_finished]
    by_cases hp : k = p
    · rw [if_pos hp, ← hp, hmark]
      exact iff_of_false (by simp) (by simp)
    · rw [if_neg hp, hsettles p, get?_marks_begun, if_neg hp]

/-- A file whose evaluation failed stays in progress. -/
theorem left_inProgress {s t : Session} (hmark : s.marks.get? k = none)
    (hkeeps : KeepsMarks (begun k s) t) : KeepsMarks s t ∧ ¬SameInProgress s t := by
  refine ⟨⟨hkeeps.chain, fun p m hp ↦ hkeeps.marks p m (marks_begun_of_marked hmark hp).1⟩,
    fun hsame ↦ ?_⟩
  have hleft : t.marks.get? k = some .inProgress :=
    hkeeps.marks k .inProgress (by rw [get?_marks_begun, if_pos rfl])
  cases hmark.symm.trans ((hsame k).1 hleft)

/-- Asking for a file leaves it in progress exactly if its evaluation fails. -/
theorem breaksAt_requireAsset (heval : EvalSteady site eval) (v : Viewpoint) (path : String) :
    BreaksAt (BreaksRequiring eval site v path) (requireAsset eval site v path) := by
  rcases hfound : v.require site path true with e | k
  · have hstays : ∀ s, finalState (requireAsset eval site v path s) = s := fun s ↦ by
      rw [requireAsset_of_not_found hfound]
      rfl
    refine (BreaksAt.of_same (.of_stays hstays)).congr fun s ↦ ⟨False.elim, ?_⟩
    rintro ⟨k, hk, -⟩
    cases hfound.symm.trans hk
  have hnone : ∀ s, BreaksRequiring eval site v path s → s.marks.get? k = none ∧
      ∃ e t, eval v k none (chainOf site k) (begun k s) = .error e t := by
    rintro s ⟨_, hk, hbreaks⟩
    cases hfound.symm.trans hk
    exact hbreaks
  have hends : ∀ s, KeepsMarks s (finalState (requireAsset eval site v path s)) ∧
      ((∃ a t, requireAsset eval site v path s = .ok a t) →
        SameInProgress s (finalState (requireAsset eval site v path s))) ∧
      (SameInProgress s (finalState (requireAsset eval site v path s)) ↔
        ¬BreaksRequiring eval site v path s) := by
    intro s
    have hstays : s.marks.get? k ≠ none → SameInProgress s s ∧ ¬BreaksRequiring eval site v path s :=
      fun hmark ↦ ⟨.refl s, fun hbreaks ↦ hmark (hnone s hbreaks).1⟩
    rw [requireAsset_eq hfound]
    rcases hmark : s.marks.get? k with _ | _ | _
    · rcases hend : eval v k none (chainOf site k) (begun k s) with ⟨text, t⟩ | ⟨e, t⟩
      · obtain ⟨hkeeps, hsame⟩ := restored_finished hmark ((heval v k).keeps.ok hend)
          ((heval v k).settles _ _ _ hend) text
        refine ⟨hkeeps, fun _ ↦ hsame, iff_of_true hsame fun hbreaks ↦ ?_⟩
        obtain ⟨-, e, u, herror⟩ := hnone s hbreaks
        cases hend.symm.trans herror
      · obtain ⟨hkeeps, hleft⟩ := left_inProgress hmark ((heval v k).keeps.error hend)
        refine ⟨hkeeps, ?_, iff_of_false hleft fun hnot ↦ hnot ⟨k, hfound, hmark, e, t, hend⟩⟩
        rintro ⟨a, u, h⟩
        cases h
    · have hmarked := hstays (by simp [hmark])
      exact ⟨refl_of KeepsMarks s, fun _ ↦ hmarked.1, iff_of_true hmarked.1 hmarked.2⟩
    · have hmarked := hstays (by simp [hmark])
      exact ⟨refl_of KeepsMarks s, fun _ ↦ hmarked.1, iff_of_true hmarked.1 hmarked.2⟩
  refine ⟨⟨fun s ↦ (hends s).1, fun s a t h ↦ ?_⟩, fun s ↦ (hends s).2.2⟩
  have hsame := (hends s).2.1 ⟨a, t, h⟩
  rwa [h] at hsame

/-- What asks for one entry of a folder. -/
def requireEntry (eval : Evaluator) (site : Site) (v : Viewpoint) (entry : Disk.Listed) :
    Action Unit := do
  if ← ofExcept (isSelected site v entry) then
    requireAsset eval site v (site.disk.resolve entry.path).text

theorem requireEntries_eq (eval : Evaluator) (site : Site) (v : Viewpoint)
    (entries : List Disk.Listed) :
    requireEntries eval site v entries = entries.forM (requireEntry eval site v) := by
  induction entries with
  | nil => rfl
  | cons entry entries ih =>
    funext s
    unfold requireEntries
    rw [ih]
    change _ = (requireEntry eval site v entry >>= fun _ ↦ entries.forM (requireEntry eval site v)) s
    unfold requireEntry
    rcases hselected : isSelected site v entry with e | selected
    · rfl
    · cases selected with
      | false => rfl
      | true => rfl

/-- An entry that takes part and breaks off. -/
def BreaksEntry (eval : Evaluator) (site : Site) (v : Viewpoint) (entry : Disk.Listed)
    (s : Session) : Prop :=
  isSelected site v entry = .ok true ∧
    BreaksRequiring eval site v (site.disk.resolve entry.path).text s

/-- One of the entries of a folder breaks off. -/
def BreaksListed (eval : Evaluator) (site : Site) (v : Viewpoint) (folder : Path) (s : Session) :
    Prop :=
  ∃ entries, Disk.orFail (site.disk.list folder) = .ok entries ∧
    BreaksAmong (requireEntry eval site v) (BreaksEntry eval site v) entries
      { s with dependencies := s.dependencies ++ [folder] }

def BreaksTree (eval : Evaluator) (site : Site) (v : Viewpoint) (path : String) (s : Session) : Prop :=
  ∃ folder, v.resolve site path false = .ok (some folder) ∧
    Disk.orFail (site.disk.isFolder folder) = .ok true ∧ BreaksListed eval site v folder s

theorem sameTrail_addDependency (p : Path) : MovesAlong SameTrail (addDependency p) :=
  fun _ ↦ ⟨rfl, rfl, rfl⟩

theorem breaksAt_requireEntry (heval : EvalSteady site eval) (v : Viewpoint) (entry : Disk.Listed) :
    BreaksAt (BreaksEntry eval site v entry) (requireEntry eval site v entry) := by
  have hasked := fun selected : Bool ↦
    (match selected with
      | false => (BreaksAt.of_same (MovesAlong.pure ())).congr fun s ↦ by simp
      | true => (breaksAt_requireAsset heval v _).congr fun s ↦ by simp :
      BreaksAt (fun s ↦ selected = true ∧
          BreaksRequiring eval site v (site.disk.resolve entry.path).text s)
        (if selected then requireAsset eval site v (site.disk.resolve entry.path).text else pure ()))
  refine (BreaksAt.ofExcept_bind hasked).congr fun s ↦ ?_
  constructor
  · rintro ⟨_, hselected, rfl, hbreaks⟩
    exact ⟨hselected, hbreaks⟩
  · rintro ⟨hselected, hbreaks⟩
    exact ⟨true, hselected, rfl, hbreaks⟩

theorem breaksAt_requireEntries (heval : EvalSteady site eval) (v : Viewpoint)
    (entries : List Disk.Listed) :
    BreaksAt (BreaksAmong (requireEntry eval site v) (BreaksEntry eval site v) entries)
      (requireEntries eval site v entries) := by
  rw [requireEntries_eq]
  exact .forM (breaksAt_requireEntry heval v) entries

theorem breaksAt_requireTree (heval : EvalSteady site eval) (v : Viewpoint) (path : String) :
    BreaksAt (BreaksTree eval site v path) (requireTree eval site v path) := by
  have hentries : ∀ folder, BreaksAt (BreaksListed eval site v folder) (do
      addDependency folder
      requireEntries eval site v (← ofExcept (Disk.orFail (site.disk.list folder)))) := by
    intro folder
    refine ((BreaksAt.of_same (sameTrail_addDependency folder)).bind fun _ ↦
      BreaksAt.ofExcept_bind (breaksAt_requireEntries heval v)).congr fun s ↦ ⟨?_, ?_⟩
    · rintro (⟨⟨⟩⟩ | ⟨_, _, ⟨⟩, entries, hlist, hbreaks⟩)
      exact ⟨entries, hlist, hbreaks⟩
    · rintro ⟨entries, hlist, hbreaks⟩
      exact .inr ⟨(), _, rfl, entries, hlist, hbreaks⟩
  have hkind : ∀ folder (isFolder : Bool), BreaksAt
      (fun s ↦ isFolder = true ∧ BreaksListed eval site v folder s) (if isFolder then do
        addDependency folder
        requireEntries eval site v (← ofExcept (Disk.orFail (site.disk.list folder)))
      else throw (.assetNotFound path v.path)) := by
    intro folder isFolder
    cases isFolder with
    | false => exact (BreaksAt.of_same (MovesAlong.throw _)).congr fun s ↦ by simp
    | true => exact (hentries folder).congr fun s ↦ by simp
  have hfound : BreaksAt (fun s ↦ ∃ found?, v.resolve site path false = .ok found? ∧
      ∃ folder, found? = some folder ∧ ∃ isFolder,
        Disk.orFail (site.disk.isFolder folder) = .ok isFolder ∧ isFolder = true ∧
          BreaksListed eval site v folder s) (requireTree eval site v path) := by
    refine BreaksAt.ofExcept_bind fun found? ↦ ?_
    cases found? with
    | none => exact (BreaksAt.of_same (MovesAlong.throw _)).congr fun s ↦ by simp
    | some folder => exact (BreaksAt.ofExcept_bind (hkind folder)).congr fun s ↦ by simp
  refine hfound.congr fun s ↦ ⟨?_, ?_⟩
  · rintro ⟨_, hfound, folder, rfl, _, hfolder, rfl, hbreaks⟩
    exact ⟨folder, hfound, hfolder, hbreaks⟩
  · rintro ⟨folder, hfound, hfolder, hbreaks⟩
    exact ⟨some folder, hfound, folder, rfl, true, hfolder, rfl, hbreaks⟩

end Requirements

section Asking

variable {eval : Evaluator} {site : Site} {v : Viewpoint}

theorem sameTrail_dependOn (site : Site) (v : Viewpoint) (path : String) :
    MovesAlong SameTrail (dependOn site v path) :=
  (sameTrail_ofExcept _).bind sameTrail_addDependency

theorem sameTrail_dataUri (site : Site) (v : Viewpoint) (path : String) :
    MovesAlong SameTrail (dataUri site v path) :=
  (sameTrail_ofExcept _).bind fun found ↦ (sameTrail_addDependency found).bind fun _ ↦
    (sameTrail_ofExcept _).bind fun _ ↦ .pure _

theorem sameTrail_mapM {α β : Type} {f : α → Action β} (h : ∀ x, MovesAlong SameTrail (f x))
    (xs : List α) : MovesAlong SameTrail (xs.mapM f) := by
  induction xs with
  | nil => exact .pure []
  | cons x xs ih =>
    rw [List.mapM_cons]
    exact (h x).bind fun _ ↦ ih.bind fun _ ↦ .pure _

theorem sameTrail_noteField (site : Site) (v : Viewpoint) (field : NoteField) :
    MovesAlong SameTrail (noteField site (some v) field) := by
  cases field with
  | text s => exact .pure _
  | currentName => exact .pure _
  | dataUri path => exact (sameTrail_dataUri site v path).bind fun _ ↦ .pure _
  | contentType path => exact (sameTrail_ofExcept _).bind fun _ ↦ .pure _

theorem sameTrail_fragmentText (site : Site) (v : Viewpoint) (fragment : Fragment) :
    MovesAlong SameTrail (fragmentText site (some v) fragment) := by
  cases fragment with
  | text s => exact .pure s
  | dataUri path => exact sameTrail_dataUri site v path
  | raised e => exact .throw _

theorem sameTrail_compileNested (packages : Packages) (minified : Bool) (source : Option Path)
    (data : String) : MovesAlong SameTrail (compileNested packages minified source data) := by
  unfold compileNested
  cases source with
  | none => exact .pure data
  | some path =>
    dsimp only
    split
    · split
      · exact .pure _
      · exact .throw _
    · exact .pure data

/-- Expanding an import runs no directives, however deep imports are nested. -/
theorem sameTrail_expandImport
    (heval : ∀ v k, MovesAlong SameTrail (eval v k none [⟨.imports, []⟩])) (path : String)
    (source : List Char) : MovesAlong SameTrail (expandImport eval site v path source) := by
  refine (sameTrail_ofExcept _).bind fun found? ↦ ?_
  cases found? with
  | none => exact .pure source
  | some found =>
    refine (sameTrail_ofExcept _).bind fun isFile ↦ ?_
    cases isFile with
    | false => exact .pure source
    | true =>
      refine MovesAlong.bind (.of_stays fun _ ↦ rfl) fun t ↦ ?_
      by_cases hchain : t.chain.contains found = true
      · rw [if_pos hchain]
        exact .of_stays fun _ ↦ rfl
      · rw [if_neg hchain]
        exact (sameTrail_dependOn site v found.text).bind fun _ ↦
          (heval v found).bind fun _ ↦ .pure _

theorem sameTrail_expandImports
    (heval : ∀ v k, MovesAlong SameTrail (eval v k none [⟨.imports, []⟩])) (data : String) :
    MovesAlong SameTrail (expandImports eval site v data) := by
  refine (sameTrail_mapM (fun piece ↦ ?_) _).bind fun _ ↦ .pure _
  cases piece with
  | plain c => exact .pure [c]
  | found path source => exact sameTrail_expandImport heval path source

/-- Only directives touch marks, chain and log. -/
theorem sameTrail_runSpec {path : Path} {spec : Spec} {data : String}
    (heval : ∀ v k, MovesAlong SameTrail (eval v k none [⟨.imports, []⟩]))
    (h : ∀ own, spec.processor.step ≠ .directives own) :
    MovesAlong SameTrail (runSpec eval site (some ⟨some path⟩) (some path) spec data) := by
  unfold runSpec
  cases hstep : spec.processor.step with
  | directives own => exact absurd hstep (h own)
  | expandImports => exact sameTrail_expandImports heval data
  | compileNested => exact sameTrail_compileNested _ _ _ data
  | callOption => exact .throw _
  | custom run =>
    exact (sameTrail_mapM (sameTrail_fragmentText site _) _).bind fun _ ↦ .pure _
  | keep => exact .pure _
  | terminateScript => exact .pure _
  | compactStylesheet => exact .pure _
  | compactScript => exact .pure _
  | publishReferences => exact .pure _

theorem sameTrail_evaluateWithin (site : Site) (depth : Nat) (v : Viewpoint) (k : Path) :
    MovesAlong SameTrail (evaluateWithin site depth v k none [⟨.imports, []⟩]) := by
  induction depth generalizing v k with
  | zero => exact .throw Failure.nestedTooDeep
  | succ depth ih =>
    refine (sameTrail_ofExcept _).bind fun data ↦ sameTrail_nested k ?_
    exact (sameTrail_expandImports ih data).bind fun out ↦ .pure out

end Asking

/-! ## Directives and processors -/

section Processors

variable {eval : Evaluator} {site : Site} {v : Viewpoint} {path : Path}

def BreaksRequest (eval : Evaluator) (site : Site) (v : Viewpoint) : Request → Session → Prop
  | .require path, s => BreaksRequiring eval site v path s
  | .requireTree path, s => BreaksTree eval site v path s
  | .dependOn _, _ | .note _, _ => False

/-- A directive that is known and breaks off at one of its requests. -/
def BreaksDirective (eval : Evaluator) (site : Site) (v : Viewpoint) (table : DirectiveTable)
    (source : Option Path) (d : Directive) (s : Session) : Prop :=
  ∃ requests, table.requests source d = .ok requests ∧
    BreaksAmong (fulfil eval site (some v)) (BreaksRequest eval site v) requests (logged source d s)

/-- A processor that can run directives and breaks off at one of them. -/
def BreaksProcessor (eval : Evaluator) (site : Site) (path : Path) (data : String) (spec : Spec)
    (s : Session) : Prop :=
  ∃ own parsed, spec.processor.step = .directives own ∧
    checkTable spec own (some path) data = .ok () ∧
    ParsedSource.parse (some path) data.toList = .ok parsed ∧
    BreaksAmong (runDirective eval site (some ⟨some path⟩)
        (directiveTable site (some ⟨some path⟩) own) (some path))
      (BreaksDirective eval site ⟨some path⟩ (directiveTable site (some ⟨some path⟩) own) (some path))
      parsed.directives s

/-- An evaluation whose content can be read and one of whose processors breaks off. -/
def BreaksEvaluating (eval : Evaluator) (site : Site) (v : Viewpoint) (path : Path)
    (content : Option String) (specs : List Spec) (s : Session) : Prop :=
  ∃ data, contentOf site v path content = .ok data ∧
    BreaksAlong (fun data spec ↦ runSpec eval site (some ⟨some path⟩) (some path) spec data)
      (BreaksProcessor eval site path) data specs (entered path s)

theorem breaksAt_fulfil (heval : EvalSteady site eval) (v : Viewpoint) (request : Request) :
    BreaksAt (BreaksRequest eval site v request) (fulfil eval site (some v) request) := by
  cases request with
  | require path => exact breaksAt_requireAsset heval v path
  | requireTree path => exact breaksAt_requireTree heval v path
  | dependOn path => exact .of_same (sameTrail_dependOn site v path)
  | note fields =>
    exact .of_same ((sameTrail_mapM (sameTrail_noteField site v) fields).bind fun _ _ ↦ ⟨rfl, rfl, rfl⟩)

theorem breaksAt_runDirective (heval : EvalSteady site eval) (v : Viewpoint) (table : DirectiveTable)
    (source : Option Path) (d : Directive) :
    BreaksAt (BreaksDirective eval site v table source d)
      (runDirective eval site (some v) table source d) := by
  refine BreaksAt.ofExcept_bind fun requests ↦ ?_
  have hlogs : BreaksAt (fun _ ↦ False) (logDirective source d) :=
    ⟨⟨fun _ ↦ ⟨rfl, fun _ _ hp ↦ hp⟩, by rintro s _ t ⟨⟩; exact .of_marks rfl⟩,
      fun _ ↦ iff_of_true (.of_marks rfl) not_false⟩
  refine (hlogs.bind fun _ ↦ .forM (breaksAt_fulfil heval v) requests).congr fun s ↦ ⟨?_, fun h ↦ ?_⟩
  · rintro (hnot | ⟨_, _, ⟨⟩, h⟩)
    · exact hnot.elim
    · exact h
  · exact .inr ⟨(), logged source d s, rfl, h⟩

/-- The evaluator is steady where it is asked to require, and imports leave the marks alone. -/
structure EvalKeeps (site : Site) (eval : Evaluator) : Prop where
  steady : EvalSteady site eval
  imports : ∀ v k, MovesAlong SameTrail (eval v k none [⟨.imports, []⟩])

theorem breaksAt_runSpec (heval : EvalKeeps site eval) (path : Path) (data : String) (spec : Spec) :
    BreaksAt (BreaksProcessor eval site path data spec)
      (runSpec eval site (some ⟨some path⟩) (some path) spec data) := by
  by_cases hdirectives : ∃ own, spec.processor.step = .directives own
  · obtain ⟨own, hstep⟩ := hdirectives
    unfold runSpec
    rw [hstep]
    refine (BreaksAt.ofExcept_bind fun _ ↦ BreaksAt.ofExcept_bind fun parsed : ParsedSource ↦
      (BreaksAt.forM (breaksAt_runDirective heval.steady _ _ _) parsed.directives).bind_same fun _ ↦
        .pure _).congr fun s ↦ ⟨?_, ?_⟩
    · rintro ⟨_, hcheck, parsed, hparsed, hbreaks⟩
      exact ⟨own, parsed, hstep, hcheck, hparsed, hbreaks⟩
    · rintro ⟨own', parsed, hown, hcheck, hparsed, hbreaks⟩
      cases hstep.symm.trans hown
      exact ⟨(), hcheck, parsed, hparsed, hbreaks⟩
  · have hsame : MovesAlong SameTrail (runSpec eval site (some ⟨some path⟩) (some path) spec data) :=
      sameTrail_runSpec heval.imports fun own hown ↦ hdirectives ⟨own, hown⟩
    refine (BreaksAt.of_same hsame).congr fun s ↦ ⟨False.elim, ?_⟩
    rintro ⟨own, _, hown, _⟩
    exact hdirectives ⟨own, hown⟩

/-- An evaluation with an evaluator for the files that are asked for. -/
theorem breaksAt_evaluating (heval : EvalKeeps site eval) (v : Viewpoint) (path : Path)
    (content : Option String) (specs : List Spec) :
    BreaksAt (BreaksEvaluating eval site v path content specs) (do
      let data ← ofExcept (contentOf site v path content)
      nested path (runSpecs eval site path data specs)) :=
  BreaksAt.ofExcept_bind fun data ↦
    (BreaksAt.foldlM (fun data spec ↦ breaksAt_runSpec heval path data spec) specs data).nested path

theorem evalKeeps_evaluateWithin (site : Site) (depth : Nat) :
    EvalKeeps site (evaluateWithin site depth) := by
  refine ⟨?_, sameTrail_evaluateWithin site depth⟩
  induction depth with
  | zero => exact fun v k ↦ .of_same (.throw Failure.nestedTooDeep)
  | succ depth ih =>
    exact fun v k ↦ (breaksAt_evaluating ⟨ih, sameTrail_evaluateWithin site depth⟩ v k none
      (chainOf site k)).toSteady

end Processors

/-! ## Calls -/

/-- What a session can be asked. -/
inductive Call where
  | resolve (path : String) (index : Bool)
  | dependOn (path : String)
  | requireAsset (path : String)
  | requireTree (path : String)
  | dataUri (path : String)
  | evaluate (path : Path) (content : Option String) (specs : List Spec)

/-- Evaluations of the files that an evaluation asks for. -/
def evaluateBelow (site : Site) : Evaluator := evaluateWithin site (2 * site.disk.fileCount + 3)

namespace Call

/-- A call without its answer. -/
def run (site : Site) (v : Viewpoint) : Call → Action Unit
  | resolve path index => do let _ ← ofExcept (v.resolve site path index)
  | dependOn path => Session.dependOn site v path
  | requireAsset path => Session.requireAsset (Session.evaluate site) site v path
  | requireTree path => Session.requireTree (Session.evaluate site) site v path
  | dataUri path => do let _ ← Session.dataUri site v path
  | evaluate path content specs => do let _ ← Session.evaluate site v path content specs

/-- The call comes to the evaluation of a file that it requires for the first time, and this fails. -/
def BreaksOff (site : Site) (v : Viewpoint) : Call → Session → Prop
  | resolve .., _ | dependOn _, _ | dataUri _, _ => False
  | requireAsset path, s => BreaksRequiring (Session.evaluate site) site v path s
  | requireTree path, s => BreaksTree (Session.evaluate site) site v path s
  | evaluate path content specs, s =>
    BreaksEvaluating (evaluateBelow site) site v path content specs s

theorem breaksAt_run (site : Site) (v : Viewpoint) (c : Call) :
    BreaksAt (c.BreaksOff site v) (c.run site v) := by
  have hevaluate := evalKeeps_evaluateWithin site (depthBound site)
  cases c with
  | resolve path index => exact .of_same ((sameTrail_ofExcept _).bind fun _ ↦ .pure ())
  | dependOn path => exact .of_same (sameTrail_dependOn site v path)
  | requireAsset path => exact breaksAt_requireAsset hevaluate.steady v path
  | requireTree path => exact breaksAt_requireTree hevaluate.steady v path
  | dataUri path => exact .of_same ((sameTrail_dataUri site v path).bind fun _ ↦ .pure ())
  | evaluate path content specs =>
    exact (breaksAt_evaluating (evalKeeps_evaluateWithin site _) v path content specs).bind_same
      fun _ ↦ .pure ()

/-- The session after calls, each on the site as it is then. -/
def after (v : Viewpoint) (s : Session) (calls : List (Site × Call)) : Session :=
  calls.foldl (fun s c ↦ finalState (c.2.run c.1 v s)) s

theorem keepsMarks_after (v : Viewpoint) (s : Session) (calls : List (Site × Call)) :
    KeepsMarks s (after v s calls) := by
  induction calls generalizing s with
  | nil => exact refl_of KeepsMarks s
  | cons c calls ih => exact trans_of KeepsMarks ((breaksAt_run c.1 v c.2).keeps s) (ih _)

/-- A requirement that fails without breaking off has changed nothing. -/
theorem requireAsset_error_stays {site : Site} {v : Viewpoint} {path : String} {s t : Session}
    {e : Failure} (h : (requireAsset path).run site v s = .error e t)
    (hbreaks : ¬(requireAsset path).BreaksOff site v s) : t = s := by
  change Session.requireAsset _ site v path s = .error e t at h
  rcases hfound : v.require site path true with why | k
  · rw [requireAsset_of_not_found hfound] at h
    cases h
    rfl
  · rw [requireAsset_eq hfound] at h
    rcases hmark : s.marks.get? k with _ | _ | _
    · rw [hmark] at h
      rcases hend : Session.evaluate site v k none (chainOf site k) (begun k s) with ⟨_, u⟩ | ⟨why, u⟩
      · rw [hend] at h
        cases h
      · exact absurd ⟨k, hfound, hmark, why, u, hend⟩ hbreaks
    · rw [hmark] at h
      cases h
      rfl
    · rw [hmark] at h
      cases h

/-- A file that a call has left in progress is refused from then on as circular. -/
theorem requireAsset_inProgress {v : Viewpoint} {s : Session} {k : Path}
    (hmark : s.marks.get? k = some .inProgress) (more : List (Site × Call)) {site : Site}
    {path : String} (hfound : v.require site path true = .ok k) :
    (requireAsset path).run site v (after v s more) =
      .error (.circular (s.chain ++ [k])) (after v s more) := by
  have hkeeps := keepsMarks_after v s more
  change Session.requireAsset _ site v path (after v s more) = _
  rw [requireAsset_eq hfound, hkeeps.marks k _ hmark, hkeeps.chain]

end Call

/-- After any calls, a further one leaves the chain as it was, and the files in progress too if it ends
well. If it fails they are the same exactly if it has not broken off inside a first requirement, and then a
failed requirement has left the session as it was. A file that is newly in progress stays so: after
whatever calls and changes of the site, each requirement of it is refused as circular. -/
theorem restoration_exact (v : Viewpoint) (s : Session) (calls : List (Site × Call)) (site : Site)
    (c : Call) :
    let t := Call.after v s calls
    let u := finalState (c.run site v t)
    u.chain = t.chain ∧
      (∀ w, c.run site v t = .ok () w → SameInProgress t w) ∧
      (SameInProgress t u ↔ ¬c.BreaksOff site v t) ∧
      (∀ path e, c = .requireAsset path → c.run site v t = .error e u →
        ¬c.BreaksOff site v t → u = t) ∧
      ∀ k, t.marks.get? k ≠ some .inProgress → u.marks.get? k = some .inProgress →
        ∀ (more : List (Site × Call)) (site' : Site) (path : String),
          v.require site' path true = .ok k →
          (Call.requireAsset path).run site' v (Call.after v u more) =
            .error (.circular (t.chain ++ [k])) (Call.after v u more) := by
  intro t u
  have hrun := Call.breaksAt_run site v c
  have hchain : u.chain = t.chain := (hrun.keeps t).chain
  refine ⟨hchain, fun w hw ↦ hrun.settles t () w hw, hrun.restores_iff t, ?_, ?_⟩
  · rintro path e rfl herror hbreaks
    exact Call.requireAsset_error_stays herror hbreaks
  · intro k _ hmark more site' path hfound
    rw [← hchain]
    exact Call.requireAsset_inProgress hmark more hfound

/-- A script whose only requirement is of a file that is not there. -/
def stub : Site := Site.sample "local" [("a.js", .file "//= require missing\nA();\n".toUTF8 1)] []

def stubPath : Path := .absolute ["src", "a.js"]

theorem require_stub : (⟨none⟩ : Viewpoint).require stub "a" true = .ok stubPath :=
  eq_ok_of_toOption (by decide +kernel)

theorem marks_stub : (finalState ((Call.requireAsset "a").run stub ⟨none⟩ empty)).marks.get? stubPath =
    some .inProgress := by decide +kernel

/-- Nothing requires the script, and yet the second requirement of it is refused as circular. -/
theorem failure_leaves_mark :
    ∃ e t, (Call.requireAsset "a").run stub ⟨none⟩ empty = .error e t ∧
      e.message = "Asset 'missing' not found (required from /src/a.js)" ∧
      ¬SameInProgress empty t ∧
      (Call.requireAsset "a").run stub ⟨none⟩ t = .error (.circular [stubPath]) t := by
  have hmessage : (failure? ((Call.requireAsset "a").run stub ⟨none⟩ empty)).map Failure.message =
      some "Asset 'missing' not found (required from /src/a.js)" := by decide +kernel
  obtain ⟨e, he, hmessage⟩ := Option.map_eq_some_iff.1 hmessage
  refine ⟨e, _, eq_error_of_failure? he, hmessage, fun hsame ↦ ?_, ?_⟩
  · have hempty := (hsame stubPath).1 marks_stub
    cases hempty
  · have hchain := ((Call.breaksAt_run stub ⟨none⟩ (.requireAsset "a")).keeps empty).chain
    have hagain := Call.requireAsset_inProgress marks_stub [] require_stub
    rwa [hchain] at hagain

/-- Not even the missing file helps once it is there. -/
theorem stub_refused_when_mended :
    let mended := Site.sample "local" [("a.js", .file "//= require missing\nA();\n".toUTF8 1),
      ("missing.js", .file "M();\n".toUTF8 1)] []
    let t := finalState ((Call.requireAsset "a").run stub ⟨none⟩ empty)
    (Call.requireAsset "a").run mended ⟨none⟩ t = .error (.circular [stubPath]) t := by
  intro mended t
  obtain ⟨-, -, -, -, hrefused⟩ := restoration_exact ⟨none⟩ empty [] stub (.requireAsset "a")
  refine hrefused stubPath ?_ marks_stub [] mended "a" (eq_ok_of_toOption (by decide +kernel))
  rintro ⟨⟩

end AssetBundler.Session
