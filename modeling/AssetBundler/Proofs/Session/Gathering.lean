import AssetBundler.Proofs.Session.Demand
import AssetBundler.Proofs.Session.Expansion
import AssetBundler.Proofs.Session.Nesting

/-!
# What a build gathers

A part of a build that ends well counts what it was asked for, the files that became done in it and what
those count. Every file that is required is done afterwards, and every file that became done was read and
is reached from one that was required (`Gathers`). Parts in a row gather what both were asked for, so the
only file that has to be looked at closely is one that is required for the first time
(`Gathers.visit`). Main statement: what a build counts is what is reached by requirements and what the
files that are reached count otherwise (`mem_dependencies_of_build`).
-/

namespace AssetBundler.Session

open AssetBundler.Action Relation

def BecomesDone (s t : Session) (k : Path) : Prop :=
  t.marks.get? k = some .done ∧ s.marks.get? k ≠ some .done

/-- What is counted between two sessions by the files that become done and by whoever asked. -/
def Adds (site : Site) (counted : Set Path) (s t : Session) (q : Path) : Prop :=
  q ∈ counted ∨ BecomesDone s t q ∨ ∃ k, BecomesDone s t k ∧ Counts site k q

/-- A part of a build that ends well and was asked to require some files and to count some others. -/
structure Gathers (site : Site) (required counted : Set Path) (s t : Session) : Prop where
  keeps : KeepsDone s t
  dependencies : ∃ new, t.dependencies = s.dependencies ++ new ∧
    ∀ q, q ∈ new ↔ Adds site counted s t q
  performed : ∀ q ∈ required, t.marks.get? q = some .done
  closed : ∀ k, BecomesDone s t k → ∀ q, Requires site k q → t.marks.get? q = some .done
  reached : ∀ k, BecomesDone s t k → ∃ r ∈ required, ReflTransGen (Requires site) r k
  read : ∀ k, BecomesDone s t k → ∃ data, site.disk.readText k = .ok data

section Becoming

variable {s t u : Session} {k p : Path}

theorem becomesDone_trans (h : KeepsDone s t) (h' : KeepsDone t u) :
    BecomesDone s u k ↔ BecomesDone s t k ∨ BecomesDone t u k := by
  constructor
  · rintro ⟨hu, hs⟩
    by_cases ht : t.marks.get? k = some .done
    · exact .inl ⟨ht, hs⟩
    · exact .inr ⟨hu, ht⟩
  · rintro (⟨ht, hs⟩ | ⟨hu, ht⟩)
    · exact ⟨h' k ht, hs⟩
    · exact ⟨hu, fun hs ↦ ht (h k hs)⟩

theorem not_becomesDone_of_marks (h : t.marks = s.marks) : ¬BecomesDone s t k :=
  fun hk ↦ hk.2 (h ▸ hk.1)

/-- Between the marks of a file that is required for the first time the file itself becomes done, and
whatever becomes done in its evaluation. -/
theorem becomesDone_finished {text : String} (hmark : s.marks.get? k = none) :
    BecomesDone s (finished k text u) p ↔ p = k ∨ BecomesDone (begun k s) u p := by
  unfold BecomesDone
  rw [get?_marks_finished, get?_marks_begun]
  by_cases hkp : k = p
  · rw [if_pos hkp, ← hkp, hmark]
    exact iff_of_true ⟨rfl, by simp⟩ (.inl rfl)
  · rw [if_neg hkp, if_neg hkp]
    exact (or_iff_right (Ne.symm hkp)).symm

end Becoming

namespace Gathers

variable {site : Site} {R R' C C' : Set Path} {s t u : Session}

/-- A part of a build that looks at nothing but the disk counts what it is asked for. -/
theorem of_marks {new : List Path} (hmarks : t.marks = s.marks)
    (hnew : t.dependencies = s.dependencies ++ new) : Gathers site ∅ {q | q ∈ new} s t where
  keeps p hp := hmarks ▸ hp
  dependencies := by
    refine ⟨new, hnew, fun q ↦ ⟨.inl, ?_⟩⟩
    rintro (hq | hq | ⟨k, hk, -⟩)
    · exact hq
    · exact absurd hq (not_becomesDone_of_marks hmarks)
    · exact absurd hk (not_becomesDone_of_marks hmarks)
  performed q hq := absurd hq (Set.notMem_empty q)
  closed k hk := absurd hk (not_becomesDone_of_marks hmarks)
  reached k hk := absurd hk (not_becomesDone_of_marks hmarks)
  read k hk := absurd hk (not_becomesDone_of_marks hmarks)

theorem of_same (hmarks : t.marks = s.marks) (hsame : t.dependencies = s.dependencies) :
    Gathers site ∅ ∅ s t := by
  have h : Gathers site ∅ {q | q ∈ ([] : List Path)} s t :=
    of_marks hmarks (hsame.trans (List.append_nil _).symm)
  rwa [show {q | q ∈ ([] : List Path)} = (∅ : Set Path) by ext; simp] at h

protected theorem refl (site : Site) (s : Session) : Gathers site ∅ ∅ s s := of_same rfl rfl

protected theorem trans (h : Gathers site R C s t) (h' : Gathers site R' C' t u) :
    Gathers site (R ∪ R') (C ∪ C') s u := by
  have hbecomes := fun k ↦ becomesDone_trans (k := k) h.keeps h'.keeps
  refine ⟨fun p hp ↦ h'.keeps p (h.keeps p hp), ?_, ?_, ?_, ?_, ?_⟩
  · obtain ⟨new, hnew, hmem⟩ := h.dependencies
    obtain ⟨more, hmore, hmem'⟩ := h'.dependencies
    refine ⟨new ++ more, by rw [hmore, hnew, List.append_assoc], fun q ↦ ?_⟩
    rw [List.mem_append, hmem, hmem']
    simp only [Adds, hbecomes, Set.mem_union, or_and_right, exists_or]
    exact or_or_or_comm.trans (or_congr_right or_or_or_comm)
  · rintro q (hq | hq)
    · exact h'.keeps q (h.performed q hq)
    · exact h'.performed q hq
  · intro k hk q hq
    rcases (hbecomes k).1 hk with hk | hk
    · exact h'.keeps q (h.closed k hk q hq)
    · exact h'.closed k hk q hq
  · intro k hk
    rcases (hbecomes k).1 hk with hk | hk
    · obtain ⟨r, hr, hreach⟩ := h.reached k hk
      exact ⟨r, .inl hr, hreach⟩
    · obtain ⟨r, hr, hreach⟩ := h'.reached k hk
      exact ⟨r, .inr hr, hreach⟩
  · intro k hk
    rcases (hbecomes k).1 hk with hk | hk
    · exact h.read k hk
    · exact h'.read k hk

/-- A file that is done already is passed over. -/
theorem seen {k : Path} (hmark : s.marks.get? k = some .done) : Gathers site {k} ∅ s s where
  keeps _ hp := hp
  dependencies := (Gathers.refl site s).dependencies
  performed _ hq := (Set.mem_singleton_iff.1 hq).symm ▸ hmark
  closed _ hk := absurd hk (not_becomesDone_of_marks rfl)
  reached _ hk := absurd hk (not_becomesDone_of_marks rfl)
  read _ hk := absurd hk (not_becomesDone_of_marks rfl)

/-- A file that is required for the first time is counted and asks for what its processors ask for. -/
theorem visit {k : Path} {text : String} (hmark : s.marks.get? k = none)
    (hread : ∃ data, site.disk.readText k = .ok data)
    (h : Gathers site {q | Requires site k q} {q | Counts site k q} (begun k s) u) :
    Gathers site {k} ∅ s (finished k text u) := by
  have hbecomes : ∀ p, BecomesDone s (finished k text u) p ↔ p = k ∨ BecomesDone (begun k s) u p :=
    fun p ↦ becomesDone_finished hmark
  have hdone : ∀ q, u.marks.get? q = some .done → (finished k text u).marks.get? q = some .done := by
    intro q hq
    rw [get?_marks_finished]
    by_cases hkq : k = q
    · rw [if_pos hkq]
    · rw [if_neg hkq, hq]
  refine ⟨fun p hp ↦ hdone p (h.keeps p (Kept.keepsDone_begun hmark p hp)), ?_, ?_, ?_, ?_, ?_⟩
  · obtain ⟨new, hnew, hmem⟩ := h.dependencies
    refine ⟨k :: new, ?_, fun q ↦ ?_⟩
    · change u.dependencies = _
      rw [hnew]
      exact List.append_assoc ..
    · rw [List.mem_cons, hmem]
      simp only [Adds, hbecomes, Set.mem_empty_iff_false, false_or, Set.mem_ofPred_eq, or_and_right,
        exists_or, exists_eq_left]
      tauto
  · rintro q rfl
    rw [get?_marks_finished, if_pos rfl]
  · intro p hp q hq
    rcases (hbecomes p).1 hp with rfl | hp
    · exact hdone q (h.performed q hq)
    · exact hdone q (h.closed p hp q hq)
  · intro p hp
    rcases (hbecomes p).1 hp with rfl | hp
    · exact ⟨p, rfl, .refl⟩
    · obtain ⟨r, hr, hreach⟩ := h.reached p hp
      exact ⟨k, rfl, hreach.head hr⟩
  · intro p hp
    rcases (hbecomes p).1 hp with rfl | hp
    · exact hread
    · exact h.read p hp

/-- What an evaluation gathers in a session of its own goes to the session around it. -/
theorem of_entered {path : Path} (h : Gathers site R C (entered path s) u) :
    Gathers site R C s (returned s u) where
  keeps := h.keeps
  dependencies := by
    obtain ⟨new, hinner, hmem⟩ := h.dependencies
    exact ⟨new, congrArg (s.dependencies ++ ·) hinner, hmem⟩
  performed := h.performed
  closed := h.closed
  reached := h.reached
  read := h.read

end Gathers

/-- An action that gathers whenever it ends well. -/
def Collects (site : Site) (required counted : Set Path) {α : Type} (x : Action α) : Prop :=
  ∀ s a t, x s = .ok a t → Gathers site required counted s t

namespace Collects

variable {site : Site} {R R' C C' : Set Path} {α β : Type}

theorem congr {x : Action α} (h : Collects site R C x) (hR : R = R') (hC : C = C') :
    Collects site R' C' x := hR ▸ hC ▸ h

theorem of_ok {x : Action α} (h : ∀ s a t, x s = .ok a t → Collects site R C x) :
    Collects site R C x := fun s a t hx ↦ h s a t hx s a t hx

protected theorem pure (a : α) : Collects site ∅ ∅ (pure a : Action α) := by
  rintro s _ t ⟨⟩
  exact .refl site s

theorem bind {x : Action α} {f : α → Action β} (hx : Collects site R C x)
    (hf : ∀ a, Collects site R' C' (f a)) : Collects site (R ∪ R') (C ∪ C') (x >>= f) := by
  intro s b t h
  obtain ⟨a, u, ha, hb⟩ := bind_eq_ok.1 h
  exact (hx s a u ha).trans (hf a u b t hb)

/-- What comes before an action that asks for nothing. -/
theorem bind_left {x : Action α} {f : α → Action β} (hx : Collects site R C x)
    (hf : ∀ a, Collects site ∅ ∅ (f a)) : Collects site R C (x >>= f) :=
  (hx.bind hf).congr (Set.union_empty R) (Set.union_empty C)

theorem ofExcept_bind {x : Except Failure α} {f : α → Action β}
    (hf : ∀ a, x = .ok a → Collects site R C (f a)) :
    Collects site R C ((ofExcept x : Action α) >>= f) := by
  intro s b t h
  obtain ⟨a, u, ha, hb⟩ := bind_eq_ok.1 h
  obtain ⟨hx, rfl⟩ := ofExcept_eq_ok.1 ha
  exact hf a hx u b t hb

theorem addDependency (q : Path) : Collects site ∅ {q} (addDependency q) := by
  rintro s _ t ⟨⟩
  have h : Gathers site ∅ {p | p ∈ [q]} s { s with dependencies := s.dependencies ++ [q] } :=
    Gathers.of_marks rfl rfl
  rwa [show {p | p ∈ [q]} = ({q} : Set Path) by ext; simp] at h

theorem forM {xs : List β} {f : β → Action Unit} {required counted : β → Set Path}
    (h : ∀ x ∈ xs, Collects site (required x) (counted x) (f x)) :
    Collects site {q | ∃ x ∈ xs, q ∈ required x} {q | ∃ x ∈ xs, q ∈ counted x} (xs.forM f) := by
  induction xs with
  | nil => exact (Collects.pure ()).congr (by ext; simp) (by ext; simp)
  | cons x xs ih =>
    have hfirst := h x (List.mem_cons_self ..)
    have hrest := ih fun y hy ↦ h y (List.mem_cons_of_mem _ hy)
    exact (hfirst.bind fun _ ↦ hrest).congr (by ext; simp) (by ext; simp)

theorem mapM {xs : List β} {f : β → Action α} {counted : β → Set Path}
    (h : ∀ x ∈ xs, Collects site ∅ (counted x) (f x)) :
    Collects site ∅ {q | ∃ x ∈ xs, q ∈ counted x} (xs.mapM f) := by
  induction xs with
  | nil => exact (Collects.pure []).congr rfl (by ext; simp)
  | cons x xs ih =>
    have hfirst := h x (List.mem_cons_self ..)
    have hrest := ih fun y hy ↦ h y (List.mem_cons_of_mem _ hy)
    rw [List.mapM_cons]
    refine (hfirst.bind fun _ ↦ hrest.bind_left fun _ ↦ .pure _).congr (Set.empty_union ∅) ?_
    ext
    simp

end Collects

/-! ## What can be asked for -/

/-- The evaluator gathers what the processors that it runs on a file ask for. -/
def EvalGathers (site : Site) (eval : Evaluator) : Prop :=
  ∀ v k specs s text t, k.IsProper → eval v k none specs s = .ok text t →
    ∃ data, site.disk.readText k = .ok data ∧
      Gathers site (requiredFrom site k specs data) (countedFrom site k specs data) s t

section Requests

variable {eval : Evaluator} {site : Site} {v : Viewpoint} {path : Path} {name : String}

theorem collects_requireAsset (hs : site.IsProper) (hv : ∀ p, v.path = some p → p.IsProper)
    (heval : EvalGathers site eval) {k : Path} (hk : v.require site name true = .ok k) :
    Collects site {k} ∅ (requireAsset eval site v name) := by
  intro s a t h
  unfold requireAsset at h
  rw [bind_of_ok (ofExcept_ok hk s), bind_of_ok (get_apply s)] at h
  rcases hmark : s.marks.get? k with _ | _ | _
  · simp only [hmark] at h
    change (eval v k none (chainOf site k) >>= fun text ↦
      addText text >>= fun _ ↦ setMark k .done) (begun k s) = .ok a t at h
    obtain ⟨text, u, htext, hrest⟩ := bind_eq_ok.1 h
    obtain ⟨data, hdata, hgathers⟩ :=
      heval v k _ _ text u (isCanonical_of_require hs hv hk).proper htext
    have hrequired : requiredFrom site k (chainOf site k) data = {q | Requires site k q} := by
      ext q
      exact (requires_iff hdata).symm
    have hcounted : countedFrom site k (chainOf site k) data = {q | Counts site k q} := by
      ext q
      exact (counts_iff hdata).symm
    rw [hrequired, hcounted] at hgathers
    cases hrest
    exact .visit hmark ⟨data, hdata⟩ hgathers
  · simp only [hmark] at h
    rw [bind_of_ok (get_apply s)] at h
    cases h
  · simp only [hmark] at h
    cases h
    exact .seen hmark

theorem collects_dependOn {k : Path} (hk : v.require site name true = .ok k) :
    Collects site ∅ {k} (dependOn site v name) := by
  refine Collects.ofExcept_bind fun found hfound ↦ ?_
  cases hk.symm.trans hfound
  exact .addDependency k

theorem collects_requireEntries (hs : site.IsProper) (hv : ∀ p, v.path = some p → p.IsProper)
    (heval : EvalGathers site eval) {entries : List Disk.Listed} {ks : List Path}
    (h : entryTargets site v entries = .ok ks) :
    Collects site {q | q ∈ ks} ∅ (requireEntries eval site v entries) := by
  induction entries generalizing ks with
  | nil =>
    cases h
    exact (Collects.pure ()).congr (by ext; simp) rfl
  | cons entry entries ih =>
    rw [entryTargets_cons] at h
    obtain ⟨selected, hselected, h⟩ := except_bind_eq_ok.1 h
    refine Collects.ofExcept_bind fun selected' hselected' ↦ ?_
    cases hselected.symm.trans hselected'
    cases selected with
    | false => exact ih h
    | true =>
      obtain ⟨k, hk, h⟩ := except_bind_eq_ok.1 h
      obtain ⟨rest, hrest, h⟩ := except_bind_eq_ok.1 h
      cases h
      refine ((collects_requireAsset hs hv heval hk).bind fun _ ↦ ih hrest).congr ?_
        (Set.empty_union ∅)
      ext q
      simp

theorem collects_dataUri (site : Site) (v : Viewpoint) (name : String) :
    Collects site ∅ {q | v.requireFile site name = .ok q} (dataUri site v name) := by
  refine Collects.ofExcept_bind fun found hfound ↦ ?_
  have hbytes : Collects site ∅ ∅ (do
      return dataUriOf (site.pipeline.contentTypeOf found)
        (← ofExcept (Disk.orFail (site.disk.readBytes found))) : Action String) :=
    Collects.ofExcept_bind fun bytes _ ↦ .pure _
  refine ((Collects.addDependency found).bind_left fun _ ↦ hbytes).congr rfl ?_
  ext q
  rw [Set.mem_singleton_iff, Set.mem_ofPred_eq, hfound, Except.ok.injEq, eq_comm]

theorem collects_noteField (site : Site) (path : Path) (field : NoteField) :
    Collects site ∅ {q | ∃ name, field = .dataUri name ∧
      Viewpoint.requireFile ⟨some path⟩ site name = .ok q}
      (noteField site (some ⟨some path⟩) field) := by
  cases field with
  | text s => exact (Collects.pure (some s)).congr rfl (by ext; simp)
  | currentName => exact (Collects.pure (some path.name)).congr rfl (by ext; simp)
  | dataUri name =>
    have hfield : Collects site ∅ {q | Viewpoint.requireFile ⟨some path⟩ site name = .ok q}
        (noteField site (some ⟨some path⟩) (.dataUri name)) :=
      (collects_dataUri site ⟨some path⟩ name).bind_left fun uri ↦ .pure (some uri)
    exact hfield.congr rfl (by ext; simp)
  | contentType name =>
    have hfield : Collects site ∅ ∅ (noteField site (some ⟨some path⟩) (.contentType name)) :=
      Collects.ofExcept_bind fun found _ ↦ .pure (site.pipeline.contentTypeOf found)
    exact hfield.congr rfl (by ext; simp)

theorem requestRequires_eq {request : Request} {ks : List Path}
    (h : requestTargets site ⟨some path⟩ request = .ok ks) :
    {q | q ∈ ks} = requestRequires site path request := by
  ext q
  constructor
  · exact fun hq ↦ ⟨ks, h, hq⟩
  · rintro ⟨ks', h', hq⟩
    cases h.symm.trans h'
    exact hq

/-- A tree counts its folder and requires the files that are listed in it. -/
theorem collects_requireTree (hs : site.IsProper) (hpath : path.IsProper)
    (heval : EvalGathers site eval) {name : String} {folder : Path} {ks : List Path}
    {entries : List Disk.Listed}
    (hfound : Viewpoint.resolve ⟨some path⟩ site name false = .ok (some folder))
    (hfolder : Disk.orFail (site.disk.isFolder folder) = .ok true)
    (hentries : Disk.orFail (site.disk.list folder) = .ok entries)
    (htargets : entryTargets site ⟨some path⟩ entries = .ok ks) :
    Collects site {q | q ∈ ks} {folder} (requireTree eval site ⟨some path⟩ name) := by
  have hview : ∀ p, some path = some p → p.IsProper := fun p hp ↦ Option.some.inj hp ▸ hpath
  refine Collects.ofExcept_bind fun found? hfound' ↦ ?_
  cases hfound.symm.trans hfound'
  refine Collects.ofExcept_bind fun isFolder hfolder' ↦ ?_
  cases hfolder.symm.trans hfolder'
  have hall : Collects site {q | q ∈ ks} ∅ (do
      requireEntries eval site ⟨some path⟩ (← ofExcept (Disk.orFail (site.disk.list folder)))) := by
    refine Collects.ofExcept_bind fun entries' hentries' ↦ ?_
    cases hentries.symm.trans hentries'
    exact collects_requireEntries hs hview heval htargets
  exact ((Collects.addDependency folder).bind fun _ ↦ hall).congr (Set.empty_union _) (Set.union_empty _)

/-- A note counts the files that it carries as data. -/
theorem collects_note (fields : List NoteField) :
    Collects site ∅ {q | ∃ field ∈ fields, ∃ name, field = .dataUri name ∧
      Viewpoint.requireFile ⟨some path⟩ site name = .ok q}
      (fulfil eval site (some ⟨some path⟩) (.note fields)) := by
  refine (Collects.mapM fun field _ ↦ collects_noteField site path field).bind_left fun note ↦ ?_
  rintro s _ t ⟨⟩
  exact Gathers.of_same rfl rfl

theorem collects_fulfil (hs : site.IsProper) (hpath : path.IsProper)
    (heval : EvalGathers site eval) (request : Request) :
    Collects site (requestRequires site path request) {q | RequestCounts site path request q}
      (fulfil eval site (some ⟨some path⟩) request) := by
  have hview : ∀ p, some path = some p → p.IsProper := fun p hp ↦ Option.some.inj hp ▸ hpath
  refine Collects.of_ok fun s a t h ↦ ?_
  obtain ⟨ks, hks⟩ := targets_of_fulfil h
  rw [← requestRequires_eq hks]
  cases request with
  | require name =>
    obtain ⟨k, hk, hks⟩ := except_bind_eq_ok.1 hks
    cases hks
    refine (collects_requireAsset hs hview heval hk).congr (by ext; simp) ?_
    ext q
    exact iff_of_false (Set.notMem_empty q) (by rintro ⟨⟩)
  | dependOn name =>
    obtain ⟨k, hk, hks⟩ := except_bind_eq_ok.1 hks
    cases hks
    refine (collects_dependOn hk).congr (by ext; simp) ?_
    ext q
    constructor
    · rintro rfl
      exact .dependOn hk
    · intro h
      cases h with
      | dependOn hq => exact Except.ok.inj (hq.symm.trans hk)
  | requireTree name =>
    obtain ⟨folder, entries, hfound, hfolder, hentries, htargets⟩ := requireTree_eq_ok.1 hks
    refine (collects_requireTree hs hpath heval hfound hfolder hentries htargets).congr rfl ?_
    ext q
    constructor
    · rintro rfl
      exact .requireTree hfound hfolder
    · intro h
      cases h with
      | requireTree hq => exact Option.some.inj (Except.ok.inj (hq.symm.trans hfound))
  | note fields =>
    cases hks
    refine (collects_note fields).congr (by ext; simp) ?_
    ext q
    constructor
    · rintro ⟨_, hmem, name, rfl, hq⟩
      exact .note hmem hq
    · intro h
      cases h with
      | note hmem hq => exact ⟨_, hmem, _, rfl, hq⟩

end Requests

end AssetBundler.Session
