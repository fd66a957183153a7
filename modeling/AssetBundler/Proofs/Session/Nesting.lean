import AssetBundler.Proofs.Session.Cycle
import AssetBundler.Proofs.Session.Failing

/-!
# Evaluations inside evaluations

Requirements are guarded by marks and imports by the chain of evaluations. The two work together
because an import runs no directives: where a requirement is made, every file on the chain was
required, so a file without a mark is not on the chain (`Enters`). A build is watched by doing something
around every run of a processor (`evaluateThrough`); what does nothing in such sessions changes no build
(`agrees_evaluateThrough`). Main statement: whenever a processor runs, no file is twice on the chain, all
files in progress are on it, and none that is done is anything else later, so that evaluations are
nested no deeper than there are files.
-/

namespace AssetBundler

namespace Session

open AssetBundler.Action

/-- What is done around a run of a processor, which is given with its file, its content and the run. -/
abbrev Around := Path → Spec → String → Action String → Action String

/-- Evaluations as they are, with something done around every run of a processor. -/
def evaluateThrough (around : Around) (site : Site) : Nat → Evaluator
  | 0, _, _, _, _ => throw .nestedTooDeep
  | depth + 1, v, path, content, specs => do
    let data ← ofExcept (contentOf site v path content)
    nested path (specs.foldlM (fun data spec ↦ around path spec data
      (runSpec (evaluateThrough around site depth) site (some ⟨some path⟩) (some path) spec data)) data)

/-- Watches the runs of processors: a run that starts in a session that does not hold, or that leaves one
that does not go with the session in which it started, ends with the alarm instead. -/
def watch (alarm : Failure) (holds : Session → Prop) (goes : Session → Session → Prop)
    [DecidablePred holds] [DecidableRel goes] : Around := fun _ _ _ run s ↦
  if holds s ∧ goes s (finalState (run s)) then run s else .error alarm s

/-- What is done stays done. -/
def KeepsDone (s t : Session) : Prop :=
  ∀ p, s.marks.get? p = some .done → t.marks.get? p = some .done

/-- No file is twice on the chain, all files in progress are on it, and there are as many files as it is
long. -/
structure IsNested (site : Site) (s : Session) : Prop where
  nodup : s.chain.Nodup
  inProgress : ∀ p, s.marks.get? p = some .inProgress → p ∈ s.chain
  length_le : s.chain.length ≤ site.disk.fileCount

instance : DecidableRel KeepsDone := fun s t ↦
  decidable_of_iff (∀ p ∈ s.marks.keys, s.marks.get? p = some .done → t.marks.get? p = some .done)
    ⟨fun h p hp ↦ h p (Table.mem_keys_of_get? hp) hp, fun h p _ ↦ h p⟩

instance (site : Site) : DecidablePred (IsNested site) := fun s ↦
  decidable_of_iff (s.chain.Nodup ∧
      (∀ p ∈ s.marks.keys, s.marks.get? p = some .inProgress → p ∈ s.chain) ∧
      s.chain.length ≤ site.disk.fileCount)
    ⟨fun h ↦ ⟨h.1, fun p hp ↦ h.2.1 p (Table.mem_keys_of_get? hp) hp, h.2.2⟩,
      fun h ↦ ⟨h.nodup, fun p _ ↦ h.inProgress p, h.length_le⟩⟩

/-- What a part of a build that ends well changes: files may become done that had no mark. -/
structure Kept (s t : Session) : Prop where
  chain : t.chain = s.chain
  done : KeepsDone s t
  inProgress : ∀ p, t.marks.get? p = some .inProgress ↔ s.marks.get? p = some .inProgress

namespace Kept

variable {s t u : Session}

theorem of_marks (hchain : t.chain = s.chain) (hmarks : t.marks = s.marks) : Kept s t :=
  ⟨hchain, fun p hp ↦ hmarks ▸ hp, fun p ↦ by rw [hmarks]⟩

protected theorem refl (s : Session) : Kept s s := of_marks rfl rfl

protected theorem trans (h : Kept s t) (h' : Kept t u) : Kept s u where
  chain := h'.chain.trans h.chain
  done p hp := h'.done p (h.done p hp)
  inProgress p := (h'.inProgress p).trans (h.inProgress p)

theorem keepsDone_begun {k : Path} (hmark : s.marks.get? k = none) : KeepsDone s (begun k s) := by
  intro p hp
  rw [get?_marks_begun]
  by_cases hkp : k = p
  · rw [← hkp, hmark] at hp
    cases hp
  · rw [if_neg hkp]
    exact hp

theorem finished {k : Path} {text : String} (hmark : s.marks.get? k = none)
    (h : Kept (begun k s) t) : Kept s (finished k text t) where
  chain := h.chain
  done p hp := by
    rw [get?_marks_finished]
    by_cases hkp : k = p
    · rw [if_pos hkp]
    · rw [if_neg hkp]
      exact h.done p (keepsDone_begun hmark p hp)
  inProgress p := by
    rw [get?_marks_finished]
    by_cases hkp : k = p
    · rw [if_pos hkp, ← hkp, hmark]
      exact iff_of_false (by intro h; cases h) (by intro h; cases h)
    · rw [if_neg hkp, h.inProgress p, get?_marks_begun, if_neg hkp]

end Kept

/-- A part of a build that ends well keeps the session, one that fails keeps what is done; it never fails
because evaluations are nested too deep. -/
def Settles {α : Type} (s : Session) : EStateM.Result Failure Session α → Prop
  | .ok _ t => Kept s t
  | .error e t => KeepsDone s t ∧ e ≠ .nestedTooDeep

theorem Settles.of_kept {α : Type} {s t : Session} {r : EStateM.Result Failure Session α}
    (hkept : Kept s t) (h : Settles t r) : Settles s r := by
  cases r with
  | ok a u => exact hkept.trans h
  | error e u => exact ⟨fun p hp ↦ h.1 p (hkept.done p hp), h.2⟩

theorem Settles.keepsDone {α : Type} {s : Session} {r : EStateM.Result Failure Session α}
    (h : Settles s r) : KeepsDone s (finalState r) := by
  cases r with
  | ok a u => exact h.done
  | error e u => exact h.1

/-- Two actions do the same in a session, and end there as a part of a build should. -/
structure Agrees {α : Type} (x y : Action α) (s : Session) : Prop where
  same : x s = y s
  settles : Settles s (y s)

namespace Agrees

variable {α β : Type} {s : Session}

theorem of_eq {x y : Action α} {r : EStateM.Result Failure Session α} (hx : x s = r) (hy : y s = r)
    (hr : Settles s r) : Agrees x y s := ⟨hx.trans hy.symm, hy ▸ hr⟩

theorem of_ok {x : Action α} {a : α} {t : Session} (hx : x s = .ok a t) (h : Kept s t) :
    Agrees x x s := of_eq hx hx h

protected theorem pure (a : α) : Agrees (pure a : Action α) (pure a) s := of_ok rfl (Kept.refl s)

theorem of_error {x : Action α} {e : Failure} (hx : x s = .error e s) (he : e ≠ .nestedTooDeep) :
    Agrees x x s := of_eq hx hx ⟨fun _ h ↦ h, he⟩

theorem bind {x y : Action α} {f g : α → Action β} (h : Agrees x y s)
    (hrest : ∀ a t, Kept s t → Agrees (f a) (g a) t) : Agrees (x >>= f) (y >>= g) s := by
  have hsettles := h.settles
  rcases hy : y s with ⟨a, t⟩ | ⟨e, t⟩
  · rw [hy] at hsettles
    have hlast := hrest a t hsettles
    exact of_eq (bind_of_ok (h.same.trans hy)) ((bind_of_ok hy).trans hlast.same.symm)
      (hlast.same ▸ hlast.settles.of_kept hsettles)
  · rw [hy] at hsettles
    exact of_eq (bind_of_error (h.same.trans hy)) (bind_of_error hy) hsettles

theorem ofExcept_bind {x : Except Failure α} {f g : α → Action β}
    (hx : FailsOnly (· ≠ .nestedTooDeep) x) (hrest : ∀ a, x = .ok a → Agrees (f a) (g a) s) :
    Agrees (ofExcept x >>= f) (ofExcept x >>= g) s := by
  cases x with
  | ok a => exact hrest a rfl
  | error e => exact of_eq (r := .error e s) rfl rfl ⟨fun _ h ↦ h, hx e rfl⟩

theorem get_bind {f g : Session → Action β} (h : Agrees (f s) (g s) s) :
    Agrees (get >>= f) (get >>= g) s := ⟨h.same, h.settles⟩

theorem forM {l : List α} {f g : α → Action Unit}
    (h : ∀ a ∈ l, ∀ t, Kept s t → Agrees (f a) (g a) t) : Agrees (l.forM f) (l.forM g) s := by
  induction l generalizing s with
  | nil => exact .pure ()
  | cons a l ih =>
    refine (h a (List.mem_cons_self ..) s (Kept.refl s)).bind fun _ t ht ↦ ih fun b hb u hu ↦ ?_
    exact h b (List.mem_cons_of_mem _ hb) u (ht.trans hu)

theorem mapM {l : List α} {f g : α → Action β}
    (h : ∀ a ∈ l, ∀ t, Kept s t → Agrees (f a) (g a) t) : Agrees (l.mapM f) (l.mapM g) s := by
  induction l generalizing s with
  | nil => exact .pure []
  | cons a l ih =>
    rw [List.mapM_cons, List.mapM_cons]
    refine (h a (List.mem_cons_self ..) s (Kept.refl s)).bind fun _ t ht ↦ ?_
    refine (ih fun b hb u hu ↦ ?_).bind fun _ _ _ ↦ .pure _
    exact h b (List.mem_cons_of_mem _ hb) u (ht.trans hu)

theorem foldlM {l : List α} {f g : β → α → Action β} {b : β}
    (h : ∀ a ∈ l, ∀ b t, Kept s t → Agrees (f b a) (g b a) t) :
    Agrees (l.foldlM f b) (l.foldlM g b) s := by
  induction l generalizing s b with
  | nil => exact .pure b
  | cons a l ih =>
    rw [List.foldlM_cons, List.foldlM_cons]
    refine (h a (List.mem_cons_self ..) b s (Kept.refl s)).bind fun _ t ht ↦ ih fun c hc b u hu ↦ ?_
    exact h c (List.mem_cons_of_mem _ hc) b u (ht.trans hu)

/-- What agrees inside an evaluation agrees around it: the chain is restored, the marks stay. -/
theorem nested {path : Path} {x y : Action α} (h : Agrees x y (entered path s)) :
    Agrees (nested path x) (nested path y) s := by
  have hsettles := h.settles
  have hsame := h.same
  rcases hy : y (entered path s) with ⟨a, t⟩ | ⟨e, t⟩
  · rw [hy] at hsettles hsame
    exact of_eq (nested_of_ok hsame) (nested_of_ok hy)
      ⟨rfl, hsettles.done, hsettles.inProgress⟩
  · rw [hy] at hsettles hsame
    exact of_eq (nested_of_error hsame) (nested_of_error hy) ⟨hsettles.1, hsettles.2⟩

end Agrees

section Questions

variable {α : Type} {site : Site}

theorem orFail_ne_tooDeep (x : Except Disk.Error α) :
    FailsOnly (· ≠ .nestedTooDeep) (Disk.orFail x) := by
  cases x with
  | ok a => exact .ok _
  | error e => exact .error Failure.noConfusion

theorem readText_ne_tooDeep (d : Disk) (path : Path) :
    FailsOnly (· ≠ .nestedTooDeep) (d.readText path) := by
  refine FailsOnly.bind (orFail_ne_tooDeep _) fun bytes ↦ ?_
  cases String.fromUTF8? bytes with
  | none => exact .error Failure.noConfusion
  | some text => exact .ok _

theorem ne_tooDeep_of_fails {x : Except Failure α} (h : FailsOnly (Fails site) x) :
    FailsOnly (· ≠ .nestedTooDeep) x := h.mono fun _ ↦ Fails.ne_tooDeep

end Questions

/-- The files of a chain are all different, and those in progress are among them. -/
structure Nests (chain : List Path) (s : Session) : Prop where
  nodup : chain.Nodup
  canonical : ∀ p ∈ chain, p.IsCanonical
  inProgress : ∀ p, s.marks.get? p = some .inProgress → p ∈ chain

/-- A processor can run at the end of a chain if it expands imports, or if every file of the chain was
required. -/
def MayRun (chain : List Path) (s : Session) (spec : Spec) : Prop :=
  spec.processor.step = .expandImports ∨ ∀ p ∈ chain, s.marks.get? p = some .inProgress

/-- A file is about to be evaluated below the files of the chain. -/
structure Enters (site : Site) (path : Path) (specs : List Spec) (s : Session) : Prop where
  nests : Nests (s.chain ++ [path]) s
  files : ∀ p ∈ s.chain, ∃ bytes, site.disk.readBytes p = .ok bytes
  mayRun : ∀ spec ∈ specs, MayRun (s.chain ++ [path]) s spec

/-- The processors of the file at the end of the chain run. -/
structure IsAt (site : Site) (path : Path) (s : Session) : Prop where
  last : ∃ above, s.chain = above ++ [path]
  nests : Nests s.chain s
  files : ∀ p ∈ s.chain, ∃ bytes, site.disk.readBytes p = .ok bytes

section Places

variable {site : Site} {path k : Path} {spec : Spec} {specs : List Spec} {chain : List Path}
  {s t : Session}

theorem MayRun.of_kept (h : MayRun chain s spec) (hkept : Kept s t) :
    MayRun chain t spec := h.imp_right fun hmarked p hp ↦ (hkept.inProgress p).2 (hmarked p hp)

theorem Enters.isAt {bytes : ByteArray} (h : Enters site path specs s)
    (hread : site.disk.readBytes path = .ok bytes) : IsAt site path (entered path s) where
  last := ⟨s.chain, rfl⟩
  nests := ⟨h.nests.nodup, h.nests.canonical, h.nests.inProgress⟩
  files := List.forall_mem_append.2 ⟨h.files, List.forall_mem_singleton.2 ⟨bytes, hread⟩⟩

namespace IsAt

theorem kept (h : IsAt site path s) (hkept : Kept s t) : IsAt site path t where
  last := by
    rw [hkept.chain]
    exact h.last
  nests := by
    rw [hkept.chain]
    exact ⟨h.nests.nodup, h.nests.canonical, fun p hp ↦ h.nests.inProgress p ((hkept.inProgress p).1 hp)⟩
  files := by
    rw [hkept.chain]
    exact h.files

theorem mem_chain (h : IsAt site path s) : path ∈ s.chain := by
  obtain ⟨above, hchain⟩ := h.last
  rw [hchain]
  exact List.mem_append_right _ (List.mem_singleton_self path)

theorem isProper (h : IsAt site path s) : ∀ p, (⟨some path⟩ : Viewpoint).path = some p → p.IsProper :=
  fun _ hp ↦ Option.some.inj hp ▸ (h.nests.canonical path h.mem_chain).proper

theorem isNested (htop : site.disk.top.isFolder = true) (h : IsAt site path s) : IsNested site s :=
  ⟨h.nests.nodup, h.nests.inProgress,
    Disk.length_le_fileCount_of_isFolder htop h.nests.nodup h.nests.canonical h.files⟩

theorem nests_concat (h : IsAt site path s) (hk : k.IsCanonical) (hnew : k ∉ s.chain) :
    Nests (s.chain ++ [k]) s where
  nodup := h.nests.nodup.append (List.nodup_singleton k) (List.disjoint_singleton.2 hnew)
  canonical := List.forall_mem_append.2 ⟨h.nests.canonical, List.forall_mem_singleton.2 hk⟩
  inProgress p hp := List.mem_append_left _ (h.nests.inProgress p hp)

/-- An imported file is not on the chain. -/
theorem enters_import (h : IsAt site path s) (hk : k.IsCanonical) (hnew : k ∉ s.chain) :
    Enters site k [⟨.imports, []⟩] s where
  nests := h.nests_concat hk hnew
  files := h.files
  mayRun := List.forall_mem_singleton.2 (.inl rfl)

/-- A required file has no mark; as every file of the chain has one, it is not on the chain. -/
theorem enters_requirement (h : IsAt site path s)
    (hmarked : ∀ p ∈ s.chain, s.marks.get? p = some .inProgress) (hk : k.IsCanonical)
    (hmark : s.marks.get? k = none) : Enters site k (chainOf site k) (begun k s) := by
  have hnew : k ∉ s.chain := by
    intro hmem
    rw [hmarked k hmem] at hmark
    cases hmark
  have hchain : (begun k s).chain = s.chain := rfl
  have hbegun := h.nests_concat hk hnew
  refine ⟨⟨hbegun.nodup, hbegun.canonical, fun p hp ↦ ?_⟩, h.files, fun spec hspec ↦ ?_⟩
  · rw [get?_marks_begun] at hp
    by_cases hkp : k = p
    · rw [← hkp]
      exact List.mem_append_right _ (List.mem_singleton_self k)
    · rw [if_neg hkp] at hp
      exact hbegun.inProgress p hp
  · refine .inr fun p hp ↦ ?_
    rw [get?_marks_begun]
    by_cases hkp : k = p
    · rw [if_pos hkp]
    · rw [if_neg hkp]
      rw [hchain, List.mem_append, List.mem_singleton] at hp
      exact hmarked p (hp.resolve_right (Ne.symm hkp))

end IsAt

end Places

/-! ## Processors -/

section Processors

variable {site : Site} {path : Path} {eval eval' : Evaluator} {s : Session}

/-- Two evaluators agree on every file that can be evaluated below a chain. -/
def AgreeBelow (site : Site) (chain : List Path) (eval eval' : Evaluator) : Prop :=
  ∀ v k specs t, t.chain = chain → Enters site k specs t →
    Agrees (eval v k none specs) (eval' v k none specs) t

theorem agrees_requireAsset (hs : site.IsProper)
    (heval : AgreeBelow site s.chain eval eval') (hat : IsAt site path s)
    (hmarked : ∀ p ∈ s.chain, s.marks.get? p = some .inProgress) (name : String) :
    Agrees (requireAsset eval site ⟨some path⟩ name) (requireAsset eval' site ⟨some path⟩ name) s := by
  refine Agrees.ofExcept_bind (ne_tooDeep_of_fails (fails_require name true)) fun k hk ↦ Agrees.get_bind ?_
  have hcanonical := isCanonical_of_require hs hat.isProper hk
  rcases hmark : s.marks.get? k with _ | _ | _
  · have hbegun := heval ⟨some path⟩ k (chainOf site k) (begun k s) rfl
      (hat.enters_requirement hmarked hcanonical hmark)
    have hvisit : ∀ e : Evaluator, (do
        setMark k .inProgress
        addDependency k
        let text ← e ⟨some path⟩ k none (chainOf site k)
        addText text
        setMark k .done : Action Unit) s = (e ⟨some path⟩ k none (chainOf site k) >>= fun text ↦
          addText text >>= fun _ ↦ setMark k .done) (begun k s) := fun _ ↦ rfl
    have hsettles := hbegun.settles
    have hsame := hbegun.same
    rcases hend : eval' ⟨some path⟩ k none (chainOf site k) (begun k s) with ⟨text, t⟩ | ⟨e, t⟩
    · rw [hend] at hsettles hsame
      exact .of_eq (r := .ok () (finished k text t)) ((hvisit eval).trans (bind_of_ok hsame))
        ((hvisit eval').trans (bind_of_ok hend)) (hsettles.finished hmark)
    · rw [hend] at hsettles hsame
      refine .of_eq (r := .error e t) ((hvisit eval).trans (bind_of_error hsame))
        ((hvisit eval').trans (bind_of_error hend)) ⟨?_, hsettles.2⟩
      exact fun p hp ↦ hsettles.1 p (Kept.keepsDone_begun hmark p hp)
  · exact .of_error (e := .circular (s.chain ++ [k])) rfl Failure.noConfusion
  · exact .pure ()

theorem agrees_requireEntries (hs : site.IsProper)
    (heval : AgreeBelow site s.chain eval eval') (hat : IsAt site path s)
    (hmarked : ∀ p ∈ s.chain, s.marks.get? p = some .inProgress) (entries : List Disk.Listed) :
    Agrees (requireEntries eval site ⟨some path⟩ entries)
      (requireEntries eval' site ⟨some path⟩ entries) s := by
  induction entries generalizing s with
  | nil => exact .pure ()
  | cons entry entries ih =>
    refine Agrees.ofExcept_bind (ne_tooDeep_of_fails (fails_isSelected entry)) fun selected _ ↦ ?_
    cases selected with
    | false => exact ih heval hat hmarked
    | true =>
      refine (agrees_requireAsset hs heval hat hmarked _).bind fun _ t ht ↦ ?_
      refine ih (ht.chain ▸ heval) (hat.kept ht) fun p hp ↦ ?_
      exact (ht.inProgress p).2 (hmarked p (ht.chain ▸ hp))

theorem agrees_requireTree (hs : site.IsProper)
    (heval : AgreeBelow site s.chain eval eval') (hat : IsAt site path s)
    (hmarked : ∀ p ∈ s.chain, s.marks.get? p = some .inProgress) (name : String) :
    Agrees (requireTree eval site ⟨some path⟩ name) (requireTree eval' site ⟨some path⟩ name) s := by
  refine Agrees.ofExcept_bind (orFail_ne_tooDeep _) fun found? _ ↦ ?_
  cases found? with
  | none => exact .of_error (e := .assetNotFound name (some path)) rfl Failure.noConfusion
  | some folder =>
    refine Agrees.ofExcept_bind (orFail_ne_tooDeep _) fun isFolder _ ↦ ?_
    cases isFolder with
    | false => exact .of_error (e := .assetNotFound name (some path)) rfl Failure.noConfusion
    | true =>
      have hcounted : Agrees (addDependency folder) (addDependency folder) s :=
        .of_ok rfl (.of_marks rfl rfl)
      refine hcounted.bind fun _ t ht ↦ Agrees.ofExcept_bind (orFail_ne_tooDeep _) fun entries _ ↦ ?_
      refine agrees_requireEntries hs (ht.chain ▸ heval) (hat.kept ht) (fun p hp ↦ ?_) entries
      exact (ht.inProgress p).2 (hmarked p (ht.chain ▸ hp))

theorem agrees_dependOn (site : Site) (v : Viewpoint) (name : String) (s : Session) :
    Agrees (dependOn site v name) (dependOn site v name) s :=
  Agrees.ofExcept_bind (ne_tooDeep_of_fails (fails_require name true)) fun _ _ ↦
    .of_ok rfl (.of_marks rfl rfl)

theorem agrees_dataUri (site : Site) (v : Viewpoint) (name : String) (s : Session) :
    Agrees (dataUri site v name) (dataUri site v name) s := by
  refine Agrees.ofExcept_bind (ne_tooDeep_of_fails (fails_requireFile name)) fun found _ ↦ ?_
  have hcounted : Agrees (addDependency found) (addDependency found) s :=
    .of_ok rfl (.of_marks rfl rfl)
  refine hcounted.bind fun _ _ _ ↦ Agrees.ofExcept_bind (orFail_ne_tooDeep _) fun _ _ ↦ .pure _

theorem agrees_noteField (site : Site) (path : Path) (field : NoteField) (s : Session) :
    Agrees (noteField site (some ⟨some path⟩) field) (noteField site (some ⟨some path⟩) field) s := by
  cases field with
  | text text => exact .pure _
  | currentName => exact .pure _
  | dataUri name => exact (agrees_dataUri site ⟨some path⟩ name s).bind fun _ _ _ ↦ .pure _
  | contentType name =>
    exact Agrees.ofExcept_bind (ne_tooDeep_of_fails (fails_requireFile name)) fun _ _ ↦ .pure _

theorem agrees_fulfil (hs : site.IsProper)
    (heval : AgreeBelow site s.chain eval eval') (hat : IsAt site path s)
    (hmarked : ∀ p ∈ s.chain, s.marks.get? p = some .inProgress) (request : Request) :
    Agrees (fulfil eval site (some ⟨some path⟩) request)
      (fulfil eval' site (some ⟨some path⟩) request) s := by
  cases request with
  | require name => exact agrees_requireAsset hs heval hat hmarked name
  | dependOn name => exact agrees_dependOn site ⟨some path⟩ name s
  | requireTree name => exact agrees_requireTree hs heval hat hmarked name
  | note fields =>
    refine Agrees.bind (Agrees.mapM fun field _ t _ ↦ agrees_noteField site path field t)
      fun _ _ _ ↦ ?_
    exact .of_ok rfl (.of_marks rfl rfl)

theorem agrees_runDirectives (hs : site.IsProper)
    (heval : AgreeBelow site s.chain eval eval') (hat : IsAt site path s)
    (hmarked : ∀ p ∈ s.chain, s.marks.get? p = some .inProgress) (own : Option DirectiveTable)
    (data : String) :
    Agrees (runDirectives eval site (some ⟨some path⟩) own (some path) data)
      (runDirectives eval' site (some ⟨some path⟩) own (some path) data) s := by
  refine Agrees.ofExcept_bind (ne_tooDeep_of_fails (fails_parse site _)) fun parsed _ ↦ ?_
  refine Agrees.bind (Agrees.forM fun d _ t ht ↦ ?_) fun _ _ _ ↦ .pure _
  refine Agrees.ofExcept_bind (ne_tooDeep_of_fails (fails_requests site _ d)) fun requests _ ↦ ?_
  have hlogged : Agrees (logDirective (some path) d) (logDirective (some path) d) t :=
    .of_ok rfl (.of_marks rfl rfl)
  refine hlogged.bind fun _ w hw ↦ Agrees.forM fun request _ u hu ↦ ?_
  have hkept := (ht.trans hw).trans hu
  refine agrees_fulfil hs (hkept.chain ▸ heval) (hat.kept hkept) (fun p hp ↦ ?_) request
  exact (hkept.inProgress p).2 (hmarked p (hkept.chain ▸ hp))

theorem checkTable_ne_tooDeep (spec : Spec) (own : Option DirectiveTable) (source : Option Path)
    (data : String) : FailsOnly (· ≠ .nestedTooDeep) (checkTable spec own source data) := by
  unfold checkTable
  split
  · refine ((reported_parse source _).mono ?_).bind fun parsed ↦ ?_
    · rintro _ hreported rfl
      cases hreported
    split
    · exact .ok ()
    · exact .error Failure.noConfusion
  · exact .ok ()

theorem agrees_expandImport (hs : site.IsProper) (heval : AgreeBelow site s.chain eval eval')
    (hat : IsAt site path s) (name : String) (source : List Char) :
    Agrees (expandImport eval site ⟨some path⟩ name source)
      (expandImport eval' site ⟨some path⟩ name source) s := by
  refine Agrees.ofExcept_bind (orFail_ne_tooDeep _) fun found? hfound ↦ ?_
  cases found? with
  | none => exact .pure source
  | some found =>
    refine Agrees.ofExcept_bind (orFail_ne_tooDeep _) fun isFile _ ↦ ?_
    cases isFile with
    | false => exact .pure source
    | true =>
      refine Agrees.get_bind ?_
      by_cases hchain : s.chain.contains found = true
      · rw [if_pos hchain, if_pos hchain]
        exact .of_eq (r := .error (.circular (s.chain ++ [found])) s) rfl rfl
          ⟨fun _ h ↦ h, Failure.noConfusion⟩
      · rw [if_neg hchain, if_neg hchain]
        refine (agrees_dependOn site ⟨some path⟩ found.text s).bind fun _ t ht ↦ ?_
        have hnew : found ∉ t.chain := by
          rw [ht.chain, ← List.contains_iff_mem]
          exact hchain
        have hcanonical := Viewpoint.isCanonical_of_resolve hs hat.isProper hfound
        exact (heval _ found _ t ht.chain ((hat.kept ht).enters_import hcanonical hnew)).bind
          fun _ _ _ ↦ .pure _

theorem agrees_expandImports (hs : site.IsProper) (heval : AgreeBelow site s.chain eval eval')
    (hat : IsAt site path s) (data : String) :
    Agrees (expandImports eval site ⟨some path⟩ data)
      (expandImports eval' site ⟨some path⟩ data) s := by
  refine Agrees.bind (Agrees.mapM fun piece _ t ht ↦ ?_) fun _ _ _ ↦ .pure _
  cases piece with
  | plain c => exact .pure [c]
  | found name source => exact agrees_expandImport hs (ht.chain ▸ heval) (hat.kept ht) name source

theorem agrees_compileNested (packages : Packages) (minified : Bool) (path : Path) (data : String)
    (s : Session) : Agrees (compileNested packages minified (some path) data)
      (compileNested packages minified (some path) data) s := by
  unfold compileNested
  by_cases hext : (extensionsOf path.name).contains nestedExtension = true
  · simp only [if_pos hext]
    cases packages.compileNested minified data with
    | none => exact .of_error (e := .notCompiled path) rfl Failure.noConfusion
    | some text => exact .pure text
  · simp only [if_neg hext]
    exact .pure data

theorem agrees_fragmentText (site : Site) (path : Path) (fragment : Fragment) (s : Session) :
    Agrees (fragmentText site (some ⟨some path⟩) fragment)
      (fragmentText site (some ⟨some path⟩) fragment) s := by
  cases fragment with
  | text text => exact .pure text
  | dataUri name => exact agrees_dataUri site ⟨some path⟩ name s
  | raised e => exact .of_error (e := e.1) rfl e.2

/-- A processor does the same with evaluators that agree below the chain. -/
theorem agrees_runSpec (hs : site.IsProper)
    (heval : AgreeBelow site s.chain eval eval') (hat : IsAt site path s) {spec : Spec}
    (hspec : MayRun s.chain s spec) (data : String) :
    Agrees (runSpec eval site (some ⟨some path⟩) (some path) spec data)
      (runSpec eval' site (some ⟨some path⟩) (some path) spec data) s := by
  have hmarked : spec.processor.step ≠ .expandImports →
      ∀ p ∈ s.chain, s.marks.get? p = some .inProgress := hspec.resolve_left
  unfold runSpec
  cases hstep : spec.processor.step with
  | directives own =>
    refine Agrees.ofExcept_bind (checkTable_ne_tooDeep spec own (some path) data) fun _ _ ↦ ?_
    exact agrees_runDirectives hs heval hat (hmarked (hstep ▸ Step.noConfusion)) own data
  | expandImports => exact agrees_expandImports hs heval hat data
  | custom run =>
    refine Agrees.bind (Agrees.mapM fun fragment _ t _ ↦ ?_) fun _ _ _ ↦ .pure _
    exact agrees_fragmentText site path fragment t
  | keep => exact .pure _
  | terminateScript => exact .pure _
  | compactStylesheet => exact .pure _
  | compactScript => exact .pure _
  | publishReferences => exact .pure _
  | compileNested => exact agrees_compileNested _ _ path data s
  | callOption => exact .of_error (e := .notFunction) rfl Failure.noConfusion

end Processors

/-! ## Depth -/

/-- What is done around the processors does nothing where they run in a build. -/
def IsTransparent (site : Site) (around : Around) : Prop :=
  ∀ path spec data run s, IsAt site path s → Settles s (run s) → around path spec data run s = run s

section Depth

variable {site : Site} {around : Around}

theorem readBytes_of_contentOf {v : Viewpoint} {path : Path} {data : String}
    (h : contentOf site v path none = .ok data) : ∃ bytes, site.disk.readBytes path = .ok bytes :=
  Disk.readBytes_of_readText (readText_of_contentOf h)

theorem length_chain_le (htop : site.disk.top.isFolder = true) {path : Path} {specs : List Spec}
    {s : Session} (h : Enters site path specs s) : s.chain.length ≤ site.disk.fileCount :=
  Disk.length_le_fileCount_of_isFolder htop (List.nodup_append.1 h.nests.nodup).1
    (List.forall_mem_append.1 h.nests.canonical).1 h.files

/-- An evaluation that is watched by something transparent is the evaluation itself, as long as there
are more levels left than files that are not on the chain. -/
theorem agrees_evaluateThrough (hs : site.IsProper) (htop : site.disk.top.isFolder = true)
    (haround : IsTransparent site around) (depth depth' : Nat) {v : Viewpoint} {path : Path}
    {content : Option String} {specs : List Spec} {s : Session}
    (hcontent : ∀ data, contentOf site v path content = .ok data →
      ∃ bytes, site.disk.readBytes path = .ok bytes)
    (henters : Enters site path specs s)
    (hdepth : site.disk.fileCount < depth + s.chain.length)
    (hdepth' : site.disk.fileCount < depth' + s.chain.length) :
    Agrees (evaluateThrough around site depth v path content specs)
      (evaluateWithin site depth' v path content specs) s := by
  induction depth generalizing depth' v path content specs s with
  | zero =>
    have hlength := length_chain_le htop henters
    omega
  | succ depth ih =>
    cases depth' with
    | zero =>
      have hlength := length_chain_le htop henters
      omega
    | succ depth' =>
      refine Agrees.ofExcept_bind (ne_tooDeep_of_fails (fails_contentOf path content)) fun data hdata ↦ ?_
      obtain ⟨bytes, hbytes⟩ := hcontent data hdata
      refine Agrees.nested (Agrees.foldlM fun spec hspec data t ht ↦ ?_)
      have hat := (henters.isAt hbytes).kept ht
      have hchain : t.chain = s.chain ++ [path] := ht.chain
      have hbelow : AgreeBelow site t.chain (evaluateThrough around site depth)
          (evaluateWithin site depth') := by
        intro w k others u hu hentersu
        have hlength : u.chain.length = s.chain.length + 1 := by
          rw [hu, hchain, List.length_append, List.length_singleton]
        exact ih depth' (fun _ hread ↦ readBytes_of_contentOf hread) hentersu (by omega) (by omega)
      have hmayRun : MayRun t.chain t spec := by
        rw [hchain]
        exact MayRun.of_kept (s := entered path s) (henters.mayRun spec hspec) ht
      have hrun := agrees_runSpec hs hbelow hat hmayRun data
      have hplain := haround path spec data (runSpec (evaluateThrough around site depth) site
        (some ⟨some path⟩) (some path) spec data) t hat (hrun.same ▸ hrun.settles)
      exact ⟨hplain.trans hrun.same, hrun.settles⟩

theorem watch_isTransparent (htop : site.disk.top.isFolder = true) (alarm : Failure) :
    IsTransparent site (watch alarm (IsNested site) KeepsDone) :=
  fun _ _ _ _ _ hat hsettles ↦ if_pos ⟨hat.isNested htop, hsettles.keepsDone⟩

theorem enters_forAsset {path : Path} (hpath : path.IsCanonical) :
    Enters site path (chainOf site path) (forAsset path) where
  nests := by
    refine ⟨List.nodup_singleton path, List.forall_mem_singleton.2 hpath, fun p hp ↦ ?_⟩
    rw [get?_marks_forAsset] at hp
    by_cases h : path = p
    · exact List.mem_singleton.2 h.symm
    · rw [if_neg h] at hp
      cases hp
  files := List.forall_mem_nil _
  mayRun spec hspec := by
    refine .inr (List.forall_mem_singleton.2 ?_)
    rw [get?_marks_forAsset, if_pos rfl]

end Depth

end Session

namespace Site

open AssetBundler.Session

/-- A build of the file at a path with something done around every run of a processor, and with room for
so many evaluations inside each other. -/
def buildThrough (around : Around) (depth : Nat) (site : Site) (path : Path) :
    EStateM.Result Failure Session String :=
  (do
    let text ← Session.ofExcept (site.disk.readText path)
    evaluateThrough around site depth ⟨some path⟩ path (some text) (chainOf site path) :
    Session.Action String) (forAsset path)

theorem agrees_buildThrough {site : Site} (hs : site.IsProper)
    (htop : site.disk.top.isFolder = true) {around : Around} (haround : IsTransparent site around)
    {depth : Nat} (hdepth : site.disk.fileCount < depth) {path : Path} (hpath : path.IsCanonical) :
    site.buildThrough around depth path = site.build path ∧
      Settles (forAsset path) (site.build path) := by
  have hagrees : Agrees (do
        let text ← Session.ofExcept (site.disk.readText path)
        evaluateThrough around site depth ⟨some path⟩ path (some text) (chainOf site path))
      (Asset.evaluation site path (chainOf site path)) (forAsset path) := by
    refine Agrees.ofExcept_bind (readText_ne_tooDeep _ _) fun text htext ↦ ?_
    refine agrees_evaluateThrough hs htop haround depth (depthBound site)
      (fun _ _ ↦ Disk.readBytes_of_readText htext) (enters_forAsset hpath)
      (Nat.lt_add_right _ hdepth) ?_
    unfold depthBound
    omega
  exact ⟨hagrees.same, hagrees.settles⟩

end Site

namespace Session

open AssetBundler.Action

/-- A stylesheet that requires another one; both import a third, which one of them counts as well. -/
def gallery : Site :=
  Site.sample "local" [
    ("main.css", .file "/*= require list */\n@import \"sizes.css\";\nmain;\n".toUTF8 1),
    ("list.css", .file "/*= depend_on sizes */\n@import \"./sizes.css\";\nlist;\n".toUTF8 1),
    ("sizes.css", .file "sizes;\n".toUTF8 1)] []

/-- The alarm goes off where the chain is longer than a watch allows. -/
example : result? (gallery.buildThrough (watch .noSession (fun s ↦ s.chain.length ≤ 1) KeepsDone) 4
    (.absolute ["src", "main.css"])) = none := by decide +kernel

end Session

end AssetBundler
