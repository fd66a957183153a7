import AssetBundler.Proofs.Action

/-!
# Runs over a list

A run takes one step for each element of a list, each from the state that the step before leaves, and has one
result for each element. The action that does a list of actions in order returns in the runs of steps that
return (`Action.mapM_eq_ok_iff`). A run along which an invariant is kept can be described by other steps
(`Action.Runs.imp`), and if every step is possible under the invariant there is a run (`Action.exists_runs`).
-/

namespace AssetBundler

namespace Action

variable {ε σ α β : Type} {P Q R : α → β → σ → σ → Prop} {I : σ → Prop} {xs : List α} {bs : List β} {s t : σ}

/-- One step for each element, each from the state that the step before leaves. -/
inductive Runs (P : α → β → σ → σ → Prop) : List α → List β → σ → σ → Prop where
  | nil (s : σ) : Runs P [] [] s s
  | cons {x : α} {b : β} {xs : List α} {bs : List β} {s t u : σ} (hfirst : P x b s t)
    (hrest : Runs P xs bs t u) : Runs P (x :: xs) (b :: bs) s u

theorem mapM_eq_ok_iff {f : α → EStateM ε σ β} :
    xs.mapM f s = .ok bs t ↔ Runs (fun x b s t ↦ f x s = .ok b t) xs bs s t := by
  constructor
  · intro h
    induction xs generalizing bs s with
    | nil =>
      cases h
      exact .nil _
    | cons x xs ih =>
      rw [List.mapM_cons] at h
      obtain ⟨b, u, hfirst, h⟩ := bind_eq_ok.1 h
      obtain ⟨bs, v, hrest, h⟩ := bind_eq_ok.1 h
      cases h
      exact .cons hfirst (ih hrest)
  · intro h
    induction h with
    | nil => rfl
    | cons hfirst _ ih =>
      rw [List.mapM_cons, bind_of_ok hfirst, bind_of_ok ih]
      rfl

/-- Steps from states with an invariant, described in another way. -/
theorem Runs.imp (h : Runs P xs bs s t)
    (hstep : ∀ x ∈ xs, ∀ b s t, I s → P x b s t → Q x b s t ∧ I t) (hs : I s) :
    Runs Q xs bs s t ∧ I t := by
  induction h with
  | nil s => exact ⟨.nil s, hs⟩
  | cons hfirst _ ih =>
    obtain ⟨hother, ht⟩ := hstep _ List.mem_cons_self _ _ _ hs hfirst
    obtain ⟨hrest, hu⟩ := ih (fun x hx ↦ hstep x (List.mem_cons_of_mem _ hx)) ht
    exact ⟨.cons hother hrest, hu⟩

theorem Runs.mono (h : Runs P xs bs s t) (hstep : ∀ x b s t, P x b s t → Q x b s t) : Runs Q xs bs s t :=
  (h.imp (I := fun _ ↦ True) (fun x _ b s t _ hP ↦ ⟨hstep x b s t hP, trivial⟩) trivial).1

/-- Two runs with the same results are one if steps with the same result lead to the same state. -/
theorem Runs.and {u : σ} (h : Runs P xs bs s t) (h' : Runs Q xs bs s u)
    (hsame : ∀ x b s t u, P x b s t → Q x b s u → t = u ∧ R x b s t) : t = u ∧ Runs R xs bs s t := by
  induction h with
  | nil s =>
    cases h'
    exact ⟨rfl, .nil _⟩
  | cons hfirst _ ih =>
    cases h' with
    | cons hfirst' hrest' =>
      obtain ⟨rfl, hboth⟩ := hsame _ _ _ _ _ hfirst hfirst'
      obtain ⟨rfl, hrest⟩ := ih hrest'
      exact ⟨rfl, .cons hboth hrest⟩

theorem Runs.map_eq (h : Runs P xs bs s t) {f : β → α} (hstep : ∀ x b s t, P x b s t → f b = x) :
    bs.map f = xs := by
  induction h with
  | nil _ => rfl
  | cons hfirst _ ih => rw [List.map_cons, hstep _ _ _ _ hfirst, ih]

/-- A run whose results are determined by the elements. -/
theorem Runs.eq_map (h : Runs P xs bs s t) {f : α → β} (hstep : ∀ x b s t, P x b s t → b = f x) :
    bs = xs.map f := by
  induction h with
  | nil _ => rfl
  | cons hfirst _ ih => rw [List.map_cons, hstep _ _ _ _ hfirst, ih]

/-- There is a run if each of its steps is possible from a state with the invariant. -/
theorem exists_runs (hstep : ∀ x ∈ xs, ∀ s, I s → ∃ b t, P x b s t ∧ I t) (hs : I s) :
    ∃ bs t, Runs P xs bs s t ∧ I t := by
  induction xs generalizing s with
  | nil => exact ⟨[], s, .nil s, hs⟩
  | cons x xs ih =>
    obtain ⟨b, t, hfirst, ht⟩ := hstep x List.mem_cons_self s hs
    obtain ⟨bs, u, hrest, hu⟩ := ih (fun y hy ↦ hstep y (List.mem_cons_of_mem _ hy)) ht
    exact ⟨b :: bs, u, .cons hfirst hrest, hu⟩

end Action

end AssetBundler
