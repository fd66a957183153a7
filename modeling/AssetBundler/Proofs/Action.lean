import Mathlib.Order.Defs.Unbundled

/-!
# State actions that can fail

How a sequence of actions succeeds and how it fails, and what an action does to the state whether it
fails or not. An action moves along a relation if every state is related to the one that the action
leaves; for a reflexive and transitive relation this is preserved by sequencing and by recovery from
failures.
-/

namespace AssetBundler.Action

variable {ε σ α β : Type}

theorem except_bind_eq_ok {x : Except ε α} {f : α → Except ε β} {b : β} :
    (x >>= f) = .ok b ↔ ∃ a, x = .ok a ∧ f a = .ok b := by
  cases x with
  | ok a =>
    constructor
    · exact fun h ↦ ⟨a, rfl, h⟩
    · rintro ⟨_, ⟨⟩, h⟩
      exact h
  | error e =>
    constructor
    · intro h
      cases h
    · rintro ⟨_, h, _⟩
      cases h

theorem eq_ok_of_toOption {x : Except ε α} {a : α} (h : x.toOption = some a) : x = .ok a := by
  cases x with
  | ok b => rw [Option.some.inj h]
  | error e => cases h

/-- What every step preserves holds of what is made of all steps. -/
theorem except_foldlM_preserves {P : β → Prop} {f : β → α → Except ε β} {xs : List α}
    (hf : ∀ b c, ∀ x ∈ xs, P b → f b x = .ok c → P c) {b c : β} (hb : P b)
    (h : xs.foldlM f b = .ok c) : P c := by
  induction xs generalizing b with
  | nil =>
    cases h
    exact hb
  | cons x xs ih =>
    rw [List.foldlM_cons] at h
    obtain ⟨next, hnext, hrest⟩ := except_bind_eq_ok.1 h
    refine ih (fun b c y hy ↦ hf b c y (List.mem_cons_of_mem _ hy)) ?_ hrest
    exact hf b next x (List.mem_cons_self ..) hb hnext

/-- A question that fails in one kind of way only. -/
def FailsOnly (P : ε → Prop) (x : Except ε α) : Prop := ∀ e, x = .error e → P e

namespace FailsOnly

variable {P : ε → Prop}

protected theorem ok (a : α) : FailsOnly P (.ok a : Except ε α) := by
  rintro e ⟨⟩

protected theorem error {e : ε} (h : P e) : FailsOnly P (.error e : Except ε α) := by
  rintro _ ⟨⟩
  exact h

theorem mono {Q : ε → Prop} {x : Except ε α} (h : FailsOnly P x) (hPQ : ∀ e, P e → Q e) :
    FailsOnly Q x := fun e hx ↦ hPQ e (h e hx)

theorem bind_of_eq_ok {x : Except ε α} {f : α → Except ε β} (hx : FailsOnly P x)
    (hf : ∀ a, x = .ok a → FailsOnly P (f a)) : FailsOnly P (x >>= f) := by
  cases x with
  | ok a => exact hf a rfl
  | error e => exact FailsOnly.error (hx e rfl)

theorem bind {x : Except ε α} {f : α → Except ε β} (hx : FailsOnly P x)
    (hf : ∀ a, FailsOnly P (f a)) : FailsOnly P (x >>= f) := hx.bind_of_eq_ok fun a _ ↦ hf a

theorem foldlM {f : β → α → Except ε β} {xs : List α} (h : ∀ b, ∀ x ∈ xs, FailsOnly P (f b x))
    (b : β) : FailsOnly P (xs.foldlM f b) := by
  induction xs generalizing b with
  | nil => exact FailsOnly.ok b
  | cons x xs ih =>
    rw [List.foldlM_cons]
    refine (h b x (List.mem_cons_self ..)).bind fun c ↦ ?_
    exact ih (fun b y hy ↦ h b y (List.mem_cons_of_mem _ hy)) c

end FailsOnly

theorem bind_eq_ok {x : EStateM ε σ α} {f : α → EStateM ε σ β} {s t : σ} {b : β} :
    (x >>= f) s = .ok b t ↔ ∃ a u, x s = .ok a u ∧ f a u = .ok b t := by
  change EStateM.bind x f s = .ok b t ↔ _
  unfold EStateM.bind
  cases h : x s with
  | ok a u =>
    constructor
    · exact fun hf ↦ ⟨a, u, rfl, hf⟩
    · rintro ⟨_, _, ⟨⟩, hf⟩
      exact hf
  | error e u => simp

theorem bind_eq_error {x : EStateM ε σ α} {f : α → EStateM ε σ β} {s t : σ} {e : ε} :
    (x >>= f) s = .error e t ↔
      x s = .error e t ∨ ∃ a u, x s = .ok a u ∧ f a u = .error e t := by
  change EStateM.bind x f s = .error e t ↔ _
  unfold EStateM.bind
  cases h : x s with
  | ok a u =>
    constructor
    · exact fun hf ↦ .inr ⟨a, u, rfl, hf⟩
    · rintro (hx | ⟨_, _, ⟨⟩, hf⟩)
      · cases hx
      · exact hf
  | error e u => simp

theorem bind_of_ok {x : EStateM ε σ α} {f : α → EStateM ε σ β} {s u : σ} {a : α}
    (h : x s = .ok a u) : (x >>= f) s = f a u := by
  change EStateM.bind x f s = _
  unfold EStateM.bind
  rw [h]

theorem bind_of_error {x : EStateM ε σ α} {f : α → EStateM ε σ β} {s u : σ} {e : ε}
    (h : x s = .error e u) : (x >>= f) s = .error e u := by
  change EStateM.bind x f s = _
  unfold EStateM.bind
  rw [h]

/-- A sequence sees of the first state only what its first action makes of it. -/
theorem bind_congr {x : EStateM ε σ α} {f : α → EStateM ε σ β} {s t : σ} (h : x s = x t) :
    (x >>= f) s = (x >>= f) t := by
  change EStateM.bind x f s = EStateM.bind x f t
  unfold EStateM.bind
  rw [h]

@[simp] theorem pure_apply (a : α) (s : σ) : (pure a : EStateM ε σ α) s = .ok a s := rfl

@[simp] theorem throw_apply (e : ε) (s : σ) : (throw e : EStateM ε σ α) s = .error e s := rfl

@[simp] theorem get_apply (s : σ) : (get : EStateM ε σ σ) s = .ok s s := rfl

@[simp] theorem set_apply (t s : σ) : (set t : EStateM ε σ PUnit) s = .ok ⟨⟩ t := rfl

@[simp] theorem modify_apply (f : σ → σ) (s : σ) :
    (modify f : EStateM ε σ PUnit) s = .ok ⟨⟩ (f s) := rfl

/-- An action that fails in one kind of way only. -/
def RaisesOnly (P : ε → Prop) (x : EStateM ε σ α) : Prop := ∀ s e t, x s = .error e t → P e

namespace RaisesOnly

variable {P : ε → Prop}

protected theorem pure (a : α) : RaisesOnly P (pure a : EStateM ε σ α) := by
  rintro s e t ⟨⟩

protected theorem throw {e : ε} (h : P e) : RaisesOnly P (throw e : EStateM ε σ α) := by
  rintro s _ t ⟨⟩
  exact h

protected theorem get : RaisesOnly P (get : EStateM ε σ σ) := by
  rintro s e t ⟨⟩

protected theorem modify (f : σ → σ) : RaisesOnly P (modify f : EStateM ε σ PUnit) := by
  rintro s e t ⟨⟩

theorem bind {x : EStateM ε σ α} {f : α → EStateM ε σ β} (hx : RaisesOnly P x)
    (hf : ∀ a, RaisesOnly P (f a)) : RaisesOnly P (x >>= f) := by
  intro s e t h
  rcases bind_eq_error.1 h with hfails | ⟨a, u, -, hfails⟩
  · exact hx s e t hfails
  · exact hf a u e t hfails

theorem forM {f : α → EStateM ε σ PUnit} {xs : List α} (h : ∀ x ∈ xs, RaisesOnly P (f x)) :
    RaisesOnly P (xs.forM f) := by
  induction xs with
  | nil => exact RaisesOnly.pure _
  | cons x xs ih =>
    refine (h x (List.mem_cons_self ..)).bind fun _ ↦ ih fun y hy ↦ ?_
    exact h y (List.mem_cons_of_mem _ hy)

theorem mapM {f : α → EStateM ε σ β} {xs : List α} (h : ∀ x ∈ xs, RaisesOnly P (f x)) :
    RaisesOnly P (xs.mapM f) := by
  induction xs with
  | nil => exact RaisesOnly.pure _
  | cons x xs ih =>
    rw [List.mapM_cons]
    refine (h x (List.mem_cons_self ..)).bind fun _ ↦ ?_
    exact (ih fun y hy ↦ h y (List.mem_cons_of_mem _ hy)).bind fun _ ↦ RaisesOnly.pure _

theorem foldlM {f : β → α → EStateM ε σ β} {xs : List α} (h : ∀ b, ∀ x ∈ xs, RaisesOnly P (f b x))
    (b : β) : RaisesOnly P (xs.foldlM f b) := by
  induction xs generalizing b with
  | nil => exact RaisesOnly.pure b
  | cons x xs ih =>
    rw [List.foldlM_cons]
    refine (h b x (List.mem_cons_self ..)).bind fun c ↦ ?_
    exact ih (fun b y hy ↦ h b y (List.mem_cons_of_mem _ hy)) c

end RaisesOnly

/-- The state that an action leaves. -/
def finalState : EStateM.Result ε σ α → σ
  | .ok _ s => s
  | .error _ s => s

@[simp] theorem finalState_ok (a : α) (s : σ) :
    finalState (.ok a s : EStateM.Result ε σ α) = s := rfl

@[simp] theorem finalState_error (e : ε) (s : σ) :
    finalState (.error e s : EStateM.Result ε σ α) = s := rfl

/-- What an action returns if it does not fail. -/
def result? : EStateM.Result ε σ α → Option α
  | .ok a _ => some a
  | .error .. => none

theorem eq_ok_of_result? {r : EStateM.Result ε σ α} {a : α} (h : result? r = some a) :
    r = .ok a (finalState r) := by
  cases r with
  | ok b s =>
    rw [Option.some.inj h]
    rfl
  | error e s => cases h

/-- What an action fails with. -/
def failure? : EStateM.Result ε σ α → Option ε
  | .ok .. => none
  | .error e _ => some e

theorem eq_error_of_failure? {r : EStateM.Result ε σ α} {e : ε} (h : failure? r = some e) :
    r = .error e (finalState r) := by
  cases r with
  | ok a s => cases h
  | error e' s =>
    rw [Option.some.inj h]
    rfl

def MovesAlong (R : σ → σ → Prop) (x : EStateM ε σ α) : Prop := ∀ s, R s (finalState (x s))

namespace MovesAlong

variable {R : σ → σ → Prop}

theorem ok {x : EStateM ε σ α} (h : MovesAlong R x) {s t : σ} {a : α} (hx : x s = .ok a t) :
    R s t := by
  have hs := h s
  rwa [hx] at hs

theorem error {x : EStateM ε σ α} (h : MovesAlong R x) {s t : σ} {e : ε}
    (hx : x s = .error e t) : R s t := by
  have hs := h s
  rwa [hx] at hs

theorem mono {S : σ → σ → Prop} {x : EStateM ε σ α} (h : MovesAlong R x)
    (hRS : ∀ s t, R s t → S s t) : MovesAlong S x := fun s ↦ hRS s _ (h s)

section Preorder

variable [IsPreorder σ R]

theorem of_stays {x : EStateM ε σ α} (h : ∀ s, finalState (x s) = s) : MovesAlong R x := by
  intro s
  rw [h s]
  exact refl_of R s

protected theorem pure (a : α) : MovesAlong R (pure a : EStateM ε σ α) := of_stays fun _ ↦ rfl

protected theorem throw (e : ε) : MovesAlong R (throw e : EStateM ε σ α) := of_stays fun _ ↦ rfl

theorem bind {x : EStateM ε σ α} {f : α → EStateM ε σ β} (hx : MovesAlong R x)
    (hf : ∀ a, MovesAlong R (f a)) : MovesAlong R (x >>= f) := by
  intro s
  cases h : x s with
  | ok a t =>
    rw [bind_of_ok h]
    exact trans_of R (hx.ok h) (hf a t)
  | error e t =>
    rw [bind_of_error h]
    exact hx.error h

theorem tryCatch {x : EStateM ε σ α} {f : ε → EStateM ε σ α} (hx : MovesAlong R x)
    (hf : ∀ e, MovesAlong R (f e)) : MovesAlong R (tryCatch x f) := by
  intro s
  change R s (finalState (EStateM.tryCatch x f s))
  unfold EStateM.tryCatch
  cases h : x s with
  | ok a t => exact hx.ok h
  | error e t => exact trans_of R (hx.error h) (hf e t)

end Preorder

end MovesAlong

/-- From a state with `P` an action succeeds with `Q` or fails with `E`. -/
def Ensures (P : σ → Prop) (x : EStateM ε σ α) (Q : α → σ → Prop) (E : ε → σ → Prop) : Prop :=
  ∀ s, P s → match x s with
    | .ok a t => Q a t
    | .error e t => E e t

namespace Ensures

variable {P : σ → Prop} {Q : α → σ → Prop} {E : ε → σ → Prop}

theorem ok {x : EStateM ε σ α} (h : Ensures P x Q E) {s t : σ} {a : α} (hs : P s)
    (hx : x s = .ok a t) : Q a t := by
  have hafter := h s hs
  rwa [hx] at hafter

theorem error {x : EStateM ε σ α} (h : Ensures P x Q E) {s t : σ} {e : ε} (hs : P s)
    (hx : x s = .error e t) : E e t := by
  have hafter := h s hs
  rwa [hx] at hafter

theorem mono {P' : σ → Prop} {Q' : α → σ → Prop} {E' : ε → σ → Prop} {x : EStateM ε σ α}
    (h : Ensures P x Q E) (hP : ∀ s, P' s → P s) (hQ : ∀ a s, Q a s → Q' a s)
    (hE : ∀ e s, E e s → E' e s) : Ensures P' x Q' E' := by
  intro s hs
  cases hx : x s with
  | ok a t => exact hQ a t (h.ok (hP s hs) hx)
  | error e t => exact hE e t (h.error (hP s hs) hx)

theorem pre {P' : σ → Prop} {x : EStateM ε σ α} (h : Ensures P x Q E) (hP : ∀ s, P' s → P s) :
    Ensures P' x Q E := h.mono hP (fun _ _ hs ↦ hs) fun _ _ hs ↦ hs

theorem failing {E' : ε → σ → Prop} {x : EStateM ε σ α} (h : Ensures P x Q E)
    (hE : ∀ e s, E e s → E' e s) : Ensures P x Q E' := h.mono (fun _ hs ↦ hs) (fun _ _ hs ↦ hs) hE

protected theorem pure (a : α) (h : ∀ s, P s → Q a s) : Ensures P (pure a) Q E := h

theorem bind {x : EStateM ε σ α} {f : α → EStateM ε σ β} {R : β → σ → Prop} (hx : Ensures P x Q E)
    (hf : ∀ a, Ensures (Q a) (f a) R E) : Ensures P (x >>= f) R E := by
  intro s hs
  cases h : x s with
  | ok a t =>
    rw [bind_of_ok h]
    exact hf a t (hx.ok hs h)
  | error e t =>
    rw [bind_of_error h]
    exact hx.error hs h

/-- What is known of a state holds of the state that is asked for. -/
theorem get : Ensures P (get : EStateM ε σ σ) (fun s t ↦ t = s ∧ P t) E := fun _ hs ↦ ⟨rfl, hs⟩

/-- A condition on what has been made so far that each step preserves. -/
theorem mapM {I : List β → σ → Prop} {f : α → EStateM ε σ β} {xs : List α}
    (h : ∀ made, ∀ x ∈ xs, Ensures (I made) (f x) (fun b ↦ I (made ++ [b])) E) (made : List β) :
    Ensures (I made) (xs.mapM f) (fun bs ↦ I (made ++ bs)) E := by
  induction xs generalizing made with
  | nil =>
    rw [List.mapM_nil]
    refine Ensures.pure [] fun s hs ↦ ?_
    rwa [List.append_nil]
  | cons x xs ih =>
    rw [List.mapM_cons]
    refine bind (h made x (List.mem_cons_self ..)) fun b ↦ ?_
    refine bind (ih (fun made y hy ↦ h made y (List.mem_cons_of_mem _ hy)) (made ++ [b])) fun bs ↦ ?_
    refine Ensures.pure (b :: bs) fun s hs ↦ ?_
    rwa [List.append_assoc] at hs

end Ensures

end AssetBundler.Action
