import Mathlib.Data.List.Basic
import Mathlib.Logic.Relation

/-!
# Depth-first post-order

`Postorder kids before todo after` says that a depth-first search which has finished the vertices
`before` and then visits the vertices `todo` in order has finished the vertices `after`, in this order.
A vertex is finished after the vertices it leads to. Main statements: the order is determined, each new
vertex stands behind everything it leads to, and a graph searched to the end has no cycle.
-/

namespace AssetBundler

inductive Postorder {α : Type} (kids : α → List α → Prop) : List α → List α → List α → Prop where
  | nil (before : List α) : Postorder kids before [] before
  | seen {p : α} {before todo after : List α} (hseen : p ∈ before)
      (hrest : Postorder kids before todo after) : Postorder kids before (p :: todo) after
  | visit {p : α} {ks before below todo after : List α} (hnew : p ∉ before) (hkids : kids p ks)
      (hbelow : Postorder kids before ks below)
      (hrest : Postorder kids (below ++ [p]) todo after) : Postorder kids before (p :: todo) after

namespace Postorder

variable {α : Type} {kids : α → List α → Prop} {before todo middle after : List α}

theorem extends_before (h : Postorder kids before todo after) : before <+: after := by
  induction h with
  | nil before => exact List.prefix_refl before
  | seen _ _ ih => exact ih
  | visit _ _ _ _ ihbelow ihrest =>
    exact ihbelow.trans ((List.prefix_append ..).trans ihrest)

/-- Everything that was to be visited is finished. -/
theorem mem_of_mem_todo (h : Postorder kids before todo after) {p : α} (hp : p ∈ todo) :
    p ∈ after := by
  induction h with
  | nil before => exact absurd hp List.not_mem_nil
  | seen hseen hrest ih =>
    rcases List.mem_cons.1 hp with rfl | hp
    · exact hrest.extends_before.subset hseen
    · exact ih hp
  | visit _ _ _ hrest _ ihrest =>
    rcases List.mem_cons.1 hp with rfl | hp
    · exact hrest.extends_before.subset (List.mem_append_right _ (List.mem_singleton_self p))
    · exact ihrest hp

/-- Each vertex that is new stands behind all vertices it leads to. -/
theorem kids_precede (h : Postorder kids before todo after) {p : α} (hp : p ∈ after) :
    p ∈ before ∨
      ∃ front back ks, after = front ++ p :: back ∧ kids p ks ∧ ∀ k ∈ ks, k ∈ front := by
  induction h with
  | nil before => exact .inl hp
  | seen _ _ ih => exact ih hp
  | @visit q ks before below todo after hnew hkids hbelow hrest ihbelow ihrest =>
    obtain ⟨back, hback⟩ := hrest.extends_before
    rcases ihrest hp with hmem | hright
    · rcases List.mem_append.1 hmem with hmem | hmem
      · rcases ihbelow hmem with hleft | ⟨front, rest, ls, hbelow_eq, hls, hfront⟩
        · exact .inl hleft
        · right
          refine ⟨front, rest ++ [q] ++ back, ls, ?_, hls, hfront⟩
          rw [← hback, hbelow_eq]
          simp
      · right
        rw [List.mem_singleton.1 hmem]
        refine ⟨below, back, ks, ?_, hkids, fun k hk ↦ hbelow.mem_of_mem_todo hk⟩
        rw [← hback]
        simp
    · exact .inr hright

/-- What follows the vertices from before is determined if each vertex leads to one list. -/
theorem unique (h : Postorder kids before todo middle) (h' : Postorder kids before todo after)
    (hkids : ∀ p ks ls, kids p ks → kids p ls → ks = ls) : middle = after := by
  induction h generalizing after with
  | nil before =>
    cases h'
    rfl
  | seen hseen _ ih =>
    cases h' with
    | seen _ hrest => exact ih hrest
    | visit hnew => exact absurd hseen hnew
  | visit hnew hk _ _ ihbelow ihrest =>
    cases h' with
    | seen hseen _ => exact absurd hseen hnew
    | visit _ hk' hbelow hrest =>
      rw [hkids _ _ _ hk hk'] at ihbelow
      have hsame := ihbelow hbelow
      rw [← hsame] at hrest
      exact ihrest hrest

/-- Every new vertex is reached from what was to be visited. -/
theorem reached (h : Postorder kids before todo after) {p : α} (hp : p ∈ after) :
    p ∈ before ∨
      ∃ q ∈ todo, Relation.ReflTransGen (fun u v ↦ ∃ ks, kids u ks ∧ v ∈ ks) q p := by
  induction h with
  | nil before => exact .inl hp
  | seen _ _ ih =>
    rcases ih hp with hleft | ⟨q, hq, hreach⟩
    · exact .inl hleft
    · exact .inr ⟨q, List.mem_cons_of_mem _ hq, hreach⟩
  | @visit q ks before below todo after hnew hkids _ _ ihbelow ihrest =>
    rcases ihrest hp with hmem | ⟨r, hr, hreach⟩
    · rcases List.mem_append.1 hmem with hmem | hmem
      · rcases ihbelow hmem with hleft | ⟨k, hk, hreach⟩
        · exact .inl hleft
        · exact .inr ⟨q, List.mem_cons_self .., .head ⟨ks, hkids, hk⟩ hreach⟩
      · rw [List.mem_singleton.1 hmem]
        exact .inr ⟨q, List.mem_cons_self .., .refl⟩
    · exact .inr ⟨r, List.mem_cons_of_mem _ hr, hreach⟩

/-- Where each vertex leads to one list and no vertex is finished twice, an edge leads to an earlier
place of the order. -/
theorem idxOf_lt [DecidableEq α] (h : Postorder kids [] todo after)
    (hkids : ∀ p ks ls, kids p ks → kids p ls → ks = ls) (hnodup : after.Nodup) {p k : α}
    (hp : p ∈ after)
    (hk : ∃ ks, kids p ks ∧ k ∈ ks) : after.idxOf k < after.idxOf p := by
  rcases h.kids_precede hp with hnil | ⟨front, back, ks, rfl, hks, hfront⟩
  · exact absurd hnil List.not_mem_nil
  · obtain ⟨ls, hls, hk⟩ := hk
    have hmem : k ∈ front := hfront k (hkids _ _ _ hls hks ▸ hk)
    have hnot : p ∉ front := by
      intro hfront
      rw [List.nodup_append] at hnodup
      exact hnodup.2.2 p hfront p (List.mem_cons_self ..) rfl
    rw [List.idxOf_append_of_mem hmem, List.idxOf_append_of_notMem hnot, List.idxOf_cons_self]
    have hlt := List.idxOf_lt_length_iff.2 hmem
    omega

end Postorder

/-- In an order in which every edge leads to an earlier place no vertex lies on a cycle. -/
theorem acyclic_of_order {α : Type} [DecidableEq α] {edge : α → α → Prop} {root : α}
    {order : List α} (hroot : root ∈ order)
    (hedge : ∀ p ∈ order, ∀ k, edge p k → order.idxOf k < order.idxOf p)
    {p : α} (hp : Relation.ReflTransGen edge root p) : ¬ Relation.TransGen edge p p := by
  have hstep : ∀ {p k}, p ∈ order → edge p k → k ∈ order := fun hp hk ↦
    List.idxOf_lt_length_iff.1 (Nat.lt_of_lt_of_le (hedge _ hp _ hk) List.idxOf_le_length)
  have hmem : p ∈ order := by
    induction hp with
    | refl => exact hroot
    | tail _ hk ih => exact hstep ih hk
  have hdescend : ∀ k, Relation.TransGen edge p k →
      k ∈ order ∧ order.idxOf k < order.idxOf p := by
    intro k hk
    induction hk with
    | single hk => exact ⟨hstep hmem hk, hedge _ hmem _ hk⟩
    | tail _ hk ih => exact ⟨hstep ih.1 hk, Nat.lt_trans (hedge _ ih.1 _ hk) ih.2⟩
  intro hcycle
  exact Nat.lt_irrefl _ (hdescend p hcycle).2

end AssetBundler
