import AssetBundler.Proofs.Disk.Clearing

/-!
# Properties of trees that changes keep

A property of nodes is heritable if files and empty folders have it, if a folder hands it down to its
entries, and if it is kept where an entry of some kind of name is rewritten. A disk whose tree has such a
property keeps it in every operation along paths of such names, whether that succeeds or fails. Main
statement: `Node.IsHeritable.writeText`, with one lemma for each other operation.
-/

namespace AssetBundler

open AssetBundler.Action

namespace Node

/-- Nothing or a node with a property is rewritten to nothing or a node with it. -/
def Keeps (P : Node → Prop) (f : Option Node → Option Node) : Prop :=
  ∀ m : Option Node, (∀ n ∈ m, P n) → ∀ n ∈ f m, P n

structure IsHeritable (isName : String → Prop) (P : Node → Prop) : Prop where
  file : ∀ bytes t, P (.file bytes t)
  empty : ∀ t, P (.folder t [])
  time : ∀ t u {entries}, P (.folder t entries) → P (.folder u entries)
  entry : ∀ {t entries}, P (.folder t entries) → ∀ name, ∀ n ∈ Entries.get? entries name, P n
  alter : ∀ {t entries f name}, P (.folder t entries) → Keeps P f → isName name →
    P (.folder t (Entries.alter name f entries))

variable {isName : String → Prop} {P : Node → Prop}

namespace IsHeritable

variable (h : IsHeritable isName P)

include h

theorem keeps_setTime (t : Nat) : Keeps P fun n ↦ n.map (setTime t) := by
  intro m hm n hn
  obtain ⟨⟨bytes, u⟩ | ⟨u, entries⟩, hold, rfl⟩ := Option.map_eq_some_iff.1 hn
  · exact h.file bytes t
  · exact h.time u t (hm _ hold)

theorem keeps_alter {f : Option Node → Option Node} (hf : Keeps P f) {place : List String}
    (hplace : ∀ name ∈ place, isName name) : Keeps P (Node.alter f place) := by
  induction place with
  | nil => exact hf
  | cons name place ih =>
    rw [List.forall_mem_cons] at hplace
    intro m hm
    match m with
    | none => exact hm
    | some (.file ..) => exact hm
    | some (.folder t entries) =>
      intro n hn
      rw [← Option.some.inj hn]
      exact h.alter (hm _ rfl) (ih hplace.2) hplace.1

theorem of_get? {n : Node} (hn : P n) (place : List String) : ∀ m ∈ get? place n, P m := by
  induction place generalizing n with
  | nil => exact fun m hm ↦ Option.some.inj hm ▸ hn
  | cons name place ih =>
    cases n with
    | file bytes t => exact fun _ hm ↦ nomatch hm
    | folder t entries =>
      intro m hm
      obtain ⟨child, hchild, hget⟩ := Option.bind_eq_some_iff.1 hm
      exact ih (h.entry hn name child hchild) m hget

end IsHeritable

theorem keeps_some {n : Node} (h : P n) : Keeps P fun _ ↦ some n := by
  intro _ _ m hm
  rwa [← Option.some.inj hm]

theorem keeps_none : Keeps P fun _ ↦ none := fun _ _ _ hn ↦ nomatch hn

end Node

namespace Disk

variable {isName : String → Prop} {P : Node → Prop}

/-- The tree has a property and the working directory is made of names. -/
structure Inherits (isName : String → Prop) (P : Node → Prop) (d : Disk) : Prop where
  here : ∀ name ∈ d.here, isName name
  top : P d.top

def KeepsInherited (isName : String → Prop) (P : Node → Prop) (d e : Disk) : Prop :=
  d.Inherits isName P → e.Inherits isName P

instance : IsPreorder Disk (KeepsInherited isName P) where
  refl _ h := h
  trans _ _ _ h h' := fun hc ↦ h' (h hc)

namespace Inherits

variable {d : Disk} {place : List String} (hP : Node.IsHeritable isName P) (h : d.Inherits isName P)

include hP h

theorem alter {f : Option Node → Option Node} (hf : Node.Keeps P f)
    (hplace : ∀ name ∈ place, isName name) : (d.alter place f).Inherits isName P := by
  refine ⟨h.here, ?_⟩
  have hmade := hP.keeps_alter hf hplace (some d.top) fun n hn ↦ Option.some.inj hn ▸ h.top
  change P ((Node.alter f place (some d.top)).getD d.top)
  cases haltered : Node.alter f place (some d.top) with
  | none => exact h.top
  | some n => exact hmade n haltered

theorem stamp (hplace : ∀ name ∈ place, isName name) : (d.stamp place).Inherits isName P :=
  h.alter hP (hP.keeps_setTime d.now) hplace

theorem attach {n : Node} (hn : P n) (hplace : ∀ name ∈ place, isName name) :
    (d.attach place n).Inherits isName P :=
  (h.alter hP (Node.keeps_some hn) hplace).stamp hP fun name hname ↦
    hplace name ((List.dropLast_sublist _).subset hname)

theorem detach (hplace : ∀ name ∈ place, isName name) : (d.detach place).Inherits isName P :=
  (h.alter hP Node.keeps_none hplace).stamp hP fun name hname ↦
    hplace name ((List.dropLast_sublist _).subset hname)

omit hP

theorem names_place {p : Path} (hp : ∀ name ∈ p.names, isName name) :
    ∀ name ∈ p.place d.here, isName name := by
  intro name hname
  rcases Path.mem_follow hname with hs | ⟨hn, -⟩
  · split at hs
    · exact h.here name hs
    · cases hs
  · exact hp name hn

theorem names_locate {p : Path} (hp : ∀ name ∈ p.names, isName name)
    (hlocate : d.locate p = .ok place) : ∀ name ∈ place, isName name := by
  rw [locate_eq_place hlocate]
  exact h.names_place hp

theorem names_slot {p : Path} (hp : ∀ name ∈ p.names, isName name) (hslot : d.slot p = .ok place) :
    ∀ name ∈ place, isName name := by
  rw [slot_eq_place hslot]
  exact h.names_place hp

end Inherits

end Disk

namespace Node.IsHeritable

open Disk

variable {isName : String → Prop} {P : Node → Prop} (hP : IsHeritable isName P) {p : Path}

theorem ask {α : Type} (question : Disk → Except Disk.Error α) :
    MovesAlong (KeepsInherited isName P) (Disk.ask question) := by
  apply MovesAlong.of_stays
  intro d
  unfold Disk.ask
  cases question d <;> rfl

theorem recover (p : Path) (e : Disk.Error) : MovesAlong (KeepsInherited isName P)
    (do unless ← Disk.ask (Disk.isFolder · p) do throw e : Disk.Action Unit) := by
  apply MovesAlong.bind (ask _)
  intro b
  cases b with
  | true => exact MovesAlong.pure _
  | false => exact MovesAlong.throw e

include hP

theorem makeFolder (hp : ∀ name ∈ p.names, isName name) :
    MovesAlong (KeepsInherited isName P) (makeFolder p) := by
  intro d h
  have houtcome := folderOutcome p d
  generalize Disk.makeFolder p d = r at houtcome ⊢
  cases houtcome with
  | refused => exact h
  | made hslot => exact h.attach hP (hP.empty d.now) (h.names_slot hp hslot)

theorem ensureFolder (hp : ∀ name ∈ p.names, isName name) :
    MovesAlong (KeepsInherited isName P) (ensureFolder p) :=
  MovesAlong.tryCatch (hP.makeFolder hp) fun e ↦ recover p e

theorem ensureFolders (above : Nat) (hp : ∀ name ∈ p.names, isName name) :
    MovesAlong (KeepsInherited isName P) (ensureFolders above p) := by
  induction above generalizing p with
  | zero => exact hP.ensureFolder hp
  | succ above ih =>
    apply MovesAlong.tryCatch (hP.makeFolder hp)
    intro e
    by_cases hmissing : e = .refused .notFound p
    · simp only [hmissing, if_true]
      have hparent : ∀ name ∈ p.parent.names, isName name := fun name hname ↦
        hp name ((List.dropLast_sublist _).subset hname)
      have hrest : MovesAlong (KeepsInherited isName P)
          (do Disk.ensureFolders above p.parent; Disk.ensureFolder p) :=
        MovesAlong.bind (ih hparent) fun _ ↦ hP.ensureFolder hp
      split
      · exact MovesAlong.bind (MovesAlong.throw _) fun _ ↦ hrest
      · exact hrest
    · simp only [hmissing, if_false]
      exact recover p e

theorem ensureParent (hp : ∀ name ∈ p.names, isName name) :
    MovesAlong (KeepsInherited isName P) (ensureParent p) :=
  hP.ensureFolders _ fun name hname ↦ hp name ((List.dropLast_sublist _).subset hname)

theorem writeBytes (hp : ∀ name ∈ p.names, isName name) (bytes : ByteArray) :
    MovesAlong (KeepsInherited isName P) (writeBytes p bytes) := by
  intro d h
  have houtcome := writeOutcome p bytes d
  generalize Disk.writeBytes p bytes d = r at houtcome ⊢
  cases houtcome with
  | refused => exact h
  | replaced hslot => exact h.alter hP (keeps_some (hP.file bytes d.now)) (h.names_slot hp hslot)
  | added hslot => exact h.attach hP (hP.file bytes d.now) (h.names_slot hp hslot)

theorem move {source target : Path} (hs : ∀ name ∈ source.names, isName name)
    (ht : ∀ name ∈ target.names, isName name) :
    MovesAlong (KeepsInherited isName P) (move source target) := by
  intro d h
  cases hmove : Disk.move source target d with
  | ok x e =>
    obtain ⟨start, goal, n, hstart, hgoal, hn, -, rfl⟩ := move_ok hmove
    exact (h.detach hP (h.names_locate hs hstart)).attach hP (hP.of_get? h.top start n hn)
      (h.names_slot ht hgoal)
  | error why e =>
    rw [move_error hmove]
    exact h

theorem writeText (hp : ∀ name ∈ p.names, isName name)
    (htemporary : ∀ name ∈ (temporary p).names, isName name) (text : String) :
    MovesAlong (KeepsInherited isName P) (writeText p text) := by
  refine MovesAlong.bind (hP.ensureParent hp) fun _ ↦ ?_
  refine MovesAlong.bind (hP.writeBytes htemporary _) fun _ ↦ ?_
  exact hP.move htemporary hp

theorem remove (hp : ∀ name ∈ p.names, isName name) :
    MovesAlong (KeepsInherited isName P) (remove p) := by
  intro d h
  rcases remove_cases p d with
    ⟨hremove, -⟩ | ⟨place, bytes, hlocate, -, hremove⟩ | ⟨hremove, -⟩ | ⟨hremove, -⟩
  · rw [hremove]
    exact h
  · rw [hremove]
    exact h.detach hP (h.names_locate hp hlocate)
  · rw [hremove]
    exact h
  · rw [hremove]
    exact h

theorem keeps_clear (now : Nat) : Keeps P fun
    | some (.folder t entries) => some (.folder (if entries.isEmpty then t else now) [])
    | n => n := by
  intro m hm
  match m with
  | none => exact fun _ hn ↦ nomatch hn
  | some (.file ..) => exact hm
  | some (.folder ..) =>
    intro n hn
    rw [← Option.some.inj hn]
    exact hP.empty _

theorem clear (hp : ∀ name ∈ p.names, isName name) :
    MovesAlong (KeepsInherited isName P) (clear p) := by
  refine MovesAlong.bind (ask _) fun isFolder ↦ ?_
  cases isFolder with
  | false => exact MovesAlong.pure _
  | true =>
    intro d h
    simp only [if_true]
    rw [bind_of_ok (get_apply d)]
    cases hlocate : d.locate p with
    | error why => exact h
    | ok place =>
      rw [bind_of_ok (refuseIfError_of_ok rfl p d)]
      exact h.alter hP (hP.keeps_clear d.now) (h.names_locate hp hlocate)

end Node.IsHeritable

end AssetBundler
