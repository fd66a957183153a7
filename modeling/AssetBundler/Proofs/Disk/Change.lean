import AssetBundler.Proofs.Disk.Locate
import Mathlib.Data.List.Infix

/-!
# What writing changes

Two disks are related if the one comes from the other by changes at some paths only: at some of them
folders appear, at the others files come, go and change, and everything else stands as it stood. Each
operation moves along such a relation, whether it succeeds or fails. Main statements: writing text makes
the folders above its target and touches the target and the temporary file beside it, only the latter if
it fails; afterwards the target holds exactly the bytes of the text and the temporary file is gone.
-/

namespace AssetBundler

theorem eq_of_concat_eq {α : Type} {as bs : List α} {a b : α} (h : as ++ [a] = bs ++ [b]) :
    a = b := by
  have hlast := congrArg List.getLast? h
  rwa [List.getLast?_concat, List.getLast?_concat, Option.some.injEq] at hlast

namespace Path

/-- The paths to the folders that a path goes through, and the path itself. -/
def upTo (p : Path) : List Path := p.names.inits.map fun names ↦ ⟨p.anchor, names⟩

theorem mem_upTo {p q : Path} : q ∈ p.upTo ↔ q.anchor = p.anchor ∧ q.names <+: p.names := by
  unfold upTo
  rw [List.mem_map]
  constructor
  · rintro ⟨names, hnames, rfl⟩
    exact ⟨rfl, (List.mem_inits ..).1 hnames⟩
  · rintro ⟨hanchor, hnames⟩
    exact ⟨q.names, (List.mem_inits ..).2 hnames, by rw [← hanchor]⟩

theorem self_mem_upTo (p : Path) : p ∈ p.upTo := mem_upTo.2 ⟨rfl, List.prefix_refl _⟩

theorem mem_upTo_of_parent {p q : Path} (h : q ∈ p.parent.upTo) : q ∈ p.upTo := by
  obtain ⟨hanchor, hnames⟩ := mem_upTo.1 h
  exact mem_upTo.2 ⟨hanchor, hnames.trans (List.dropLast_prefix p.names)⟩

end Path

namespace Disk

open AssetBundler.Action

/-- The bytes of the file at a place. -/
def bytesAt (d : Disk) (place : List String) : Option ByteArray := (d.kindAt place).join

theorem bytesAt_eq_some {d : Disk} {place : List String} {bytes : ByteArray} :
    d.bytesAt place = some bytes ↔ d.kindAt place = some (some bytes) := by
  unfold bytesAt
  rcases d.kindAt place with _ | _ | b <;> simp

/-- One of the paths leads to the place. -/
def Spelled (d : Disk) (paths : List Path) (place : List String) : Prop :=
  ∃ p ∈ paths, place = p.place d.here

/-- Only some places change: folders appear at the ones, files come, go and change at the others. -/
structure ChangesOnly (folders files : List Path) (d e : Disk) : Prop where
  here_eq : e.here = d.here
  now_eq : e.now = d.now
  kind : ∀ place, e.kindAt place = d.kindAt place ∨ d.kindAt place ≠ some none ∧
    (e.kindAt place ≠ some none ∧ d.Spelled files place ∨
      e.kindAt place = some none ∧ d.Spelled folders place ∧
        (d.kindAt place = none ∨ d.Spelled files place))

namespace ChangesOnly

variable {folders files : List Path} {c d e : Disk}

protected theorem refl (folders files : List Path) (d : Disk) : ChangesOnly folders files d d :=
  ⟨rfl, rfl, fun _ ↦ .inl rfl⟩

protected theorem trans (h : ChangesOnly folders files c d) (h' : ChangesOnly folders files d e) :
    ChangesOnly folders files c e where
  here_eq := h'.here_eq.trans h.here_eq
  now_eq := h'.now_eq.trans h.now_eq
  kind := by
    intro place
    have hlater := h'.kind place
    unfold Spelled at hlater
    rw [h.here_eq] at hlater
    change _ ∨ _ ∧ (_ ∧ c.Spelled files place ∨ _ ∧ c.Spelled folders place ∧
      (_ ∨ c.Spelled files place)) at hlater
    rcases h.kind place with hsame | ⟨hold, hfirst⟩
    · rwa [← hsame]
    · rcases hlater with hsame | ⟨hmiddle, hsecond⟩
      · rw [hsame]
        exact .inr ⟨hold, hfirst⟩
      · have hfile : c.Spelled files place := by
          rcases hfirst with ⟨-, hfile⟩ | ⟨hfolder, -⟩
          · exact hfile
          · exact absurd hfolder hmiddle
        refine .inr ⟨hold, hsecond.imp_right ?_⟩
        rintro ⟨hfolder, hmade, -⟩
        exact ⟨hfolder, hmade, .inr hfile⟩

instance (folders files : List Path) : IsPreorder Disk (ChangesOnly folders files) where
  refl := ChangesOnly.refl folders files
  trans _ _ _ := ChangesOnly.trans

theorem mono {folders' files' : List Path} (h : ChangesOnly folders files d e)
    (hfolders : ∀ p ∈ folders, p ∈ folders') (hfiles : ∀ p ∈ files, p ∈ files') :
    ChangesOnly folders' files' d e where
  here_eq := h.here_eq
  now_eq := h.now_eq
  kind := by
    intro place
    have hfile : d.Spelled files place → d.Spelled files' place :=
      fun ⟨p, hp, hplace⟩ ↦ ⟨p, hfiles p hp, hplace⟩
    have hfolder : d.Spelled folders place → d.Spelled folders' place :=
      fun ⟨p, hp, hplace⟩ ↦ ⟨p, hfolders p hp, hplace⟩
    refine (h.kind place).imp_right fun ⟨hold, hnew⟩ ↦ ⟨hold, ?_⟩
    exact hnew.imp (fun ⟨hne, hf⟩ ↦ ⟨hne, hfile hf⟩) fun ⟨heq, hf, hf'⟩ ↦
      ⟨heq, hfolder hf, hf'.imp_right hfile⟩

theorem of_kindAt_eq (hhere : e.here = d.here) (hnow : e.now = d.now)
    (hkind : e.kindAt = d.kindAt) : ChangesOnly folders files d e :=
  ⟨hhere, hnow, fun place ↦ .inl (by rw [hkind])⟩

section Update

variable {place : List String} {kind : Option (Option ByteArray)} (hhere : e.here = d.here)
  (hnow : e.now = d.now) (hkind : e.kindAt = Function.update d.kindAt place kind)

include hhere hnow hkind

/-- A file comes, goes or changes. -/
theorem of_file (hold : d.kindAt place ≠ some none) (hnew : kind ≠ some none)
    (hspelled : d.Spelled files place) : ChangesOnly folders files d e where
  here_eq := hhere
  now_eq := hnow
  kind := by
    intro other
    rw [hkind]
    by_cases hp : other = place
    · subst hp
      rw [Function.update_self]
      exact .inr ⟨hold, .inl ⟨hnew, hspelled⟩⟩
    · exact .inl (Function.update_of_ne hp ..)

/-- A folder appears where there was nothing. -/
theorem of_folder (hold : d.kindAt place = none) (hnew : kind = some none)
    (hspelled : d.Spelled folders place) : ChangesOnly folders files d e where
  here_eq := hhere
  now_eq := hnow
  kind := by
    intro other
    rw [hkind]
    by_cases hp : other = place
    · subst hp
      rw [Function.update_self]
      exact .inr ⟨by simp [hold], .inr ⟨hnew, hspelled, .inl hold⟩⟩
    · exact .inl (Function.update_of_ne hp ..)

end Update

theorem folder (h : ChangesOnly folders files d e) {place : List String}
    (hfolder : d.kindAt place = some none) : e.kindAt place = some none := by
  rcases h.kind place with hsame | ⟨hne, -⟩
  · rw [hsame, hfolder]
  · exact absurd hfolder hne

theorem bytesAt (h : ChangesOnly folders files d e) {place : List String}
    (hplace : ¬d.Spelled files place) : e.bytesAt place = d.bytesAt place := by
  unfold Disk.bytesAt
  rcases h.kind place with hsame | ⟨-, ⟨-, hfile⟩ | ⟨hnew, -, hnone | hfile⟩⟩
  · rw [hsame]
  · exact absurd hfile hplace
  · rw [hnew, hnone]
    rfl
  · exact absurd hfile hplace

end ChangesOnly

theorem refuseIfError_of_ok {α : Type} {x : Except Refusal α} {a : α} (h : x = .ok a) (p : Path) (d : Disk) :
    refuseIfError p x d = .ok a d := by
  rw [h]
  rfl

/-- Making a folder changes the disk at a place where there was nothing, or not at all. -/
inductive FolderOutcome (p : Path) (d : Disk) : EStateM.Result Error Disk Unit → Prop where
  | refused (why : Error) : FolderOutcome p d (.error why d)
  | made {place : List String} (hslot : d.slot p = .ok place) (hnode : d.node? place = none) :
      FolderOutcome p d (.ok () (d.attach place (.folder d.now [])))

theorem folderOutcome (p : Path) (d : Disk) : FolderOutcome p d (makeFolder p d) := by
  unfold makeFolder
  rw [bind_of_ok (get_apply d)]
  cases hslot : d.slot p with
  | error why => exact .refused _
  | ok place =>
    rw [bind_of_ok (refuseIfError_of_ok rfl p d)]
    rcases hnode : d.node? place with _ | n
    · exact .made hslot hnode
    · exact .refused _

/-- Writing a file changes the disk at a place where there was a file or nothing, or not at all. -/
inductive WriteOutcome (p : Path) (bytes : ByteArray) (d : Disk) : EStateM.Result Error Disk Unit → Prop where
  | refused (why : Error) : WriteOutcome p bytes d (.error why d)
  | replaced {place : List String} {old : ByteArray} {t : Nat} (hslot : d.slot p = .ok place)
      (hnode : d.node? place = some (.file old t)) :
      WriteOutcome p bytes d (.ok () (d.alter place fun _ ↦ some (.file bytes d.now)))
  | added {place : List String} (hslot : d.slot p = .ok place) (hnode : d.node? place = none) :
      WriteOutcome p bytes d (.ok () (d.attach place (.file bytes d.now)))

theorem writeOutcome (p : Path) (bytes : ByteArray) (d : Disk) :
    WriteOutcome p bytes d (writeBytes p bytes d) := by
  unfold writeBytes
  rw [bind_of_ok (get_apply d)]
  cases hslot : d.slot p with
  | error why => exact .refused _
  | ok place =>
    rw [bind_of_ok (refuseIfError_of_ok rfl p d)]
    rcases hnode : d.node? place with _ | ⟨old, t⟩ | ⟨t, entries⟩
    · exact .added hslot hnode
    · exact .replaced hslot hnode
    · exact .refused _

section Folders

variable {folders files : List Path}

theorem movesAlong_ask {α : Type} (question : Disk → Except Error α) :
    MovesAlong (ChangesOnly folders files) (ask question) := by
  apply MovesAlong.of_stays
  intro d
  unfold ask
  cases question d <;> rfl

theorem movesAlong_makeFolder {p : Path} (hp : p ∈ folders) :
    MovesAlong (ChangesOnly folders files) (makeFolder p) := by
  intro d
  have houtcome := folderOutcome p d
  generalize makeFolder p d = r at houtcome ⊢
  cases houtcome with
  | refused => exact ChangesOnly.refl _ _ d
  | @made place hslot hnode =>
    have hnone : d.kindAt place = none := kindAt_eq_none.2 hnode
    have hspelled : d.Spelled folders place := ⟨p, hp, slot_eq_place hslot⟩
    rcases List.eq_nil_or_concat place with rfl | ⟨above, name, rfl⟩
    · exact absurd hnone (kindAt_nil_ne_none d)
    · rw [List.concat_eq_append] at hnone hspelled ⊢
      by_cases hfolder : d.kindAt above = some none
      · have hkind := kindAt_attach d hfolder name (by simp [hnone]) (.folder d.now [])
          fun _ _ ↦ rfl
        exact .of_folder (by simp) (by simp) hkind hnone rfl hspelled
      · exact .of_kindAt_eq rfl rfl (kindAt_attach_of_no_folder d hfolder name _)

theorem movesAlong_recover (p : Path) (e : Error) : MovesAlong (ChangesOnly folders files)
    (do unless ← ask (Disk.isFolder · p) do throw e : Disk.Action Unit) := by
  apply MovesAlong.bind (movesAlong_ask _)
  intro b
  cases b with
  | true => exact MovesAlong.pure _
  | false => exact MovesAlong.throw e

theorem movesAlong_ensureFolder {p : Path} (hp : p ∈ folders) :
    MovesAlong (ChangesOnly folders files) (ensureFolder p) :=
  MovesAlong.tryCatch (movesAlong_makeFolder hp) fun e ↦ movesAlong_recover p e

theorem movesAlong_ensureFolders (above : Nat) {p : Path} (hp : ∀ q ∈ p.upTo, q ∈ folders) :
    MovesAlong (ChangesOnly folders files) (ensureFolders above p) := by
  have hself := hp p p.self_mem_upTo
  induction above generalizing p with
  | zero => exact movesAlong_ensureFolder hself
  | succ above ih =>
    apply MovesAlong.tryCatch (movesAlong_makeFolder hself)
    intro e
    by_cases hmissing : e = .refused .notFound p
    · have hparent : ∀ q ∈ p.parent.upTo, q ∈ folders := fun q hq ↦ hp q (Path.mem_upTo_of_parent hq)
      simp only [hmissing, if_true]
      by_cases htop : p.parent = p
      · simp only [htop, if_true]
        exact MovesAlong.bind (MovesAlong.throw _) fun _ ↦
          MovesAlong.bind (ih hp hself) fun _ ↦ movesAlong_ensureFolder hself
      · simp only [htop, if_false]
        exact MovesAlong.bind (ih hparent (hparent _ p.parent.self_mem_upTo)) fun _ ↦
          movesAlong_ensureFolder hself
    · simp only [hmissing, if_false]
      exact movesAlong_recover p e

theorem movesAlong_ensureParent (p : Path) :
    MovesAlong (ChangesOnly p.parent.upTo files) (ensureParent p) :=
  movesAlong_ensureFolders p.names.length fun _ hq ↦ hq

/-! ## Files -/

theorem movesAlong_writeBytes {p : Path} (hp : p ∈ files) (bytes : ByteArray) :
    MovesAlong (ChangesOnly folders files) (writeBytes p bytes) := by
  intro d
  have houtcome := writeOutcome p bytes d
  generalize writeBytes p bytes d = r at houtcome ⊢
  cases houtcome with
  | refused => exact ChangesOnly.refl _ _ d
  | @replaced place old t hslot hnode =>
    have hfile : d.kindAt place = some (some old) := kindAt_eq_file.2 ⟨t, hnode⟩
    have hkind := kindAt_alter_file d hfile bytes d.now
    exact .of_file (by simp) (by simp) hkind (by simp [hfile]) (by simp) ⟨p, hp, slot_eq_place hslot⟩
  | @added place hslot hnode =>
    have hnone : d.kindAt place = none := kindAt_eq_none.2 hnode
    have hspelled : d.Spelled files place := ⟨p, hp, slot_eq_place hslot⟩
    rcases List.eq_nil_or_concat place with rfl | ⟨above, name, rfl⟩
    · exact absurd hnone (kindAt_nil_ne_none d)
    · rw [List.concat_eq_append] at hnone hspelled ⊢
      by_cases hfolder : d.kindAt above = some none
      · have hkind := kindAt_attach d hfolder name (by simp [hnone]) (.file bytes d.now)
          fun _ _ ↦ rfl
        exact .of_file (by simp) (by simp) hkind (by simp [hnone]) (by simp [Node.bytes?]) hspelled
      · exact .of_kindAt_eq rfl rfl (kindAt_attach_of_no_folder d hfolder name _)

end Folders

theorem writeBytes_ok {p : Path} {name : String} (hlast : p.names.getLast? = some name)
    (hup : name ≠ "..") {bytes : ByteArray} {d e : Disk} (h : writeBytes p bytes d = .ok () e) :
    ∃ above, d.slot p = .ok (above ++ [name]) ∧ d.kindAt above = some none ∧
      d.kindAt (above ++ [name]) ≠ some none ∧
      e.kindAt = Function.update d.kindAt (above ++ [name]) (some (some bytes)) := by
  have houtcome := writeOutcome p bytes d
  rw [h] at houtcome
  cases houtcome with
  | @replaced place old t hslot hnode =>
    obtain ⟨above, -, hfolder, -, rfl⟩ := (slot_eq_ok hlast hup).1 hslot
    have hfile : d.kindAt (above ++ [name]) = some (some old) := kindAt_eq_file.2 ⟨t, hnode⟩
    exact ⟨above, hslot, hfolder, by simp [hfile], kindAt_alter_file d hfile bytes d.now⟩
  | @added place hslot hnode =>
    obtain ⟨above, -, hfolder, -, rfl⟩ := (slot_eq_ok hlast hup).1 hslot
    have hnone : d.kindAt (above ++ [name]) = none := kindAt_eq_none.2 hnode
    exact ⟨above, hslot, hfolder, by simp [hnone],
      kindAt_attach d hfolder name (by simp [hnone]) (.file bytes d.now) fun _ _ ↦ rfl⟩

theorem move_ok {source target : Path} {d e : Disk} (h : move source target d = .ok () e) :
    ∃ start goal n, d.locate source = .ok start ∧ d.slot target = .ok goal ∧
      d.node? start = some n ∧ d.kindAt goal ≠ some none ∧
      e = (d.detach start).attach goal n := by
  unfold move at h
  rw [bind_of_ok (get_apply d)] at h
  rcases hstart : d.locate source with why | start
  · simp [hstart] at h
  rcases hgoal : d.slot target with why | goal
  · simp [hstart, hgoal] at h
  simp only [hstart, hgoal] at h
  rcases hn : d.node? start with _ | n
  · rcases hm : d.node? goal with _ | ⟨old, t⟩ | ⟨t, entries⟩ <;> simp [hn, hm] at h
  · rcases hm : d.node? goal with _ | ⟨old, t⟩ | ⟨t, entries⟩
    · simp only [hn, hm, set_apply, EStateM.Result.ok.injEq, true_and] at h
      exact ⟨start, goal, n, rfl, rfl, hn, by simp [kindAt, hm], h.symm⟩
    · simp only [hn, hm, set_apply, EStateM.Result.ok.injEq, true_and] at h
      exact ⟨start, goal, n, rfl, rfl, hn, by simp [kindAt, hm, Node.bytes?], h.symm⟩
    · simp [hn, hm] at h

theorem move_error {source target : Path} {d e : Disk} {why : Error}
    (h : move source target d = .error why e) : e = d := by
  unfold move at h
  rw [bind_of_ok (get_apply d)] at h
  rcases hstart : d.locate source with _ | start
  · simp only [hstart, throw_apply, EStateM.Result.error.injEq] at h
    exact h.2.symm
  rcases hgoal : d.slot target with _ | goal
  · simp only [hstart, hgoal, throw_apply, EStateM.Result.error.injEq] at h
    exact h.2.symm
  simp only [hstart, hgoal] at h
  rcases hn : d.node? start with _ | n <;>
    rcases hm : d.node? goal with _ | ⟨old, t⟩ | ⟨t, entries⟩ <;>
    simp only [hn, hm, throw_apply, set_apply, EStateM.Result.error.injEq, reduceCtorEq] at h <;>
    exact h.2.symm

/-! ## Texts -/

theorem getLast?_temporary (p : Path) : (temporary p).names.getLast? = some (p.name ++ ".tmp") := by
  simp [temporary, Path.withName]

theorem parent_temporary (p : Path) : (temporary p).parent = p.parent := by
  simp [temporary, Path.withName, Path.parent]

theorem temporaryName_ne_up (p : Path) : p.name ++ ".tmp" ≠ ".." := by
  intro h
  have hlen := congrArg String.length h
  have htmp : ".tmp".length = 4 := by decide
  have hup : "..".length = 2 := by decide
  rw [String.length_append, htmp, hup] at hlen
  omega

/-- A folder above a folder, or the root. -/
theorem kindAt_dropLast_of_folder {d : Disk} {place : List String}
    (h : d.kindAt place = some none) : d.kindAt place.dropLast = some none := by
  by_cases hne : place = []
  · rw [hne] at h ⊢
    exact h
  · exact kindAt_dropLast (by simp [h]) hne

/-- A path to something other than a folder does not end in a double dot. -/
theorem getLast?_ne_up_of_locate {d : Disk} {p : Path} {place : List String}
    (h : d.locate p = .ok place) (hplace : d.kindAt place ≠ some none) :
    p.names.getLast? ≠ some ".." := by
  intro hlast
  unfold locate at h
  rw [names_eq_append hlast, List.foldlM_append, except_bind_eq_ok] at h
  obtain ⟨middle, -, hstep⟩ := h
  rw [List.foldlM_cons, except_bind_eq_ok] at hstep
  obtain ⟨next, hnext, hrest⟩ := hstep
  cases hrest
  obtain ⟨hk, ⟨-, rfl⟩ | ⟨hup, -⟩⟩ := enter_eq_ok.1 hnext
  · exact hplace (kindAt_dropLast_of_folder hk)
  · exact hup rfl

/-- A path that can be written, and at which there is no folder, does not end in a double dot. -/
theorem getLast?_ne_up_of_slot {d : Disk} {p : Path} {goal : List String} (hslot : d.slot p = .ok goal)
    (hgoal : d.kindAt goal ≠ some none) : p.names.getLast? ≠ some ".." := by
  intro hlast
  unfold slot at hslot
  simp only [hlast, if_true] at hslot
  exact getLast?_ne_up_of_locate hslot hgoal hlast

/-- A path beside which there is a folder, and at which there is none, ends in a name. -/
theorem exists_name_of_slot {d : Disk} {p : Path} {goal above : List String}
    (hslot : d.slot p = .ok goal) (hgoal : d.kindAt goal ≠ some none)
    (habove : d.locate p.parent = .ok above) (hfolder : d.kindAt above = some none) :
    ∃ name, p.names.getLast? = some name ∧ name ≠ ".." := by
  have hup := getLast?_ne_up_of_slot hslot hgoal
  cases hlast : p.names.getLast? with
  | none =>
    have hnil : p.names = [] := List.getLast?_eq_none_iff.1 hlast
    have hself : p.parent = p := by
      unfold Path.parent
      rw [hnil, List.dropLast_nil, ← hnil]
    unfold slot at hslot
    rw [hlast] at hslot
    rw [hself] at habove
    rw [Except.ok.inj (habove.symm.trans hslot)] at hfolder
    exact absurd hfolder hgoal
  | some name => exact ⟨name, rfl, fun heq ↦ hup (heq ▸ hlast)⟩

/-- Whatever has been written has a name. -/
theorem exists_name_of_writeBytes {p : Path} {bytes : ByteArray} {d e : Disk} (hne : p.names ≠ [])
    (h : writeBytes p bytes d = .ok () e) : ∃ name, p.names.getLast? = some name ∧ name ≠ ".." := by
  have hplace : ∃ place, d.slot p = .ok place ∧ d.kindAt place ≠ some none := by
    have houtcome := writeOutcome p bytes d
    rw [h] at houtcome
    cases houtcome with
    | replaced hslot hnode => exact ⟨_, hslot, by simp [kindAt_eq_file.2 ⟨_, hnode⟩]⟩
    | added hslot hnode => exact ⟨_, hslot, by simp [kindAt_eq_none.2 hnode]⟩
  obtain ⟨place, hslot, hkind⟩ := hplace
  refine ⟨p.names.getLast hne, List.getLast?_eq_some_getLast hne, fun heq ↦ ?_⟩
  exact getLast?_ne_up_of_slot hslot hkind (heq ▸ List.getLast?_eq_some_getLast hne)

/-- A file moved to a path beside which there is a folder is found at its new place and not at the old
one, and nothing else changes. -/
theorem move_file (folders : List Path) {source target : Path} {files : List Path} {d e : Disk}
    {above beside : List String} {last : String} {bytes : ByteArray}
    (h : move source target d = .ok () e) (hsource : source ∈ files) (htarget : target ∈ files)
    (hslot : d.slot source = .ok (above ++ [last])) (habove : d.kindAt above = some none)
    (hkind : d.kindAt (above ++ [last]) = some (some bytes))
    (hparent : d.locate target.parent = .ok beside) (hbeside : d.kindAt beside = some none) :
    ChangesOnly folders files d e ∧ ∃ place name, target.names.getLast? = some name ∧
      name ≠ ".." ∧ e.slot target = .ok place ∧ e.bytesAt place = some bytes ∧
      (above ++ [last] ≠ place → e.bytesAt (above ++ [last]) = none) := by
  obtain ⟨start, goal, n, hstart, hgoal, hn, hgoalKind, rfl⟩ := move_ok h
  obtain ⟨name, hlast, hup⟩ := exists_name_of_slot hgoal hgoalKind hparent hbeside
  obtain ⟨around, -, haround, -, rfl⟩ := (slot_eq_ok hlast hup).1 hgoal
  have hplace : above ++ [last] = source.place d.here := slot_eq_place hslot
  obtain rfl : start = above ++ [last] := by rw [locate_eq_place hstart, hplace]
  obtain ⟨t, rfl⟩ : ∃ t, n = .file bytes t := by
    obtain ⟨t, hfile⟩ := kindAt_eq_file.1 hkind
    exact ⟨t, Option.some.inj (hn.symm.trans hfile)⟩
  have hdetach := kindAt_detach d habove last (by simp [hkind])
  have hleft : ChangesOnly folders files d (d.detach (above ++ [last])) :=
    .of_file (by simp) (by simp) hdetach (by simp [hkind]) (by simp) ⟨source, hsource, hplace⟩
  have hgoalKind' : (d.detach (above ++ [last])).kindAt (around ++ [name]) ≠ some none := by
    rw [hdetach]
    by_cases heq : around ++ [name] = above ++ [last]
    · simp [heq]
    · rw [Function.update_of_ne heq]
      exact hgoalKind
  have hattach := kindAt_attach (d.detach (above ++ [last])) (hleft.folder haround) name
    hgoalKind' (.file bytes t) fun _ _ ↦ rfl
  have hput : ChangesOnly folders files (d.detach (above ++ [last]))
      ((d.detach (above ++ [last])).attach (around ++ [name]) (.file bytes t)) :=
    .of_file (by simp) (by simp) hattach hgoalKind' (by simp [Node.bytes?])
      ⟨target, htarget, by simpa using slot_eq_place hgoal⟩
  have hmoved := hleft.trans hput
  refine ⟨hmoved, around ++ [name], name, hlast, hup, ?_, ?_, fun hne ↦ ?_⟩
  · exact slot_persists hmoved.here_eq (fun _ ↦ hmoved.folder) hlast hup hgoal
  · rw [bytesAt_eq_some, hattach, Function.update_self]
    rfl
  · unfold bytesAt
    rw [hattach, Function.update_of_ne hne, hdetach, Function.update_self]
    rfl

theorem place_temporary_ne {p : Path} {name : String} (hlast : p.names.getLast? = some name)
    (hup : name ≠ "..") (here : List String) : (temporary p).place here ≠ p.place here := by
  rw [place_eq_append (getLast?_temporary p) (temporaryName_ne_up p), place_eq_append hlast hup,
    parent_temporary]
  have hname : p.name = name := by
    unfold Path.name
    rw [List.getLastD_eq_getLast?, hlast]
    rfl
  intro heq
  have hlength := congrArg String.length (eq_of_concat_eq heq)
  rw [hname] at hlength
  simp at hlength

/-- What writing a text comes to if it is written. -/
structure Written (p : Path) (text : String) (d e : Disk) : Prop where
  changes : ChangesOnly p.parent.upTo [temporary p, p] d e
  name : ∃ name, p.names.getLast? = some name ∧ name ≠ ".."
  slot : e.slot p = .ok (p.place d.here)
  holds : e.bytesAt (p.place d.here) = some text.toUTF8
  gone : e.bytesAt ((temporary p).place d.here) = none

theorem written_of_ok {p : Path} {text : String} {d e : Disk} (h : writeText p text d = .ok () e) :
    Written p text d e := by
  unfold writeText at h
  obtain ⟨_, c, hensure, h⟩ := bind_eq_ok.1 h
  obtain ⟨_, b, hwrite, hmove⟩ := bind_eq_ok.1 h
  have hc : ChangesOnly p.parent.upTo [temporary p, p] d c := (movesAlong_ensureParent p).ok hensure
  have hb : ChangesOnly p.parent.upTo [temporary p, p] c b :=
    (movesAlong_writeBytes (by simp) text.toUTF8).ok hwrite
  obtain ⟨above, hslot, hfolder, -, hkind⟩ :=
    writeBytes_ok (getLast?_temporary p) (temporaryName_ne_up p) hwrite
  have hslot' : b.slot (temporary p) = .ok (above ++ [p.name ++ ".tmp"]) :=
    slot_persists hb.here_eq (fun _ ↦ hb.folder) (getLast?_temporary p) (temporaryName_ne_up p) hslot
  have hfile : b.kindAt (above ++ [p.name ++ ".tmp"]) = some (some text.toUTF8) := by
    rw [hkind, Function.update_self]
  obtain ⟨beside, hbeside, hk, -, -⟩ :=
    (slot_eq_ok (getLast?_temporary p) (temporaryName_ne_up p)).1 hslot
  rw [parent_temporary] at hbeside
  have hparent : b.locate p.parent = .ok beside :=
    locate_persists hb.here_eq (fun _ ↦ hb.folder) hbeside (by simp [hb.folder hk])
  obtain ⟨hmoved, place, name, hlast, hup, hgoal, hheld, hgone⟩ :=
    move_file p.parent.upTo hmove (by simp) (by simp : p ∈ [temporary p, p]) hslot'
      (hb.folder hfolder) hfile hparent (hb.folder hk)
  have hhere : b.here = d.here := (hc.trans hb).here_eq
  have hchanges := hc.trans (hb.trans hmoved)
  obtain rfl : place = p.place d.here := by rw [slot_eq_place hgoal, hchanges.here_eq]
  have hstart : above ++ [p.name ++ ".tmp"] = (temporary p).place d.here := by
    rw [slot_eq_place hslot', hhere]
  rw [hstart] at hgone
  exact ⟨hchanges, ⟨name, hlast, hup⟩, hgoal, hheld, hgone (place_temporary_ne hlast hup d.here)⟩

/-- A text that could not be written leaves its target as it was. -/
theorem changes_of_unwritten {p : Path} {text : String} {d e : Disk} {why : Error}
    (h : writeText p text d = .error why e) : ChangesOnly p.parent.upTo [temporary p] d e := by
  unfold writeText at h
  rcases bind_eq_error.1 h with hensure | ⟨_, c, hensure, h⟩
  · exact (movesAlong_ensureParent p).error hensure
  have hc : ChangesOnly p.parent.upTo [temporary p] d c := (movesAlong_ensureParent p).ok hensure
  rcases bind_eq_error.1 h with hwrite | ⟨_, b, hwrite, hmove⟩
  · exact hc.trans ((movesAlong_writeBytes (by simp) text.toUTF8).error hwrite)
  · rw [move_error hmove]
    exact hc.trans ((movesAlong_writeBytes (by simp) text.toUTF8).ok hwrite)

end Disk

end AssetBundler
