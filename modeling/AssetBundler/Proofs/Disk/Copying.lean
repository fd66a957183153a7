import AssetBundler.Proofs.Disk.Clearing
import AssetBundler.Proofs.Disk.Proper
import AssetBundler.Proofs.Disk.Refusal

/-!
# Copying files

A copy goes to its target, or into it if the target is a folder. It makes the folders above the target
and touches the one file, which holds the bytes of the source if it succeeds. All that writes to a disk
keeps what is there: folders stay, and so does every file that is not a temporary one, whatever its bytes
become. Main statements: `Disk.copyOutcome`, `Disk.keepsFiles_copy` and `Disk.keepsFiles_writeText`.
-/

namespace AssetBundler

namespace Disk

open AssetBundler.Action

/-- The path leads to a folder. -/
def leadsToFolder (d : Disk) (p : Path) : Bool :=
  match d.find p with
  | .ok n => n.isFolder
  | .error _ => false

/-- Where the copy of a file goes: into a folder at the target, else to the target itself. -/
def copyGoal (d : Disk) (source target : Path) : Path :=
  if d.leadsToFolder target then target.join source.name else target

/-- Copying once the folders are there and the two files are told apart. -/
def copyBytes (source goal : Path) : Action Unit := do
  let bytes ← ask (Disk.readBytes · source)
  let time ← ask (Disk.time · source)
  writeBytes goal bytes
  let d ← get
  let place ← refuseIfError goal (d.locate goal)
  set (d.alter place fun n ↦ n.map (Node.setTime time))

variable {source target : Path} {c d e : Disk}

/-- Goes on unless the two paths lead to the same file. -/
def unlessSame (d : Disk) (source goal : Path) (isInside : Bool) (next : Action Unit) : Action Unit :=
  match d.locate source, d.locate goal with
  | .ok a, .ok b => if a = b then throw (.sameFile source goal isInside) else next
  | _, _ => next

theorem unlessSame_cases (d : Disk) (source goal : Path) (isInside : Bool) (next : Action Unit) :
    (∃ why, d.unlessSame source goal isInside next = throw why) ∨
      d.unlessSame source goal isInside next = next := by
  unfold unlessSame
  rcases d.locate source with _ | a
  · exact .inr rfl
  rcases d.locate goal with _ | b
  · exact .inr rfl
  by_cases hsame : a = b
  · exact .inl ⟨_, if_pos hsame⟩
  · exact .inr (if_neg hsame)

theorem copy_of_ensured (source : Path) (h : ensureParent target d = .ok () c) :
    copy source target d = c.unlessSame source (c.copyGoal source target) (c.leadsToFolder target)
      (copyBytes source (c.copyGoal source target)) c := by
  unfold copy
  rw [bind_of_ok h, bind_of_ok (get_apply c)]
  rfl

/-- What copying comes to. -/
inductive CopyOutcome (source target : Path) (d : Disk) : EStateM.Result Error Disk Unit → Prop where
  | unprepared (why : Error) (c : Disk) (h : ensureParent target d = .error why c) :
      CopyOutcome source target d (.error why c)
  | unread (why : Error) (c : Disk) (h : ensureParent target d = .ok () c) :
      CopyOutcome source target d (.error why c)
  | unwritten (why : Error) (bytes : ByteArray) (c e : Disk) (h : ensureParent target d = .ok () c)
      (hread : c.readBytes source = .ok bytes)
      (hwrite : finalState (writeBytes (c.copyGoal source target) bytes c) = e) :
      CopyOutcome source target d (.error why e)
  | copied (bytes : ByteArray) (time : Nat) (place : List String) (c b : Disk)
      (h : ensureParent target d = .ok () c) (hread : c.readBytes source = .ok bytes)
      (hwrite : writeBytes (c.copyGoal source target) bytes c = .ok () b)
      (hlocate : b.locate (c.copyGoal source target) = .ok place) :
      CopyOutcome source target d (.ok () (b.alter place fun n ↦ n.map (Node.setTime time)))

theorem copyOutcome (source target : Path) (d : Disk) :
    CopyOutcome source target d (copy source target d) := by
  rcases hensure : ensureParent target d with ⟨_, c⟩ | ⟨why, c⟩
  · rw [copy_of_ensured source hensure]
    rcases unlessSame_cases c source (c.copyGoal source target) (c.leadsToFolder target)
      (copyBytes source (c.copyGoal source target)) with ⟨why, hfailed⟩ | hgoes
    · rw [hfailed]
      exact .unread why c hensure
    · rw [hgoes]
      unfold copyBytes
      cases hread : c.readBytes source with
      | error why =>
        rw [bind_of_error (ask_of_error hread)]
        exact .unread why c hensure
      | ok bytes =>
        rw [bind_of_ok (ask_of_ok hread)]
        cases htime : c.time source with
        | error why =>
          rw [bind_of_error (ask_of_error htime)]
          exact .unread why c hensure
        | ok time =>
          rw [bind_of_ok (ask_of_ok htime)]
          rcases hwrite : writeBytes (c.copyGoal source target) bytes c with ⟨_, b⟩ | ⟨why, b⟩
          · rw [bind_of_ok hwrite, bind_of_ok (get_apply b)]
            cases hlocate : b.locate (c.copyGoal source target) with
            | error why => exact .unwritten _ bytes c b hensure hread (by rw [hwrite]; rfl)
            | ok place => exact .copied bytes time place c b hensure hread hwrite hlocate
          · rw [bind_of_error hwrite]
            exact .unwritten why bytes c b hensure hread (by rw [hwrite]; rfl)
  · unfold copy
    rw [bind_of_error hensure]
    exact .unprepared why c hensure

theorem changesOnly_setTime {folders files : List Path} (d : Disk) (place : List String) (t : Nat) :
    ChangesOnly folders files d (d.alter place fun n ↦ n.map (Node.setTime t)) :=
  .of_kindAt_eq rfl rfl (kindAt_setTime d place t)

theorem bytesAt_of_readBytes {p : Path} {bytes : ByteArray} (h : d.readBytes p = .ok bytes) :
    d.bytesAt (p.place d.here) = some bytes := by
  obtain ⟨place, hlocate, hkind⟩ := readBytes_eq_ok.1 h
  rw [← locate_eq_place hlocate]
  exact bytesAt_eq_some.2 hkind

theorem leadsToFolder_eq_true {p : Path} : d.leadsToFolder p = true ↔
    ∃ place, d.locate p = .ok place ∧ d.kindAt place = some none := by
  unfold leadsToFolder
  constructor
  · intro h
    rcases hfind : d.find p with why | ⟨bytes, t⟩ | ⟨t, entries⟩
    · simp [hfind] at h
    · simp [hfind, Node.isFolder] at h
    · obtain ⟨place, hlocate, hnode⟩ := find_eq_ok.1 hfind
      exact ⟨place, hlocate, kindAt_eq_folder.2 ⟨t, entries, hnode⟩⟩
  · rintro ⟨place, hlocate, hkind⟩
    obtain ⟨t, entries, hnode⟩ := kindAt_eq_folder.1 hkind
    rw [find_eq_ok.2 ⟨place, hlocate, hnode⟩]
    rfl

theorem isFolder_of_leadsToFolder {p : Path} (h : d.leadsToFolder p = true) :
    d.isFolder p = .ok true := by
  unfold leadsToFolder at h
  rcases hfind : d.find p with why | n
  · simp [hfind] at h
  · rw [hfind] at h
    rw [isFolder_of_find hfind]
    exact congrArg Except.ok h

theorem leadsToFolder_persists {p : Path} (hhere : e.here = d.here)
    (hkeep : ∀ place, d.kindAt place = some none → e.kindAt place = some none)
    (h : d.leadsToFolder p = true) : e.leadsToFolder p = true := by
  obtain ⟨place, hlocate, hkind⟩ := leadsToFolder_eq_true.1 h
  have hkind' := hkeep place hkind
  exact leadsToFolder_eq_true.2
    ⟨place, locate_persists hhere hkeep hlocate (by simp [hkind']), hkind'⟩

/-- What copying comes to if the file is copied: it went into a folder, or it is the target. -/
structure Copied (source target : Path) (d e : Disk) : Prop where
  changes : ChangesOnly target.parent.upTo [target, target.join source.name] d e
  goal : (∃ c, ChangesOnly target.parent.upTo [] d c ∧ ChangesOnly [] [target.join source.name] c e ∧
      ∃ place, c.locate target = .ok place ∧ c.kindAt place = some none) ∨
    ChangesOnly target.parent.upTo [target] d e ∧
      (∃ name, target.names.getLast? = some name ∧ name ≠ ".." ∧
        e.slot target = .ok (target.place d.here)) ∧
      ∃ bytes, d.bytesAt (source.place d.here) = some bytes ∧
        e.bytesAt (target.place d.here) = some bytes

theorem copied_of_ok (hne : target.names ≠ []) (h : copy source target d = .ok () e) :
    Copied source target d e := by
  have houtcome := copyOutcome source target d
  rw [h] at houtcome
  cases houtcome with
  | copied bytes time place c b hensure hread hwrite hlocate =>
    have hmade : ChangesOnly target.parent.upTo [] d c := (movesAlong_ensureParent target).ok hensure
    have hc : ∀ {files}, ChangesOnly target.parent.upTo files d c :=
      fun {_} ↦ hmade.mono (fun _ hq ↦ hq) (List.forall_mem_nil _)
    have hgoal : ∀ {folders files}, c.copyGoal source target ∈ files →
        ChangesOnly folders files c (b.alter place fun n ↦ n.map (Node.setTime time)) :=
      fun hmem ↦ ((movesAlong_writeBytes hmem bytes).ok hwrite).trans (changesOnly_setTime b place time)
    by_cases hfolder : c.leadsToFolder target = true
    · have htarget : c.copyGoal source target = target.join source.name := if_pos hfolder
      rw [htarget] at hgoal
      refine ⟨hc.trans (hgoal (by simp)), .inl ⟨c, hmade, hgoal (by simp), ?_⟩⟩
      exact leadsToFolder_eq_true.1 hfolder
    · have htarget : c.copyGoal source target = target := if_neg hfolder
      rw [htarget] at hgoal hwrite
      obtain ⟨name, hlast, hup⟩ := exists_name_of_writeBytes hne hwrite
      obtain ⟨above, hslot, -, -, hkind⟩ := writeBytes_ok hlast hup hwrite
      have hplace : above ++ [name] = target.place d.here := by
        rw [slot_eq_place hslot, hmade.here_eq]
      rw [hplace] at hslot hkind
      have hsource : d.bytesAt (source.place d.here) = some bytes := by
        rw [← hmade.bytesAt (fun ⟨_, hmem, _⟩ ↦ nomatch hmem), ← hmade.here_eq]
        exact bytesAt_of_readBytes hread
      have hafter : ChangesOnly [] [target] c (b.alter place fun n ↦ n.map (Node.setTime time)) :=
        hgoal (by simp)
      refine ⟨hc.trans (hgoal (by simp)), .inr ⟨hc.trans (hgoal (by simp)), ?_, bytes, hsource, ?_⟩⟩
      · exact ⟨name, hlast, hup, slot_persists hafter.here_eq (fun _ ↦ hafter.folder) hlast hup hslot⟩
      · rw [bytesAt_eq_some, kindAt_setTime, hkind, Function.update_self]

/-- The last name ends like that of a temporary file. -/
def IsTemporary (place : List String) : Prop := ".tmp".toList <:+ (place.getLastD "").toList

instance (place : List String) : Decidable (IsTemporary place) :=
  inferInstanceAs (Decidable (_ <:+ _))

theorem isTemporary_temporary (p : Path) (here : List String) :
    IsTemporary ((temporary p).place here) := by
  rw [place_eq_append (getLast?_temporary p) (temporaryName_ne_up p)]
  unfold IsTemporary
  rw [List.getLastD_concat, String.toList_append]
  exact List.suffix_append ..

/-- Folders stay, and so do files, with whatever bytes, unless they are temporary. -/
structure KeepsFiles (d e : Disk) : Prop where
  here_eq : e.here = d.here
  folder : ∀ place, d.kindAt place = some none → e.kindAt place = some none
  file : ∀ place, ¬IsTemporary place → d.bytesAt place ≠ none → e.bytesAt place ≠ none

namespace KeepsFiles

protected theorem trans (h : KeepsFiles c d) (h' : KeepsFiles d e) : KeepsFiles c e where
  here_eq := h'.here_eq.trans h.here_eq
  folder place hfolder := h'.folder place (h.folder place hfolder)
  file place htmp hfile := h'.file place htmp (h.file place htmp hfile)

instance : IsPreorder Disk KeepsFiles where
  refl _ := ⟨rfl, fun _ h ↦ h, fun _ _ h ↦ h⟩
  trans _ _ _ := KeepsFiles.trans

theorem of_changesOnly {folders files : List Path} (h : ChangesOnly folders files d e)
    (hfiles : ∀ p ∈ files, IsTemporary (p.place d.here) ∨ d.bytesAt (p.place d.here) = none ∨
      e.bytesAt (p.place d.here) ≠ none) : KeepsFiles d e where
  here_eq := h.here_eq
  folder _ := h.folder
  file := by
    intro place htmp hfile
    by_cases hspelled : d.Spelled files place
    · obtain ⟨p, hp, rfl⟩ := hspelled
      exact ((hfiles p hp).resolve_left htmp).resolve_left hfile
    · rwa [h.bytesAt hspelled]

variable {p : Path}

theorem isFile (h : KeepsFiles d e) (htmp : ¬IsTemporary (p.place d.here))
    (hfile : d.isFile p = .ok true) : e.isFile p = .ok true := by
  obtain ⟨bytes, t, hfind⟩ := find_of_isFile hfile
  obtain ⟨place, hlocate, hnode⟩ := find_eq_ok.1 hfind
  have hkind : d.bytesAt place ≠ none := by
    rw [bytesAt_eq_some.2 (kindAt_eq_file.2 ⟨t, hnode⟩)]
    simp
  rw [← locate_eq_place hlocate] at htmp
  obtain ⟨held, hheld⟩ := Option.ne_none_iff_exists'.1 (h.file place htmp hkind)
  rw [bytesAt_eq_some] at hheld
  exact isFile_of_readBytes (readBytes_eq_ok.2
    ⟨place, locate_persists h.here_eq h.folder hlocate (by simp [hheld]), hheld⟩)

theorem leadsToFolder (h : KeepsFiles d e) (hfolder : d.leadsToFolder p = true) :
    e.leadsToFolder p = true :=
  leadsToFolder_persists h.here_eq h.folder hfolder

end KeepsFiles

theorem keepsFiles_ensureParent (p : Path) : MovesAlong KeepsFiles (ensureParent p) :=
  fun d ↦
    have hmade : ChangesOnly p.parent.upTo [] d _ := movesAlong_ensureParent p d
    .of_changesOnly hmade (List.forall_mem_nil _)

theorem keepsFiles_writeBytes (p : Path) (bytes : ByteArray) :
    MovesAlong KeepsFiles (writeBytes p bytes) := by
  intro d
  have hchanges : ChangesOnly [] [p] d (finalState (writeBytes p bytes d)) :=
    movesAlong_writeBytes (List.mem_singleton_self p) bytes d
  refine .of_changesOnly hchanges ?_
  rw [List.forall_mem_singleton]
  have houtcome := writeOutcome p bytes d
  generalize writeBytes p bytes d = r at houtcome ⊢
  cases houtcome with
  | refused => exact .inr (ne_or_eq _ none).symm
  | @replaced place old t hslot hnode =>
    have hkind := kindAt_alter_file d (kindAt_eq_file.2 ⟨t, hnode⟩) bytes d.now
    refine .inr (.inr ?_)
    rw [← slot_eq_place hslot]
    change (d.alter place fun _ ↦ some (.file bytes d.now)).bytesAt place ≠ none
    unfold bytesAt
    rw [hkind, Function.update_self]
    simp
  | added hslot hnode =>
    refine .inr (.inl ?_)
    rw [← slot_eq_place hslot]
    simp [bytesAt, kindAt_eq_none.2 hnode]

theorem keepsFiles_writeText (p : Path) (text : String) : MovesAlong KeepsFiles (writeText p text) := by
  intro d
  rcases hwrite : writeText p text d with ⟨_, e⟩ | ⟨why, e⟩
  · have hwritten := written_of_ok hwrite
    refine .of_changesOnly hwritten.changes ?_
    rw [List.forall_mem_cons, List.forall_mem_singleton]
    refine ⟨.inl (isTemporary_temporary p d.here), .inr (.inr ?_)⟩
    rw [finalState_ok, hwritten.holds]
    simp
  · refine .of_changesOnly (changes_of_unwritten hwrite) ?_
    rw [List.forall_mem_singleton]
    exact .inl (isTemporary_temporary p d.here)

theorem isFile_of_writeText {p : Path} {text : String} (h : writeText p text d = .ok () e) :
    e.isFile p = .ok true := by
  have hwritten := written_of_ok h
  obtain ⟨name, hlast, hup⟩ := hwritten.name
  exact isFile_of_readBytes
    (readBytes_of_bytesAt rfl (fun _ hk ↦ hk) hlast hup hwritten.slot hwritten.holds)

/-- Copying moves along whatever its steps move along. -/
theorem movesAlong_copy {R : Disk → Disk → Prop} [IsPreorder Disk R] (source target : Path)
    (hensure : MovesAlong R (ensureParent target))
    (hwrite : ∀ goal bytes, goal = target ∨ goal = target.join source.name →
      MovesAlong R (writeBytes goal bytes))
    (hstamp : ∀ goal d place t, d.locate goal = .ok place → goal = target ∨ goal = target.join source.name →
      R d (d.alter place fun n ↦ n.map (Node.setTime t))) :
    MovesAlong R (copy source target) := by
  intro d
  have hgoal : ∀ c : Disk, c.copyGoal source target = target ∨
      c.copyGoal source target = target.join source.name := by
    intro c
    unfold copyGoal
    split
    · exact .inr rfl
    · exact .inl rfl
  have houtcome := copyOutcome source target d
  generalize copy source target d = r at houtcome
  cases houtcome with
  | unprepared why c h => exact hensure.error h
  | unread why c h => exact hensure.ok h
  | unwritten why bytes c e h hread hwritten =>
    rw [finalState_error, ← hwritten]
    exact trans_of R (hensure.ok h) (hwrite _ bytes (hgoal c) c)
  | copied bytes time place c b h hread hwritten hlocate =>
    exact trans_of R (hensure.ok h)
      (trans_of R ((hwrite _ bytes (hgoal c)).ok hwritten) (hstamp _ b place time hlocate (hgoal c)))

theorem keepsFiles_copy (source target : Path) : MovesAlong KeepsFiles (copy source target) :=
  movesAlong_copy source target (keepsFiles_ensureParent target)
    (fun goal bytes _ ↦ keepsFiles_writeBytes goal bytes) fun _ d place t _ _ ↦
      have hsame : ChangesOnly [] [] d _ := changesOnly_setTime d place t
      .of_changesOnly hsame (List.forall_mem_nil _)

theorem keepsInherited_copy {isName : String → Prop} {P : Node → Prop}
    (hP : Node.IsHeritable isName P) (source : Path) (htarget : ∀ name ∈ target.names, isName name)
    (hinside : ∀ name ∈ (target.join source.name).names, isName name) :
    MovesAlong (KeepsInherited isName P) (copy source target) := by
  have hgoal : ∀ goal, goal = target ∨ goal = target.join source.name →
      ∀ name ∈ goal.names, isName name := by
    rintro goal (rfl | rfl)
    · exact htarget
    · exact hinside
  exact movesAlong_copy source target (hP.ensureParent htarget)
    (fun goal bytes hg ↦ hP.writeBytes (hgoal goal hg) bytes) fun goal d place t hlocate hg h ↦
      h.alter hP (hP.keeps_setTime t) (h.names_locate (hgoal goal hg) hlocate)

theorem keepsProper_copy (source : Path) (htarget : target.IsProper) :
    MovesAlong KeepsProper (copy source target) :=
  keepsProper_of_inherited
    (keepsInherited_copy Node.isHeritable_isProper source htarget (htarget.join _))

/-- A copied file is there afterwards, or what it was put into. -/
theorem stands_of_copy (hne : target.names ≠ []) (h : copy source target d = .ok () e) :
    e.isFile target = .ok true ∨ e.leadsToFolder target = true := by
  rcases (copied_of_ok hne h).goal with ⟨c, -, hafter, place, hlocate, hkind⟩ |
    ⟨-, ⟨name, hlast, hup, hslot⟩, bytes, -, hbytes⟩
  · have hkind' := hafter.folder hkind
    exact .inr (leadsToFolder_eq_true.2 ⟨place,
      locate_persists hafter.here_eq (fun _ ↦ hafter.folder) hlocate (by simp [hkind']), hkind'⟩)
  · exact .inl (isFile_of_readBytes (readBytes_of_bytesAt rfl (fun _ hk ↦ hk) hlast hup hslot hbytes))

end Disk

end AssetBundler
