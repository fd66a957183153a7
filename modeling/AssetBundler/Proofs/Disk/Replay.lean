import AssetBundler.Proofs.Disk.Copying

/-!
# Replaying writes

What a disk holds after some files were written is found by replaying the writes on what it held before.
A text goes through the temporary file beside its target, so writing it also takes away what stood there.
Main statements: writing a text and copying a file are single such writes, and a replay leaves the last
write of each place unless a later text was written beside it (`Disk.replay_eq_latest`).
-/

namespace AssetBundler

namespace Disk

open AssetBundler.Action

/-- One file that is written, a text by way of a temporary file. -/
structure Write where
  path : Path
  bytes : ByteArray
  isText : Bool

namespace Write

variable {here : List String}

/-- Where the file goes. -/
def goal (w : Write) (here : List String) : List String := w.path.place here

/-- Where a text is written to first. -/
def beside (w : Write) (here : List String) : List String := (temporary w.path).place here

/-- The bytes of every place after the write by those before. -/
def apply (here : List String) (held : List String → Option ByteArray) (w : Write) :
    List String → Option ByteArray :=
  Function.update (if w.isText then Function.update held (w.beside here) none else held) (w.goal here)
    (some w.bytes)

theorem apply_goal (here : List String) (held : List String → Option ByteArray) (w : Write) :
    w.apply here held (w.goal here) = some w.bytes := Function.update_self ..

theorem apply_of_ne {held : List String → Option ByteArray} {w : Write} {place : List String}
    (hgoal : w.goal here ≠ place) : w.apply here held place =
      if w.isText = true ∧ w.beside here = place then none else held place := by
  unfold apply
  rw [Function.update_of_ne hgoal.symm]
  cases w.isText with
  | false => simp
  | true =>
    by_cases hbeside : w.beside here = place
    · simp [hbeside]
    · rw [if_pos rfl, if_neg fun h ↦ hbeside h.2, Function.update_of_ne (Ne.symm hbeside)]

end Write

/-- What is held after the writes. -/
def replay (here : List String) (held : List String → Option ByteArray) (ws : List Write) :
    List String → Option ByteArray :=
  ws.foldl (Write.apply here) held

/-- The bytes of the last write to a place. -/
def latest (here : List String) (ws : List Write) (place : List String) : Option ByteArray :=
  (ws.filter fun w ↦ w.goal here = place).getLast?.map Write.bytes

section Replay

variable {here : List String} {held : List String → Option ByteArray} {ws : List Write}
  {place : List String}

theorem replay_append (vs : List Write) :
    replay here held (ws ++ vs) = replay here (replay here held ws) vs := List.foldl_append ..

theorem replay_concat (w : Write) :
    replay here held (ws ++ [w]) = w.apply here (replay here held ws) := replay_append [w]

theorem latest_concat (w : Write) : latest here (ws ++ [w]) place =
    if w.goal here = place then some w.bytes else latest here ws place := by
  unfold latest
  rw [List.filter_append]
  by_cases hgoal : w.goal here = place
  · simp [hgoal]
  · simp [hgoal]

theorem latest_ne_none : latest here ws place ≠ none ↔ ∃ w ∈ ws, w.goal here = place := by
  unfold latest
  rw [ne_eq, Option.map_eq_none_iff, List.getLast?_eq_none_iff, List.filter_eq_nil_iff]
  simp

/-- Only a write puts a file where there was none. -/
theorem exists_of_replay_ne_none (hheld : held place = none) (h : replay here held ws place ≠ none) :
    ∃ w ∈ ws, w.goal here = place := by
  induction ws using List.reverseRecOn with
  | nil => exact absurd hheld h
  | append_singleton ws w ih =>
    by_cases hgoal : w.goal here = place
    · exact ⟨w, by simp, hgoal⟩
    · rw [replay_concat, Write.apply_of_ne hgoal] at h
      split at h
      · exact absurd rfl h
      · obtain ⟨v, hv, hplace⟩ := ih h
        exact ⟨v, List.mem_append_left _ hv, hplace⟩

theorem replay_of_untouched
    (h : ∀ w ∈ ws, w.goal here ≠ place ∧ (w.isText = true → w.beside here ≠ place)) :
    replay here held ws place = held place := by
  induction ws using List.reverseRecOn with
  | nil => rfl
  | append_singleton ws w ih =>
    obtain ⟨hgoal, hbeside⟩ := h w (by simp)
    rw [replay_concat, Write.apply_of_ne hgoal, if_neg fun hand ↦ hbeside hand.1 hand.2]
    exact ih fun v hv ↦ h v (List.mem_append_left _ hv)

/-- Where nothing is written beside a text, the last write to a place is what it holds. -/
theorem replay_eq_latest (hheld : held place = none)
    (hapart : ∀ w ∈ ws, ∀ v ∈ ws, v.isText = true → w.goal here ≠ v.beside here) :
    replay here held ws place = latest here ws place := by
  induction ws using List.reverseRecOn with
  | nil => exact hheld
  | append_singleton ws w ih =>
    have hbefore := ih fun u hu v hv ↦
      hapart u (List.mem_append_left _ hu) v (List.mem_append_left _ hv)
    rw [replay_concat, latest_concat]
    by_cases hgoal : w.goal here = place
    · rw [if_pos hgoal, ← hgoal, Write.apply_goal]
    · rw [if_neg hgoal, Write.apply_of_ne hgoal]
      split
      case isTrue hbeside =>
        by_contra hne
        obtain ⟨u, hu, hplace⟩ := latest_ne_none.1 (Ne.symm hne)
        exact hapart u (List.mem_append_left _ hu) w (by simp) hbeside.1 (hplace.trans hbeside.2.symm)
      case isFalse => exact hbefore

end Replay

variable {p source target : Path} {d e : Disk}

theorem bytesAt_of_update {place : List String} {bytes : ByteArray}
    (h : e.kindAt = Function.update d.kindAt place (some (some bytes))) :
    e.bytesAt = Function.update d.bytesAt place (some bytes) := by
  funext other
  unfold bytesAt
  rw [h]
  by_cases hother : other = place
  · rw [hother, Function.update_self, Function.update_self]
    rfl
  · rw [Function.update_of_ne hother, Function.update_of_ne hother]

/-- Writing below the root gives the place its bytes. -/
theorem bytesAt_writeBytes {bytes : ByteArray} (hanchor : p.anchor ≠ .none)
    (h : writeBytes p bytes d = .ok () e) :
    e.bytesAt = (⟨p, bytes, false⟩ : Write).apply d.here d.bytesAt := by
  by_cases hne : p.names = []
  · -- the root itself, which is then a file
    have hslot : d.slot p = .ok [] := by
      unfold slot locate
      rw [hne, if_neg hanchor]
      rfl
    have hplace : p.place d.here = [] := by
      unfold Path.place
      rw [hne, if_neg hanchor]
      rfl
    have houtcome := writeOutcome p bytes d
    rw [h] at houtcome
    cases houtcome with
    | @replaced place old t hslot' hnode =>
      cases hslot.symm.trans hslot'
      have hkind := kindAt_alter_file d (kindAt_eq_file.2 ⟨t, hnode⟩) bytes d.now
      rw [bytesAt_of_update hkind, ← hplace]
      rfl
    | added hslot' hnode =>
      cases hslot.symm.trans hslot'
      exact absurd (kindAt_eq_none.2 hnode) (kindAt_nil_ne_none d)
  · obtain ⟨name, hlast, hup⟩ := exists_name_of_writeBytes hne h
    obtain ⟨above, hslot, -, -, hkind⟩ := writeBytes_ok hlast hup h
    rw [bytesAt_of_update hkind, slot_eq_place hslot]
    rfl

/-- Writing a text gives its target the bytes and takes the temporary file away. -/
theorem Written.bytesAt {text : String} (h : Written p text d e) :
    e.bytesAt = (⟨p, text.toUTF8, true⟩ : Write).apply d.here d.bytesAt := by
  funext place
  by_cases hgoal : (⟨p, text.toUTF8, true⟩ : Write).goal d.here = place
  · rw [← hgoal, Write.apply_goal]
    exact h.holds
  · rw [Write.apply_of_ne hgoal]
    by_cases hbeside : (⟨p, text.toUTF8, true⟩ : Write).beside d.here = place
    · rw [if_pos ⟨rfl, hbeside⟩, ← hbeside]
      exact h.gone
    · rw [if_neg fun hand ↦ hbeside hand.2, h.changes.bytesAt]
      rintro ⟨q, hq, rfl⟩
      rcases List.mem_pair.1 hq with rfl | rfl
      · exact hbeside rfl
      · exact hgoal rfl

/-- Where a copy goes once the folders for it are made. -/
def copyEnd (d : Disk) (source target : Path) : Path :=
  (finalState (ensureParent target d)).copyGoal source target

/-- Copying gives the bytes of the source to the place that the copy goes to. -/
theorem bytesAt_copy (hanchor : target.anchor ≠ .none) (h : copy source target d = .ok () e) :
    e.here = d.here ∧ ∃ bytes, d.bytesAt (source.place d.here) = some bytes ∧
      e.bytesAt = (⟨d.copyEnd source target, bytes, false⟩ : Write).apply d.here d.bytesAt := by
  have houtcome := copyOutcome source target d
  rw [h] at houtcome
  cases houtcome with
  | copied bytes time place c b hensure hread hwrite hlocate =>
    have hmade : ChangesOnly target.parent.upTo [] d c := (movesAlong_ensureParent target).ok hensure
    have hsame : c.bytesAt = d.bytesAt := funext fun _ ↦ hmade.bytesAt fun ⟨_, hmem, _⟩ ↦ nomatch hmem
    have hend : d.copyEnd source target = c.copyGoal source target := by
      unfold copyEnd
      rw [hensure]
      rfl
    have hgoal : (c.copyGoal source target).anchor ≠ .none := by
      unfold copyGoal Path.join
      extract_lets q
      split
      · split
        · exact hanchor
        · assumption
      · exact hanchor
    have hput : ChangesOnly [] [c.copyGoal source target] c b :=
      (movesAlong_writeBytes (List.mem_singleton_self _) bytes).ok hwrite
    refine ⟨hput.here_eq.trans hmade.here_eq, bytes, ?_, ?_⟩
    · rw [← hsame, ← hmade.here_eq]
      exact bytesAt_of_readBytes hread
    · have hstamp : (b.alter place fun n ↦ n.map (Node.setTime time)).bytesAt = b.bytesAt := by
        unfold bytesAt
        rw [kindAt_setTime]
      rw [hstamp, bytesAt_writeBytes hgoal hwrite, hend, hsame, hmade.here_eq]

end Disk

end AssetBundler
