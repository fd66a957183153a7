import AssetBundler.Proofs.Disk.Frame
import AssetBundler.Proofs.Disk.Reading
import AssetBundler.Proofs.Path.Resolution

/-!
# Removing files and clearing folders

Removing a file that can be removed takes away the kind of its place and nothing else, and afterwards
there is no file under its path; clearing a folder takes away everything below its place. Where either
fails, the disk is as it was.
-/

namespace AssetBundler

namespace Disk

open AssetBundler.Action

variable {d e : Disk} {p : Path}

/-- Without double dots a path leads to its place as soon as something is there. -/
theorem locate_of_no_up {d e : Disk} {p : Path} {place : List String} (hup : ".." ∉ p.names)
    (hhere : e.here = d.here) (h : e.locate p = .ok place) (hk : d.kindAt place ≠ none) :
    d.locate p = .ok place := by
  have hplace : place = (if p.anchor = .none then d.here else []) ++ p.names := by
    rw [locate_eq_place h, hhere]
    exact Path.follow_of_no_up hup
  unfold locate at h
  have hlong := not_isTooLong_of_foldlM_enter hup h
  rw [hplace] at hk ⊢
  exact foldlM_enter_of_no_up hup hlong hk

theorem ask_of_ok {α : Type} {question : Disk → Except Error α} {a : α} (h : question d = .ok a) :
    ask question d = .ok a d := by
  unfold ask
  rw [h]

theorem ask_of_error {α : Type} {question : Disk → Except Error α} {why : Error}
    (h : question d = .error why) : ask question d = .error why d := by
  unfold ask
  rw [h]

/-- Looking for something is refused for names that are too long only. -/
theorem find?_cases (d : Disk) (p : Path) :
    (∃ n, d.find p = .ok n) ∨ d.find? p = .ok none ∨ d.find? p = .error (.refused .nameTooLong p) := by
  unfold find?
  rcases d.find p with why | n
  · cases why
    case nameTooLong => exact .inr (.inr rfl)
    all_goals exact .inr (.inl rfl)
  · exact .inl ⟨n, rfl⟩

theorem find_of_readBytes {bytes : ByteArray} (h : d.readBytes p = .ok bytes) :
    ∃ t, d.find p = .ok (.file bytes t) := by
  unfold readBytes at h
  rcases hfind : d.find p with why | ⟨held, t⟩ | ⟨t, entries⟩
  · rw [hfind] at h
    cases h
  · rw [hfind] at h
    cases h
    exact ⟨t, rfl⟩
  · rw [hfind] at h
    cases h

theorem isFile_of_readBytes {bytes : ByteArray} (h : d.readBytes p = .ok bytes) :
    d.isFile p = .ok true := by
  obtain ⟨t, hfind⟩ := find_of_readBytes h
  rw [isFile_of_find hfind]
  rfl

theorem isFile_cases (d : Disk) (p : Path) :
    (∃ bytes, d.readBytes p = .ok bytes) ∨ d.isFile p = .ok false ∨
      d.isFile p = .error (.refused .nameTooLong p) := by
  rcases find?_cases d p with ⟨⟨bytes, t⟩ | ⟨t, entries⟩, hfind⟩ | hnone | herror
  · exact .inl ⟨bytes, readBytes_of_find hfind⟩
  · rw [isFile_of_find hfind]
    exact .inr (.inl rfl)
  · unfold isFile
    rw [hnone]
    exact .inr (.inl rfl)
  · unfold isFile
    rw [herror]
    exact .inr (.inr rfl)

/-- What removing a file comes to. -/
theorem remove_cases (p : Path) (d : Disk) :
    (remove p d = .ok false d ∧ d.isFile p = .ok false) ∨
    (∃ place bytes, d.locate p = .ok place ∧ d.kindAt place = some (some bytes) ∧
      remove p d = .ok true (d.detach place)) ∨
    (remove p d = .error (.refused .isFolder p) d ∧ d.isFile p = .ok false ∧
      d.isFolder p = .ok true) ∨
    remove p d = .error (.refused .nameTooLong p) d ∧
      d.isFile p = .error (.refused .nameTooLong p) := by
  rcases find?_cases d p with ⟨n, hfind⟩ | hnone | herror
  · obtain ⟨place, hlocate, hnode⟩ := find_eq_ok.1 hfind
    have hexists : ask (exists? · p) d = .ok true d := by
      apply ask_of_ok
      unfold exists? find?
      rw [hfind]
      rfl
    have hplace := refuseIfError_of_ok hlocate p d
    unfold remove
    rw [bind_of_ok hexists]
    simp only [if_true]
    rw [bind_of_ok (get_apply d), bind_of_ok hplace]
    cases n with
    | file bytes t =>
      right
      left
      refine ⟨place, bytes, hlocate, kindAt_eq_file.2 ⟨t, hnode⟩, ?_⟩
      simp only [hnode]
      rfl
    | folder t entries =>
      right
      right
      left
      refine ⟨?_, by rw [isFile_of_find hfind]; rfl, isFolder_of_find hfind⟩
      simp only [hnode]
      rfl
  · have hexists : ask (exists? · p) d = .ok false d := by
      apply ask_of_ok
      unfold exists?
      rw [hnone]
      rfl
    left
    unfold remove isFile
    rw [bind_of_ok hexists, hnone]
    exact ⟨rfl, rfl⟩
  · have hexists : ask (exists? · p) d = .error (.refused .nameTooLong p) d := by
      apply ask_of_error
      unfold exists?
      rw [herror]
      rfl
    right
    right
    right
    unfold remove isFile
    rw [bind_of_error hexists, herror]
    exact ⟨rfl, rfl⟩

/-- A file that is taken away is not there any more. -/
theorem kindAt_detach_of_locate {place : List String} {bytes : ByteArray} {name : String}
    (hlast : p.names.getLast? = some name) (hup : name ≠ "..") (hlocate : d.locate p = .ok place)
    (hkind : d.kindAt place = some (some bytes)) :
    (d.detach place).kindAt = Function.update d.kindAt place none := by
  obtain ⟨above, rfl⟩ : ∃ above, place = above ++ [name] := by
    rw [locate_eq_place hlocate, place_eq_append hlast hup]
    exact ⟨_, rfl⟩
  have hfolder := kindAt_dropLast (by simp [hkind] : d.kindAt (above ++ [name]) ≠ none) (by simp)
  rw [List.dropLast_concat] at hfolder
  exact kindAt_detach d hfolder name (by simp [hkind])

theorem isFile_detach {place : List String} {bytes : ByteArray} {name : String}
    (hlast : p.names.getLast? = some name) (hup : name ≠ "..") (hlocate : d.locate p = .ok place)
    (hkind : d.kindAt place = some (some bytes)) : (d.detach place).isFile p = .ok false := by
  have hdetach := kindAt_detach_of_locate hlast hup hlocate hkind
  have hkeeps : ∀ other, d.kindAt other = some none → (d.detach place).kindAt other = some none := by
    intro other hother
    rw [hdetach, Function.update_of_ne]
    · exact hother
    · rintro rfl
      rw [hkind] at hother
      cases hother
  unfold locate at hlocate
  rw [names_eq_append hlast, List.foldlM_append, except_bind_eq_ok] at hlocate
  obtain ⟨above, habove, hstep⟩ := hlocate
  rw [List.foldlM_cons, except_bind_eq_ok] at hstep
  obtain ⟨next, hnext, hrest⟩ := hstep
  cases hrest
  obtain ⟨hfolder, ⟨heq, -⟩ | ⟨-, hlong, -, rfl⟩⟩ := enter_eq_ok.1 hnext
  · exact absurd heq hup
  have habove' : p.parent.names.foldlM (d.detach (above ++ [name])).enter
      (if p.anchor = .none then d.here else []) = .ok above :=
    foldlM_enter_persists hkeeps habove (by simp [hkeeps above hfolder])
  obtain ⟨t, entries, hnode⟩ := kindAt_eq_folder.1 (hkeeps above hfolder)
  have hgone : Node.Entries.get? entries name = none := by
    have hkind' : (d.detach (above ++ [name])).kindAt (above ++ [name]) = none := by
      rw [hdetach, Function.update_self]
    rw [kindAt_eq_none, node?_append, hnode] at hkind'
    simpa [Node.get?] using hkind'
  have henter : (d.detach (above ++ [name])).enter above name = .error .notFound := by
    unfold enter
    simp [hnode, hup, hlong, hgone]
  have hfind : (d.detach (above ++ [name])).find p = .error .notFound := by
    unfold find locate
    rw [names_eq_append hlast, List.foldlM_append, here_detach, habove']
    change (do let place ← [name].foldlM (d.detach (above ++ [name])).enter above; _) = _
    rw [List.foldlM_cons, henter]
    rfl
  unfold isFile find?
  rw [hfind]
  rfl

/-- A folder without its entries. -/
theorem kindAt_clear (d : Disk) {place : List String} (h : d.kindAt place = some none)
    (f : Option Node → Option Node)
    (hf : ∀ t entries, ∃ t', f (some (.folder t entries)) = some (.folder t' [])) :
    (d.alter place f).kindAt = fun other ↦
      if place <+: other ∧ place ≠ other then none else d.kindAt other := by
  obtain ⟨t, entries, hnode⟩ := kindAt_eq_folder.1 h
  obtain ⟨t', hf⟩ := hf t entries
  have hself : (d.alter place f).node? place = some (.folder t' []) := by
    rcases List.eq_nil_or_concat place with rfl | ⟨above, name, rfl⟩
    · have htop : d.top = .folder t entries := Option.some.inj hnode
      unfold alter node? 
      simp [Node.alter, htop, hf, Node.get?]
    · rw [List.concat_eq_append] at h hnode ⊢
      have hfolder := kindAt_dropLast (by simp [h] : d.kindAt (above ++ [name]) ≠ none) (by simp)
      rw [List.dropLast_concat] at hfolder
      rw [node?_alter_self d hfolder, hnode, hf]
  funext other
  by_cases hp : place <+: other
  · obtain ⟨rest, rfl⟩ := hp
    cases rest with
    | nil =>
      rw [List.append_nil, if_neg (by simp), h]
      exact kindAt_eq_folder.2 ⟨t', [], hself⟩
    | cons name rest =>
      rw [if_pos ⟨List.prefix_append .., by simp⟩, kindAt_eq_none, node?_append, hself]
      simp [Node.get?, Node.Entries.get?]
  · rw [if_neg (fun hand ↦ hp hand.1)]
    rcases List.eq_nil_or_concat place with rfl | ⟨above, name, rfl⟩
    · exact absurd List.nil_prefix hp
    · rw [List.concat_eq_append] at hp ⊢
      exact kindAt_alter_apart d above name f hp

/-- What clearing a folder comes to. -/
theorem clear_cases (p : Path) (d : Disk) :
    (clear p d = .ok () d ∧ d.isFolder p = .ok false) ∨
    (∃ place e, d.locate p = .ok place ∧ d.kindAt place = some none ∧ clear p d = .ok () e ∧
      e.here = d.here ∧ e.now = d.now ∧ e.kindAt = fun other ↦
        if place <+: other ∧ place ≠ other then none else d.kindAt other) ∨
    clear p d = .error (.refused .nameTooLong p) d ∧
      d.isFolder p = .error (.refused .nameTooLong p) := by
  rcases find?_cases d p with ⟨⟨bytes, t⟩ | ⟨t, entries⟩, hfind⟩ | hnone | herror
  · left
    unfold clear
    rw [bind_of_ok (ask_of_ok (isFolder_of_find hfind))]
    exact ⟨rfl, isFolder_of_find hfind⟩
  · obtain ⟨place, hlocate, hnode⟩ := find_eq_ok.1 hfind
    have hplace := refuseIfError_of_ok hlocate p d
    have hkind : d.kindAt place = some none := kindAt_eq_folder.2 ⟨t, entries, hnode⟩
    right
    left
    refine ⟨place, ?after, hlocate, hkind, ?clear, ?here, ?now, ?kind⟩
    case clear =>
      have hfolder : ask (isFolder · p) d = .ok true d := ask_of_ok (isFolder_of_find hfind)
      unfold clear
      rw [bind_of_ok hfolder]
      simp only [if_true]
      rw [bind_of_ok (get_apply d), bind_of_ok hplace]
      rfl
    case here => rfl
    case now => rfl
    case kind => exact kindAt_clear d hkind _ fun _ _ ↦ ⟨_, rfl⟩
  · have hfolder : ask (isFolder · p) d = .ok false d := by
      apply ask_of_ok
      unfold isFolder
      rw [hnone]
      rfl
    left
    unfold clear
    rw [bind_of_ok hfolder]
    unfold isFolder
    rw [hnone]
    exact ⟨rfl, rfl⟩
  · have hfolder : ask (isFolder · p) d = .error (.refused .nameTooLong p) d := by
      apply ask_of_error
      unfold isFolder
      rw [herror]
      rfl
    right
    right
    unfold clear
    rw [bind_of_error hfolder]
    unfold isFolder
    rw [herror]
    exact ⟨rfl, rfl⟩

end Disk

end AssetBundler
