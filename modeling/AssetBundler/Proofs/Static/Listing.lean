import AssetBundler.Proofs.Disk.Existence
import AssetBundler.Proofs.Disk.Replay
import AssetBundler.Proofs.Static.Walk

/-!
# Files that are listed

What a source of static files lists are files that can be read, unless a name is too long to exist, and
they still can be read after other files were copied or the manifest was saved. Main statements:
`Static.isReadable_of_mem`, `Disk.IsReadable.copy` and `Disk.IsReadable.writeText`.
-/

namespace AssetBundler

open AssetBundler.Action

namespace Disk

variable {d e : Disk} {p : Path}

/-- There is a file to read, or a name that is too long to exist. -/
def IsReadable (d : Disk) (p : Path) : Prop := FailsOnly Error.IsTooLong (d.readBytes p)

theorem isReadable_of_locate_error (h : d.locate p = .error .nameTooLong) : d.IsReadable p := by
  unfold IsReadable readBytes find
  rw [h]
  exact .error ⟨p, rfl, exists_of_foldlM_enter h⟩

theorem isReadable_of_readBytes {bytes : ByteArray} (h : d.readBytes p = .ok bytes) :
    d.IsReadable p := by
  unfold IsReadable
  rw [h]
  exact .ok bytes

theorem isReadable_iff : d.IsReadable p ↔
    (∃ bytes, d.readBytes p = .ok bytes) ∨ d.locate p = .error .nameTooLong := by
  constructor
  · intro h
    rcases hread : d.readBytes p with why | bytes
    · right
      obtain ⟨q, rfl, -⟩ := h why hread
      unfold readBytes find at hread
      rcases hlocate : d.locate p with why | place
      · rw [hlocate] at hread
        cases hread
        rfl
      · rw [hlocate] at hread
        rcases hnode : d.node? place with _ | ⟨bytes, t⟩ | ⟨t, entries⟩ <;>
          simp [bind, Except.bind, hnode] at hread
    · exact .inl ⟨bytes, rfl⟩
  · rintro (⟨bytes, hread⟩ | hlocate)
    · exact isReadable_of_readBytes hread
    · exact isReadable_of_locate_error hlocate

/-- A place below a node is reached from there unless a name on the way is too long. -/
theorem foldlM_enter_below {place start : List String} {n m : Node} (hn : d.node? start = some n)
    (hget : Node.get? place n = some m) (hup : ".." ∉ place) :
    place.foldlM d.enter start = .ok (start ++ place) ∨
      place.foldlM d.enter start = .error .nameTooLong := by
  induction place generalizing start n with
  | nil =>
    rw [List.append_nil]
    exact .inl rfl
  | cons name place ih =>
    rw [List.mem_cons, not_or] at hup
    cases n with
    | file bytes t => cases hget
    | folder t entries =>
      obtain ⟨child, hchild, hbelow⟩ := Option.bind_eq_some_iff.1 hget
      rw [List.foldlM_cons]
      by_cases hlong : isTooLong name = true
      · have henter : d.enter start name = .error .nameTooLong := by
          unfold enter
          rw [hn]
          simp only
          rw [if_neg (Ne.symm hup.1), if_pos hlong]
        rw [henter]
        exact .inr rfl
      · have henter : d.enter start name = .ok (start ++ [name]) := by
          unfold enter
          rw [hn]
          simp only
          rw [if_neg (Ne.symm hup.1), if_neg hlong, hchild]
          rfl
        have hnode : d.node? (start ++ [name]) = some child := by
          rw [node?_append, hn, Option.bind_some]
          change (Node.Entries.get? entries name).bind (Node.get? []) = _
          rw [hchild]
          rfl
        have hrest := ih hnode hbelow hup.2
        rw [← List.append_cons] at hrest
        rw [henter]
        exact hrest

theorem isReadable_below {n : Node} (hfind : d.find p = .ok n) {place : List String}
    {bytes : ByteArray} {t : Nat} (hget : Node.get? place n = some (.file bytes t))
    (hup : ".." ∉ place) : d.IsReadable ⟨p.anchor, p.names ++ place⟩ := by
  obtain ⟨start, hlocate, hnode⟩ := find_eq_ok.1 hfind
  have hwhole : d.locate ⟨p.anchor, p.names ++ place⟩ = place.foldlM d.enter start := by
    unfold locate at hlocate ⊢
    rw [List.foldlM_append, hlocate]
    rfl
  rcases foldlM_enter_below hnode hget hup with hok | herror
  · have hend : d.node? (start ++ place) = some (.file bytes t) := by
      rw [node?_append, hnode, Option.bind_some, hget]
    exact isReadable_of_readBytes (readBytes_of_find (find_eq_ok.2 ⟨_, hwhole.trans hok, hend⟩))
  · exact isReadable_of_locate_error (hwhole.trans herror)

/-- A file stays readable while folders stay and it is not taken away. -/
theorem IsReadable.persists (hhere : e.here = d.here)
    (hfolder : ∀ place, d.kindAt place = some none → e.kindAt place = some none)
    (hbytes : d.bytesAt (p.place d.here) ≠ none → e.bytesAt (p.place d.here) ≠ none)
    (h : d.IsReadable p) : e.IsReadable p := by
  rcases isReadable_iff.1 h with ⟨bytes, hread⟩ | hlong
  · obtain ⟨place, hlocate, hkind⟩ := readBytes_eq_ok.1 hread
    rw [← locate_eq_place hlocate] at hbytes
    obtain ⟨held, hheld⟩ := Option.ne_none_iff_exists'.1 (hbytes (by simp [bytesAt_eq_some.2 hkind]))
    have hkind' := bytesAt_eq_some.1 hheld
    exact isReadable_of_readBytes (readBytes_eq_ok.2
      ⟨place, locate_persists hhere hfolder hlocate (by simp [hkind']), hkind'⟩)
  · refine isReadable_of_locate_error ?_
    unfold locate at hlong ⊢
    rw [hhere]
    obtain ⟨front, name, rest, place, hnames, hfront, henter⟩ := foldlM_enter_eq_tooLong.1 hlong
    obtain ⟨hkind, hup, hname⟩ := enter_eq_tooLong.1 henter
    exact foldlM_enter_eq_tooLong.2 ⟨front, name, rest, place, hnames,
      foldlM_enter_persists hfolder hfront (by simp [hfolder place hkind]),
      enter_eq_tooLong.2 ⟨hfolder place hkind, hup, hname⟩⟩

/-- A file stays readable when another one is copied, also over it. -/
theorem IsReadable.copy {source target : Path} (hanchor : target.anchor ≠ .none)
    (hcopy : copy source target d = .ok () e) (h : d.IsReadable p) : e.IsReadable p := by
  have hkeep : d.KeepsFiles e := (keepsFiles_copy source target).ok hcopy
  obtain ⟨hhere, bytes, -, hbytes⟩ := bytesAt_copy hanchor hcopy
  refine h.persists hhere hkeep.folder fun hheld ↦ ?_
  rw [hbytes]
  by_cases hgoal : Write.goal ⟨d.copyEnd source target, bytes, false⟩ d.here = p.place d.here
  · rw [← hgoal, Write.apply_goal]
    exact Option.some_ne_none _
  · rw [Write.apply_of_ne hgoal]
    exact hheld

/-- A file stays readable when a text is written, unless it is the temporary file. -/
theorem IsReadable.writeText {target : Path} {text : String}
    (hwrite : writeText target text d = .ok () e)
    (htemporary : (temporary target).place d.here ≠ p.place d.here) (h : d.IsReadable p) :
    e.IsReadable p := by
  have hwritten := written_of_ok hwrite
  refine h.persists hwritten.changes.here_eq (fun _ ↦ hwritten.changes.folder) fun hheld ↦ ?_
  by_cases hgoal : target.place d.here = p.place d.here
  · rw [← hgoal, hwritten.holds]
    exact Option.some_ne_none _
  · rw [hwritten.changes.bytesAt]
    · exact hheld
    · rintro ⟨q, hq, hplace⟩
      rcases List.mem_pair.1 hq with rfl | rfl
      · exact htemporary hplace.symm
      · exact hgoal hplace.symm

end Disk

namespace Static

open Disk

/-- What is listed can be read, and is the source itself or has no dotted name. -/
theorem isReadable_of_mem {d : Disk} (hd : d.top.HasDistinctNames) {p : Path} {files : List Source}
    (h : sourcesAt d p = .ok (some files)) : (∃ f, files = [f] ∧ d.IsReadable f.path) ∨
      ∀ f ∈ files, d.IsReadable f.path ∧
        ∃ above name, f.path.names = above ++ [name] ∧ isDotted name = false := by
  unfold sourcesAt at h
  obtain ⟨found, hfind, h⟩ := except_bind_eq_ok.1 h
  cases found with
  | none => cases h
  | some n =>
    have hnode := Disk.find?_eq_some.1 hfind
    cases h
    cases n with
    | file bytes t => exact .inl ⟨_, rfl, isReadable_of_readBytes (readBytes_of_find hnode)⟩
    | folder t entries =>
      right
      intro f hf
      obtain ⟨e, he, hundotted, rfl⟩ := mem_walk.1 hf
      have hne : e.1 ≠ [] := Node.ne_nil_of_mem_files he
      obtain ⟨start, -, hstart⟩ := Disk.find_eq_ok.1 hnode
      have hdistinct := Node.isHeritable_hasDistinctNames.of_get? hd start _ hstart
      obtain ⟨bytes, u, hget⟩ := Node.get?_of_mem_files hdistinct he
      refine ⟨isReadable_below hnode hget fun hup ↦ absurd (hundotted _ hup) (by decide), ?_⟩
      refine ⟨p.names ++ e.1.dropLast, e.1.getLast hne, ?_, hundotted _ (List.getLast_mem hne)⟩
      rw [List.append_assoc, List.dropLast_concat_getLast]
      rfl

end Static

end AssetBundler
