import AssetBundler.Disk.Text
import AssetBundler.Proofs.Disk.Locate
import AssetBundler.Proofs.Path.Resolution
import Mathlib.Data.List.Nodup
import Mathlib.Data.List.Perm.Basic

/-!
# Reading texts back

Writing a text stores its UTF-8 bytes as they are, reading one turns every carriage return into a line
feed. So a text is read back as it was written exactly if it has no carriage return, and a text that
was read never has one. What can be read is among the files that the disk counts
(`Disk.length_le_fileCount`).
-/

namespace AssetBundler

namespace Text

theorem not_mem_unifyNewlines (cs : List Char) : '\r' ∉ unifyNewlines cs := by
  fun_induction unifyNewlines cs with
  | case1 => exact List.not_mem_nil
  | case2 cs ih =>
    rw [List.mem_cons, not_or]
    exact ⟨by decide, ih⟩
  | case3 c cs _ ih =>
    rw [List.mem_cons, not_or]
    refine ⟨?_, ih⟩
    by_cases hc : c = '\r'
    · rw [if_pos hc]
      decide
    · rw [if_neg hc]
      exact fun heq ↦ hc heq.symm

theorem unifyNewlines_of_not_mem {cs : List Char} (h : '\r' ∉ cs) : unifyNewlines cs = cs := by
  fun_induction unifyNewlines cs with
  | case1 => rfl
  | case2 cs ih => exact absurd (List.mem_cons_self ..) h
  | case3 c cs _ ih =>
    rw [List.mem_cons, not_or] at h
    rw [if_neg (fun heq ↦ h.1 heq.symm), ih h.2]

end Text

theorem toList_unifyNewlines (s : String) :
    (unifyNewlines s).toList = Text.unifyNewlines s.toList := String.toList_ofList

theorem unifyNewlines_eq_self_iff {s : String} : unifyNewlines s = s ↔ '\r' ∉ s.toList := by
  constructor
  · intro h
    have hlist := toList_unifyNewlines s
    rw [h] at hlist
    rw [hlist]
    exact Text.not_mem_unifyNewlines s.toList
  · intro h
    unfold unifyNewlines
    rw [Text.unifyNewlines_of_not_mem h, String.ofList_toList]

/-- A text is decoded from its own bytes and from no others. -/
theorem fromUTF8?_eq_some {bytes : ByteArray} {s : String} :
    String.fromUTF8? bytes = some s ↔ bytes = s.toUTF8 := by
  unfold String.fromUTF8?
  constructor
  · intro h
    by_cases hvalid : bytes.IsValidUTF8
    · rw [dif_pos hvalid, Option.some.injEq] at h
      rw [← h]
      rfl
    · rw [dif_neg hvalid] at h
      cases h
  · rintro rfl
    rw [String.toUTF8_eq_toByteArray, dif_pos s.isValidUTF8]
    rfl

theorem toUTF8_inj {held text : String} : held.toUTF8 = text.toUTF8 ↔ held = text := by
  rw [String.toUTF8_eq_toByteArray, String.toUTF8_eq_toByteArray, String.toByteArray_inj]

namespace Disk

theorem readBytes_of_find {d : Disk} {p : Path} {bytes : ByteArray} {t : Nat}
    (h : d.find p = .ok (.file bytes t)) : d.readBytes p = .ok bytes := by
  unfold readBytes
  rw [h]

theorem time_of_find {d : Disk} {p : Path} {n : Node} (h : d.find p = .ok n) :
    d.time p = .ok n.time := by
  unfold time
  rw [h]

theorem isFile_of_find {d : Disk} {p : Path} {n : Node} (h : d.find p = .ok n) :
    d.isFile p = .ok n.isFile := by
  unfold isFile find?
  rw [h]
  rfl

theorem isFolder_of_find {d : Disk} {p : Path} {n : Node} (h : d.find p = .ok n) :
    d.isFolder p = .ok n.isFolder := by
  unfold isFolder find?
  rw [h]
  rfl

/-- The text of a file is what its bytes decode to, with line feeds for carriage returns. -/
theorem readText_of_find {d : Disk} {p : Path} {bytes : ByteArray} {t : Nat}
    (h : d.find p = .ok (.file bytes t)) :
    d.readText p = match String.fromUTF8? bytes with
      | some s => .ok (unifyNewlines s)
      | none => .error (.notText p) := by
  unfold readText
  rw [readBytes_of_find h]
  rfl

theorem readBytes_of_readText {d : Disk} {p : Path} {text : String}
    (h : d.readText p = .ok text) : ∃ bytes, d.readBytes p = .ok bytes := by
  unfold readText at h
  obtain ⟨bytes, hbytes, -⟩ := Action.except_bind_eq_ok.1 h
  cases hread : d.readBytes p with
  | ok read => exact ⟨read, rfl⟩
  | error e =>
    rw [hread] at hbytes
    cases hbytes

/-- A text that was read has no carriage return. -/
theorem not_mem_of_readText {d : Disk} {p : Path} {text : String} (h : d.readText p = .ok text) :
    '\r' ∉ text.toList := by
  unfold readText at h
  obtain ⟨bytes, -, h⟩ := Action.except_bind_eq_ok.1 h
  cases hdecoded : String.fromUTF8? bytes with
  | none =>
    rw [hdecoded] at h
    cases h
  | some s =>
    rw [hdecoded] at h
    cases h
    rw [toList_unifyNewlines]
    exact Text.not_mem_unifyNewlines s.toList

/-- A folder is listed in the order of names. -/
theorem pairwise_list {d : Disk} {p : Path} {entries : List Listed} (h : d.list p = .ok entries) :
    entries.Pairwise fun a b ↦ a.name ≤ b.name := by
  unfold list at h
  rcases hfind : d.find p with why | ⟨bytes, t⟩ | ⟨t, found⟩
  · rw [hfind] at h
    cases h
  · rw [hfind] at h
    cases h
  · rw [hfind] at h
    rw [← Except.ok.inj h]
    have hsorted : List.Pairwise (fun a b ↦ decide (a.name ≤ b.name) = true)
        ((found.map fun e ↦ (⟨e.1, p.join e.1, e.2.isFolder⟩ : Listed)).mergeSort
          fun a b ↦ a.name ≤ b.name) := by
      apply List.pairwise_mergeSort
      · intro a b c hab hbc
        rw [decide_eq_true_eq] at hab hbc ⊢
        exact String.le_trans hab hbc
      · intro a b
        rw [Bool.or_eq_true, decide_eq_true_eq, decide_eq_true_eq]
        exact String.le_total ..
    exact hsorted.imp of_decide_eq_true

end Disk

namespace Node

theorem mem_descendantsOf {entries : Entries} {name : String} {child : Node}
    (h : Entries.get? entries name = some child) :
    ([name], child) ∈ descendantsOf entries ∧ ∀ names n, (names, n) ∈ descendants child →
      (name :: names, n) ∈ descendantsOf entries := by
  induction entries with
  | nil => cases h
  | cons entry entries ih =>
    obtain ⟨first, node⟩ := entry
    unfold descendantsOf
    rw [Entries.get?_cons] at h
    by_cases hfirst : first = name
    · rw [if_pos hfirst, Option.some.injEq] at h
      have hnode : node = child := h
      rw [hfirst, hnode]
      refine ⟨List.mem_cons_self .., fun names n hmem ↦ ?_⟩
      exact List.mem_cons_of_mem _ (List.mem_append_left _ (List.mem_map.2 ⟨(names, n), hmem, rfl⟩))
    · rw [if_neg hfirst] at h
      obtain ⟨hself, hbelow⟩ := ih h
      refine ⟨List.mem_cons_of_mem _ (List.mem_append_right _ hself), fun names n hmem ↦ ?_⟩
      exact List.mem_cons_of_mem _ (List.mem_append_right _ (hbelow names n hmem))

/-- Whatever stands at a place below a node is among its descendants. -/
theorem mem_descendants {n m : Node} {names : List String} (h : get? names n = some m)
    (hne : names ≠ []) : (names, m) ∈ descendants n := by
  induction names generalizing n with
  | nil => exact absurd rfl hne
  | cons name names ih =>
    cases n with
    | file bytes t => cases h
    | folder t entries =>
      unfold get? at h
      obtain ⟨child, hchild, h⟩ := Option.bind_eq_some_iff.1 h
      obtain ⟨hself, hbelow⟩ := mem_descendantsOf hchild
      unfold descendants
      cases names with
      | nil =>
        cases h
        exact hself
      | cons next names => exact hbelow _ _ (ih h (List.cons_ne_nil next names))

end Node

namespace Disk

variable {d : Disk} {ps : List Path}

/-- What can be read at a canonical path is counted, unless it is the root itself. -/
theorem names_mem_files {p : Path} {bytes : ByteArray} (hp : p.IsCanonical)
    (h : d.readBytes p = .ok bytes) :
    p.names = [] ∧ d.top.isFile = true ∨ p.names ∈ d.top.files.map Prod.fst := by
  obtain ⟨place, hplace, hkind⟩ := readBytes_eq_ok.1 h
  obtain ⟨t, hnode⟩ := kindAt_eq_file.1 hkind
  rw [← hp.place_eq d.here, ← locate_eq_place hplace]
  by_cases hroot : place = []
  · refine .inl ⟨hroot, ?_⟩
    have htop : d.top = .file bytes t := by
      rw [hroot] at hnode
      exact Option.some.inj hnode
    rw [htop]
    rfl
  · refine .inr (List.mem_map.2 ⟨(place, .file bytes t), ?_, rfl⟩)
    exact List.mem_filter.2 ⟨Node.mem_descendants hnode hroot, rfl⟩

theorem nodup_map_names (hnodup : ps.Nodup) (hcanonical : ∀ p ∈ ps, p.IsCanonical) :
    (ps.map Path.names).Nodup := by
  refine hnodup.map_on fun p hp q hq h ↦ ?_
  rw [(hcanonical p hp).eq_absolute, (hcanonical q hq).eq_absolute, h]

/-- Canonical paths that are pairwise different are not more than the places that they can have. -/
theorem length_le_of_names_mem (hnodup : ps.Nodup) (hcanonical : ∀ p ∈ ps, p.IsCanonical)
    {places : List (List String)} (h : ∀ p ∈ ps, p.names ∈ places) : ps.length ≤ places.length := by
  have hsubset : ps.map Path.names ⊆ places := by
    intro names hnames
    obtain ⟨p, hp, rfl⟩ := List.mem_map.1 hnames
    exact h p hp
  have hlength := (List.subperm_of_subset (nodup_map_names hnodup hcanonical) hsubset).length_le
  rwa [List.length_map] at hlength

/-- Canonical paths of files that are pairwise different are not more than the files of the disk; the
root could be one file more. -/
theorem length_le_fileCount (hnodup : ps.Nodup) (hcanonical : ∀ p ∈ ps, p.IsCanonical)
    (hfiles : ∀ p ∈ ps, ∃ bytes, d.readBytes p = .ok bytes) : ps.length ≤ d.fileCount + 1 := by
  have hplaces : ∀ p ∈ ps, p.names ∈ [] :: d.top.files.map Prod.fst := by
    intro p hp
    obtain ⟨bytes, hbytes⟩ := hfiles p hp
    rcases names_mem_files (hcanonical p hp) hbytes with ⟨hroot, -⟩ | hmem
    · rw [hroot]
      exact List.mem_cons_self ..
    · exact List.mem_cons_of_mem _ hmem
  have hlength := length_le_of_names_mem hnodup hcanonical hplaces
  rwa [List.length_cons, List.length_map] at hlength

/-- Below a root folder they are not more than the files. -/
theorem length_le_fileCount_of_isFolder (htop : d.top.isFolder = true) (hnodup : ps.Nodup)
    (hcanonical : ∀ p ∈ ps, p.IsCanonical)
    (hfiles : ∀ p ∈ ps, ∃ bytes, d.readBytes p = .ok bytes) : ps.length ≤ d.fileCount := by
  have hplaces : ∀ p ∈ ps, p.names ∈ d.top.files.map Prod.fst := by
    intro p hp
    obtain ⟨bytes, hbytes⟩ := hfiles p hp
    rcases names_mem_files (hcanonical p hp) hbytes with ⟨-, hfile⟩ | hmem
    · cases htop' : d.top with
      | file bytes t =>
        rw [htop'] at htop
        cases htop
      | folder t entries =>
        rw [htop'] at hfile
        cases hfile
    · exact hmem
  have hlength := length_le_of_names_mem hnodup hcanonical hplaces
  rwa [List.length_map] at hlength

end Disk

end AssetBundler
