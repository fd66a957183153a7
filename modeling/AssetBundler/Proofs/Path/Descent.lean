import AssetBundler.Proofs.Path.Search

/-!
# Paths that go straight down

A path from the root without double dots and without names that are too long leads to the place it
spells, so what stands there is all that a disk tells about it (`Disk.exists_iff_kindAt`). Two disks that
agree below a folder agree about every such path into the folder (`Disk.AgreesBelow`). A name with an ending
can spell a double dot that the name does not spell. It then spells the name first
(`Path.namesOf_prefix_of_up`), and whatever a path goes through exists (`Disk.exists_of_exists_append`), so
where it leads somewhere the name alone does so too.
-/

namespace AssetBundler

open AssetBundler.Action

namespace Text

/-- Two texts in a row share the piece at their seam. -/
theorem split_append {sep : Char} {cs ds last first : List Char} {front rest : List (List Char)}
    (hcs : split sep cs = front ++ [last]) (hds : split sep ds = first :: rest) :
    split sep (cs ++ ds) = front ++ (last ++ first) :: rest := by
  induction cs generalizing front last with
  | nil =>
    have hnil : front = [] ∧ last = [] := by
      cases front with
      | nil => exact ⟨rfl, (List.cons.inj hcs).1.symm⟩
      | cons piece front =>
        exact absurd (List.cons.inj hcs).2.symm (List.concat_ne_nil last front)
    rw [hnil.1, hnil.2]
    exact hds
  | cons c cs ih =>
    by_cases hc : c = sep
    · simp only [split, hc, if_true] at hcs
      cases front with
      | nil => exact absurd (List.cons.inj hcs).2 (split_ne_nil sep cs)
      | cons piece front =>
        obtain ⟨hpiece, hrest⟩ := List.cons.inj hcs
        rw [List.cons_append, split, if_pos hc, ih hrest, ← hpiece]
        rfl
    · cases hs : split sep cs with
      | nil => exact absurd hs (split_ne_nil sep cs)
      | cons next pieces =>
        simp only [split, hc, if_false, hs] at hcs
        cases front with
        | nil =>
          obtain ⟨hlast, hnil⟩ := List.cons.inj hcs
          have hseam : split sep (cs ++ ds) = [] ++ (next ++ first) :: rest := by
            apply ih
            rw [hs, hnil, List.nil_append]
          rw [List.cons_append, split, if_neg hc, hseam, ← hlast]
          rfl
        | cons piece front =>
          obtain ⟨hpiece, hrest⟩ := List.cons.inj hcs
          have hseam : split sep (cs ++ ds) = (next :: front) ++ (last ++ first) :: rest := by
            apply ih
            rw [hs, hrest]
            rfl
          rw [List.cons_append, split, if_neg hc, hseam, ← hpiece]
          rfl

end Text

namespace Path

variable {p : Path} {name ending : String}

/-- The names among the pieces of a text. -/
def namesIn (pieces : List (List Char)) : List String :=
  (pieces.filter fun cs ↦ !cs.isEmpty && cs != ['.']).map String.ofList

theorem namesOf_eq_namesIn (s : String) : namesOf s = namesIn (Text.split '/' s.toList) := rfl

theorem namesIn_append (front back : List (List Char)) :
    namesIn (front ++ back) = namesIn front ++ namesIn back := by
  unfold namesIn
  rw [List.filter_append, List.map_append]

theorem up_mem_namesIn {pieces : List (List Char)} : ".." ∈ namesIn pieces ↔ ['.', '.'] ∈ pieces := by
  unfold namesIn
  rw [List.mem_map]
  constructor
  · rintro ⟨piece, hpiece, heq⟩
    have hchars : piece = ['.', '.'] := by
      rw [← String.toList_ofList (l := piece), heq]
      rfl
    exact hchars ▸ (List.mem_filter.1 hpiece).1
  · intro h
    exact ⟨_, List.mem_filter.2 ⟨h, rfl⟩, rfl⟩

/-- An ending makes a double dot of a last piece that is no name, and of no other. -/
theorem namesIn_seam {last first : List Char} (hlast : last ≠ ['.', '.'])
    (h : last ++ first = ['.', '.']) : namesIn [last] = [] := by
  rcases last with _ | ⟨c, _ | ⟨second, more⟩⟩
  · rfl
  · rw [(List.cons.inj h).1]
    rfl
  · simp only [List.cons_append, List.cons.injEq, List.append_eq_nil_iff] at h
    rw [h.1, h.2.1, h.2.2.1] at hlast
    exact absurd rfl hlast

/-- A double dot that neither the name nor the ending spells stands behind all names of the name. -/
theorem namesOf_prefix_of_up (hname : ".." ∉ namesOf name) (hending : ".." ∉ namesOf ("index" ++ ending))
    (h : ".." ∈ namesOf (name ++ ending)) : namesOf name <+: namesOf (name ++ ending) := by
  obtain ⟨front, last, hlast⟩ :=
    (List.eq_nil_or_concat (Text.split '/' name.toList)).resolve_left
      (Text.split_ne_nil '/' name.toList)
  obtain ⟨first, rest, hfirst⟩ := List.exists_cons_of_ne_nil (Text.split_ne_nil '/' ending.toList)
  rw [List.concat_eq_append] at hlast
  have hindex : Text.split '/' ("index" ++ ending).toList = ("index".toList ++ first) :: rest := by
    have halone : Text.split '/' "index".toList = [] ++ ["index".toList] :=
      Text.split_of_not_mem (by decide)
    rw [String.toList_append]
    exact Text.split_append halone hfirst
  have hsplit : Text.split '/' (name ++ ending).toList = front ++ (last ++ first) :: rest := by
    rw [String.toList_append]
    exact Text.split_append hlast hfirst
  rw [namesOf_eq_namesIn, up_mem_namesIn, hlast, List.mem_append, List.mem_singleton, not_or] at hname
  rw [namesOf_eq_namesIn, up_mem_namesIn, hindex, List.mem_cons, not_or] at hending
  rw [namesOf_eq_namesIn, up_mem_namesIn, hsplit, List.mem_append, List.mem_cons] at h
  have hseam : last ++ first = ['.', '.'] :=
    ((h.resolve_left hname.1).resolve_right hending.2).symm
  have hnone : namesIn [last] = [] := namesIn_seam (fun heq ↦ hname.2 heq.symm) hseam
  rw [namesOf_eq_namesIn, namesOf_eq_namesIn, hlast, hsplit, namesIn_append, namesIn_append, hnone,
    List.append_nil]
  exact List.prefix_append ..

/-- A path from the root that goes nowhere upwards and has no name that is too long. -/
structure IsDirect (p : Path) : Prop where
  anchored : p.anchor ≠ .none
  no_up : ".." ∉ p.names
  short : ∀ name ∈ p.names, Disk.isTooLong name = false

end Path

namespace Disk

variable {d e : Disk} {p root : Path}

theorem find_eq_ok_iff_node? {n : Node} (hp : p.IsDirect) :
    d.find p = .ok n ↔ d.node? p.names = some n := by
  rw [find_eq_ok]
  constructor
  · rintro ⟨place, hplace, hnode⟩
    have hnames : place = p.names := by
      rw [locate_eq_place hplace, Path.place, if_neg hp.anchored, Path.follow_of_no_up hp.no_up,
        List.nil_append]
    exact hnames ▸ hnode
  · intro hnode
    have hkind : d.kindAt ([] ++ p.names) ≠ none := by
      rw [List.nil_append]
      exact kindAt_ne_none.2 ⟨n, hnode⟩
    refine ⟨p.names, ?_, hnode⟩
    unfold locate
    rw [if_neg hp.anchored]
    exact foldlM_enter_of_no_up hp.no_up hp.short hkind

theorem exists_iff_kindAt (hp : p.IsDirect) : d.Exists p ↔ d.kindAt p.names ≠ none := by
  rw [kindAt_ne_none]
  exact exists_congr fun n ↦ find_eq_ok_iff_node? hp

theorem holdsFile_iff_kindAt (hp : p.IsDirect) :
    d.HoldsFile p ↔ ∃ bytes, d.kindAt p.names = some (some bytes) := by
  unfold HoldsFile
  refine exists_congr fun bytes ↦ ?_
  rw [kindAt_eq_file]
  exact exists_congr fun t ↦ find_eq_ok_iff_node? hp

theorem holdsFolder_iff_kindAt (hp : p.IsDirect) : d.HoldsFolder p ↔ d.kindAt p.names = some none := by
  rw [kindAt_eq_folder]
  exact exists_congr fun t ↦ exists_congr fun entries ↦ find_eq_ok_iff_node? hp

/-- The two disks hold the same folders and the same files with the same bytes from a folder downwards. -/
def AgreesBelow (root : Path) (d e : Disk) : Prop :=
  ∀ place, root.names <+: place → e.kindAt place = d.kindAt place

section AgreesBelow

variable (h : AgreesBelow root d e) (hbelow : root.names <+: p.names) (hp : p.IsDirect)

include h hbelow hp

theorem AgreesBelow.exists_iff : e.Exists p ↔ d.Exists p := by
  rw [exists_iff_kindAt hp, exists_iff_kindAt hp, h p.names hbelow]

theorem AgreesBelow.holdsFile_iff : e.HoldsFile p ↔ d.HoldsFile p := by
  rw [holdsFile_iff_kindAt hp, holdsFile_iff_kindAt hp, h p.names hbelow]

theorem AgreesBelow.holdsFolder_iff : e.HoldsFolder p ↔ d.HoldsFolder p := by
  rw [holdsFolder_iff_kindAt hp, holdsFolder_iff_kindAt hp, h p.names hbelow]

end AgreesBelow

/-- Whatever a path goes through on its way exists. -/
theorem exists_of_exists_append {a : Anchor} {names more : List String}
    (h : d.Exists ⟨a, names ++ more⟩) : d.Exists ⟨a, names⟩ := by
  cases more with
  | nil => rwa [List.append_nil] at h
  | cons first more =>
    obtain ⟨n, hn⟩ := h
    obtain ⟨place, hplace, -⟩ := find_eq_ok.1 hn
    unfold locate at hplace
    rw [List.foldlM_append] at hplace
    obtain ⟨middle, hmiddle, hrest⟩ := except_bind_eq_ok.1 hplace
    rw [List.foldlM_cons] at hrest
    obtain ⟨next, hnext, -⟩ := except_bind_eq_ok.1 hrest
    obtain ⟨t, entries, hnode⟩ := kindAt_eq_folder.1 (enter_eq_ok.1 hnext).1
    exact ⟨_, find_eq_ok.2 ⟨middle, hmiddle, hnode⟩⟩

end Disk

end AssetBundler
