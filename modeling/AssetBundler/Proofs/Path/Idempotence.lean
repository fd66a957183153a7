import AssetBundler.Proofs.Path.Search

/-!
# Looking up what was found

What a search finds is canonical, and looking its text up again finds it again, except in one case
(`SearchPath.resolve_again_iff`): an absolute path that leads nowhere as it is written is taken as it is,
and its canonical form can be a folder with an index file. For a path that leads somewhere, the canonical
form leads to the same place, and so does everything that is looked for below it.
-/

namespace AssetBundler

open AssetBundler.Action AssetBundler.Path

namespace Disk

variable {d : Disk} {p q : Path} {name : String} {b : Bool}

theorem locate_join (hname : name.toList.head? ≠ some '/') :
    d.locate (p.join name) = (do (namesOf name).foldlM d.enter (← d.locate p)) := by
  rw [join_of_head hname]
  exact List.foldlM_append

/-- Below the canonical form of a path stands what stands below the path. -/
theorem find_join_resolve (hanchor : p.anchor ≠ .none) (h : d.Exists p)
    (hname : name.toList.head? ≠ some '/') : d.find ((d.resolve p).join name) = d.find (p.join name) := by
  obtain ⟨n, hn⟩ := h
  obtain ⟨place, hplace, -⟩ := find_eq_ok.1 hn
  unfold find
  rw [locate_join hname, locate_join hname, hplace, locate_resolve hanchor hplace]

theorem find_resolve (hanchor : p.anchor ≠ .none) (h : d.Exists p) :
    d.find (d.resolve p) = d.find p := by
  obtain ⟨n, hn⟩ := h
  obtain ⟨place, hplace, -⟩ := find_eq_ok.1 hn
  unfold find
  rw [hplace, locate_resolve hanchor hplace]

theorem isFile_congr (h : d.find p = d.find q) : d.isFile p = .ok b ↔ d.isFile q = .ok b := by
  rw [isFile_eq_ok, isFile_eq_ok]
  unfold Answers HoldsFile
  rw [h]

theorem isFolder_congr (h : d.find p = d.find q) : d.isFolder p = .ok b ↔ d.isFolder q = .ok b := by
  rw [isFolder_eq_ok, isFolder_eq_ok]
  unfold Answers HoldsFolder
  rw [h]

/-- The canonical form of a file is no folder. -/
theorem isFolder_resolve_of_isFile (hanchor : p.anchor ≠ .none) (h : d.isFile p = .ok true) :
    d.isFolder (d.resolve p) = .ok false := by
  apply isFolder_of_isFile
  rwa [isFile_congr (find_resolve hanchor (exists_of_isFile h))]

end Disk

namespace SearchPath

variable {s : SearchPath} {d : Disk} {preferred : List String} {index : Bool} {logical : String}
  {p q found : Path}

theorem findIndex_of_some (h : s.findIndex d p preferred = .ok (some q)) :
    q.anchor = p.anchor ∧ d.isFile q = .ok true := by
  obtain ⟨x, rfl, hfile⟩ := exists_of_findIndex h
  exact ⟨by rw [join_index], hfile⟩

/-- What the index rule makes of an existing path stands for itself in canonical form. -/
theorem withIndex_resolve (hanchor : p.anchor ≠ .none) (hp : d.Exists p)
    (h : s.withIndex d p preferred true = .ok found) :
    d.isFolder (d.resolve found) = .ok false ∨ d.isFolder (d.resolve found) = .ok true ∧
      s.findIndex d (d.resolve found) preferred = .ok none := by
  rcases withIndex_true_eq_ok.1 h with ⟨hfolder, rfl⟩ | ⟨hfolder, ⟨hnone, rfl⟩ | hfound⟩
  · exact .inl ((Disk.isFolder_congr (Disk.find_resolve hanchor hp)).2 hfolder)
  · refine .inr ⟨(Disk.isFolder_congr (Disk.find_resolve hanchor hp)).2 hfolder, ?_⟩
    rw [findIndex_eq_none] at hnone ⊢
    intro x hx
    have hhead : ("index" ++ x).toList.head? ≠ some '/' := head_index x
    exact (Disk.isFile_congr (Disk.find_join_resolve hanchor hp hhead)).2 (hnone x hx)
  · obtain ⟨heq, hfile⟩ := findIndex_of_some hfound
    exact .inl (Disk.isFolder_resolve_of_isFile (heq ▸ hanchor) hfile)

/-- An absolute path is looked up by the index rule alone. -/
theorem resolve_eq_some_of_isAbsolute (h : isAbsolute logical = true) :
    s.resolve d logical preferred index = .ok (some q) ↔
      ∃ found, s.withIndex d (ofText logical) preferred index = .ok found ∧ q = d.resolve found := by
  unfold resolve
  rw [if_pos h, except_bind_eq_ok]
  refine exists_congr fun found ↦ and_congr_right fun _ ↦ ?_
  simp [pure, Except.pure, eq_comm]

/-- What is found below anchored folders is what the index rule makes of an existing path. -/
theorem exists_hit_of_resolveInRoots {name : String} {roots : List Path}
    (hroots : ∀ root ∈ roots, root.anchor ≠ .none)
    (h : s.resolveInRoots d name preferred index roots = .ok (some q)) :
    ∃ p found, p.anchor ≠ .none ∧ d.Exists p ∧ s.withIndex d p preferred index = .ok found ∧
      q = d.resolve found := by
  obtain ⟨root, hroot, h⟩ := exists_root_of_resolveInRoots h
  obtain ⟨x, found, hexists, hfound, hq⟩ := exists_candidate_of_resolveIn h
  exact ⟨_, found, anchor_join (hroots root hroot) _, Disk.exists_of_exists? hexists, hfound, hq⟩

/-- The text of a canonical path is looked up by the index rule alone. -/
theorem resolve_text_eq_self_iff (hq : q.IsCanonical) :
    s.resolve d q.text preferred index = .ok (some q) ↔ index = false ∨ d.isFolder q = .ok false ∨
      d.isFolder q = .ok true ∧ s.findIndex d q preferred = .ok none := by
  have hself : d.resolve q = q := hq.resolve_eq d.here
  rw [resolve_eq_some_of_isAbsolute hq.isAbsolute_text, hq.ofText_text]
  cases index with
  | false => exact iff_of_true ⟨q, rfl, hself.symm⟩ (.inl rfl)
  | true =>
    rw [or_iff_right (by decide)]
    constructor
    · rintro ⟨found, hfound, heq⟩
      rcases withIndex_true_eq_ok.1 hfound with ⟨hfolder, -⟩ | ⟨hfolder, ⟨hnone, -⟩ | hindex⟩
      · exact .inl hfolder
      · exact .inr ⟨hfolder, hnone⟩
      · -- the index file of a folder is not the folder
        obtain ⟨hanchor, hfile⟩ := findIndex_of_some hindex
        have hno := Disk.isFolder_resolve_of_isFile (hanchor ▸ hq.anchor_ne) hfile
        rw [← heq, hfolder] at hno
        cases hno
    · rintro (hfolder | ⟨hfolder, hnone⟩)
      · exact ⟨q, withIndex_true_eq_ok.2 (.inl ⟨hfolder, rfl⟩), hself.symm⟩
      · exact ⟨q, withIndex_true_eq_ok.2 (.inr ⟨hfolder, .inl ⟨hnone, rfl⟩⟩), hself.symm⟩

/-- A path with a leading slash starts at the root. -/
theorem anchor_ofText_of_slash (h : logical.toList.head? = some '/') : (ofText logical).anchor ≠ .none := by
  change Anchor.ofText logical.toList ≠ .none
  cases hchars : logical.toList with
  | nil =>
    rw [hchars] at h
    cases h
  | cons c cs =>
    rw [hchars] at h
    rw [Option.some.inj h]
    unfold Anchor.ofText
    split <;> simp_all

theorem exists_hit_of_resolve (hroots : ∀ root ∈ s.roots, root.anchor ≠ .none)
    (hform : isAbsolute logical = false ∨ logical.toList.head? = some '/')
    (hleads : isAbsolute logical = false ∨ d.Exists (ofText logical))
    (h : s.resolve d logical preferred index = .ok (some q)) :
    ∃ p found, p.anchor ≠ .none ∧ d.Exists p ∧ s.withIndex d p preferred index = .ok found ∧
      q = d.resolve found := by
  cases habsolute : isAbsolute logical with
  | false =>
    rw [resolve_of_relative habsolute] at h
    exact exists_hit_of_resolveInRoots hroots h
  | true =>
    rw [habsolute] at hform hleads
    obtain ⟨found, hfound, hq⟩ := (resolve_eq_some_of_isAbsolute habsolute).1 h
    exact ⟨_, found, anchor_ofText_of_slash (hform.resolve_left (by decide)),
      hleads.resolve_left (by decide), hfound, hq⟩

/-- What is found is canonical, and exists unless it was asked for by an absolute path. It is found again under
its own text unless the index rule, asked for an absolute path that leads nowhere, has passed over the index
file of the folder that the path names in canonical form. -/
theorem resolve_again_iff (hhere : ∀ name ∈ d.here, IsName name ∧ name ≠ "..")
    (hroots : ∀ root ∈ s.roots, root.IsCanonical)
    (hform : isAbsolute logical = false ∨ logical.toList.head? = some '/')
    (h : s.resolve d logical preferred index = .ok (some q)) :
    q.IsCanonical ∧ (isAbsolute logical = false → d.Exists q) ∧
    (s.resolve d q.text preferred index = .ok (some q) ↔
      index = false ∨ isAbsolute logical = false ∨ d.Exists (ofText logical) ∨
      d.isFolder q = .ok false ∨ d.isFolder q = .ok true ∧
        ∀ x ∈ s.order preferred, d.isFile (q.join ("index" ++ x)) = .ok false) := by
  have hanchored : ∀ root ∈ s.roots, root.anchor ≠ .none := fun root hroot ↦ (hroots root hroot).anchor_ne
  have hq := isCanonical_of_resolve hhere (fun root hroot ↦ (hroots root hroot).proper) h
  refine ⟨hq, fun hrelative ↦ ?_, ?_⟩
  · rw [resolve_of_relative hrelative] at h
    exact exists_of_resolveInRoots hanchored h
  · rw [← findIndex_eq_none, resolve_text_eq_self_iff hq]
    constructor
    · exact Or.imp_right fun hsettled ↦ .inr (.inr hsettled)
    · rintro (hindex | hleads)
      · exact .inl hindex
      · rw [← or_assoc] at hleads
        refine hleads.elim (fun hleads ↦ ?_) Or.inr
        obtain ⟨p, found, hanchor, hp, hfound, rfl⟩ := exists_hit_of_resolve hanchored hform hleads h
        cases index with
        | false => exact .inl rfl
        | true => exact .inr (withIndex_resolve hanchor hp hfound)

/-- A search root that holds a folder with an index file. -/
def nook : Disk where
  top := .folder 1 [("src", .folder 1 [("lib", .folder 1 [("index.js", .file "L();\n".toUTF8 1)])])]
  here := []
  now := 1

theorem resolve_again_nook :
    let s := create [] [.absolute ["src"]] [".js"]
    let found := Path.absolute ["src", "lib", "index.js"]
    (∀ name ∈ nook.here, IsName name ∧ name ≠ "..") ∧ (∀ root ∈ s.roots, root.IsCanonical) ∧
    isAbsolute "lib" = false ∧ s.resolve nook "lib" [] true = .ok (some found) ∧ found.IsCanonical ∧
    nook.Exists found ∧ s.resolve nook found.text [] true = .ok (some found) := by
  intro s found
  have hhere : ∀ name ∈ nook.here, IsName name ∧ name ≠ ".." := List.forall_mem_nil _
  have hroots : ∀ root ∈ s.roots, root.IsCanonical := by
    intro root hroot
    rw [List.mem_singleton.1 hroot]
    refine isCanonical_resolve (fun name hname ↦ ?_) (List.forall_mem_nil _)
    rw [List.mem_singleton.1 hname]
    exact ⟨by decide, by decide, by decide⟩
  have hfound : s.resolve nook "lib" [] true = .ok (some found) := eq_ok_of_toOption (by decide +kernel)
  obtain ⟨hcanonical, hexists, hagain⟩ := resolve_again_iff hhere hroots (.inl (by decide)) hfound
  exact ⟨hhere, hroots, by decide, hfound, hcanonical, hexists (by decide),
    hagain.2 (.inr (.inl (by decide)))⟩

/-- The folder is found through a missing one, and under its own text its index file. -/
theorem resolve_through_missing :
    let s := create [] [.absolute ["src"]] [".js"]
    s.resolve nook "/src/missing/../lib" [] true = .ok (some (.absolute ["src", "lib"])) ∧
    (Path.absolute ["src", "lib"]).text = "/src/lib" ∧
    s.resolve nook "/src/lib" [] true = .ok (some (.absolute ["src", "lib", "index.js"])) :=
  ⟨eq_ok_of_toOption (by decide +kernel), by decide, eq_ok_of_toOption (by decide +kernel)⟩

end SearchPath

end AssetBundler
