import AssetBundler.Proofs.Disk.Refusal

/-!
# Things that are found exist

The canonical form of an anchored path that leads somewhere leads to the same place
(`Disk.exists_resolve`). So what a search path finds below anchored folders exists, and so does whatever a
lookup finds from the viewpoint of a file, unless the path that is looked up is absolute: such a path is
taken as it is (`Viewpoint.exists_of_resolve`).
-/

namespace AssetBundler

namespace Disk

open AssetBundler.Action

variable {d : Disk} {p : Path}

def Exists (d : Disk) (p : Path) : Prop := ∃ n, d.find p = .ok n

theorem find?_eq_some {n : Node} : d.find? p = .ok (some n) ↔ d.find p = .ok n := by
  unfold find?
  rcases d.find p with (_ | _ | _ | _ | _) | m <;> simp

/-- A question that nothing at a path answers with no. -/
theorem exists_of_test (test : Option Node → Bool) (hnone : test none = false)
    (h : (do return test (← d.find? p)) = Except.ok true) : d.Exists p := by
  obtain ⟨n?, hn, h⟩ := except_bind_eq_ok.1 h
  cases n? with
  | none =>
    rw [hnone] at h
    cases h
  | some n => exact ⟨n, find?_eq_some.1 hn⟩

theorem exists_of_exists? (h : d.exists? p = .ok true) : d.Exists p := exists_of_test Option.isSome rfl h

theorem exists_of_isFile (h : d.isFile p = .ok true) : d.Exists p :=
  exists_of_test (·.any Node.isFile) rfl h

theorem exists_of_isFolder (h : d.isFolder p = .ok true) : d.Exists p :=
  exists_of_test (·.any Node.isFolder) rfl h

/-- What is found as a folder can be listed. -/
theorem list_of_isFolder (h : d.isFolder p = .ok true) : ∃ entries, d.list p = .ok entries := by
  unfold isFolder at h
  obtain ⟨n?, hn, h⟩ := except_bind_eq_ok.1 h
  rcases n? with _ | ⟨bytes, t⟩ | ⟨t, entries⟩
  · cases h
  · cases h
  · unfold list
    rw [find?_eq_some.1 hn]
    exact ⟨_, rfl⟩

theorem exists_of_readText {text : String} (h : d.readText p = .ok text) : d.Exists p := by
  obtain ⟨bytes, hbytes⟩ := readBytes_of_readText h
  unfold readBytes at hbytes
  rcases hfind : d.find p with why | n
  · rw [hfind] at hbytes
    cases hbytes
  · exact ⟨n, hfind⟩

/-- The names of a place that was reached from the root lead there. -/
theorem foldlM_enter_place {names place : List String}
    (h : names.foldlM d.enter [] = .ok place) : place.foldlM d.enter [] = .ok place := by
  induction names using List.reverseRecOn generalizing place with
  | nil =>
    cases h
    rfl
  | append_singleton names name ih =>
    rw [List.foldlM_append] at h
    obtain ⟨middle, hmiddle, hlast⟩ := except_bind_eq_ok.1 h
    rw [List.foldlM_cons] at hlast
    obtain ⟨last, hlast, hrest⟩ := except_bind_eq_ok.1 hlast
    cases hrest
    have hmiddle' := ih hmiddle
    obtain ⟨-, ⟨-, rfl⟩ | ⟨hup, -, -, rfl⟩⟩ := enter_eq_ok.1 hlast
    · rcases List.eq_nil_or_concat middle with rfl | ⟨above, name, rfl⟩
      · rfl
      · -- one step less leads to the folder above, because no name of a place leads upwards
        rw [List.concat_eq_append, List.foldlM_append] at hmiddle'
        obtain ⟨before, hbefore, -⟩ := except_bind_eq_ok.1 hmiddle'
        have hno : ".." ∉ above := by
          intro hmem
          have hplace := foldlM_enter_eq_follow hmiddle
          have hin : ".." ∈ Path.follow [] names := by
            rw [← hplace, List.concat_eq_append]
            exact List.mem_append_left _ hmem
          rcases Path.mem_follow hin with hnil | ⟨-, hne⟩
          · cases hnil
          · exact hne rfl
        have heq : before = above := by
          rw [foldlM_enter_eq_follow hbefore, Path.follow_of_no_up hno, List.nil_append]
        rw [List.concat_eq_append, List.dropLast_concat]
        rwa [heq] at hbefore
    · rw [List.foldlM_append, except_bind_eq_ok]
      refine ⟨middle, hmiddle', ?_⟩
      rw [List.foldlM_cons, except_bind_eq_ok]
      exact ⟨_, hlast, rfl⟩

/-- The canonical form of an anchored path leads where the path leads. -/
theorem locate_resolve {place : List String} (hanchor : p.anchor ≠ .none) (h : d.locate p = .ok place) :
    d.locate (d.resolve p) = .ok place := by
  have hnames : (d.resolve p).names = place := (locate_eq_place h).symm
  unfold locate at h ⊢
  rw [hnames]
  rw [if_neg hanchor] at h
  exact foldlM_enter_place h

theorem exists_resolve (hanchor : p.anchor ≠ .none) (h : d.Exists p) : d.Exists (d.resolve p) := by
  obtain ⟨n, hn⟩ := h
  obtain ⟨place, hplace, hnode⟩ := except_bind_eq_ok.1 hn
  exact ⟨n, except_bind_eq_ok.2 ⟨place, locate_resolve hanchor hplace, hnode⟩⟩

end Disk

namespace SearchPath

open AssetBundler.Action

variable {s : SearchPath} {d : Disk} {preferred : List String} {index : Bool} {found : Path}

theorem anchor_join {p : Path} (h : p.anchor ≠ .none) (name : String) :
    (p.join name).anchor ≠ .none := by
  unfold Path.join
  by_cases ha : (Path.ofText name).anchor = .none
  · simp only [ha, if_true]
    exact h
  · rw [if_neg ha]
    exact ha

theorem exists_of_withIndex {p : Path} (hanchor : p.anchor ≠ .none) (hp : d.Exists p)
    (h : s.withIndex d p preferred index = .ok found) : found.anchor ≠ .none ∧ d.Exists found := by
  rcases eq_or_findIndex_of_withIndex h with rfl | hindex
  · exact ⟨hanchor, hp⟩
  · obtain ⟨x, rfl, hfile⟩ := exists_of_findIndex hindex
    exact ⟨anchor_join hanchor _, Disk.exists_of_isFile hfile⟩

theorem exists_of_resolveIn {base : Path} {name : String} (hbase : base.anchor ≠ .none)
    (h : s.resolveIn d base name preferred index = .ok (some found)) : d.Exists found := by
  obtain ⟨x, q, hexists, hq, rfl⟩ := exists_candidate_of_resolveIn h
  obtain ⟨hanchor, hleads⟩ :=
    exists_of_withIndex (anchor_join hbase _) (Disk.exists_of_exists? hexists) hq
  exact Disk.exists_resolve hanchor hleads

theorem exists_of_resolveInRoots {name : String} {roots : List Path}
    (hroots : ∀ root ∈ roots, root.anchor ≠ .none)
    (h : s.resolveInRoots d name preferred index roots = .ok (some found)) : d.Exists found := by
  obtain ⟨root, hroot, h⟩ := exists_root_of_resolveInRoots h
  exact exists_of_resolveIn (hroots root hroot) h

end SearchPath

namespace Viewpoint

open AssetBundler.Action

variable {v : Viewpoint} {site : Site} {name : String} {index : Bool} {found : Path}

/-- What is found from the viewpoint of a file exists, unless it was asked for by an absolute path. -/
theorem exists_of_resolve (hroots : ∀ root ∈ site.pipeline.searchPath.roots, root.IsCanonical)
    (hv : ∀ p, v.path = some p → p.IsCanonical) (hname : isAbsolute name = false)
    (h : v.resolve site name index = .ok (some found)) : site.disk.Exists found := by
  unfold resolve at h
  rw [Disk.orFail_eq_ok] at h
  split at h
  · rename_i current _ hcurrent
    have hparent : current.parent.anchor ≠ .none := by
      rw [Path.anchor_parent]
      exact (hv current hcurrent).anchor_ne
    exact SearchPath.exists_of_resolveIn hparent h
  · unfold SearchPath.resolve at h
    rw [hname, if_neg Bool.false_ne_true] at h
    exact SearchPath.exists_of_resolveInRoots (fun root hroot ↦ (hroots root hroot).anchor_ne) h

theorem exists_of_requireFile (h : v.requireFile site name = .ok found) :
    site.disk.Exists found := by
  obtain ⟨p, -, h⟩ := except_bind_eq_ok.1 h
  obtain ⟨isFile, hfile, h⟩ := except_bind_eq_ok.1 h
  cases isFile with
  | false => cases h
  | true =>
    cases h
    exact Disk.exists_of_isFile (Disk.orFail_eq_ok.1 hfile)

end Viewpoint

end AssetBundler
