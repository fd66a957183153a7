import AssetBundler.Proofs.Disk.Sound
import AssetBundler.Proofs.Path.Search

/-!
# The list of a folder

On a sound disk a folder lists its entries in the order of their names, each of them once, and leaves none
out (`Disk.exists_list`).
-/

namespace AssetBundler

open AssetBundler.Path

namespace Node

theorem get?_of_mem {entries : Entries} (h : AreDistinct entries) {name : String} {n : Node}
    (hmem : (name, n) ∈ entries) : Entries.get? entries name = some n := by
  induction entries with
  | nil => cases hmem
  | cons first rest ih =>
    rw [Entries.get?_cons]
    rcases List.mem_cons.1 hmem with rfl | hrest
    · rw [if_pos rfl]
    · rw [if_neg (h.1 _ hrest).symm, ih h.2.2 hrest]

theorem mem_of_get? {entries : Entries} {name : String} {n : Node}
    (h : Entries.get? entries name = some n) : (name, n) ∈ entries := by
  unfold Entries.get? at h
  obtain ⟨e, hfind, rfl⟩ := Option.map_eq_some_iff.1 h
  have hname := List.find?_some hfind
  rw [decide_eq_true_eq] at hname
  rw [← hname]
  exact List.mem_of_find?_eq_some hfind

theorem nodup_of_areDistinct {entries : Entries} (h : AreDistinct entries) :
    (entries.map Prod.fst).Nodup := by
  induction entries with
  | nil => exact List.nodup_nil
  | cons first rest ih =>
    rw [List.map_cons, List.nodup_cons]
    refine ⟨fun hmem ↦ ?_, ih h.2.2⟩
    obtain ⟨e, he, hname⟩ := List.mem_map.1 hmem
    exact h.1 e he hname

end Node

namespace Disk

variable {d : Disk} {p : Path}

theorem node?_of_holdsFolder (hp : p.IsCanonical) (h : d.HoldsFolder p) :
    ∃ t entries, d.find p = .ok (.folder t entries) ∧ d.node? p.names = some (.folder t entries) := by
  obtain ⟨t, entries, hfind⟩ := h
  obtain ⟨place, hplace, hnode⟩ := find_eq_ok.1 hfind
  rw [locate_eq_place hplace, hp.place_eq] at hnode
  exact ⟨t, entries, hfind, hnode⟩

theorem node?_entry {t : Nat} {entries : Node.Entries} (h : d.node? p.names = some (.folder t entries))
    (name : String) : d.node? (p.names ++ [name]) = Node.Entries.get? entries name := by
  rw [node?_append, h]
  change (Node.Entries.get? entries name).bind some = _
  exact Option.bind_fun_some _

/-- A folder lists each of its entries once, in the order of names. -/
theorem exists_list (hd : d.IsSound) (hp : p.IsCanonical) (h : d.HoldsFolder p) :
    ∃ listed, d.list p = .ok listed ∧ (listed.map Listed.name).Pairwise (· < ·) ∧
      (∀ l ∈ listed, l.path = p.join l.name ∧
        ∃ n, d.node? (p.names ++ [l.name]) = some n ∧ l.isFolder = n.isFolder) ∧
      ∀ name, d.node? (p.names ++ [name]) ≠ none → name ∈ listed.map Listed.name := by
  obtain ⟨t, entries, hfind, hnode⟩ := node?_of_holdsFolder hp h
  have hdistinct : Node.AreDistinct entries :=
    Node.isHeritable_hasDistinctNames.of_get? hd.distinct p.names _ hnode
  let found := entries.map fun e ↦ (⟨e.1, p.join e.1, e.2.isFolder⟩ : Listed)
  let listed := found.mergeSort fun a b ↦ a.name ≤ b.name
  have hlist : d.list p = .ok listed := by
    unfold list
    rw [hfind]
  have hperm : listed.Perm found := List.mergeSort_perm ..
  have hnames : found.map Listed.name = entries.map Prod.fst := List.map_map
  refine ⟨listed, hlist, ?_, fun l hl ↦ ?_, fun name hname ↦ ?_⟩
  · have hnodup : (listed.map Listed.name).Nodup := by
      rw [(hperm.map Listed.name).nodup_iff, hnames]
      exact Node.nodup_of_areDistinct hdistinct
    have hsorted : (listed.map Listed.name).Pairwise (· ≤ ·) := List.pairwise_map.2 (pairwise_list hlist)
    exact (hsorted.and hnodup).imp fun hboth ↦ lt_of_le_of_ne hboth.1 hboth.2
  · obtain ⟨e, he, rfl⟩ := List.mem_map.1 (hperm.subset hl)
    refine ⟨rfl, e.2, ?_, rfl⟩
    rw [node?_entry hnode]
    exact Node.get?_of_mem hdistinct he
  · rw [node?_entry hnode] at hname
    obtain ⟨n, hn⟩ := Option.ne_none_iff_exists'.1 hname
    rw [(hperm.map Listed.name).mem_iff, hnames]
    exact List.mem_map.2 ⟨_, Node.mem_of_get? hn, rfl⟩

end Disk

end AssetBundler
