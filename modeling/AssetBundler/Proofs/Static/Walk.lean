import AssetBundler.Proofs.Disk.Listing
import AssetBundler.Static
import Mathlib.Data.List.Lex
import Mathlib.Data.List.Sort

/-!
# Walking through a folder

The walk goes through the entries of a folder in the order of their names and enters the folders among them;
whatever is no folder counts as a file. Main statements: its files are the shown ones, which no dotted name
hides (`Static.mem_walk`); they come in the order of their places, name by name, which is not the order of
their paths as texts (`Static.exists_lists`); and each folder is gone through by the names of its entries
(`Static.walk_folder`).
-/

namespace AssetBundler

namespace Node

mutual

/-- What holds of files, and of a folder if it holds of its entries, holds of every node. -/
@[elab_as_elim]
theorem rec_entries {P : Node → Prop} (file : ∀ bytes t, P (.file bytes t))
    (folder : ∀ t entries, (∀ e ∈ entries, P e.2) → P (.folder t entries)) : ∀ n : Node, P n
  | .file bytes t => file bytes t
  | .folder t entries => folder t entries (forall_entries file folder entries)

theorem forall_entries {P : Node → Prop} (file : ∀ bytes t, P (.file bytes t))
    (folder : ∀ t entries, (∀ e ∈ entries, P e.2) → P (.folder t entries)) :
    ∀ entries : List (String × Node), ∀ e ∈ entries, P e.2
  | [] => List.forall_mem_nil _
  | (_, n) :: rest => List.forall_mem_cons.2 ⟨rec_entries file folder n, forall_entries file folder rest⟩

end

theorem hasDistinctNames_of_mem {entries : Entries} (h : AreDistinct entries) {e : String × Node}
    (he : e ∈ entries) : e.2.HasDistinctNames :=
  hasDistinctNames_of_get? h e.1 _ (get?_of_mem h he)

/-- Sorted by their names, entries of different names follow each other strictly. -/
theorem pairwise_mergeSort_of_areDistinct {entries : Entries} (h : AreDistinct entries) :
    (entries.mergeSort fun a b ↦ a.1 ≤ b.1).Pairwise fun a b ↦ a.1 < b.1 := by
  have hsorted : (entries.mergeSort fun a b ↦ a.1 ≤ b.1).Pairwise fun a b ↦ decide (a.1 ≤ b.1) = true :=
    List.pairwise_mergeSort
      (fun _ _ _ hab hbc ↦ decide_eq_true ((of_decide_eq_true hab).trans (of_decide_eq_true hbc)))
      (fun a b ↦ by simpa using le_total a.1 b.1) entries
  have hnodup : ((entries.mergeSort fun a b ↦ a.1 ≤ b.1).map Prod.fst).Nodup :=
    (((List.mergeSort_perm ..).map Prod.fst).nodup_iff).2 (nodup_of_areDistinct h)
  exact hsorted.imp₂ (fun _ _ hle hne ↦ lt_of_le_of_ne (of_decide_eq_true hle) hne)
    (List.pairwise_map.1 hnodup)

/-- What is met below a folder is one of its entries or is met below one. -/
theorem mem_descendantsOf_iff {entries : Entries} {x : List String × Node} :
    x ∈ descendantsOf entries ↔
      ∃ e ∈ entries, x = ([e.1], e.2) ∨ ∃ y ∈ e.2.descendants, x = (e.1 :: y.1, y.2) := by
  induction entries with
  | nil => simp only [descendantsOf, List.not_mem_nil, false_and, exists_false]
  | cons e rest ih =>
    rw [List.exists_mem_cons_iff, ← ih, descendantsOf, List.cons_append, List.mem_cons, List.mem_append,
      List.mem_map, or_assoc]
    simp only [eq_comm (b := x)]

theorem mem_files_folder {t : Nat} {entries : Entries} {x : List String × Node} :
    x ∈ (folder t entries).files ↔ ∃ e ∈ entries, e.2.isFile = true ∧ x = ([e.1], e.2) ∨
      ∃ y ∈ e.2.files, x = (e.1 :: y.1, y.2) := by
  unfold files
  rw [descendants, List.mem_filter, mem_descendantsOf_iff]
  simp only [List.mem_filter]
  constructor
  · rintro ⟨⟨e, he, rfl | ⟨y, hy, rfl⟩⟩, hfile⟩
    · exact ⟨e, he, .inl ⟨hfile, rfl⟩⟩
    · exact ⟨e, he, .inr ⟨y, ⟨hy, hfile⟩, rfl⟩⟩
  · rintro ⟨e, he, ⟨hfile, rfl⟩ | ⟨y, ⟨hy, hfile⟩, rfl⟩⟩
    · exact ⟨⟨e, he, .inl rfl⟩, hfile⟩
    · exact ⟨⟨e, he, .inr ⟨y, hy, rfl⟩⟩, hfile⟩

theorem ne_nil_of_mem_files {n : Node} {x : List String × Node} (h : x ∈ n.files) : x.1 ≠ [] := by
  cases n with
  | file bytes t => cases h
  | folder t entries =>
    obtain ⟨e, -, ⟨-, rfl⟩ | ⟨y, -, rfl⟩⟩ := mem_files_folder.1 h
    · exact List.cons_ne_nil _ _
    · exact List.cons_ne_nil _ _

theorem get?_of_mem_files {n : Node} (h : n.HasDistinctNames) {x : List String × Node} (hx : x ∈ n.files) :
    ∃ bytes t, get? x.1 n = some (.file bytes t) := by
  obtain ⟨hbelow, hfile⟩ := List.mem_filter.1 hx
  rw [get?_of_mem_descendants h x hbelow]
  obtain ⟨place, bytes | entries⟩ := x
  · exact ⟨_, _, rfl⟩
  · cases hfile

theorem mem_files_of_get? {t u : Nat} {entries : Entries} {place : List String} {bytes : ByteArray}
    (h : get? place (.folder t entries) = some (.file bytes u)) :
    (place, .file bytes u) ∈ (folder t entries).files := by
  refine List.mem_filter.2 ⟨mem_descendants h ?_, rfl⟩
  rintro rfl
  cases h

end Node

namespace Static

variable {path : Path} {lead : String} {n : Node} {f : Source}

/-- The source at a place below a path. -/
def sourceAt (path : Path) (lead : String) (place : List String) : Source :=
  ⟨⟨path.anchor, path.names ++ place⟩, lead ++ "/".intercalate place⟩

theorem sourceAt_nil_lead (path : Path) (place : List String) :
    sourceAt path "" place = ⟨⟨path.anchor, path.names ++ place⟩, "/".intercalate place⟩ := by
  unfold sourceAt
  rw [String.empty_append]

/-- The files that an entry of a folder stands for. -/
def visit (path : Path) (lead : String) (e : String × Node) : List Source :=
  if isDotted e.1 then []
  else if e.2.isFolder then walk ⟨path.anchor, path.names ++ [e.1]⟩ (lead ++ e.1 ++ "/") e.2
  else [sourceAt path lead [e.1]]

theorem visits_eq_map (path : Path) (lead : String) (entries : Node.Entries) :
    visits path lead entries = entries.map fun e ↦ (e.1, visit path lead e) := by
  induction entries with
  | nil => rfl
  | cons e rest ih =>
    rw [visits, ih, List.map_cons]
    unfold visit sourceAt
    rw [String.intercalate_singleton]

/-- The walk visits the entries of a folder in the order of their names. -/
theorem walk_folder (path : Path) (lead : String) (t : Nat) (entries : Node.Entries) :
    walk path lead (.folder t entries) =
      (entries.mergeSort fun a b ↦ a.1 ≤ b.1).flatMap (visit path lead) := by
  have hsorted : (entries.mergeSort fun a b ↦ a.1 ≤ b.1).map (fun e ↦ (e.1, visit path lead e)) =
      (entries.map fun e ↦ (e.1, visit path lead e)).mergeSort fun a b ↦ a.1 ≤ b.1 :=
    List.map_mergeSort fun _ _ _ _ ↦ rfl
  rw [walk, visits_eq_map, ← hsorted, List.flatMap_map]

/-- What an entry stands for: nothing if its name is dotted, itself if it is a file, and the files met below
it if it is a folder. -/
theorem mem_visit {e : String × Node} : f ∈ visit path lead e ↔ isDotted e.1 = false ∧
    (e.2.isFile = true ∧ f = sourceAt path lead [e.1] ∨
      f ∈ walk ⟨path.anchor, path.names ++ [e.1]⟩ (lead ++ e.1 ++ "/") e.2) := by
  obtain ⟨name, n⟩ := e
  unfold visit
  cases hdot : isDotted name with
  | true => exact iff_of_false List.not_mem_nil fun h ↦ Bool.noConfusion h.1
  | false =>
    cases n with
    | file bytes t => simp [Node.isFolder, Node.isFile, walk]
    | folder t entries => simp [Node.isFolder, Node.isFile]

/-- The place below an entry, seen from the folder. -/
theorem sourceAt_entry (path : Path) (lead name : String) {place : List String} (hne : place ≠ []) :
    sourceAt ⟨path.anchor, path.names ++ [name]⟩ (lead ++ name ++ "/") place =
      sourceAt path lead (name :: place) := by
  obtain ⟨next, place, rfl⟩ := List.exists_cons_of_ne_nil hne
  unfold sourceAt
  rw [String.intercalate_cons_cons, List.append_assoc, List.singleton_append, String.append_assoc,
    String.append_assoc, String.append_assoc]

/-- The walk meets a file exactly if no name of its place is dotted. -/
theorem mem_walk : ∀ {path : Path} {lead : String}, f ∈ walk path lead n ↔
    ∃ e ∈ n.files, (∀ name ∈ e.1, isDotted name = false) ∧ f = sourceAt path lead e.1 := by
  induction n using Node.rec_entries with
  | file bytes t => exact iff_of_false List.not_mem_nil fun ⟨_, he, _⟩ ↦ nomatch he
  | folder t entries ih =>
    intro path lead
    rw [walk_folder, List.mem_flatMap]
    simp only [List.mem_mergeSort, mem_visit]
    constructor
    · rintro ⟨e, he, hdot, ⟨hfile, rfl⟩ | hwalk⟩
      · refine ⟨_, Node.mem_files_folder.2 ⟨e, he, .inl ⟨hfile, rfl⟩⟩, ?_, rfl⟩
        exact List.forall_mem_singleton.2 hdot
      · obtain ⟨y, hy, hshown, rfl⟩ := (ih e he).1 hwalk
        refine ⟨_, Node.mem_files_folder.2 ⟨e, he, .inr ⟨y, hy, rfl⟩⟩, ?_, ?_⟩
        · exact List.forall_mem_cons.2 ⟨hdot, hshown⟩
        · exact sourceAt_entry path lead e.1 (Node.ne_nil_of_mem_files hy)
    · rintro ⟨x, hx, hshown, rfl⟩
      obtain ⟨e, he, ⟨hfile, rfl⟩ | ⟨y, hy, rfl⟩⟩ := Node.mem_files_folder.1 hx
      · exact ⟨e, he, hshown _ (List.mem_singleton_self _), .inl ⟨hfile, rfl⟩⟩
      · obtain ⟨hdot, hbelow⟩ := List.forall_mem_cons.1 hshown
        refine ⟨e, he, hdot, .inr ((ih e he).2 ⟨y, hy, hbelow, ?_⟩)⟩
        exact (sourceAt_entry path lead e.1 (Node.ne_nil_of_mem_files hy)).symm

/-- On a proper disk, what is listed for a source is the source itself or stands at a place below it. -/
theorem eq_or_exists_place {d : Disk} (hd : d.IsProper) {p : Path} {files : List Source}
    (h : sourcesAt d p = .ok (some files)) (hf : f ∈ files) :
    f = ⟨p, p.name⟩ ∨ ∃ place, (∀ name ∈ place, Path.IsName name) ∧ f = sourceAt p "" place := by
  unfold sourcesAt at h
  obtain ⟨found, hfind, h⟩ := Action.except_bind_eq_ok.1 h
  cases found with
  | none => cases h
  | some n =>
    cases h
    split at hf
    · exact .inl (List.mem_singleton.1 hf)
    · obtain ⟨e, he, -, rfl⟩ := mem_walk.1 hf
      obtain ⟨start, -, hnode⟩ := Disk.find_eq_ok.1 (Disk.find?_eq_some.1 hfind)
      have hn : n.IsProper := Node.isProper_get? hd.top start n hnode
      exact .inr ⟨e.1, (Node.isName_of_mem_descendants hn e (List.mem_filter.1 he).1).2, rfl⟩

/-- What an entry stands for lies below the name of the entry. -/
theorem names_of_mem_visit {e : String × Node} (h : f ∈ visit path lead e) :
    ∃ place, f.path.names = path.names ++ e.1 :: place := by
  obtain ⟨-, ⟨-, rfl⟩ | hwalk⟩ := mem_visit.1 h
  · exact ⟨[], rfl⟩
  · obtain ⟨y, -, -, rfl⟩ := mem_walk.1 hwalk
    exact ⟨y.1, List.append_assoc ..⟩

/-- The walk goes upwards, each path compared name by name with the next. Below one entry it does so by
induction, and between two entries their names decide. -/
theorem pairwise_walk : n.HasDistinctNames → ∀ {path : Path} {lead : String},
    (walk path lead n).Pairwise fun f g ↦ f.path.names < g.path.names := by
  induction n using Node.rec_entries with
  | file bytes t => exact fun _ _ _ ↦ List.Pairwise.nil
  | folder t entries ih =>
    intro hdistinct path lead
    rw [walk_folder, List.pairwise_flatMap]
    constructor
    · intro e he
      have he := List.mem_mergeSort.1 he
      unfold visit
      split
      · exact List.Pairwise.nil
      · split
        · exact ih e he (Node.hasDistinctNames_of_mem hdistinct he)
        · exact List.pairwise_singleton _ _
    · refine (Node.pairwise_mergeSort_of_areDistinct hdistinct).imp fun hlt f hf g hg ↦ ?_
      obtain ⟨place, hplace⟩ := names_of_mem_visit hf
      obtain ⟨other, hother⟩ := names_of_mem_visit hg
      rw [hplace, hother]
      exact List.append_left_lt (List.cons_lt_cons_iff.2 (.inl hlt))

/-- A place below a node is shown if there is something other than a folder and no name of it is dotted. -/
structure Shows (n : Node) (place : List String) : Prop where
  entry : ∃ m, Node.get? place n = some m ∧ m.isFolder = false
  undotted : ∀ name ∈ place, isDotted name = false

theorem shows_iff {place : List String} : Shows n place ↔
    (∃ bytes t, Node.get? place n = some (.file bytes t)) ∧ ∀ name ∈ place, isDotted name = false := by
  constructor
  · rintro ⟨⟨⟨bytes, t⟩ | ⟨t, entries⟩, hentry, hkind⟩, hundotted⟩
    · exact ⟨⟨bytes, t, hentry⟩, hundotted⟩
    · cases hkind
  · rintro ⟨⟨bytes, t, hfile⟩, hundotted⟩
    exact ⟨⟨_, hfile, rfl⟩, hundotted⟩

/-- The places that a folder shows, each once, in the order of the places name by name, and of the names
character by character. -/
structure Lists (n : Node) (places : List (List String)) : Prop where
  sorted : places.Pairwise (· < ·)
  mem_iff : ∀ place, place ∈ places ↔ Shows n place

/-- There is only one such list. -/
theorem Lists.eq {places others : List (List String)} (h : Lists n places) (h' : Lists n others) :
    places = others :=
  List.Pairwise.eq_of_mem_iff h.sorted h'.sorted fun place ↦ (h.mem_iff place).trans (h'.mem_iff place).symm

/-- The places that the walk through a folder goes through. -/
theorem exists_lists {t : Nat} {entries : Node.Entries} (h : (Node.folder t entries).HasDistinctNames)
    (path : Path) (lead : String) : ∃ places, Lists (.folder t entries) places ∧
      walk path lead (.folder t entries) = places.map (sourceAt path lead) := by
  let place (f : Source) : List String := f.path.names.drop path.names.length
  have hplace (x : List String) : place (sourceAt path lead x) = x := List.drop_left
  have hsource : ∀ f ∈ walk path lead (.folder t entries), sourceAt path lead (place f) = f := by
    intro f hf
    obtain ⟨e, -, -, rfl⟩ := mem_walk.1 hf
    rw [hplace]
  refine ⟨(walk path lead (.folder t entries)).map place, ⟨?_, fun x ↦ ?_⟩, ?_⟩
  · have hmono : StrictMono fun x : List String ↦ path.names ++ x := fun _ _ ↦ List.append_left_lt
    refine List.pairwise_map.2 ((pairwise_walk h).imp_of_mem fun hf hg hlt ↦ ?_)
    rw [← hsource _ hf, ← hsource _ hg] at hlt
    exact hmono.lt_iff_lt.1 hlt
  · rw [List.mem_map]
    constructor
    · rintro ⟨f, hf, rfl⟩
      obtain ⟨e, he, hshown, rfl⟩ := mem_walk.1 hf
      rw [hplace]
      exact shows_iff.2 ⟨Node.get?_of_mem_files h he, hshown⟩
    · intro hshows
      obtain ⟨⟨bytes, u, hfile⟩, hshown⟩ := shows_iff.1 hshows
      exact ⟨_, mem_walk.2 ⟨(x, .file bytes u), Node.mem_files_of_get? hfile, hshown, rfl⟩, hplace x⟩
  · rw [List.map_map]
    exact (List.map_id _).symm.trans (List.map_congr_left fun f hf ↦ (hsource f hf).symm)

/-- The order of places is not that of their texts. -/
example : ["b", "c.txt"] < ["b-c.txt"] ∧ "b-c.txt" < "b/c.txt" := by decide

end Static
end AssetBundler
