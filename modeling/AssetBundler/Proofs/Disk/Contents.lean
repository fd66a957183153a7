import AssetBundler.Proofs.Disk.Reading

/-!
# Changing what files hold

The bytes of every file are replaced by what a function makes of the place of the file and its bytes. The
disk keeps its layout: the same paths lead to files and folders, folders are listed alike and the number
of files is the same (`sameLayout_withContents`). A file is read as before if the function leaves the
bytes at its place alone (`readBytes_withContents`).
-/

namespace AssetBundler

namespace Node

mutual

/-- Replaces the bytes of every file below a place. -/
def withContents (f : List String → ByteArray → ByteArray) (place : List String) : Node → Node
  | .file bytes t => .file (f place bytes) t
  | .folder t entries => .folder t (withContentsEntries f place entries)

def withContentsEntries (f : List String → ByteArray → ByteArray) (place : List String) :
    List (String × Node) → List (String × Node)
  | [] => []
  | (name, n) :: rest => (name, withContents f (place ++ [name]) n) :: withContentsEntries f place rest

end

variable {f : List String → ByteArray → ByteArray}

theorem isFile_withContents (place : List String) (n : Node) :
    (withContents f place n).isFile = n.isFile := by
  cases n <;> rfl

theorem isFolder_withContents (place : List String) (n : Node) :
    (withContents f place n).isFolder = n.isFolder := by
  cases n <;> rfl

theorem get?_withContentsEntries (place : List String) (entries : Entries) (name : String) :
    Entries.get? (withContentsEntries f place entries) name =
      (Entries.get? entries name).map (withContents f (place ++ [name])) := by
  induction entries with
  | nil => rfl
  | cons entry entries ih =>
    obtain ⟨first, n⟩ := entry
    unfold withContentsEntries
    rw [Entries.get?_cons, Entries.get?_cons]
    by_cases h : first = name
    · rw [if_pos h, if_pos h, h]
      rfl
    · rw [if_neg h, if_neg h]
      exact ih

theorem get?_withContents (place names : List String) (n : Node) :
    get? names (withContents f place n) =
      (get? names n).map (withContents f (place ++ names)) := by
  induction names generalizing place n with
  | nil =>
    rw [List.append_nil]
    rfl
  | cons name names ih =>
    cases n with
    | file bytes t => rfl
    | folder t entries =>
      unfold withContents get?
      rw [get?_withContentsEntries]
      cases Entries.get? entries name with
      | none => rfl
      | some child =>
        change get? names (withContents f (place ++ [name]) child) = _
        rw [ih, List.append_assoc]
        rfl

/-- A folder lists its entries as before. -/
theorem map_withContentsEntries {α : Type} (place : List String) (entries : Entries)
    (g : String → Bool → α) :
    (withContentsEntries f place entries).map (fun e ↦ g e.1 e.2.isFolder) =
      entries.map fun e ↦ g e.1 e.2.isFolder := by
  induction entries with
  | nil => rfl
  | cons entry entries ih =>
    obtain ⟨name, n⟩ := entry
    unfold withContentsEntries
    rw [List.map_cons, List.map_cons, ih, isFolder_withContents]

mutual

/-- The kinds of all nodes below a node stay. -/
theorem kinds_withContents (place : List String) (n : Node) :
    (descendants (withContents f place n)).map (fun e ↦ e.2.isFile) =
      (descendants n).map fun e ↦ e.2.isFile := by
  cases n with
  | file bytes t => rfl
  | folder t entries => exact kinds_withContentsEntries place entries

theorem kinds_withContentsEntries (place : List String) (entries : List (String × Node)) :
    (descendantsOf (withContentsEntries f place entries)).map (fun e ↦ e.2.isFile) =
      (descendantsOf entries).map fun e ↦ e.2.isFile := by
  match entries with
  | [] => rfl
  | (name, n) :: rest =>
    have hchild := kinds_withContents (place ++ [name]) n
    have hrest := kinds_withContentsEntries place rest
    unfold withContentsEntries descendantsOf
    rw [List.map_append, List.map_append, hrest, List.map_cons, List.map_cons, List.map_map,
      List.map_map, isFile_withContents]
    exact congrArg (fun kinds ↦ n.isFile :: kinds ++ _) hchild

end

theorem length_files_withContents (place : List String) (n : Node) :
    (files (withContents f place n)).length = (files n).length := by
  have hcount : ∀ m : Node, (files m).length = ((descendants m).map fun e ↦ e.2.isFile).count true := by
    intro m
    unfold files
    rw [← List.countP_eq_length_filter, List.count, List.countP_map]
    congr
    funext e
    simp
  rw [hcount, hcount, kinds_withContents]

end Node

namespace Disk

open AssetBundler.Action

/-- Two disks on which the same paths lead to files and folders. -/
structure SameLayout (d e : Disk) : Prop where
  here : e.here = d.here
  exists? : e.exists? = d.exists?
  isFile : e.isFile = d.isFile
  isFolder : e.isFolder = d.isFolder
  list : e.list = d.list
  fileCount : e.fileCount = d.fileCount

/-- Replaces the bytes of every file. -/
def withContents (f : List String → ByteArray → ByteArray) (d : Disk) : Disk :=
  { d with top := d.top.withContents f [] }

section Contents

variable {f : List String → ByteArray → ByteArray} (d : Disk)

theorem node?_withContents (place : List String) :
    (d.withContents f).node? place = (d.node? place).map (Node.withContents f place) :=
  Node.get?_withContents [] place d.top

theorem enter_withContents : (d.withContents f).enter = d.enter := by
  funext place name
  unfold enter
  rw [node?_withContents]
  rcases d.node? place with _ | ⟨bytes, t⟩ | ⟨t, entries⟩
  · rfl
  · rfl
  · simp only [Option.map_some, Node.withContents, Node.get?_withContentsEntries, Option.isSome_map]

theorem locate_withContents (p : Path) : (d.withContents f).locate p = d.locate p := by
  unfold locate
  rw [enter_withContents]
  rfl

/-- What is at a path is what was there, with the bytes of its files replaced. -/
theorem find_withContents (p : Path) :
    (d.withContents f).find p = (d.find p).map (Node.withContents f (p.place d.here)) := by
  unfold find
  rw [locate_withContents]
  cases hplace : d.locate p with
  | error why => rfl
  | ok place =>
    rw [← locate_eq_place hplace]
    dsimp only [bind, Except.bind]
    rw [node?_withContents]
    cases d.node? place with
    | none => rfl
    | some n => rfl

theorem find?_withContents (p : Path) : (d.withContents f).find? p =
    (d.find? p).map (Option.map (Node.withContents f (p.place d.here))) := by
  unfold find?
  rw [find_withContents]
  rcases d.find p with (_ | _ | _ | _) | n <;> rfl

theorem list_withContents (p : Path) : (d.withContents f).list p = d.list p := by
  unfold list
  rw [find_withContents]
  rcases d.find p with why | ⟨bytes, t⟩ | ⟨t, entries⟩
  · rfl
  · rfl
  · have hlisted := Node.map_withContentsEntries (f := f) (p.place d.here) entries
      fun name isFolder ↦ (⟨name, p.join name, isFolder⟩ : Listed)
    exact congrArg (fun listed ↦ Except.ok (List.mergeSort listed fun a b ↦ a.name ≤ b.name)) hlisted

/-- Whatever the files hold, the disk is laid out as before. -/
theorem sameLayout_withContents (f : List String → ByteArray → ByteArray) :
    d.SameLayout (d.withContents f) where
  here := rfl
  exists? := by
    funext p
    unfold exists?
    rw [find?_withContents]
    rcases d.find? p with e | _ | n <;> rfl
  isFile := by
    funext p
    unfold isFile
    rw [find?_withContents]
    rcases d.find? p with e | _ | n
    · rfl
    · rfl
    · exact congrArg Except.ok (Node.isFile_withContents _ n)
  isFolder := by
    funext p
    unfold isFolder
    rw [find?_withContents]
    rcases d.find? p with e | _ | n
    · rfl
    · rfl
    · exact congrArg Except.ok (Node.isFolder_withContents _ n)
  list := funext d.list_withContents
  fileCount := Node.length_files_withContents [] d.top

/-- A file is read as before if the bytes at its place are left alone. -/
theorem readBytes_withContents {p : Path} (h : ∀ bytes, f (p.place d.here) bytes = bytes) :
    (d.withContents f).readBytes p = d.readBytes p := by
  unfold readBytes
  rw [find_withContents]
  rcases d.find p with why | ⟨bytes, t⟩ | ⟨t, entries⟩
  · rfl
  · exact congrArg Except.ok (h bytes)
  · rfl

end Contents

theorem readText_of_readBytes {d e : Disk} {p : Path} (h : e.readBytes p = d.readBytes p) :
    e.readText p = d.readText p := by
  unfold readText
  rw [h]

end Disk

end AssetBundler
