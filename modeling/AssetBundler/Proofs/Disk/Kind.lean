import AssetBundler.Disk.Write
import Mathlib.Logic.Function.Basic

/-!
# What stands at each place of a disk

The kind of a place forgets times and entries: nothing, a folder, or a file with its bytes. It is
all that following a path asks for, and each change of the tree has one equation in it. Attaching
and detaching update the kind of one place, stamping changes none.
-/

namespace AssetBundler

namespace Node

theorem get?_append (names more : List String) (n : Node) :
    get? (names ++ more) n = (get? names n).bind (get? more) := by
  induction names generalizing n with
  | nil => rfl
  | cons name names ih =>
    cases n with
    | file bytes t => rfl
    | folder t entries =>
      change (Entries.get? entries name).bind (get? (names ++ more)) =
        ((Entries.get? entries name).bind (get? names)).bind (get? more)
      rw [Option.bind_assoc]
      congr 1
      funext child
      exact ih child

theorem bytes?_setTime (t : Nat) (n : Node) : (n.setTime t).bytes? = n.bytes? := by
  cases n <;> rfl

/-- A new time changes no kind at or below a node. -/
theorem map_bytes?_setTime (t : Nat) (names : List String) (n : Node) :
    (get? names (n.setTime t)).map bytes? = (get? names n).map bytes? := by
  cases names with
  | nil => exact congrArg some (bytes?_setTime t n)
  | cons name names => cases n <;> rfl

/-- A node above the rewritten place keeps its kind. -/
theorem map_bytes?_alter_above (f : Option Node → Option Node) (above : List String) (name : String)
    (below : List String) (n : Option Node) :
    (getIn? above (alter f (above ++ name :: below) n)).map bytes? =
      (getIn? above n).map bytes? := by
  induction above generalizing n with
  | nil =>
    match n with
    | none => rfl
    | some (.file ..) => rfl
    | some (.folder ..) => rfl
  | cons first above ih =>
    match n with
    | none => rfl
    | some (.file ..) => rfl
    | some (.folder t entries) =>
      rw [List.cons_append, alter, getIn?_cons_folder, getIn?_cons_folder,
        Entries.get?_alter_self]
      exact ih _

end Node

namespace Disk

/-- None if nothing is there, some none for a folder, and the bytes of a file. -/
def kindAt (d : Disk) (place : List String) : Option (Option ByteArray) :=
  (d.node? place).map Node.bytes?

theorem kindAt_eq_none {d : Disk} {place : List String} :
    d.kindAt place = none ↔ d.node? place = none := by
  simp [kindAt]

theorem kindAt_ne_none {d : Disk} {place : List String} :
    d.kindAt place ≠ none ↔ ∃ n, d.node? place = some n := by
  rw [ne_eq, kindAt_eq_none, ← ne_eq, Option.ne_none_iff_exists']

theorem kindAt_eq_folder {d : Disk} {place : List String} :
    d.kindAt place = some none ↔ ∃ t entries, d.node? place = some (.folder t entries) := by
  unfold kindAt
  rcases d.node? place with _ | ⟨bytes, t⟩ | ⟨t, entries⟩ <;> simp [Node.bytes?]

theorem kindAt_eq_file {d : Disk} {place : List String} {bytes : ByteArray} :
    d.kindAt place = some (some bytes) ↔ ∃ t, d.node? place = some (.file bytes t) := by
  unfold kindAt
  rcases d.node? place with _ | ⟨bytes, t⟩ | ⟨t, entries⟩ <;> simp [Node.bytes?]

theorem node?_append (d : Disk) (place more : List String) :
    d.node? (place ++ more) = (d.node? place).bind (Node.get? more) :=
  Node.get?_append place more d.top

/-- Nothing stands below a place without a folder. -/
theorem kindAt_below {d : Disk} {place more : List String} (h : d.kindAt place ≠ some none)
    (hmore : more ≠ []) : d.kindAt (place ++ more) = none := by
  rw [kindAt_eq_none, node?_append]
  obtain ⟨name, names, rfl⟩ := List.exists_cons_of_ne_nil hmore
  rcases hn : d.node? place with _ | ⟨bytes, t⟩ | ⟨t, entries⟩
  · rfl
  · rfl
  · exact absurd (kindAt_eq_folder.2 ⟨t, entries, hn⟩) h

/-- The folder around something that stands below the root. -/
theorem kindAt_dropLast {d : Disk} {place : List String} (h : d.kindAt place ≠ none)
    (hne : place ≠ []) : d.kindAt place.dropLast = some none := by
  by_contra hfolder
  apply h
  rw [← List.dropLast_concat_getLast hne]
  exact kindAt_below hfolder (by simp)

/-- The root is always there. -/
theorem kindAt_nil_ne_none (d : Disk) : d.kindAt [] ≠ none := by
  simp [kindAt, node?, Node.get?]

@[simp] theorem here_alter (d : Disk) (place : List String) (f : Option Node → Option Node) :
    (d.alter place f).here = d.here := rfl

@[simp] theorem now_alter (d : Disk) (place : List String) (f : Option Node → Option Node) :
    (d.alter place f).now = d.now := rfl

@[simp] theorem here_attach (d : Disk) (place : List String) (n : Node) :
    (d.attach place n).here = d.here := rfl

@[simp] theorem now_attach (d : Disk) (place : List String) (n : Node) :
    (d.attach place n).now = d.now := rfl

@[simp] theorem here_detach (d : Disk) (place : List String) :
    (d.detach place).here = d.here := rfl

@[simp] theorem now_detach (d : Disk) (place : List String) :
    (d.detach place).now = d.now := rfl

theorem node?_alter (d : Disk) (above : List String) (name : String)
    (f : Option Node → Option Node) (place : List String) :
    (d.alter (above ++ [name]) f).node? place =
      Node.getIn? place (Node.alter f (above ++ [name]) (some d.top)) := by
  cases above with
  | nil =>
    rcases htop : d.top with ⟨bytes, t⟩ | ⟨t, entries⟩ <;>
      simp [alter, node?, Node.alter, Node.getIn?, htop]
  | cons first above =>
    rcases htop : d.top with ⟨bytes, t⟩ | ⟨t, entries⟩ <;>
      simp [alter, node?, Node.alter, Node.getIn?, htop]

theorem node?_alter_self (d : Disk) {above : List String} (h : d.kindAt above = some none)
    (name : String) (f : Option Node → Option Node) :
    (d.alter (above ++ [name]) f).node? (above ++ [name]) = f (d.node? (above ++ [name])) := by
  obtain ⟨t, entries, hn⟩ := kindAt_eq_folder.1 h
  rw [node?_alter, Node.get?_alter_self f above name (some d.top) t entries hn, node?_append, hn]
  simp [Node.get?]

/-- Only what stands at or below the rewritten place changes its kind. -/
theorem kindAt_alter_apart (d : Disk) (above : List String) (name : String)
    (f : Option Node → Option Node) {place : List String} (h : ¬ above ++ [name] <+: place) :
    (d.alter (above ++ [name]) f).kindAt place = d.kindAt place := by
  unfold kindAt
  rw [node?_alter]
  by_cases hp : place <+: above ++ [name]
  · obtain ⟨rest, hrest⟩ := hp
    cases rest with
    | nil =>
      rw [List.append_nil] at hrest
      exact absurd (hrest ▸ List.prefix_refl _) h
    | cons first rest =>
      rw [← hrest]
      exact Node.map_bytes?_alter_above f place first rest (some d.top)
  · rw [Node.get?_alter_of_apart f (above ++ [name]) place (some d.top) h hp]
    rfl

/-- Nothing changes if there is no folder to hold the place. -/
theorem kindAt_alter_of_no_folder (d : Disk) {above : List String}
    (h : d.kindAt above ≠ some none) (name : String) (f : Option Node → Option Node) :
    (d.alter (above ++ [name]) f).kindAt = d.kindAt := by
  funext place
  by_cases hp : above ++ [name] <+: place
  · obtain ⟨rest, rfl⟩ := hp
    have hkeep : (d.alter (above ++ [name]) f).kindAt above = d.kindAt above := by
      apply kindAt_alter_apart
      intro hle
      have hlen := hle.length_le
      rw [List.length_append, List.length_singleton] at hlen
      omega
    rw [List.append_assoc, kindAt_below h (by simp), kindAt_below (hkeep ▸ h) (by simp)]
  · exact kindAt_alter_apart d above name f hp

/-- Where no folder stands, a file, an empty folder or nothing can be put. -/
theorem kindAt_alter_leaf (d : Disk) {above : List String} (h : d.kindAt above = some none)
    (name : String) (hold : d.kindAt (above ++ [name]) ≠ some none) (n : Option Node)
    (hn : ∀ first rest, n.bind (Node.get? (first :: rest)) = none) :
    (d.alter (above ++ [name]) fun _ ↦ n).kindAt =
      Function.update d.kindAt (above ++ [name]) (n.map Node.bytes?) := by
  funext place
  by_cases hp : above ++ [name] <+: place
  · obtain ⟨rest, rfl⟩ := hp
    cases rest with
    | nil =>
      rw [List.append_nil, Function.update_self, kindAt, node?_alter_self d h]
    | cons first rest =>
      rw [Function.update_of_ne (by simp), kindAt_below hold (by simp), kindAt_eq_none,
        node?_append, node?_alter_self d h]
      exact hn first rest
  · rw [kindAt_alter_apart d above name _ hp, Function.update_of_ne]
    rintro rfl
    exact hp (List.prefix_refl _)

/-- A file that is written in place. -/
theorem kindAt_alter_file (d : Disk) {place : List String} {old : ByteArray}
    (h : d.kindAt place = some (some old)) (bytes : ByteArray) (t : Nat) :
    (d.alter place fun _ ↦ some (.file bytes t)).kindAt =
      Function.update d.kindAt place (some (some bytes)) := by
  rcases List.eq_nil_or_concat place with rfl | ⟨above, name, rfl⟩
  · funext other
    cases other with
    | nil => rfl
    | cons first rest =>
      rw [Function.update_of_ne (by simp)]
      exact (kindAt_below (by simp [h]) (by simp) : d.kindAt ([] ++ first :: rest) = none).symm
  · rw [List.concat_eq_append] at h ⊢
    have hfolder := kindAt_dropLast (by simp [h] : d.kindAt (above ++ [name]) ≠ none) (by simp)
    rw [List.dropLast_concat] at hfolder
    exact kindAt_alter_leaf d hfolder name (by simp [h]) (some (.file bytes t)) fun _ _ ↦ rfl

/-- A new time changes no kind. -/
theorem kindAt_setTime (d : Disk) (place : List String) (t : Nat) :
    (d.alter place fun n ↦ n.map (Node.setTime t)).kindAt = d.kindAt := by
  rcases List.eq_nil_or_concat place with rfl | ⟨above, name, rfl⟩
  · funext other
    exact Node.map_bytes?_setTime t other d.top
  · rw [List.concat_eq_append]
    by_cases h : d.kindAt above = some none
    · funext other
      by_cases hp : above ++ [name] <+: other
      · obtain ⟨rest, rfl⟩ := hp
        unfold kindAt
        rw [node?_append, node?_alter_self d h, node?_append d (above ++ [name])]
        rcases d.node? (above ++ [name]) with _ | n
        · rfl
        · exact Node.map_bytes?_setTime t rest n
      · exact kindAt_alter_apart d above name _ hp
    · exact kindAt_alter_of_no_folder d h name _

theorem kindAt_stamp (d : Disk) (place : List String) : (d.stamp place).kindAt = d.kindAt :=
  kindAt_setTime d place d.now

theorem kindAt_attach (d : Disk) {above : List String} (h : d.kindAt above = some none)
    (name : String) (hold : d.kindAt (above ++ [name]) ≠ some none) (n : Node)
    (hn : ∀ first rest, Node.get? (first :: rest) n = none) :
    (d.attach (above ++ [name]) n).kindAt =
      Function.update d.kindAt (above ++ [name]) (some n.bytes?) := by
  unfold attach
  rw [kindAt_stamp, kindAt_alter_leaf d h name hold (some n) hn]
  rfl

theorem kindAt_attach_of_no_folder (d : Disk) {above : List String}
    (h : d.kindAt above ≠ some none) (name : String) (n : Node) :
    (d.attach (above ++ [name]) n).kindAt = d.kindAt := by
  unfold attach
  rw [kindAt_stamp, kindAt_alter_of_no_folder d h]

theorem kindAt_detach (d : Disk) {above : List String} (h : d.kindAt above = some none)
    (name : String) (hold : d.kindAt (above ++ [name]) ≠ some none) :
    (d.detach (above ++ [name])).kindAt = Function.update d.kindAt (above ++ [name]) none := by
  unfold detach
  rw [kindAt_stamp, kindAt_alter_leaf d h name hold none fun _ _ ↦ rfl]
  rfl

end Disk

end AssetBundler
