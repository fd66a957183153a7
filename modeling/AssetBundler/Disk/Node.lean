/-!
# Trees of files and folders

A node is a file with its bytes or a folder with named entries; both carry the time of their last
change. Main statements: what a node holds after one place in it was rewritten, at that place
(`get?_alter_self`) and at every place that is neither above nor below it (`get?_alter_of_apart`).
-/

namespace AssetBundler

inductive Node where
  | file (bytes : ByteArray) (time : Nat)
  | folder (time : Nat) (entries : List (String × Node))

instance : Inhabited Node := ⟨.folder 0 []⟩

namespace Node

abbrev Entries := List (String × Node)

def isFile : Node → Bool
  | .file .. => true
  | .folder .. => false

def isFolder : Node → Bool
  | .file .. => false
  | .folder .. => true

def time : Node → Nat
  | .file _ t => t
  | .folder t _ => t

def setTime (t : Nat) : Node → Node
  | .file bytes _ => .file bytes t
  | .folder _ entries => .folder t entries

def bytes? : Node → Option ByteArray
  | .file bytes _ => some bytes
  | .folder .. => none

namespace Entries

def get? (entries : Entries) (name : String) : Option Node :=
  (entries.find? fun e ↦ e.1 = name).map Prod.snd

/-- Rewrites the entry `name`; without an entry a node that `f` makes of nothing is appended. -/
def alter (name : String) (f : Option Node → Option Node) : Entries → Entries
  | [] => ((f none).map fun n ↦ (name, n)).toList
  | e :: rest =>
    if e.1 = name then
      match f (some e.2) with
      | some n => (name, n) :: rest
      | none => rest.filter fun e ↦ e.1 ≠ name
    else e :: alter name f rest

theorem get?_cons (e : String × Node) (entries : Entries) (name : String) :
    get? (e :: entries) name = if e.1 = name then some e.2 else get? entries name := by
  by_cases h : e.1 = name <;> simp [get?, h]

theorem get?_filter_self (entries : Entries) (name : String) :
    get? (entries.filter fun e ↦ e.1 ≠ name) name = none := by
  simp [get?]

theorem get?_filter_of_ne (entries : Entries) {name other : String} (h : name ≠ other) :
    get? (entries.filter fun e ↦ e.1 ≠ name) other = get? entries other := by
  induction entries with
  | nil => rfl
  | cons e rest ih =>
    by_cases he : e.1 = name
    · rw [List.filter_cons_of_neg (by simp [he]), ih, get?_cons, if_neg (he ▸ h)]
    · rw [List.filter_cons_of_pos (by simp [he]), get?_cons, get?_cons, ih]

theorem get?_alter_self (entries : Entries) (name : String) (f : Option Node → Option Node) :
    get? (alter name f entries) name = f (get? entries name) := by
  induction entries with
  | nil =>
    cases hf : f none with
    | none => simp [alter, get?, hf]
    | some n => simp [alter, get?, hf]
  | cons e rest ih =>
    by_cases he : e.1 = name
    · rw [alter, if_pos he, get?_cons, if_pos he]
      cases hf : f (some e.2) with
      | none => exact get?_filter_self rest name
      | some n => simp [get?]
    · rw [alter, if_neg he, get?_cons, if_neg he, get?_cons, if_neg he, ih]

theorem get?_alter_of_ne (entries : Entries) {name other : String} (f : Option Node → Option Node)
    (h : name ≠ other) : get? (alter name f entries) other = get? entries other := by
  induction entries with
  | nil => cases hf : f none <;> simp [alter, get?, hf, h]
  | cons e rest ih =>
    by_cases he : e.1 = name
    · rw [alter, if_pos he, get?_cons, if_neg (he ▸ h)]
      cases hf : f (some e.2) with
      | none => exact get?_filter_of_ne rest h
      | some n => rw [get?_cons, if_neg h]
    · rw [alter, if_neg he, get?_cons, get?_cons, ih]

end Entries

/-- The node at the end of `names`, from entry to entry. -/
def get? : List String → Node → Option Node
  | [], n => some n
  | name :: names, .folder _ entries => (Entries.get? entries name).bind (get? names)
  | _ :: _, .file .. => none

/-- Rewrites the place `names`. Nothing changes if the folder above that place does not exist. -/
def alter (f : Option Node → Option Node) : List String → Option Node → Option Node
  | [], n => f n
  | name :: names, some (.folder t entries) =>
    some (.folder t (Entries.alter name (alter f names) entries))
  | _ :: _, n => n

def getIn? (names : List String) (n : Option Node) : Option Node := n.bind (get? names)

theorem getIn?_cons_folder (name : String) (names : List String) (t : Nat) (entries : Entries) :
    getIn? (name :: names) (some (.folder t entries)) =
      getIn? names (Entries.get? entries name) := by
  cases h : Entries.get? entries name <;> simp [getIn?, get?, h]

/-- The place is rewritten as asked if there is a folder above it. -/
theorem get?_alter_self (f : Option Node → Option Node) (above : List String) (name : String)
    (n : Option Node) (t : Nat) (entries : Entries)
    (h : getIn? above n = some (.folder t entries)) :
    getIn? (above ++ [name]) (alter f (above ++ [name]) n) = f (Entries.get? entries name) := by
  induction above generalizing n with
  | nil =>
    cases n with
    | none => simp [getIn?] at h
    | some n =>
      simp only [getIn?, Option.bind_some, get?, Option.some.injEq] at h
      subst h
      rw [List.nil_append, alter, getIn?_cons_folder, Entries.get?_alter_self]
      cases hf : f (Entries.get? entries name) <;> simp [getIn?, get?, alter, hf]
  | cons first above ih =>
    match n, h with
    | none, h => simp [getIn?] at h
    | some (.file ..), h => simp [getIn?, get?] at h
    | some (.folder s es), h =>
      rw [getIn?_cons_folder] at h
      rw [List.cons_append, alter, getIn?_cons_folder, Entries.get?_alter_self]
      exact ih _ h

/-- A place that does not lie below the rewritten one keeps its node up to what lies below it. -/
theorem get?_alter_of_apart (f : Option Node → Option Node) (place other : List String)
    (n : Option Node) (h : ¬ place <+: other) (h' : ¬ other <+: place) :
    getIn? other (alter f place n) = getIn? other n := by
  induction place generalizing other n with
  | nil => exact absurd List.nil_prefix h
  | cons first place ih =>
    cases other with
    | nil => exact absurd List.nil_prefix h'
    | cons head other =>
      match n with
      | none => rfl
      | some (.file ..) => rfl
      | some (.folder t entries) =>
        rw [alter, getIn?_cons_folder, getIn?_cons_folder]
        by_cases hf : first = head
        · subst hf
          rw [Entries.get?_alter_self]
          rw [List.cons_prefix_cons] at h h'
          exact ih other _ (fun hp ↦ h ⟨rfl, hp⟩) fun hp ↦ h' ⟨rfl, hp⟩
        · rw [Entries.get?_alter_of_ne _ _ hf]

mutual

/-- All nodes below a node with their places, each folder before its entries. -/
def descendants : Node → List (List String × Node)
  | .file .. => []
  | .folder _ entries => descendantsOf entries

def descendantsOf : List (String × Node) → List (List String × Node)
  | [] => []
  | (name, n) :: rest =>
    ([name], n) :: (descendants n).map (fun e ↦ (name :: e.1, e.2)) ++ descendantsOf rest

end

/-- The files below a node with their places. -/
def files (n : Node) : List (List String × Node) := n.descendants.filter fun e ↦ e.2.isFile

mutual

/-- Replaces the time of every node by its image. -/
def mapTimes (f : Nat → Nat) : Node → Node
  | .file bytes t => .file bytes (f t)
  | .folder t entries => .folder (f t) (mapTimesEntries f entries)

def mapTimesEntries (f : Nat → Nat) : List (String × Node) → List (String × Node)
  | [] => []
  | (name, n) :: rest => (name, mapTimes f n) :: mapTimesEntries f rest

end

end Node

end AssetBundler
