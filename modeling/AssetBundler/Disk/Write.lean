import AssetBundler.Disk.Basic

/-!
# Writing to a disk

Every change stamps the node that was written; creating, removing and renaming also stamp the folder
around it. An operation that fails keeps the changes it made before, so the disk survives an error.
Writing text is atomic: the text goes to a temporary file beside the target, which is then renamed.
-/

namespace AssetBundler.Disk

abbrev Action := EStateM Error Disk

/-- Rewrites one place of the tree. -/
def alter (d : Disk) (place : List String) (f : Option Node → Option Node) : Disk :=
  { d with top := (Node.alter f place (some d.top)).getD d.top }

def stamp (d : Disk) (place : List String) : Disk := d.alter place fun n ↦ n.map (Node.setTime d.now)

/-- Puts a new node at a place and stamps the folder around it. -/
def attach (d : Disk) (place : List String) (n : Node) : Disk :=
  (d.alter place fun _ ↦ some n).stamp place.dropLast

/-- Takes the node at a place away and stamps the folder around it. -/
def detach (d : Disk) (place : List String) : Disk :=
  (d.alter place fun _ ↦ none).stamp place.dropLast

/-- An answer about the disk as it stands. -/
def ask {α : Type} (question : Disk → Except Error α) : Action α := fun d ↦
  match question d with
  | .ok a => .ok a d
  | .error e => .error e d

def refuseIfError {α : Type} (p : Path) : Except Refusal α → Action α
  | .ok a => pure a
  | .error why => throw (.refused why p)

/-- Makes one folder in an existing one. -/
def makeFolder (p : Path) : Action Unit := do
  let d ← get
  let place ← refuseIfError p (d.slot p)
  match d.node? place with
  | some _ => throw (.refused .exists p)
  | none => set (d.attach place (.folder d.now []))

/-- Makes one folder unless it exists. -/
def ensureFolder (p : Path) : Action Unit :=
  tryCatch (makeFolder p) fun e ↦ do
    unless ← ask (Disk.isFolder · p) do throw e

/-- Makes a folder and, where the one above it is missing, up to `above` folders above it. -/
def ensureFolders : Nat → Path → Action Unit
  | 0, p => ensureFolder p
  | above + 1, p =>
    tryCatch (makeFolder p) fun e ↦ do
      if e = .refused .notFound p then
        if p.parent = p then throw e
        ensureFolders above p.parent
        ensureFolder p
      else unless ← ask (Disk.isFolder · p) do throw e

def ensureParent (p : Path) : Action Unit := ensureFolders p.names.length p.parent

/-- Writes a file in place. -/
def writeBytes (p : Path) (bytes : ByteArray) : Action Unit := do
  let d ← get
  let place ← refuseIfError p (d.slot p)
  match d.node? place with
  | some (.folder ..) => throw (.refused .isFolder p)
  | some (.file ..) => set (d.alter place fun _ ↦ some (.file bytes d.now))
  | none => set (d.attach place (.file bytes d.now))

/-- Moves a file over another path. -/
def move (source target : Path) : Action Unit := do
  let d ← get
  match d.locate source, d.slot target with
  | .error why, _ => throw (.refusedMove why source target)
  | _, .error why => throw (.refusedMove why source target)
  | .ok start, .ok goal =>
    match d.node? start, d.node? goal with
    | _, some (.folder ..) => throw (.refusedMove .isFolder source target)
    | some n, _ => set ((d.detach start).attach goal n)
    | none, _ => throw (.refusedMove .notFound source target)

/-- The file beside the target that a text is written to first. -/
def temporary (p : Path) : Path := p.withName (p.name ++ ".tmp")

def writeText (p : Path) (text : String) : Action Unit := do
  ensureParent p
  writeBytes (temporary p) text.toUTF8
  move (temporary p) p

/-- Copies a file with its time. A folder as target receives the copy under the source's name. -/
def copy (source target : Path) : Action Unit := do
  ensureParent target
  let d ← get
  let inside := match d.find target with
    | .ok n => n.isFolder
    | .error _ => false
  let goal := if inside then target.join source.name else target
  match d.locate source, d.locate goal with
  | .ok a, .ok b => if a = b then throw (.sameFile source goal inside)
  | _, _ => pure ()
  let bytes ← ask (Disk.readBytes · source)
  let time ← ask (Disk.time · source)
  writeBytes goal bytes
  let d ← get
  let place ← refuseIfError goal (d.locate goal)
  set (d.alter place fun n ↦ n.map (Node.setTime time))

/-- Removes a file if there is one, and says whether there was. -/
def remove (p : Path) : Action Bool := do
  if ← ask (Disk.exists? · p) then
    let d ← get
    let place ← refuseIfError p (d.locate p)
    match d.node? place with
    | some (.folder ..) => throw (.refused .isFolder p)
    | _ =>
      set (d.detach place)
      return true
  else return false

/-- Removes everything in a folder and keeps the folder. -/
def clear (p : Path) : Action Unit := do
  if ← ask (Disk.isFolder · p) then
    let d ← get
    let place ← refuseIfError p (d.locate p)
    set (d.alter place fun
      | some (.folder t entries) => some (.folder (if entries.isEmpty then t else d.now) [])
      | n => n)

/-- Removes a file, or a folder with everything in it. -/
def removeTree (p : Path) : Action Unit := do
  let d ← get
  let place ← refuseIfError p (d.locate p)
  set (d.detach place)

/-- Sets the time of a file or folder. -/
def setTime (p : Path) (t : Nat) : Action Unit := do
  let d ← get
  let place ← refuseIfError p (d.locate p)
  set (d.alter place fun n ↦ n.map (Node.setTime t))

/-- An empty disk with the folders down to a working directory. -/
def empty (here : List String) (now : Nat) : Disk :=
  let top := here.foldr (fun name n ↦ Node.folder now [(name, n)]) (.folder now [])
  ⟨top, here, now⟩

end AssetBundler.Disk
