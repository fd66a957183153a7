import AssetBundler.Asset.Basic
import AssetBundler.Digest.Sha1
import AssetBundler.Session.Evaluation

/-!
# The content of assets

The body of an asset is what its required assets contain, in the order of their requirement, and then
its own processed text. It is built once, in a session of its own, and its digest is that of its
UTF-8 bytes. A published file is fresh if it is not older than anything the body was made of and
holds the body.
-/

namespace AssetBundler.Asset

/-- An asset and the site that it belongs to. -/
structure State where
  site : Site
  asset : Asset

abbrev Action := EStateM Failure State

def onSite {α : Type} (action : Site.Action α) : Action α := fun s ↦
  match action s.site with
  | .ok a site => .ok a { s with site }
  | .error e site => .error e { s with site }

/-- An answer about the site and the asset as they stand. -/
def ask {α : Type} (question : State → Except Failure α) : Action α := fun s ↦
  match question s with
  | .ok a => .ok a s
  | .error e => .error e s

/-- The text of a file run through processors, from the point of view of the file itself. -/
def evaluation (site : Site) (path : Path) (specs : List Spec) : Session.Action String := do
  let text ← Session.ofExcept (site.disk.readText path)
  Session.evaluate site ⟨some path⟩ path (some text) specs

/-- The included texts, with line feeds between them, and the text of the asset itself. -/
def assemble (included : List String) (own : String) : String := "\n".intercalate included ++ own

/-- The body, built if it is not known. What directives noted is kept even if the build fails. -/
def body : Action String := fun s ↦
  match s.asset.builtBody with
  | some text => .ok text s
  | none =>
    let path := s.asset.path
    match evaluation s.site path (s.asset.processors s.site.pipeline) (Session.forAsset path) with
    | .error e t => .error e { s with site := { s.site with notes := s.site.notes ++ t.notes } }
    | .ok own t =>
      let text := assemble t.included own
      .ok text {
        site := { s.site with notes := s.site.notes ++ t.notes }
        asset := { s.asset with
          dependencies := s.asset.dependencies ++ t.dependencies
          builtBody := some text } }

/-- Replaces the body; the digest has to be made again. -/
def setBody (text : String) : Action Unit :=
  modify fun s ↦ { s with asset := { s.asset with builtBody := some text, builtDigest := none } }

def digestOf (text : String) : String := Sha1.hex text.toUTF8

def digest : Action String := do
  match (← get).asset.builtDigest with
  | some known => return known
  | none =>
    let made := digestOf (← body)
    modify fun s ↦ { s with asset := { s.asset with builtDigest := some made } }
    return made

def targetName : Action String := do
  let made ← digest
  let s ← get
  return s.asset.hashedTargetName s.site.pipeline made

def fingerprint : Action String := do
  let made ← digest
  let s ← get
  return s.asset.digestName s.site.pipeline made

/-- The latest of the times of some paths, at least `latest`. -/
def latestTime (d : Disk) (latest : Nat) : List Path → Except Disk.Error Nat
  | [] => .ok latest
  | p :: ps => do latestTime d (max latest (← d.time p)) ps

/-- The latest time of the file and of everything that it depends on. -/
def lastModified : Action Nat := do
  let _ ← body
  ask fun s ↦ Disk.orFail (latestTime s.site.disk 0 (s.asset.path :: s.asset.dependencies))

/-- Whether a published file is not older than the asset and holds its body. -/
def isFresh (target : Path) : Action Bool := do
  if ← ask fun s ↦ s.site.isFile target then
    let written ← ask fun s ↦ Disk.orFail (s.site.disk.time target)
    if written < (← lastModified) then return false
    else
      let text ← ask fun s ↦ s.site.disk.readText target
      return text == (← body)
  else return false

end AssetBundler.Asset
