import AssetBundler.Asset.Content

/-!
# Publishing one asset

In production a name in the manifest is used as it is; otherwise the body is written under its
fingerprinted name, which the manifest then records. In development the file is written under its
plain name unless what is there is fresh.
-/

namespace AssetBundler

/-- What came of publishing an asset. -/
structure Published where
  path : Path
  url : String
  /-- The name below the asset folder. -/
  filename : String
  /-- Whether a file was written; an existing one can be used again. -/
  isWritten : Bool
  isFromManifest : Bool
  deriving DecidableEq, Repr

namespace Asset

/-- The name of the asset in the manifest; an empty one does not count. -/
def recordedName : Action (Option String) := do
  let s ← get
  return (s.asset.inManifest s.site.pipeline).filter (· ≠ "")

def outputPath (filename : String) : Action Path :=
  return (← get).site.pipeline.targetPath.join filename

def published (filename : String) (isWritten isFromManifest : Bool) : Action Published := do
  let path ← outputPath filename
  return ⟨path, (← get).site.pipeline.publishedUrl filename, filename, isWritten, isFromManifest⟩

def writeFile (target : Path) (text : String) : Action Unit :=
  onSite (Site.ofDisk (Disk.writeText target text) (.notWritten target))

/-- Writes the fingerprinted file and records its name. -/
def publishFingerprinted : Action Published := do
  let filename ← fingerprint
  writeFile (← outputPath filename) (← body)
  onSite (Site.ofManifest (Manifest.add (← get).asset.basename filename))
  published filename true false

/-- Writes the plain file unless it is fresh. -/
def publishPlain : Action Published := do
  let s ← get
  let filename := s.asset.outputName s.site.pipeline
  let target ← outputPath filename
  let text ← body
  if ← isFresh target then published filename false false
  else
    writeFile target text
    published filename true false

def publish : Action Published := do
  match ← recordedName with
  | some filename => published filename false true
  | none =>
    if (← get).site.pipeline.inProduction then publishFingerprinted else publishPlain

/-- Runs an action on an asset of a site. -/
def runOn {α : Type} (asset : Asset) (action : Action α) : Site.Action (α × Asset) := fun site ↦
  match action ⟨site, asset⟩ with
  | .ok a s => .ok (a, s.asset) s.site
  | .error e s => .error e s.site

end Asset

namespace Site

/-- Publishes an asset and makes the tag that refers to it. -/
def render (logical : String) : Action String := do
  let asset ← ask fun s ↦ s.getAsset logical
  let (published, asset) ← Asset.runOn asset Asset.publish
  return renderTag (asset.contentType (← get).pipeline) published.url logical

/-- The body of an asset. -/
def body (logical : String) : Action String := do
  let asset ← ask fun s ↦ s.getAsset logical
  return (← Asset.runOn asset Asset.body).1

end Site

end AssetBundler
