import AssetBundler.Site

/-!
# Assets

An asset is one file with the logical path that it was found by. Its names follow from the name of
the file and from the tables of the pipeline: the published name has the extension of the compiled
format, and in production the digest of the content as well. Content and digest are kept once they
are known.
-/

namespace AssetBundler

structure Asset where
  path : Path
  logical : Option String
  /-- Files and folders whose changes matter, known once the body is built. -/
  dependencies : List Path
  builtBody : Option String
  builtDigest : Option String
  deriving DecidableEq, Repr

namespace Asset

/-- An asset that has not been built. -/
def ofFile (path : Path) (logical : Option String) : Asset := ⟨path, logical, [], none, none⟩

def basename (a : Asset) : String := a.path.name

def stem (a : Asset) : String := stemOf a.path.name

def dirname (a : Asset) : Path := a.path.parent

def extensions (a : Asset) : List String := extensionsOf a.path.name

/-- The first extension that has a content type. -/
def format (p : Pipeline) (a : Asset) : String := p.formatOf a.path.name

def contentType (p : Pipeline) (a : Asset) : Option String := p.contentTypeOf a.path

def processors (p : Pipeline) (a : Asset) : List Spec := p.processorsFor (a.contentType p)

/-- The extension that the format is published with. -/
def targetExtension (p : Pipeline) (a : Asset) : String :=
  (p.config.targetExtensions.get? (a.format p)).getD (a.format p)

def endsInFormat (p : Pipeline) (a : Asset) : Bool :=
  Text.endsWith (a.format p).toList (Text.lower a.basename).toList

/-- The published name in development: an extension that is compiled away at the end of the name is
swapped for its target. -/
def outputName (p : Pipeline) (a : Asset) : String :=
  if a.format p ≠ a.targetExtension p ∧ a.endsInFormat p then
    String.ofList (a.basename.toList.take (a.basename.length - (a.format p).length)) ++
      a.targetExtension p
  else a.basename

def plainTargetName (p : Pipeline) (a : Asset) : String := a.stem ++ a.targetExtension p

def hashedTargetName (p : Pipeline) (a : Asset) (digest : String) : String :=
  a.stem ++ "-" ++ digest ++ a.targetExtension p

/-- The folder of a relative logical path. -/
def logicalFolder (a : Asset) : Option String :=
  match a.logical with
  | none => none
  | some logical =>
    if logical = "" ∨ isAbsolute logical then none
    else
      let folder := (Path.ofText (toSlashes logical)).parent.text
      if folder = "." then none else some folder

/-- The published name in production: with the digest, below the folder of the logical path. -/
def digestName (p : Pipeline) (a : Asset) (digest : String) : String :=
  match a.logicalFolder with
  | some folder => folder ++ "/" ++ a.hashedTargetName p digest
  | none => a.hashedTargetName p digest

/-- The name of an asset in production if the manifest has it. -/
def inManifest (p : Pipeline) (a : Asset) : Option String :=
  if p.inProduction then p.manifest.get? a.basename else none

/-- An asset as listings show it. -/
def label (a : Asset) : String :=
  "Asset(" ++ (a.logical.map quoteText).getD "None" ++ ", " ++ quoteText a.path.text ++ ")"

end Asset

namespace Site

/-- The asset that a logical path stands for, if there is one. -/
def findAsset (s : Site) (logical : String) : Except Failure (Option Asset) := do
  return (← s.findFile logical).map fun path ↦ .ofFile path (some logical)

def getAsset (s : Site) (logical : String) : Except Failure Asset := do
  return .ofFile (← s.getFile logical) (some logical)

end Site

end AssetBundler
