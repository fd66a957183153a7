import AssetBundler.Config
import AssetBundler.Manifest
import AssetBundler.Processor.Reference
import AssetBundler.SearchPath
import AssetBundler.Tag

/-!
# Pipelines

A pipeline is a configuration at work: a search path, the processors of three phases, the directives,
an environment, and the manifest of the folder that the environment publishes to. The questions here
need no disk; building and publishing assets start from `AssetBundler.Site`.
-/

namespace AssetBundler

structure Pipeline where
  root : Path
  config : Config
  /-- The modules that processor references can name. -/
  library : Library
  searchPath : SearchPath
  preprocessors : Registry
  postprocessors : Registry
  /-- Processors that run in production only. -/
  compressors : Registry
  directives : DirectiveTable
  manifest : Manifest
  environment : String

namespace Pipeline

def environmentVariable : String := "ASSETPIPE_ENV"

def defaultEnvironment : String := "local"

/-- The first of an explicit name and the one in the environment variable that is not empty. -/
def chooseEnvironment (explicit inherited : Option String) : String :=
  (([explicit, inherited].filterMap id).find? (· ≠ "")).getD defaultEnvironment

/-- Registers the entries of a table after the processors that are already there. -/
def registerAll (library : Library) (r : Registry) (table : Table String (List Value)) :
    Except Failure Registry :=
  table.foldlM (fun r e ↦ e.2.foldlM (fun r entry ↦ r.register library e.1 entry []) r) r

def standardPreprocessors : Registry :=
  [(stylesheetType, [⟨.imports, []⟩, ⟨.directives, []⟩]), (scriptType, [⟨.directives, []⟩])]

def standardPostprocessors : Registry :=
  [(stylesheetType, [⟨.less, []⟩]), (scriptType, [⟨.safetyColons, []⟩])]

/-- A pipeline in the default environment that has not loaded a manifest. -/
def assemble (library : Library) (here : List String) (root : Path) (config : Config) :
    Except Failure Pipeline := do
  let root := root.resolve here
  let postprocessors ← registerAll library standardPostprocessors config.postprocessors
  let compressors ← registerAll library [] config.compressors
  return {
    root
    config
    library
    searchPath := .create here (config.paths.map root.join) config.contentTypes.keys
    preprocessors := standardPreprocessors
    postprocessors
    compressors
    directives := .default
    manifest := .empty
    environment := defaultEnvironment
  }

def inProduction (p : Pipeline) : Bool := p.config.production.contains p.environment

def inDevelopment (p : Pipeline) : Bool := !p.inProduction && p.environment != "staging"

/-- The environment that stands for production. -/
def productionName (p : Pipeline) : String := p.config.production.headD "production"

def assetDir (p : Pipeline) : String :=
  if p.inProduction then p.config.assetDir.production else p.config.assetDir.development

def targetPath (p : Pipeline) : Path := (p.root.join p.config.publicDir).join p.assetDir

def dropLeadingSlashes (s : String) : String := String.ofList (s.toList.dropWhile (· == '/'))

/-- Parts that are not empty, each after a slash; a lone slash if there are none. -/
def slashed (parts : List String) : String := "/" ++ "/".intercalate (parts.filter (· ≠ ""))

def publishedUrl (p : Pipeline) (filename : String) : String :=
  slashed [p.assetDir, dropLeadingSlashes filename]

/-- Takes out every query, from its question mark to the end of the line. -/
def dropQueries (inQuery : Bool) : List Char → List Char
  | [] => []
  | c :: cs =>
    if c = '\n' then c :: dropQueries false cs
    else if inQuery || c = '?' then dropQueries true cs
    else c :: dropQueries false cs

/-- The path that an address is published under, with a leading slash and without queries. -/
def addressPath (path : String) : String :=
  let cs := dropQueries false path.toList
  if cs.head? = some '/' then String.ofList cs else "/" ++ String.ofList cs

/-- Outside development the manifest supplies the name; an empty one does not count. -/
def fingerprinted (p : Pipeline) (path : String) : String :=
  if !p.inDevelopment && p.config.fingerprintsStaticFiles then
    match p.manifest.get? path with
    | some name => if name = "" then path else name
    | none => path
  else path

/-- The URL of a path below the asset folder. Packages are published as they are. -/
def assetUrl (p : Pipeline) (path : String) : String :=
  let path := addressPath path
  if "/packages".toList.isPrefixOf path.toList then path
  else "/" ++ p.assetDir ++ p.fingerprinted path

def contentType (p : Pipeline) (ext : String) : Option String :=
  p.config.contentTypes.get? (normalizeExtension ext)

def formatOf (p : Pipeline) (name : String) : String := formatExtension p.config.contentTypes.keys name

def contentTypeOf (p : Pipeline) (path : Path) : Option String :=
  p.config.contentTypes.get? (p.formatOf path.name)

/-- The processors of a type in the order in which they run. -/
def processorsFor (p : Pipeline) (contentType : Option String) : List Spec :=
  p.preprocessors.all contentType ++ p.postprocessors.all contentType ++
    if p.inProduction then p.compressors.all contentType else []

end Pipeline

end AssetBundler
