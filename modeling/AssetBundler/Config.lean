import AssetBundler.Failure
import AssetBundler.Name
import AssetBundler.Table

/-!
# Configuration

The settings of a pipeline. Every one has a default, and a configuration file is a map that overrides
some of them; fields that are not known are ignored. Texts are made of any value by its display form,
and where a list is expected a single value counts as a list of itself.
-/

namespace AssetBundler

/-- The folder of published files below the public folder. -/
structure AssetDir where
  development : String
  production : String
  deriving DecidableEq, Repr

structure Config where
  paths : List String
  contentTypes : Table String String
  postprocessors : Table String (List Value)
  compressors : Table String (List Value)
  targetExtensions : Table String String
  publicDir : String
  assetDir : AssetDir
  /-- The names of environments that count as production. -/
  production : List String
  fingerprintsStaticFiles : Bool
  /-- Sources of the files that are copied, by destination. -/
  staticFiles : Table String (List String)
  staticIgnore : List String

/-- Takes the slashes off both ends. -/
def stripSlashes (s : String) : String :=
  let cs := s.toList.dropWhile (· == '/')
  String.ofList (cs.reverse.dropWhile (· == '/')).reverse

namespace AssetDir

def default : AssetDir := ⟨"assets", "assets"⟩

/-- The display form of a field, or a default where the field is absent. -/
def field (fields : Value.Fields) (key default : String) : String :=
  stripSlashes (((Value.Fields.get? fields key).map Value.display).getD default)

def ofValue : Value → Except Failure AssetDir
  | .null => .ok default
  | .text s => .ok ⟨stripSlashes s, stripSlashes s⟩
  | .map fields =>
    let development := field fields "local" "assets"
    .ok ⟨development, field fields "production" development⟩
  | _ => .error (.config .badAssetDir)

end AssetDir

namespace Config

def default : Config where
  paths := []
  contentTypes :=
    [(".css", "text/css"), (".less", "text/css"), (".js", "application/javascript"),
      (".jpeg", "image/jpeg"), (".jpg", "image/jpeg"), (".png", "image/png"),
      (".gif", "image/gif"), (".svg", "image/svg+xml")]
  postprocessors := []
  compressors :=
    [("text/css", [.text "assetpipe.processors.compressors:CssCompressor"]),
      ("application/javascript", [.text "assetpipe.processors.compressors:JsCompressor"])]
  targetExtensions := [(".less", ".css")]
  publicDir := "public"
  assetDir := .default
  production := ["production", "prod"]
  fingerprintsStaticFiles := true
  staticFiles := []
  staticIgnore := []

def texts (v : Value) : List String := v.toItems.map Value.display

/-- The fields of a map; a value that counts as false has none. -/
def fieldsOf (key expected : String) : Value → Except Failure Value.Fields
  | .map fields => .ok fields
  | v => if v.truthy then .error (.config (.notMapping key expected)) else .ok []

/-- Processor entries by content type; null has none. -/
def processorTable (key : String) : Value → Except Failure (Table String (List Value))
  | .null => .ok []
  | .map fields => .ok (.ofEntries (fields.map fun f ↦ (f.1.display, f.2.toItems)))
  | _ => .error (.config (.notMapping key "content type to processors"))

/-- Applies a setting if it is present. -/
def setting (fields : Value.Fields) (key : String) (apply : Config → Value → Except Failure Config)
    (c : Config) : Except Failure Config :=
  match fields.get? key with
  | none => .ok c
  | some v => apply c v

def setPaths (c : Config) (v : Value) : Except Failure Config := .ok { c with paths := texts v }

def setContentTypes (c : Config) (v : Value) : Except Failure Config := do
  let fields ← fieldsOf "content_types" "extension to type" v
  let types := fields.map fun f ↦ (normalizeExtension f.1.display, f.2.display)
  return { c with contentTypes := Table.ofEntries types }

def setTargetExtensions (c : Config) (v : Value) : Except Failure Config := do
  let fields ← fieldsOf "target_extensions" "extension to extension" v
  let targets := fields.map fun f ↦
    (normalizeExtension f.1.display, normalizeExtension f.2.display)
  return { c with targetExtensions := Table.ofEntries targets }

def setPostprocessors (c : Config) (v : Value) : Except Failure Config := do
  return { c with postprocessors := ← processorTable "postprocessors" v }

def setCompressors (c : Config) (v : Value) : Except Failure Config := do
  return { c with compressors := ← processorTable "compressors" v }

def setPublicDir (c : Config) (v : Value) : Except Failure Config :=
  .ok { c with publicDir := v.display }

def setAssetDir (c : Config) (v : Value) : Except Failure Config := do
  return { c with assetDir := ← AssetDir.ofValue v }

def setProduction (c : Config) (v : Value) : Except Failure Config :=
  .ok { c with production := texts v }

def setFingerprintsStaticFiles (c : Config) (v : Value) : Except Failure Config :=
  .ok { c with fingerprintsStaticFiles := v.truthy }

def setStaticFiles (c : Config) (v : Value) : Except Failure Config := do
  let fields ← fieldsOf "static_files" "destination to sources" v
  let sources := fields.map fun f ↦ (stripSlashes f.1.display, texts f.2)
  return { c with staticFiles := Table.ofEntries sources }

def setStaticIgnore (c : Config) (v : Value) : Except Failure Config :=
  .ok { c with staticIgnore := texts v }

/-- All settings in the order in which they are checked. -/
def settings : List (String × (Config → Value → Except Failure Config)) :=
  [("paths", setPaths), ("content_types", setContentTypes),
    ("target_extensions", setTargetExtensions), ("postprocessors", setPostprocessors),
    ("compressors", setCompressors), ("public_dir", setPublicDir), ("asset_dir", setAssetDir),
    ("production", setProduction),
    ("enable_static_file_fingerprint", setFingerprintsStaticFiles),
    ("static_files", setStaticFiles), ("static_ignore", setStaticIgnore)]

def ofFields (fields : Value.Fields) : Except Failure Config :=
  settings.foldlM (fun c s ↦ setting fields s.1 s.2 c) default

end Config

end AssetBundler
