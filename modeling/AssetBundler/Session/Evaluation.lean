import AssetBundler.Encoding.Base64
import AssetBundler.Encoding.Percent
import AssetBundler.Script.Terminator
import AssetBundler.Session.Basic
import AssetBundler.Stylesheet.Reference

/-!
# Evaluation

To evaluate a file is to run its content through processors, which can ask for other files: a
directive for the finished content of another asset or of a whole folder, an import for the content
of another stylesheet. What a processor may ask is written against an evaluation of other files that
is passed in; `evaluate` ties the knot, with fuel for the depth of evaluations within evaluations.
Required files are marked and imported ones are not in the chain, so no depth is larger than
`depthBound`.
-/

namespace AssetBundler.Session

/-- An evaluation of a file as seen from a viewpoint: its content, or its text on disk, is run
through processors. -/
abbrev Evaluator := Viewpoint → Path → Option String → List Spec → Action String

/-- Counts the times of a file, but takes no content from it. -/
def dependOn (site : Site) (v : Viewpoint) (path : String) : Action Unit := do
  addDependency (← ofExcept (v.require site path true))

/-- Includes the finished content of another asset, once in a build. -/
def requireAsset (eval : Evaluator) (site : Site) (v : Viewpoint) (path : String) : Action Unit := do
  let found ← ofExcept (v.require site path true)
  match (← get).marks.get? found with
  | some .done => pure ()
  | some .inProgress => throw (.circular ((← get).chain ++ [found]))
  | none =>
    setMark found .inProgress
    addDependency found
    let text ← eval v found none (site.pipeline.processorsFor (site.pipeline.contentTypeOf found))
    addText text
    setMark found .done

/-- Whether an entry of a required folder takes part: dot files, the current file and folders
without an index file do not. -/
def isSelected (site : Site) (v : Viewpoint) (entry : Disk.Listed) : Except Failure Bool := do
  let path := site.disk.resolve entry.path
  if entry.name.toList.head? = some '.' then return false
  else if v.path = some path then return false
  else if entry.isFolder then
    return (← Disk.orFail (site.pipeline.searchPath.findIndex site.disk path v.preferred)).isSome
  else return true

def requireEntries (eval : Evaluator) (site : Site) (v : Viewpoint) :
    List Disk.Listed → Action Unit
  | [] => pure ()
  | entry :: entries => do
    if ← ofExcept (isSelected site v entry) then
      requireAsset eval site v (site.disk.resolve entry.path).text
    requireEntries eval site v entries

/-- Requires the entries of a folder in the order of their names. -/
def requireTree (eval : Evaluator) (site : Site) (v : Viewpoint) (path : String) : Action Unit := do
  let found ← ofExcept (v.resolve site path false)
  match found with
  | none => throw (.assetNotFound path v.path)
  | some folder =>
    if ← ofExcept (Disk.orFail (site.disk.isFolder folder)) then
      addDependency folder
      requireEntries eval site v (← ofExcept (Disk.orFail (site.disk.list folder)))
    else throw (.assetNotFound path v.path)

def contentType (site : Site) (v : Viewpoint) (path : String) : Action (Option String) := do
  return site.pipeline.contentTypeOf (← ofExcept (v.requireFile site path))

/-- The content type that a URI names; an empty one does not count. -/
def mediaType (contentType : Option String) : String :=
  (contentType.filter (· ≠ "")).getD "application/octet-stream"

/-- The URI that carries bytes of a content type. -/
def dataUriOf (contentType : Option String) (bytes : ByteArray) : String :=
  "data:" ++ mediaType contentType ++ ";base64," ++
    Percent.encode (String.ofList (Base64.encode bytes.data.toList))

/-- A file as a URI that carries its bytes. -/
def dataUri (site : Site) (v : Viewpoint) (path : String) : Action String := do
  let found ← ofExcept (v.requireFile site path)
  addDependency found
  let bytes ← ofExcept (Disk.orFail (site.disk.readBytes found))
  return dataUriOf (site.pipeline.contentTypeOf found) bytes

/-- The viewpoint of a session, which has to be there. -/
def inSession (v : Option Viewpoint) : Action Viewpoint :=
  match v with
  | some v => pure v
  | none => throw .noSession

def noteField (site : Site) (v : Option Viewpoint) : NoteField → Action (Option String)
  | .text s => return some s
  | .currentName => return v.bind fun v ↦ v.path.map Path.name
  | .dataUri path => do return some (← dataUri site (← inSession v) path)
  | .contentType path => do contentType site (← inSession v) path

def fulfil (eval : Evaluator) (site : Site) (v : Option Viewpoint) : Request → Action Unit
  | .require path => do requireAsset eval site (← inSession v) path
  | .dependOn path => do dependOn site (← inSession v) path
  | .requireTree path => do requireTree eval site (← inSession v) path
  | .note fields => do addNote (← fields.mapM (noteField site v))

def runDirective (eval : Evaluator) (site : Site) (v : Option Viewpoint) (table : DirectiveTable)
    (source : Option Path) (d : Directive) : Action Unit := do
  let requests ← ofExcept (table.requests source d)
  logDirective source d
  requests.forM (fulfil eval site v)

/-- The table of a processor of its own, of the pipeline if there is a session, or the default. -/
def directiveTable (site : Site) (v : Option Viewpoint) (own : Option DirectiveTable) :
    DirectiveTable :=
  match own, v with
  | some table, _ => table
  | none, some _ => site.pipeline.directives
  | none, none => .default

def runDirectives (eval : Evaluator) (site : Site) (v : Option Viewpoint)
    (own : Option DirectiveTable) (source : Option Path) (data : String) : Action String := do
  let parsed ← ofExcept (ParsedSource.parse source data.toList)
  parsed.directives.forM (runDirective eval site v (directiveTable site v own) source)
  return String.ofList parsed.processedSource

/-- A setting that is no table can execute no directive. -/
def checkTable (spec : Spec) (own : Option DirectiveTable) (source : Option Path) (data : String) :
    Except Failure Unit :=
  if own.isNone && spec.hidesTable then do
    let parsed ← ParsedSource.parse source data.toList
    if parsed.directives.isEmpty then return () else .error .noSession
  else .ok ()

/-- The content for one import statement: what it names if that is a file, or the statement. -/
def expandImport (eval : Evaluator) (site : Site) (v : Viewpoint) (path : String)
    (source : List Char) : Action (List Char) := do
  match ← ofExcept (v.resolve site path true) with
  | none => return source
  | some found =>
    if ← ofExcept (site.isFile found) then
      if (← get).chain.contains found then throw (.circular ((← get).chain ++ [found]))
      dependOn site v found.text
      let text ← eval v found none [⟨.imports, []⟩]
      return text.toList ++ ['\n']
    else return source

def expandPiece (eval : Evaluator) (site : Site) (v : Viewpoint) :
    Text.Piece String → Action (List Char)
  | .plain c => return [c]
  | .found path source => expandImport eval site v path source

def expandImports (eval : Evaluator) (site : Site) (v : Viewpoint) (data : String) :
    Action String := do
  return String.ofList (← (Stylesheet.imports data).mapM (expandPiece eval site v)).flatten

def publishPiece (p : Pipeline) : Text.Piece Stylesheet.Reference → List Char
  | .plain c => [c]
  | .found r source => if r.isExternal then source else (r.rewritten (p.assetUrl r.target)).toList

def publishReferences (p : Pipeline) (data : String) : String :=
  String.ofList ((Stylesheet.references data).flatMap (publishPiece p))

/-- The extension of nested stylesheets. -/
def nestedExtension : String := ".less"

/-- Compiles a source with the extension of nested stylesheets and leaves any other alone. -/
def compileNested (packages : Packages) (isMinified : Bool) (source : Option Path) (data : String) :
    Action String :=
  match source with
  | none => return data
  | some path =>
    if (extensionsOf path.name).contains nestedExtension then
      match packages.compileNested isMinified data with
      | some text => return text
      | none => throw (.notCompiled path)
    else return data

def fragmentText (site : Site) (v : Option Viewpoint) : Fragment → Action String
  | .text s => return s
  | .dataUri path => do dataUri site (← inSession v) path
  | .raised e => throw e.1

/-- Runs one processor on the content of a file. -/
def runSpec (eval : Evaluator) (site : Site) (v : Option Viewpoint) (source : Option Path)
    (spec : Spec) (data : String) : Action String :=
  let packages := site.pipeline.library.packages
  match spec.processor.step with
  | .keep => return data
  | .directives own => do
    ofExcept (checkTable spec own source data)
    runDirectives eval site v own source data
  | .expandImports =>
    match v with
    | none => return data
    | some v => expandImports eval site v data
  | .terminateScript => return String.ofList (Script.terminate data.toList)
  | .compactStylesheet => return packages.compactStylesheet (spec.flag "keep_bang_comments") data
  | .compactScript => return packages.compactScript (spec.flag "keep_bang_comments") data
  | .publishReferences =>
    match v with
    | none => return data
    | some _ => return publishReferences site.pipeline data
  | .compileNested => compileNested packages (spec.flag "minify") source data
  | .callOption => throw .notFunction
  | .custom run => do
    let fragments := run spec.options (v.bind fun v ↦ v.path.map Path.name) data
    return "".intercalate (← fragments.mapM (fragmentText site v))

/-- The content that is evaluated: what is given, or the text of the file. -/
def contentOf (site : Site) (v : Viewpoint) (path : Path) (data : Option String) :
    Except Failure String :=
  match data with
  | some data => .ok data
  | none => do
    if ← site.isFile path then site.disk.readText path
    else .error (.assetNotFound path.text v.path)

/-- Runs content through processors one after another. -/
def runSpecs (eval : Evaluator) (site : Site) (path : Path) (data : String) (specs : List Spec) :
    Action String :=
  specs.foldlM (fun data spec ↦ runSpec eval site (some ⟨some path⟩) (some path) spec data) data

def evaluateWithin (site : Site) : Nat → Evaluator
  | 0, _, _, _, _ => throw .nestedTooDeep
  | depth + 1, v, path, data, specs => do
    let data ← ofExcept (contentOf site v path data)
    nested path (runSpecs (evaluateWithin site depth) site path data specs)

/-- Each file can be required and imported once below itself, so two evaluations a file and those
of the caller are all that can be nested. -/
def depthBound (site : Site) : Nat := 2 * site.disk.fileCount + 4

def evaluate (site : Site) : Evaluator := evaluateWithin site (depthBound site)

end AssetBundler.Session
