import AssetBundler.Directive.Handler

/-!
# Processors

A processor transforms the content of one file. What it does is its step; the name and the kind are
for display. A custom step is code outside the pipeline. It sees its options and the name of the current
file and answers in pieces: texts, the data URIs of files that only a build session can fill in, and what
it raises.
-/

namespace AssetBundler

/-- A part of what a custom step makes. -/
inductive Fragment where
  | text (s : String)
  | dataUri (path : String)
  | raised (e : Raised)

inductive Step where
  /-- Leaves the content as it is. -/
  | keep
  /-- Runs the directives of the header, by a table of its own if it has one. -/
  | directives (table : Option DirectiveTable)
  | expandImports
  | terminateScript
  | compactStylesheet
  | compactScript
  | publishReferences
  | compileNested
  /-- Calls the function among its options; configuration files hold no functions. -/
  | callOption
  | custom (run : Value.Fields → Option String → String → List Fragment)

structure Processor where
  name : String
  kind : String
  step : Step

namespace Processor

def identity : Processor := ⟨"Processor", "identity", .keep⟩

def function : Processor := ⟨"FunctionProcessor", "function", .callOption⟩

def directives : Processor := ⟨"DirectiveProcessor", "directives", .directives none⟩

def imports : Processor := ⟨"ImportProcessor", "imports", .expandImports⟩

def safetyColons : Processor := ⟨"SafetyColonsProcessor", "safety_colons", .terminateScript⟩

def cssCompressor : Processor := ⟨"CssCompressor", "css_compressor", .compactStylesheet⟩

def jsCompressor : Processor := ⟨"JsCompressor", "js_compressor", .compactScript⟩

def cssUrls : Processor := ⟨"CssUrlProcessor", "css_urls", .publishReferences⟩

def less : Processor := ⟨"LessProcessor", "less", .compileNested⟩

end Processor

/-- A processor as it is registered, with its options. -/
structure Spec where
  processor : Processor
  options : Value.Fields

namespace Spec

/-- The key under which a function processor keeps its function. -/
def functionKey : String := "function"

/-- The name for display. A value in the place of the function hides the name of the class. -/
def name (s : Spec) : String :=
  match s.processor.step, s.options.get? functionKey with
  | .callOption, some .null => s.processor.name
  | .callOption, some _ => s.processor.kind
  | _, _ => s.processor.name

/-- The options without the function. -/
def plainOptions (s : Spec) : Value.Fields := s.options.filter fun field ↦ !field.1.isText functionKey

/-- The key under which a processor of directives has a table of its own. -/
def tableKey : String := "directives"

/-- Whether an option of the configuration, which holds no tables, stands in the place of the table. -/
def hidesTable (s : Spec) : Bool :=
  match s.options.get? tableKey with
  | none => false
  | some .null => false
  | some _ => true

/-- Whether an option is set to something that counts as true. -/
def flag (s : Spec) (key : String) : Bool := ((s.options.get? key).map Value.truthy).getD false

end Spec

end AssetBundler
