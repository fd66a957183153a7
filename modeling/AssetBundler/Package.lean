import AssetBundler.Ignore
import AssetBundler.Script.Compact
import AssetBundler.Stylesheet.Compact
import AssetBundler.Stylesheet.Nested.Compiler
import AssetBundler.Yaml.Reader

/-!
# Packages

Configuration files, ignore patterns and nested stylesheets are read by packages of others, and so are
stylesheets and scripts compacted. The pipeline takes from them what it is here: a value for a text, a set
of paths for some patterns, a text for a text. Nothing else depends on how they do it. The packages of
`Packages.standard` read what such texts ordinarily hold.
-/

namespace AssetBundler

/-- The functions of other packages that the pipeline calls. -/
structure Packages where
  /-- Reads YAML; a text that is malformed has no value. -/
  parseYaml : String → Except Raised (Option Value)
  /-- The paths that some patterns ignore. -/
  ignores : List String → Except Raised (String → Bool)
  /-- Compiles a nested stylesheet, minified or not, if it can be compiled. -/
  compileNested : Bool → String → Option String
  /-- Compacts a stylesheet and keeps its marked comments or not. -/
  compactStylesheet : Bool → String → String
  /-- Compacts a script and keeps its marked comments or not. -/
  compactScript : Bool → String → String

def Packages.standard : Packages where
  parseYaml text := .ok (Yaml.parse? text)
  ignores texts := return Ignore.isIgnored (← Ignore.parseAll texts)
  compileNested := Stylesheet.Nested.compile?
  compactStylesheet := Stylesheet.compact
  compactScript := Script.compact

end AssetBundler
