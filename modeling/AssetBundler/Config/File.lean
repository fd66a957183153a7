import AssetBundler.Config
import AssetBundler.Disk.Text
import AssetBundler.Package

/-!
# The configuration file

The configuration of a project is a YAML map in a file of its root folder. A project without the
file, or with one that holds nothing, has the default configuration.
-/

namespace AssetBundler.Config

def fileName : String := "assetpipe.yaml"

/-- The fields of the value that a file holds; one that counts as false has none. -/
def fieldsOfValue (path : Path) : Option Value → Except Failure Value.Fields
  | none => .error (.config (.unparsable path))
  | some (.map fields) => .ok fields
  | some v => if v.truthy then .error (.config (.notFields path)) else .ok []

/-- The configuration of the project in a root folder. -/
def load (d : Disk) (root : Path) (packages : optParam Packages .standard) : Except Failure Config := do
  let path := d.resolve (root.join fileName)
  if ← Disk.orFail (d.isFile path) then
    ofFields (← fieldsOfValue path (← orRaise (packages.parseYaml (← d.readText path))))
  else return default

end AssetBundler.Config
