import AssetBundler.Failure
import AssetBundler.Text.Lines

/-!
# Reading text

A file is read as text if its bytes are strict UTF-8: no overlong forms and no surrogates. A byte
order mark stays in the text. Carriage returns, alone or before a line feed, are read as line feeds.
-/

namespace AssetBundler

def unifyNewlines (s : String) : String := String.ofList (Text.unifyNewlines s.toList)

/-- The text of a file. -/
def Disk.readText (d : Disk) (p : Path) : Except Failure String := do
  match String.fromUTF8? (← Disk.orFail (d.readBytes p)) with
  | some s => return unifyNewlines s
  | none => .error (.notText p)

end AssetBundler
