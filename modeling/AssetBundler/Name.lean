import AssetBundler.Path
import AssetBundler.Text.Lowercase

/-!
# Logical paths and file names

Rules on the text of logical paths and on the extensions of file names. The extensions of a name are
all the dotted parts after its first character, in lower case; the format of a name is the first of
them that a table of types knows.
-/

namespace AssetBundler

/-- Lower case, with a leading dot. -/
def normalizeExtension (ext : String) : String :=
  let low := Text.lower ext
  if low.toList.head? = some '.' then low else "." ++ low

def isSeparator (c : Char) : Bool := c == '/' || c == '\\'

/-- Absolute in the form of either family of systems: a leading separator, or a drive letter, a
colon and a separator. -/
def isAbsolute (s : String) : Bool :=
  match s.toList with
  | c :: d :: e :: _ => isSeparator c || (c.isAlpha && d == ':' && isSeparator e)
  | c :: _ => isSeparator c
  | [] => false

/-- Whether the text starts with one or two dots and a separator. -/
def isRelativeMarker (s : String) : Bool :=
  match s.toList with
  | '.' :: '.' :: c :: _ => isSeparator c
  | '.' :: c :: _ => isSeparator c
  | _ => false

/-- Writes every separator as a slash. -/
def toSlashes (s : String) : String := String.ofList (Text.replaceChar '\\' '/' s.toList)

/-- The characters after the first dot that is not the first character. -/
def afterFirstDot (name : String) : Option (List Char) :=
  match name.toList.drop 1 |>.dropWhile (· ≠ '.') with
  | [] => none
  | _ :: rest => some rest

def extensionsOf (name : String) : List String :=
  match afterFirstDot name with
  | none => []
  | some rest =>
    ((Text.split '.' rest).filter fun e ↦ !e.isEmpty).map fun e ↦ normalizeExtension (String.ofList e)

/-- The first extension among `known`, or the empty text. -/
def formatExtension (known : List String) (name : String) : String :=
  ((extensionsOf name).find? known.contains).getD ""

/-- The name up to its first dot that is not the first character. -/
def stemOf (name : String) : String :=
  match name.toList with
  | [] => ""
  | c :: cs => String.ofList (c :: cs.takeWhile (· ≠ '.'))

/-- The last dot and what follows it, unless the dot is the first or the last character. -/
def lastSuffix (name : String) : String :=
  let suffix := name.toList.reverse.takeWhile (· ≠ '.')
  if suffix.isEmpty ∨ name.length ≤ suffix.length + 1 then ""
  else String.ofList ('.' :: suffix.reverse)

/-- Puts a digest between the stem of a relative name and its last suffix, which is lower-cased. -/
def fingerprintedName (rel digest : String) : String :=
  let p := Path.ofText rel
  let suffix := lastSuffix p.name
  let stem := String.ofList (p.name.toList.take (p.name.length - suffix.length))
  let name := stem ++ "-" ++ digest ++ Text.lower suffix
  if p.parent.text = "." then name else p.parent.text ++ "/" ++ name

end AssetBundler
