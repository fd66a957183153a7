import AssetBundler.Path
import AssetBundler.Value.Literal

/-!
# Disk errors

What the operating system refuses, with its number and its words, and the one refusal that comes
before any system call: copying a file onto itself.
-/

namespace AssetBundler

namespace Disk

inductive Refusal where
  | notFound
  | exists
  | notFolder
  | isFolder
  | nameTooLong
  deriving DecidableEq, Repr

namespace Refusal

def number : Refusal → Nat
  | .notFound => 2
  | .exists => 17
  | .notFolder => 20
  | .isFolder => 21
  | .nameTooLong => 36

def words : Refusal → String
  | .notFound => "No such file or directory"
  | .exists => "File exists"
  | .notFolder => "Not a directory"
  | .isFolder => "Is a directory"
  | .nameTooLong => "File name too long"

end Refusal

inductive Error where
  | refused (why : Refusal) (path : Path)
  /-- A file could not be moved from one path to another. -/
  | refusedMove (why : Refusal) (source target : Path)
  /-- The target of a copy is its source; `inside` if the target was named by its folder only. -/
  | sameFile (source target : Path) (inside : Bool)
  deriving DecidableEq, Repr

namespace Error

/-- A path object as messages quote it. -/
def quotePath (p : Path) : String := "PosixPath(" ++ quoteText p.text ++ ")"

def message : Error → String
  | .refused why path =>
    "[Errno " ++ toString why.number ++ "] " ++ why.words ++ ": " ++ quoteText path.text
  | .refusedMove why source target =>
    "[Errno " ++ toString why.number ++ "] " ++ why.words ++ ": " ++ quoteText source.text ++
      " -> " ++ quoteText target.text
  | .sameFile source target inside =>
    quotePath source ++ " and " ++
      (if inside then quoteText target.text else quotePath target) ++ " are the same file"

end Error

end Disk

end AssetBundler
