import AssetBundler.Text.Split

/-!
# Paths

A path is an anchor and the names after it, without empty names and single dots; double dots are
kept. Its text is the usual one, with a single dot for the path that has neither anchor nor names.
Resolving a path is lexical: it is put below the working directory unless it is anchored, and each
double dot takes away the name before it.
-/

namespace AssetBundler

/-- Exactly two leading slashes are an anchor of their own. -/
inductive Anchor where
  | none
  | slash
  | doubleSlash
  deriving DecidableEq, Repr

namespace Anchor

def text : Anchor → String
  | .none => ""
  | .slash => "/"
  | .doubleSlash => "//"

def ofText : List Char → Anchor
  | ['/', '/'] => .doubleSlash
  | '/' :: '/' :: '/' :: _ => .slash
  | '/' :: '/' :: _ => .doubleSlash
  | '/' :: _ => .slash
  | _ => .none

end Anchor

structure Path where
  anchor : Anchor
  names : List String
  deriving DecidableEq, Repr

namespace Path

/-- The names that a text spells between its slashes. -/
def namesOf (s : String) : List String :=
  ((Text.split '/' s.toList).filter fun cs ↦ !cs.isEmpty && cs != ['.']).map String.ofList

def ofText (s : String) : Path := ⟨.ofText s.toList, namesOf s⟩

def text (p : Path) : String :=
  if p.anchor = .none ∧ p.names = [] then "."
  else p.anchor.text ++ "/".intercalate p.names

instance : ToString Path := ⟨text⟩

/-- The path that `s` names as seen from the directory `p`. -/
def join (p : Path) (s : String) : Path :=
  let q := ofText s
  if q.anchor = .none then ⟨p.anchor, p.names ++ q.names⟩ else q

/-- The last name, empty for a path without names. -/
def name (p : Path) : String := p.names.getLastD ""

def parent (p : Path) : Path := ⟨p.anchor, p.names.dropLast⟩

def withName (p : Path) (name : String) : Path := ⟨p.anchor, p.names.dropLast ++ [name]⟩

/-- The absolute path of names below the root. -/
def absolute (names : List String) : Path := ⟨.slash, names⟩

/-- Follows names from a place below the root; a double dot at the root stays there. -/
def follow (start : List String) (names : List String) : List String :=
  names.foldl (fun place name ↦ if name = ".." then place.dropLast else place ++ [name]) start

/-- The names below the root that the path spells from the working directory `here`. -/
def place (here : List String) (p : Path) : List String :=
  follow (if p.anchor = .none then here else []) p.names

/-- The canonical form as seen from the working directory `here`. -/
def resolve (here : List String) (p : Path) : Path := absolute (p.place here)

end Path

end AssetBundler
