/-!
# Occurrences in a text

A recogniser reads one construct at the start of a text and gives what it read and the rest. The
pieces of a text are the occurrences of the construct from left to right, without overlap, and the
single characters between them. Main statement: the sources of the pieces concatenate to the text
(`flatten_pieces`).
-/

namespace AssetBundler.Text

inductive Piece (α : Type) where
  | plain (c : Char)
  | found (a : α) (source : List Char)
  deriving DecidableEq, Repr

namespace Piece

variable {α : Type}

def source : Piece α → List Char
  | .plain c => [c]
  | .found _ source => source

end Piece

variable {α : Type}

def pieces (recognise : List Char → Option (α × List Char)) : List Char → List (Piece α)
  | [] => []
  | c :: cs =>
    match recognise (c :: cs) with
    | some (a, rest) =>
      let n := cs.length - rest.length
      .found a (c :: cs.take n) :: pieces recognise (cs.drop n)
    | none => .plain c :: pieces recognise cs
  termination_by cs => cs.length

theorem flatten_pieces (recognise : List Char → Option (α × List Char)) (cs : List Char) :
    ((pieces recognise cs).map Piece.source).flatten = cs := by
  fun_induction pieces recognise cs with
  | case1 => rfl
  | case2 c cs a rest _ n ih =>
    rw [List.map_cons, List.flatten_cons, ih]
    exact congrArg (c :: ·) (List.take_append_drop n cs)
  | case3 c cs _ ih => simpa [Piece.source] using ih

/-- The text after `start`, if it starts so. -/
def dropStart? (start cs : List Char) : Option (List Char) :=
  if start.isPrefixOf cs then some (cs.drop start.length) else none

end AssetBundler.Text
