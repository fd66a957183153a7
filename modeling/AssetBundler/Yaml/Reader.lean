import AssetBundler.Yaml.Flow

/-!
# Reading YAML

A reader for one document of block and flow collections with plain and quoted scalars and comments.
The structure of blocks is their indentation in blanks. A plain scalar goes on over the deeper lines
that follow it. Anchors, tags and block scalars are not read.
-/

namespace AssetBundler.Yaml

/-- A line without its indentation. -/
structure Line where
  indent : Nat
  text : List Char
  deriving Repr

namespace Line

def ofText (cs : List Char) : Line :=
  let indent := (cs.takeWhile (· == ' ')).length
  ⟨indent, cs.drop indent⟩

/-- Empty, blank or a comment. -/
def isVoid (l : Line) : Bool :=
  match l.text.dropWhile isBlank with
  | [] => true
  | c :: _ => c == '#'

end Line

/-- Blanks and a comment are all that may follow a complete value on its line. -/
def isLineEnd (cs : List Char) : Bool :=
  let rest := cs.dropWhile isBlank
  rest.isEmpty || (rest.head? == some '#' && rest.length < cs.length)

/-- A dash that starts an item, with the rest of its line. -/
def dash? (cs : List Char) : Option (List Char) :=
  match cs with
  | '-' :: rest => if endsWord rest.head? then some rest else none
  | _ => none

/-- A plain scalar on one line: it ends at a comment and at a colon that ends a word. -/
def linePlain (previous : Char) : List Char → List Char × List Char
  | [] => ([], [])
  | c :: cs =>
    if c = ':' ∧ endsWord cs.head? then ([], c :: cs)
    else if c = '#' ∧ isBlank previous then ([], c :: cs)
    else
      let (text, rest) := linePlain c cs
      (c :: text, rest)

/-- The key of a field at the start of a line, and the rest after its colon. -/
def key? (cs : List Char) : Option (Value × List Char) :=
  let found : Option (Value × List Char) :=
    match cs with
    | '"' :: _ => quoted? cs
    | '\'' :: _ => quoted? cs
    | _ =>
      if startsPlain false cs then
        let (text, rest) := linePlain 'x' cs
        some (plain (trimPlain text), rest)
      else none
  match found with
  | some (key, rest) =>
    match rest.dropWhile isBlank with
    | ':' :: rest => if endsWord rest.head? then some (key, rest) else none
    | _ => none
  | none => none

/-- The rest of a line and the lines after it as one text. -/
def joinLines (first : List Char) (ls : List Line) : List Char :=
  first ++ ls.flatMap fun l ↦ '\n' :: List.replicate l.indent ' ' ++ l.text

/-- The lines after the one on which a rest of a joined text starts; the rest of that line has to be
void. -/
def linesAfter? (rest : List Char) (ls : List Line) : Option (List Line) :=
  if isLineEnd (rest.takeWhile (· ≠ '\n')) then
    some (ls.drop (ls.length - (rest.filter (· == '\n')).length))
  else none

/-- The lines that continue a plain scalar below `indent`, and the lines after them. -/
def continuation? (indent : Nat) : List Line → Option (List (List Char) × List Line)
  | [] => some ([], [])
  | l :: ls =>
    if l.text.all isBlank then
      match continuation? indent ls with
      | some (more, rest) => if more.isEmpty then some ([], l :: ls) else some ([] :: more, rest)
      | none => none
    else if l.indent < indent || l.text.head? == some '#' then some ([], l :: ls)
    else
      let (text, rest) := linePlain 'x' l.text
      if rest.head? == some ':' then none
      else if rest.isEmpty then
        (continuation? indent ls).map fun r ↦ (trimPlain text :: r.1, r.2)
      else some ([trimPlain text], ls)

/-- A value that starts on a line; lines that go on with it are at least at `indent`. -/
def inlineValue? (indent : Nat) (text : List Char) (ls : List Line) : Option (Value × List Line) :=
  let joined := joinLines text ls
  match text with
  | '[' :: _ => do
    let (v, _, rest) ← flowValue? (joined.length + 1) joined
    return (v, ← linesAfter? rest ls)
  | '{' :: _ => do
    let (v, _, rest) ← flowValue? (joined.length + 1) joined
    return (v, ← linesAfter? rest ls)
  | '"' :: _ => do
    let (v, rest) ← quoted? joined
    return (v, ← linesAfter? rest ls)
  | '\'' :: _ => do
    let (v, rest) ← quoted? joined
    return (v, ← linesAfter? rest ls)
  | _ =>
    if startsPlain false text then
      let (first, rest) := linePlain 'x' text
      if rest.head? == some ':' then none
      else if !rest.isEmpty then some (plain (trimPlain first), ls)
      else do
        let (more, ls) ← continuation? indent ls
        return (plain (fold (trimPlain first :: more)), ls)
    else none

mutual

/-- A block that starts at `indent` or deeper; where there is none, null. -/
def block? : Nat → Nat → List Line → Option (Value × List Line)
  | 0, _, _ => none
  | fuel + 1, indent, ls =>
    match ls.dropWhile Line.isVoid with
    | [] => some (.null, [])
    | l :: rest =>
      if l.indent < indent then some (.null, l :: rest)
      else if l.text.head? == some '\t' then none
      else if (dash? l.text).isSome then items? fuel l.indent [] (l :: rest)
      else if (key? l.text).isSome then fields? fuel l.indent [] (l :: rest)
      else inlineValue? indent l.text rest

/-- The items of a list whose dashes stand at `indent`. -/
def items? : Nat → Nat → List Value → List Line → Option (Value × List Line)
  | 0, _, _, _ => none
  | fuel + 1, indent, read, ls =>
    match ls.dropWhile Line.isVoid with
    | [] => some (.list read.reverse, [])
    | l :: rest =>
      if l.indent < indent then some (.list read.reverse, l :: rest)
      else match (if l.indent = indent then dash? l.text else none) with
        | none => if l.indent = indent then some (.list read.reverse, l :: rest) else none
        | some text => do
          let inner := text.dropWhile (· == ' ')
          let first : Line := ⟨indent + 1 + (text.length - inner.length), inner⟩
          let (v, rest) ← block? fuel (indent + 1) (first :: rest)
          items? fuel indent (v :: read) rest

/-- The fields of a map whose keys stand at `indent`. -/
def fields? : Nat → Nat → Value.Fields → List Line → Option (Value × List Line)
  | 0, _, _, _ => none
  | fuel + 1, indent, read, ls =>
    match ls.dropWhile Line.isVoid with
    | [] => some (.map read, [])
    | l :: rest =>
      if l.indent < indent then some (.map read, l :: rest)
      else if indent < l.indent then none
      else do
        let (key, text) ← key? l.text
        let (v, rest) ←
          if isLineEnd text then
            match rest.dropWhile Line.isVoid with
            | next :: _ =>
              if next.indent = indent && (dash? next.text).isSome then items? fuel indent [] rest
              else block? fuel (indent + 1) rest
            | [] => some (.null, [])
          else inlineValue? (indent + 1) (text.dropWhile isBlank) rest
        fields? fuel indent (← addField? read key v) rest

end

/-- A mark of three equal characters at the start of a line, with the rest of the line. -/
def mark? (c : Char) (l : Line) : Option (List Char) :=
  if l.indent == 0 && [c, c, c].isPrefixOf l.text && endsWord (l.text.drop 3).head? then
    some (l.text.drop 3)
  else none

/-- The lines of the one document after its start mark, if it has one. No document may follow. -/
def documentLines? (ls : List Line) : Option (List Line) :=
  let ls : List Line := match ls.dropWhile Line.isVoid with
    | [] => []
    | l :: rest =>
      match mark? '-' l with
      | some text =>
        let inner := text.dropWhile (· == ' ')
        ⟨3 + (text.length - inner.length), inner⟩ :: rest
      | none => l :: rest
  if ls.any fun l ↦ (mark? '-' l).isSome then none
  else
    let body := ls.takeWhile fun l ↦ (mark? '.' l).isNone
    match ls.drop body.length with
    | [] => some body
    | l :: more => if isLineEnd (l.text.drop 3) && more.all Line.isVoid then some body else none

/-- The value of a document; the empty document is null. -/
def parse? (text : String) : Option Value := do
  let ls ← documentLines? ((Text.split '\n' text.toList).map Line.ofText)
  let (v, rest) ← block? (2 * text.length + 2 * ls.length + 4) 0 ls
  if rest.all Line.isVoid then return v else none

end AssetBundler.Yaml
