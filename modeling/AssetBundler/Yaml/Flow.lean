import AssetBundler.Yaml.Scalar

/-!
# YAML flow collections

Lists in brackets and maps in braces, which may span several lines and hold comments. A colon ends a
plain key if a blank or a flow mark follows it, or directly after a quoted key. No key occurs twice
in a map.
-/

namespace AssetBundler.Yaml

def isFlowMark (c : Char) : Bool :=
  c == ',' || c == '[' || c == ']' || c == '{' || c == '}'

/-- A plain scalar cannot start with one of these marks. -/
def isIndicator (c : Char) : Bool :=
  isFlowMark c || c == '#' || c == '&' || c == '*' || c == '!' || c == '|' || c == '>' ||
    c == '\'' || c == '"' || c == '%' || c == '@' || c == '\x60'

def endsWord (next : Option Char) : Bool := next.all fun c ↦ isBlank c || c == '\n'

/-- Whether a plain scalar can start here. -/
def startsPlain (inFlow : Bool) (cs : List Char) : Bool :=
  match cs with
  | [] => false
  | c :: rest =>
    if c = '-' ∨ c = '?' ∨ c = ':' then
      !endsWord rest.head? && !(inFlow && rest.head?.any isFlowMark)
    else !isIndicator c

/-- Adds a field whose key is new. -/
def addField? (fields : Value.Fields) (key v : Value) : Option Value.Fields :=
  if fields.any fun f ↦ f.1 == key then none else some (fields ++ [(key, v)])

/-- Skips blanks, line breaks and comments; `before` says whether a comment can start at once. -/
def skipFlowSpace (before : Bool) : List Char → List Char
  | [] => []
  | c :: cs =>
    if isBlank c ∨ c = '\n' then skipFlowSpace true cs
    else if c = '#' ∧ before then
      let rec skipComment : List Char → List Char
        | [] => []
        | c :: cs => if c = '\n' then skipFlowSpace true cs else skipComment cs
      skipComment cs
    else c :: cs

/-- A plain scalar in a flow collection and the rest. -/
def flowPlain (previous : Char) : List Char → List Char × List Char
  | [] => ([], [])
  | c :: cs =>
    if isFlowMark c then ([], c :: cs)
    else if c = ':' ∧ (endsWord cs.head? ∨ cs.head?.any isFlowMark) then ([], c :: cs)
    else if c = '#' ∧ (isBlank previous ∨ previous = '\n') then ([], c :: cs)
    else
      let (text, rest) := flowPlain c cs
      (c :: text, rest)

def trimPlain (cs : List Char) : List Char :=
  (cs.reverse.dropWhile fun c ↦ isBlank c || c == '\n').reverse

/-- The rest after the colon of a field, if there is one. -/
def flowColon? (quotedKey : Bool) (cs : List Char) : Option (List Char) :=
  match skipFlowSpace false cs with
  | ':' :: rest =>
    if quotedKey || endsWord rest.head? || rest.head?.any isFlowMark then some rest else none
  | _ => none

mutual

/-- A value in a flow collection, whether it was quoted or bracketed, and the rest. -/
def flowValue? : Nat → List Char → Option (Value × Bool × List Char)
  | 0, _ => none
  | fuel + 1, cs =>
    match cs with
    | '[' :: rest => (flowItems? fuel [] (skipFlowSpace true rest)).map fun r ↦ (r.1, true, r.2)
    | '{' :: rest => (flowFields? fuel [] (skipFlowSpace true rest)).map fun r ↦ (r.1, true, r.2)
    | '"' :: _ => (quoted? cs).map fun r ↦ (r.1, true, r.2)
    | '\'' :: _ => (quoted? cs).map fun r ↦ (r.1, true, r.2)
    | _ =>
      if startsPlain true cs then
        let (text, rest) := flowPlain 'x' cs
        some (plain (foldText (trimPlain text)), false, rest)
      else none

/-- A value after a colon; none is null. -/
def flowFieldValue? : Nat → List Char → Option (Value × List Char)
  | 0, _ => none
  | fuel + 1, cs =>
    match skipFlowSpace true cs with
    | ',' :: rest => some (.null, ',' :: rest)
    | ']' :: rest => some (.null, ']' :: rest)
    | '}' :: rest => some (.null, '}' :: rest)
    | rest => (flowValue? fuel rest).map fun r ↦ (r.1, r.2.2)

/-- The items of a list from one on, or its end. -/
def flowItems? : Nat → List Value → List Char → Option (Value × List Char)
  | 0, _, _ => none
  | fuel + 1, read, cs =>
    match cs with
    | ']' :: rest => some (.list read.reverse, rest)
    | _ => do
      let (v, isQuoted, rest) ← flowValue? fuel cs
      let (v, rest) ← match flowColon? isQuoted rest with
        | none => some (v, rest)
        | some rest => (flowFieldValue? fuel rest).map fun r ↦ (.map [(v, r.1)], r.2)
      match skipFlowSpace false rest with
      | ',' :: rest => flowItems? fuel (v :: read) (skipFlowSpace true rest)
      | ']' :: rest => some (.list (v :: read).reverse, rest)
      | _ => none

/-- The fields of a map from one on, or its end. -/
def flowFields? : Nat → Value.Fields → List Char → Option (Value × List Char)
  | 0, _, _ => none
  | fuel + 1, read, cs =>
    match cs with
    | '}' :: rest => some (.map read, rest)
    | _ => do
      let (key, isQuoted, rest) ← flowValue? fuel cs
      let (v, rest) ← match flowColon? isQuoted rest with
        | none => some (.null, rest)
        | some rest => flowFieldValue? fuel rest
      let read ← addField? read key v
      match skipFlowSpace false rest with
      | ',' :: rest => flowFields? fuel read (skipFlowSpace true rest)
      | '}' :: rest => some (.map read, rest)
      | _ => none

end

end AssetBundler.Yaml
