import AssetBundler.Table
import AssetBundler.Text.Split

/-!
# Arguments of the command line

Each argument is a word, a separator after which everything is a word, or an option. Long options can
be shortened as long as they stay unique and can carry a value after an equals sign; short ones can
be joined. What looks like a negative number, or like an unknown option with a blank in it, is a word.
-/

namespace AssetBundler.Command

inductive Switch where
  | help
  | version
  | root
  | environment
  | production
  | verbose
  | compile
  deriving DecidableEq, Repr

namespace Switch

/-- Whether the option is followed by a value. -/
def takesValue : Switch → Bool
  | .root | .environment => true
  | _ => false

end Switch

/-- The options that are known in one place, by spelling. -/
abbrev Spellings := Table String Switch

inductive Token where
  | word (text : String)
  | separator
  | switch (s : Switch) (attached : Option String)
  /-- Short options that are joined in one argument, with or without unknown ones after them. -/
  | joined (switches : List Switch) (hasUnknown : Bool)
  | unknown
  /-- An option with a value that it does not take. -/
  | malformed
  /-- A shortened option that could be several. -/
  | ambiguous
  deriving DecidableEq, Repr

namespace Token

/-- Whether the text is a minus sign and a number in decimal digits, with or without a point. -/
def isNegativeNumber (cs : List Char) : Bool :=
  match cs with
  | '-' :: rest =>
    match rest.dropWhile Char.isDigit with
    | [] => !rest.isEmpty
    | '.' :: frac => !frac.isEmpty && frac.all Char.isDigit
    | _ => false
  | _ => false

/-- An argument that starts like an option but is none of the known ones. -/
def unmatched (arg : String) : Token :=
  if isNegativeNumber arg.toList || arg.toList.contains ' ' then .word arg else .unknown

/-- The spelling before an equals sign. -/
def spelling (arg : String) : String := String.ofList (arg.toList.takeWhile (· ≠ '='))

/-- The value after an equals sign, if there is one. -/
def attached (arg : String) : Option String :=
  match arg.toList.dropWhile (· ≠ '=') with
  | [] => none
  | _ :: value => some (String.ofList value)

/-- The known options that a spelling abbreviates. -/
def completions (known : Spellings) (short : String) : List (String × Switch) :=
  known.filter fun e ↦ Text.startsWith short.toList e.1.toList

def short (c : Char) : String := String.ofList ['-', c]

def ofLong (known : Spellings) (arg : String) : Token :=
  match completions known (spelling arg) with
  | [] => unmatched arg
  | [e] => .switch e.2 (attached arg)
  | _ => .ambiguous

/-- The switches of joined letters up to one that is unknown, and whether there is one. -/
def lettersOf (known : Spellings) : List Char → Option (List Switch × Bool)
  | [] => some ([], false)
  | c :: cs =>
    if c = '-' ∨ c = '=' then none
    else match known.get? (short c) with
      | none => some ([], true)
      | some s => (lettersOf known cs).map fun r ↦ (s :: r.1, r.2)

def ofShort (known : Spellings) (arg : String) (c : Char) (cs : List Char) : Token :=
  match known.get? (short c) with
  | none => unmatched arg
  | some _ =>
    match lettersOf known (c :: cs) with
    | some (switches, hasUnknown) => .joined switches hasUnknown
    | none => .malformed

/-- Reads one argument. A complete spelling takes precedence over an abbreviation. -/
def ofArgument (known : Spellings) (arg : String) : Token :=
  match arg.toList with
  | ['-', '-'] => .separator
  | '-' :: c :: cs =>
    match known.get? arg with
    | some s => .switch s none
    | none =>
      match known.get? (spelling arg) with
      | some s => .switch s (attached arg)
      | none => if c = '-' then ofLong known arg else ofShort known arg c cs
  | _ => .word arg

end Token

end AssetBundler.Command
