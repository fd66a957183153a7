import AssetBundler.Text.CaseTable

/-!
# Lower case

Full lower-casing of text. Each letter has its simple lower-case form with two exceptions: the
dotted capital I becomes two characters, and a capital sigma at the end of a word becomes the final
form.
-/

namespace AssetBundler.Text

def lowerSimple (c : Char) : Char :=
  if c.toNat < 128 then c.toLower
  else match lowerRuns.find? fun (lo, hi, gap, _) ↦
      lo ≤ c.toNat && c.toNat ≤ hi && (c.toNat - lo) % gap == 0 with
    | some (_, _, _, shift) => Char.ofNat (c.toNat + shift).toNat
    | none => c

def isCaseIgnorable (c : Char) : Bool := caseIgnorableRanges.contains c

def isCased (c : Char) : Bool := casedRanges.contains c

/-- The first character that is not case-ignorable is a cased one. -/
def meetsCased (cs : List Char) : Bool := (cs.dropWhile isCaseIgnorable).head?.any isCased

/-- Lower-cases `cs`, where `before` is the text in front of it, nearest character first. -/
def lowerAfter (before : List Char) : List Char → List Char
  | [] => []
  | c :: cs =>
    (if c = 'Σ' then
      if meetsCased before && !meetsCased cs then ['ς'] else ['σ']
    else if c = 'İ' then ['i', '\u0307']
    else [lowerSimple c]) ++ lowerAfter (c :: before) cs

def lower (s : String) : String := String.ofList (lowerAfter [] s.toList)

end AssetBundler.Text
