/-!
# Sets of code points

The character classes of this library are unions of closed intervals of code points, kept as tables.
A class answers an ASCII character without a search of its table where the caller knows the answer.
-/

namespace AssetBundler.Text

/-- A finite union of closed intervals of code points, in increasing order. -/
abbrev Ranges := List (Nat × Nat)

namespace Ranges

def contains (ranges : Ranges) (c : Char) : Bool :=
  ranges.any fun r ↦ r.1 ≤ c.toNat && c.toNat ≤ r.2

theorem contains_iff {ranges : Ranges} {c : Char} :
    ranges.contains c = true ↔ ∃ r ∈ ranges, r.1 ≤ c.toNat ∧ c.toNat ≤ r.2 := by
  simp [contains]

end Ranges

end AssetBundler.Text
