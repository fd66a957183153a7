/-!
# Shortest decimals

The fewest decimal digits that read back as a given binary floating-point number, by exact
arithmetic on natural numbers. A finite number is `m * 2 ^ q`; the reals that round to it form an
interval, closed when `m` is even. On the grids of one, two, up to seventeen significant digits the
two neighbours of the number are tested, and the first grid with a neighbour in the interval gives
the digits.
-/

namespace AssetBundler.Number

/-- A finite magnitude: `mantissa * 2 ^ exponent`, and whether the gap below is half the gap above. -/
structure Binary where
  mantissa : Nat
  exponent : Int
  narrowBelow : Bool

/-- A decimal magnitude: `digits * 10 ^ exponent`. -/
structure Decimal where
  digits : Nat
  exponent : Int
  deriving DecidableEq, Repr

namespace Binary

def ofBits (bits : Nat) : Binary :=
  let e : Nat := bits / Nat.pow 2 52 % Nat.pow 2 11
  let f : Nat := bits % Nat.pow 2 52
  if e = 0 then ⟨f, -1074, false⟩ else ⟨f + Nat.pow 2 52, (e : Int) - 1075, f = 0 ∧ 1 < e⟩

/-- Four times the number over `den b`. -/
def scaled (b : Binary) (quarters : Nat) : Nat := quarters * Nat.pow 2 (b.exponent - 2).toNat

def den (b : Binary) : Nat := Nat.pow 2 (2 - b.exponent).toNat

def value (b : Binary) : Nat := b.scaled (4 * b.mantissa)

def low (b : Binary) : Nat := b.scaled (4 * b.mantissa - if b.narrowBelow then 1 else 2)

def high (b : Binary) : Nat := b.scaled (4 * b.mantissa + 2)

end Binary

/-- The least `j` from `start` on, within `fuel` steps, with `den ≤ num * 10 ^ j`. -/
def zerosAfterPoint : Nat → Nat → Nat → Nat → Nat
  | 0, start, _, _ => start
  | fuel + 1, start, num, den =>
    if den ≤ num * Nat.pow 10 start then start else zerosAfterPoint fuel (start + 1) num den

/-- The place of the first significant digit: the number lies in `[10 ^ (k - 1), 10 ^ k)`. -/
def magnitude (num den : Nat) : Int :=
  if den ≤ num then (Nat.toDigits 10 (num / den)).length else 1 - zerosAfterPoint 400 1 num den

/-- Whether `g * 10 ^ e` lies in the interval of `b`. -/
def rounds (b : Binary) (g : Nat) (e : Int) : Bool :=
  let up := Nat.pow 10 (-e).toNat
  let point := g * Nat.pow 10 e.toNat * b.den
  if b.mantissa % 2 = 0 then b.low * up ≤ point ∧ point ≤ b.high * up
  else b.low * up < point ∧ point < b.high * up

/-- The neighbour on the grid of `n` digits that reads back, the nearer one if both do. -/
def onGrid? (b : Binary) (k : Int) (n : Nat) : Option Decimal :=
  let e := k - n
  let up := Nat.pow 10 (-e).toNat
  let cell := Nat.pow 10 e.toNat * b.den
  let g := b.value * up / cell
  let remainder := b.value * up % cell
  match rounds b g e, rounds b (g + 1) e with
  | true, true => some ⟨if 2 * remainder ≤ cell then g else g + 1, e⟩
  | true, false => some ⟨g, e⟩
  | false, true => some ⟨g + 1, e⟩
  | false, false => none

def shortest (b : Binary) : Decimal :=
  let k := magnitude b.value b.den
  ((List.range 17).findSome? fun n ↦ onGrid? b k (n + 1)).getD ⟨0, 0⟩

/-- Positional text while the point falls at most sixteen places after the first digit and at most
three zeros follow it; otherwise one digit, the others, and an exponent of at least two digits. -/
def decimalText (d : Decimal) : List Char :=
  let ds := Nat.toDigits 10 d.digits
  let kept := (ds.reverse.dropWhile (· == '0')).reverse
  let point : Int := ds.length + d.exponent
  if -4 < point ∧ point ≤ 16 then
    if point ≤ 0 then "0.".toList ++ List.replicate (-point).toNat '0' ++ kept
    else
      let whole := kept.take point.toNat
      let rest := kept.drop point.toNat
      whole ++ List.replicate (point.toNat - whole.length) '0' ++ '.' ::
        (if rest.isEmpty then ['0'] else rest)
  else
    let e := point - 1
    let es := Nat.toDigits 10 e.natAbs
    let mantissa := match kept with
      | [] => ['0']
      | [c] => [c]
      | c :: cs => c :: '.' :: cs
    mantissa ++ 'e' :: (if e < 0 then '-' else '+') ::
      (List.replicate (2 - es.length) '0' ++ es)

/-- The text of a floating-point number; it always shows a point, an exponent or a word. -/
def floatText (x : Float) : String :=
  if x.isNaN then "nan"
  else
    let bits := x.toBits.toNat
    let magnitude :=
      if x.isInf then "inf".toList
      else if bits % Nat.pow 2 63 = 0 then "0.0".toList
      else decimalText (shortest (.ofBits (bits % Nat.pow 2 63)))
    String.ofList (if bits < Nat.pow 2 63 then magnitude else '-' :: magnitude)

/-- The float nearest to `m * 10 ^ e`; magnitudes out of range are zero or infinite. -/
def floatOfDecimal (m : Nat) (e : Int) : Float :=
  if m = 0 then 0.0
  else
    let place := (Nat.toDigits 10 m).length + e
    if 400 < place then 1.0 / 0.0
    else if place < -400 then 0.0
    else if 0 ≤ e then Float.ofScientific m false e.toNat
    else Float.ofScientific m true (-e).toNat

end AssetBundler.Number
