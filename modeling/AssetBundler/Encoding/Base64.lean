/-!
# Base64

Three bytes are written as four of sixty-four characters, a shorter last group is filled up with
equals signs. Reading takes exactly the characters of the alphabet in groups of four.
-/

namespace AssetBundler.Base64

def alphabet : List Char :=
  "ABCDEFGHIJKLMNOPQRSTUVWXYZabcdefghijklmnopqrstuvwxyz0123456789+/".toList

/-- The character of a six-bit value. -/
def symbol (n : Nat) : Char := alphabet.getD n 'A'

def encode : List UInt8 → List Char
  | a :: b :: c :: bytes =>
    let n := a.toNat * 65536 + b.toNat * 256 + c.toNat
    symbol (n / 262144) :: symbol (n / 4096 % 64) :: symbol (n / 64 % 64) :: symbol (n % 64) ::
      encode bytes
  | [a, b] =>
    let n := a.toNat * 1024 + b.toNat * 4
    [symbol (n / 4096), symbol (n / 64 % 64), symbol (n % 64), '=']
  | [a] =>
    let n := a.toNat * 16
    [symbol (n / 64), symbol (n % 64), '=', '=']
  | [] => []

/-- The six-bit value of a character. -/
def value? (c : Char) : Option Nat := alphabet.findIdx? (· == c)

/-- A group of four that ends in an equals sign ends the text. -/
def decode : List Char → Option (List UInt8)
  | [] => some []
  | [p, q, '=', '='] => do
    let n := (← value? p) * 64 + (← value? q)
    return [UInt8.ofNat (n / 16)]
  | [p, q, r, '='] => do
    let n := (← value? p) * 4096 + (← value? q) * 64 + (← value? r)
    return [UInt8.ofNat (n / 1024), UInt8.ofNat (n / 4)]
  | p :: q :: r :: s :: cs => do
    let n := (← value? p) * 262144 + (← value? q) * 4096 + (← value? r) * 64 + (← value? s)
    return UInt8.ofNat (n / 65536) :: UInt8.ofNat (n / 256) :: UInt8.ofNat n :: (← decode cs)
  | _ => none

end AssetBundler.Base64
