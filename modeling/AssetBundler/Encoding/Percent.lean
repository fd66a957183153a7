/-!
# Percent-encoding

Letters, digits and the four marks `_ . - ~` stand for themselves in a URL; each byte of the UTF-8
form of any other character is written as a percent sign and two upper-case hexadecimal digits.
-/

namespace AssetBundler.Percent

def isUnreserved (c : Char) : Bool :=
  c.isAlphanum || c == '_' || c == '.' || c == '-' || c == '~'

def hexDigit (n : Nat) : Char := if n < 10 then Char.ofNat (48 + n) else Char.ofNat (55 + n)

def escapeByte (b : UInt8) : List Char := ['%', hexDigit (b.toNat / 16), hexDigit (b.toNat % 16)]

def encodeChar (c : Char) : List Char :=
  if isUnreserved c then [c] else (String.singleton c).toUTF8.data.toList.flatMap escapeByte

def encode (s : String) : String := String.ofList (s.toList.flatMap encodeChar)

/-- The value of a hexadecimal digit of either case. -/
def digit? (c : Char) : Option Nat :=
  if c.isDigit then some (c.toNat - 48)
  else if 'A' ≤ c ∧ c ≤ 'F' then some (c.toNat - 55)
  else if 'a' ≤ c ∧ c ≤ 'f' then some (c.toNat - 87)
  else none

/-- The bytes that an encoded text stands for. A percent sign that starts no escape is kept. -/
def decode : List Char → List UInt8
  | [] => []
  | '%' :: x :: y :: cs =>
    match digit? x, digit? y with
    | some h, some l => UInt8.ofNat (16 * h + l) :: decode cs
    | _, _ => '%'.val.toUInt8 :: decode (x :: y :: cs)
  | c :: cs => (String.singleton c).toUTF8.data.toList ++ decode cs

end AssetBundler.Percent
