/-!
# SHA-1

The 160-bit digest of a byte string and its usual text of forty lower-case hexadecimal digits, which
names published files by their content.
-/

namespace AssetBundler.Sha1

/-- The five words that one block after another updates. -/
structure State where
  a : UInt32
  b : UInt32
  c : UInt32
  d : UInt32
  e : UInt32
  deriving DecidableEq, Repr

namespace State

def start : State := ⟨0x67452301, 0xEFCDAB89, 0x98BADCFE, 0x10325476, 0xC3D2E1F0⟩

def add (s t : State) : State := ⟨s.a + t.a, s.b + t.b, s.c + t.c, s.d + t.d, s.e + t.e⟩

def words (s : State) : List UInt32 := [s.a, s.b, s.c, s.d, s.e]

end State

def rotateLeft (x : UInt32) (n : UInt32) : UInt32 := (x <<< n) ||| (x >>> (32 - n))

/-- The eight bytes of a length, most significant first. -/
def lengthBytes (n : Nat) : List UInt8 :=
  (List.range 8).map fun i ↦ UInt8.ofNat (n >>> (8 * (7 - i)))

/-- A one bit, zeros up to eight bytes before the end of a block, and the length in bits. -/
def padding (size : Nat) : List UInt8 :=
  0x80 :: List.replicate ((119 - size % 64) % 64) 0 ++ lengthBytes (8 * size)

/-- Big-endian words of four bytes; an incomplete last one is left out. -/
def wordsOf : List UInt8 → List UInt32
  | p :: q :: r :: s :: bytes =>
    ((p.toUInt32 <<< 24) ||| (q.toUInt32 <<< 16) ||| (r.toUInt32 <<< 8) ||| s.toUInt32) ::
      wordsOf bytes
  | _ => []

/-- Extends the last sixteen words of the schedule, latest first, by `n` more. -/
def extend : Nat → List UInt32 → List UInt32
  | 0, ws => ws
  | n + 1, ws =>
    extend n (rotateLeft (ws.getD 2 0 ^^^ ws.getD 7 0 ^^^ ws.getD 13 0 ^^^ ws.getD 15 0) 1 :: ws)

def schedule (block : List UInt32) : List UInt32 := (extend 64 block.reverse).reverse.take 80

def mix (i : Nat) (b c d : UInt32) : UInt32 :=
  if i < 20 then (b &&& c) ||| ((~~~ b) &&& d)
  else if i < 40 then b ^^^ c ^^^ d
  else if i < 60 then (b &&& c) ||| (b &&& d) ||| (c &&& d)
  else b ^^^ c ^^^ d

def roundConstant (i : Nat) : UInt32 :=
  if i < 20 then 0x5A827999
  else if i < 40 then 0x6ED9EBA1
  else if i < 60 then 0x8F1BBCDC
  else 0xCA62C1D6

def step (s : State) (i : Nat) (w : UInt32) : State :=
  ⟨rotateLeft s.a 5 + mix i s.b s.c s.d + s.e + roundConstant i + w, s.a, rotateLeft s.b 30, s.c, s.d⟩

def rounds (s : State) : Nat → List UInt32 → State
  | _, [] => s
  | i, w :: ws => rounds (step s i w) (i + 1) ws

def compress (s : State) (block : List UInt32) : State := s.add (rounds s 0 (schedule block))

/-- Absorbs `n` blocks of sixteen words. -/
def absorb : Nat → State → List UInt32 → State
  | 0, s, _ => s
  | n + 1, s, ws => absorb n (compress s (ws.take 16)) (ws.drop 16)

def digest (bytes : List UInt8) : List UInt32 :=
  let ws := wordsOf (bytes ++ padding bytes.length)
  (absorb (ws.length / 16) .start ws).words

def hexDigit (n : Nat) : Char := if n < 10 then Char.ofNat (48 + n) else Char.ofNat (87 + n)

/-- Eight hexadecimal digits of a word, most significant first. -/
def hexWord (w : UInt32) : List Char :=
  (List.range 8).map fun i ↦ hexDigit (w.toNat >>> (4 * (7 - i)) % 16)

def hex (bytes : ByteArray) : String := String.ofList ((digest bytes.data.toList).flatMap hexWord)

theorem length_hex (bytes : ByteArray) : (hex bytes).length = 40 := by
  simp [hex, digest, State.words, hexWord]

end AssetBundler.Sha1
