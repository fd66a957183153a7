import AssetBundler.Text.Ranges

/-!
# Blank characters

Blank means white space in the Unicode sense together with the four information separators
U+001C to U+001F. The zero-width space and the byte order mark are not blank.
-/

namespace AssetBundler.Text

def blankRanges : Ranges :=
  [(0x09, 0x0D), (0x1C, 0x20), (0x85, 0x85), (0xA0, 0xA0), (0x1680, 0x1680), (0x2000, 0x200A),
    (0x2028, 0x2029), (0x202F, 0x202F), (0x205F, 0x205F), (0x3000, 0x3000)]

def isBlank (c : Char) : Bool := blankRanges.contains c

/-- Drops the longest suffix whose characters all satisfy `p`. -/
def dropEndWhile (p : Char → Bool) (cs : List Char) : List Char :=
  (cs.reverse.dropWhile p).reverse

def trimLeft (cs : List Char) : List Char := cs.dropWhile isBlank

def trimRight (cs : List Char) : List Char := dropEndWhile isBlank cs

def trim (cs : List Char) : List Char := trimRight (trimLeft cs)

/-- Blank through and through, the empty text included. -/
def isBlankText (cs : List Char) : Bool := cs.all isBlank

end AssetBundler.Text
