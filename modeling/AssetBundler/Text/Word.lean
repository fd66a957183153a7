import AssetBundler.Text.WordTable

/-!
# Word characters

A word character is a letter, a character with a numeric value, or the underscore. Names of
directives are made of word characters, and the first one on a line ends the comment marker.
-/

namespace AssetBundler.Text

def isWordChar (c : Char) : Bool :=
  if c.toNat < 128 then c.isAlphanum || c == '_' else alphanumericRanges.contains c

end AssetBundler.Text
