import AssetBundler.Text.Blank

/-!
# Terminated scripts

A script that holds more than blanks and does not end in a semicolon, blanks aside, gets one and a
line feed, so that the script that is put after it starts a statement of its own.
-/

namespace AssetBundler.Script

def isTerminated (cs : List Char) : Bool :=
  match (Text.trimRight cs).getLast? with
  | none => true
  | some c => c == ';'

def terminate (cs : List Char) : List Char := if isTerminated cs then cs else cs ++ [';', '\n']

end AssetBundler.Script
