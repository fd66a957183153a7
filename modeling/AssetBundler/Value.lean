/-!
# Dynamic values

Configuration files, manifests and processor options are trees of dynamic values. A map keeps the
order in which its fields were written.
-/

namespace AssetBundler

inductive Value where
  | null
  | bool (b : Bool)
  | int (n : Int)
  | float (x : Float)
  | text (s : String)
  | list (items : List Value)
  | map (fields : List (Value × Value))
  deriving Inhabited, Repr

namespace Value

mutual

def beq : Value → Value → Bool
  | .null, .null => true
  | .bool a, .bool b => a == b
  | .int m, .int n => m == n
  | .float x, .float y => x == y
  | .text s, .text t => s == t
  | .list vs, .list ws => beqItems vs ws
  | .map fs, .map gs => beqFields fs gs
  | _, _ => false

def beqItems : List Value → List Value → Bool
  | [], [] => true
  | v :: vs, w :: ws => beq v w && beqItems vs ws
  | _, _ => false

def beqFields : List (Value × Value) → List (Value × Value) → Bool
  | [], [] => true
  | (k, v) :: fs, (j, w) :: gs => beq k j && beq v w && beqFields fs gs
  | _, _ => false

end

instance : BEq Value := ⟨beq⟩

abbrev Fields := List (Value × Value)

/-- Whether the value is the text `s`; only a text can be. -/
def isText (s : String) : Value → Bool
  | .text t => t == s
  | _ => false

namespace Fields

/-- The value of the first field whose key is the text `key`. -/
def get? (fields : Fields) (key : String) : Option Value :=
  (fields.find? fun field ↦ field.1.isText key).map Prod.snd

/-- Replaces the value of `key` in place, or appends the field. -/
def insert (fields : Fields) (key v : Value) : Fields :=
  match fields with
  | [] => [(key, v)]
  | field :: rest => if field.1 == key then (field.1, v) :: rest else field :: insert rest key v

/-- The fields of `fields` with those of `more` written on top of them. -/
def merge (fields more : Fields) : Fields :=
  more.foldl (fun acc field ↦ acc.insert field.1 field.2) fields

end Fields

/-- Null, false, zero and everything empty count as false. -/
def truthy : Value → Bool
  | .null => false
  | .bool b => b
  | .int n => n != 0
  | .float x => x != 0.0
  | .text s => s != ""
  | .list items => !items.isEmpty
  | .map fields => !fields.isEmpty

/-- A list as it is, null as no items, and any other value as a list of itself. -/
def toItems : Value → List Value
  | .null => []
  | .list items => items
  | v => [v]

end Value

end AssetBundler
