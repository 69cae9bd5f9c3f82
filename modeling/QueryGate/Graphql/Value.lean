import QueryGate.Text

/-! # Values of variables

The tree of values that comes with a document. A map is a list of entries: it keeps their order
and keys that occur more than once.
-/

namespace QueryGate.Graphql

inductive Value where
  | null
  | bool (b : Bool)
  /-- A signed number of 64 bits. -/
  | int (n : Int)
  /-- A floating-point number of 64 bits, by its bits. -/
  | float (bits : UInt64)
  | text (bytes : Text)
  | list (items : List Value)
  | map (entries : List (Text × Value))
  deriving Repr

abbrev Variables := List (Text × Value)

namespace Value

/-- The word for a value's type. -/
def typeName : Value → Text
  | .null => ascii "null"
  | .bool _ => ascii "bool"
  | .int _ => ascii "int"
  | .float _ => ascii "float"
  | .text _ => ascii "string"
  | .list _ => ascii "list"
  | .map _ => ascii "map"

def isNull : Value → Bool
  | .null => true
  | _ => false

def isText : Value → Bool
  | .text _ => true
  | _ => false

def isList : Value → Bool
  | .list _ => true
  | _ => false

def isMap : Value → Bool
  | .map _ => true
  | _ => false

end Value

def elementPath (path : Text) (index : Nat) : Text :=
  path ++ Byte.openBracket :: Text.decimal index ++ [Byte.closeBracket]

end QueryGate.Graphql
