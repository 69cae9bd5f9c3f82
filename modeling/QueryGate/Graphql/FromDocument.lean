import QueryGate.Document.Scalar
import QueryGate.Graphql.Value
import QueryGate.Rejection

/-! # Variables from a document

The values in a variables document. A quoted scalar is always a text; any other is the first of
truth value, whole number, floating-point number and text that its characters can stand for.
-/

namespace QueryGate.Graphql

/-- The value of a scalar. -/
def Value.ofScalar (quoted : Bool) (text : Text) : Value :=
  if quoted then .text text
  else
    match Document.bool? text with
    | some b => .bool b
    | none =>
      match Document.int64? text with
      | some n => .int n
      | none =>
        match Document.float? text with
        | some bits => .float bits
        | none => .text text

/-- The path of a map's entry; the keys of the outermost map stand alone. -/
def entryPath (path key : Text) : Text := if path.isEmpty then key else path ++ Byte.dot :: key

mutual

/-- The value of the node at `path`. -/
def Value.ofDocument (path : Text) (node : Document) : Except Rejection Value :=
  match node with
  | .undefined => .error (.undefinedValue path)
  | .null => .ok .null
  | .scalar quoted text => .ok (.ofScalar quoted text)
  | .sequence items => (valuesOfItems path 0 items).map .list
  | .map entries => (valuesOfEntries path entries).map .map
termination_by structural node

/-- The values of the items of the sequence at `path`, from the one with the given index on. -/
def valuesOfItems (path : Text) (index : Nat) (items : List Document) :
    Except Rejection (List Value) :=
  match items with
  | [] => .ok []
  | item :: items =>
    match Value.ofDocument (elementPath path index) item with
    | .error rejection => .error rejection
    | .ok value => (valuesOfItems path (index + 1) items).map (value :: ·)
termination_by structural items

/-- The values of the entries of the map at `path`; a key is looked at just before its value. The
entries are those that a walk over the map comes by, so the reader itself hands over none whose value
is undefined. -/
def valuesOfEntries (path : Text) (entries : List (Document × Document)) :
    Except Rejection (List (Text × Value)) :=
  match entries with
  | [] => .ok []
  | (key, node) :: entries =>
    match key.text? with
    | none => .error (.badKey path)
    | some name =>
      match Value.ofDocument (entryPath path name) node with
      | .error rejection => .error rejection
      | .ok value => (valuesOfEntries path entries).map ((name, value) :: ·)
termination_by structural entries

end

/-- The variables in a document, which is a map or null. -/
def variablesOf (document : Document) : Except Rejection Variables :=
  match document with
  | .undefined => .error .noVariables
  | .null => .ok []
  | .map entries => valuesOfEntries [] entries
  | .scalar .. | .sequence _ => .error .variablesNotMap

end QueryGate.Graphql
