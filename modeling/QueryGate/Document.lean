import QueryGate.Text

/-! # Documents

The node tree of a structured document, as a reader of such documents hands it over: rules and
variables come in this form. Maps keep the order of their entries and keys that occur twice. Where a
node stood in its file is not kept.
-/

namespace QueryGate

inductive Document where
  | undefined
  | null
  /-- A text, with or without quotes around it. -/
  | scalar (quoted : Bool) (text : Text)
  | sequence (items : List Document)
  /-- The entries are those that a walk over the map comes by: the reader passes over an entry whose
  key or value is undefined. -/
  | map (entries : List (Document × Document))
  deriving Repr

namespace Document

def isDefined : Document → Bool
  | .undefined => false
  | _ => true

/-- The text of a scalar, quoted or not. -/
def text? : Document → Option Text
  | .scalar _ text => some text
  | _ => none

def entries? : Document → Option (List (Document × Document))
  | .map entries => some entries
  | _ => none

def items? : Document → Option (List Document)
  | .sequence items => some items
  | _ => none

/-- The node under a key: the value of the first entry whose key is a scalar with that text. A
key whose value is no node counts as absent. -/
def child? (entries : List (Document × Document)) (key : Text) : Option Document :=
  match entries.find? (fun entry => entry.1.text? == some key) with
  | some (_, value) => if value.isDefined then some value else none
  | none => none

end Document

end QueryGate
