import QueryGate.Graphql.Operation
import QueryGate.Graphql.Rules

/-! # Names in a document

Every name has to be on a whitelist or to look like a type. Which whitelists apply depends on
the name's place: operations may be invoked only at the top level of a selection, or named right
after `query` or `mutation`. Braces in arguments make no selections, so they do not count.
-/

namespace QueryGate.Graphql

structure Place where
  /-- How many braces are open, those inside parentheses left out. -/
  selection : Nat := 0
  parens : Nat := 0
  /-- Whether the token before is `query` or `mutation`. -/
  afterKeyword : Bool := false
  deriving Repr, DecidableEq

namespace Place

/-- Whether an operation's own name may stand here. -/
def isHeader (place : Place) : Bool :=
  place.selection == 0 && place.parens == 0 && place.afterKeyword

/-- Whether a field of the outermost selection may stand here. -/
def isTopLevel (place : Place) : Bool := place.selection == 1 && place.parens == 0

def after (place : Place) (token : Token) : Place :=
  let place :=
    { place with afterKeyword := token.isName (ascii "query") || token.isName (ascii "mutation") }
  if token.isPunctuator Byte.openParen then { place with parens := place.parens + 1 }
  else if token.isPunctuator Byte.closeParen then { place with parens := place.parens - 1 }
  else if place.parens ≠ 0 then place
  else if token.isPunctuator Byte.openBrace then { place with selection := place.selection + 1 }
  else if token.isPunctuator Byte.closeBrace then { place with selection := place.selection - 1 }
  else place

end Place

/-- The tokens with their places, the first one at `place`. -/
def placedFrom (place : Place) : List Token → List (Token × Place)
  | [] => []
  | token :: rest => (token, place) :: placedFrom (place.after token) rest

def placed (tokens : List Token) : List (Token × Place) := placedFrom {} tokens

namespace Rules

/-- Whether a name looks like a type: it starts with a capital and contains nothing
suspicious. -/
def allowsType (rules : Rules) (name : Text) : Bool :=
  name.head?.any Byte.isUpper && !rules.suspicious.any (Text.containsFolded name)

/-- Whether a name may stand at a place in a document whose operation is of the given kind. -/
def allowsName (rules : Rules) (kind : OperationKind) (place : Place) (name : Text) : Bool :=
  rules.fields.contains name || rules.keywords.contains name ||
    ((place.isHeader || place.isTopLevel) && (rules.operations kind).contains name) ||
    rules.allowsType name

end Rules

/-- Checks that every name may stand where it stands; reports the first that may not. -/
def checkNames (rules : Rules) (kind : OperationKind) (tokens : List Token) :
    Except Rejection Unit :=
  let offends : Token × Place → Bool := fun (token, place) =>
    token.kind == .name && !rules.allowsName kind place token.text
  match (placed tokens).find? offends with
  | some (token, _) => .error (.unknownField token.text)
  | none => .ok ()

end QueryGate.Graphql
