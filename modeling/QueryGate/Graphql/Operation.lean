import QueryGate.Graphql.Token

/-! # The operation of a document

A document is a sequence of definitions. An operation is a bare block, or `query` or `mutation`
with anything up to the end of a block; a fragment is `fragment` with anything up to the end of
a block. The block of a definition starts with the first opening brace outside parentheses, and
ends with the brace that closes it, or with the document. Exactly one operation is allowed, and
no subscription.
-/

namespace QueryGate.Graphql

/-- What is known of an operation without looking into its block. -/
structure Header where
  kind : OperationKind
  /-- The name after the keyword, empty if there is none. -/
  name : Text := []
  deriving Repr, DecidableEq

/-- A definition whose block has not been reached. -/
inductive Definition where
  | fragment
  /-- An operation, and the keyword it starts with. -/
  | operation (header : Header) (keyword : Text)
  deriving Repr, DecidableEq

namespace Definition

/-- Why a definition without a block is refused. -/
def missingSelection : Definition → Rejection
  | .fragment => .fragmentWithoutSelection
  | .operation _ keyword => .operationWithoutSelection keyword

/-- The operation found once the definition's block is reached. -/
def found (definition : Definition) (before : Option Header) : Option Header :=
  match definition with
  | .fragment => before
  | .operation header _ => some header

end Definition

/-- Where the walk over the definitions stands. -/
inductive Stage where
  | between
  /-- In front of the block of a definition, inside `parens` parentheses. -/
  | heading (definition : Definition) (parens : Nat)
  /-- In a block, with `outer + 1` braces open. -/
  | block (outer : Nat)
  deriving Repr, DecidableEq

/-- The name right after a keyword, empty if there is none. -/
def nameAfter (tokens : List Token) : Text :=
  match tokens.head? with
  | some token => if token.kind = .name then token.text else []
  | none => []

/-- Walks over the remaining tokens, given the operation found so far. -/
def walk (stage : Stage) (found : Option Header) : List Token → Except Rejection Header
  | [] =>
    match stage with
    | .heading definition _ => .error definition.missingSelection
    | .between | .block _ =>
      match found with
      | some header => .ok header
      | none => .error .noOperation
  | token :: rest =>
    match stage with
    | .block outer =>
      if token.isPunctuator Byte.openBrace then walk (.block (outer + 1)) found rest
      else if token.isPunctuator Byte.closeBrace then
        match outer with
        | 0 => walk .between found rest
        | outer + 1 => walk (.block outer) found rest
      else walk stage found rest
    | .heading definition parens =>
      if token.isPunctuator Byte.openParen then walk (.heading definition (parens + 1)) found rest
      else if token.isPunctuator Byte.closeParen then
        walk (.heading definition (parens - 1)) found rest
      else if token.isPunctuator Byte.openBrace ∧ parens = 0 then
        walk (.block 0) (definition.found found) rest
      else walk stage found rest
    | .between =>
      if token.isPunctuator Byte.openBrace then
        if found.isSome then .error (.secondOperation [])
        else walk (.block 0) (some { kind := .query }) rest
      else if token.isName (ascii "subscription") then .error .subscription
      else if token.isName (ascii "fragment") then walk (.heading .fragment 0) found rest
      else if token.isName (ascii "query") ∨ token.isName (ascii "mutation") then
        if found.isSome then .error (.secondOperation token.text)
        else
          let kind := if token.isName (ascii "mutation") then .mutation else .query
          walk (.heading (.operation ⟨kind, nameAfter rest⟩ token.text) 0) found rest
      else .error (.strayToken token.text)

/-- The one operation of a document, given its tokens. -/
def detectOperation (tokens : List Token) : Except Rejection Header := walk .between none tokens

def headerOf (document : Text) : Except Rejection Header := do
  detectOperation (← tokenize document)

end QueryGate.Graphql
