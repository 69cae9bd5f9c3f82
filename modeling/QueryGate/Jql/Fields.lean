import QueryGate.Jql.Rules
import QueryGate.Jql.Token

/-! # Fields, functions and reserved words

The checks of a query's tokens. Without a grammar, a name is taken for a field by its
neighbours: a comparison or a predicate keyword follows it, or it stands in a column of the
sort order. What stands left of a comparison must be a field, so a comparison of literals never
passes, and a quoted name is never a field.
-/

namespace QueryGate.Jql

/-- The number of a custom field written as `cf[`, one to nine digits and `]`. -/
def customFieldNumber? (text : Text) : Option Nat :=
  let digits := (text.drop 3).dropLast
  if 5 ≤ text.length ∧ text.getLast? = some Byte.closeBracket ∧ digits.length ≤ 9 ∧
      digits.all Byte.isDigit then
    some (digits.foldl (fun n b => n * 10 + (b.toNat - 0x30)) 0)
  else none

namespace Rules

/-- Whether a name may stand in the place of a field. -/
def allowsField (rules : Rules) (name : Text) : Bool := rules.fields.contains name.toLower

/-- Whether a custom field is well formed and its number in range. -/
def allowsCustomField (rules : Rules) (text : Text) : Bool :=
  match customFieldNumber? text with
  | some n => decide (rules.customFields.least ≤ n ∧ n ≤ rules.customFields.greatest)
  | none => false

end Rules

namespace Token

/-- Whether the token is a keyword that a field stands in front of. -/
def isPredicate (token : Token) : Bool :=
  token.isKeyword (ascii "in") || token.isKeyword (ascii "is") ||
    token.isKeyword (ascii "was") || token.isKeyword (ascii "changed")

/-- Whether the token is a keyword that may follow `not` after a field. -/
def isNegatablePredicate (token : Token) : Bool :=
  token.isKeyword (ascii "in") || token.isKeyword (ascii "changed")

end Token

/-- Whether what follows a name makes it a field: a comparison, a predicate, or `not` and a
predicate that may be negated. -/
def followsField : List Token → Bool
  | [] => false
  | next :: rest =>
    next.kind == .operator || next.isPredicate ||
      (next.isKeyword (ascii "not") && rest.head?.any (·.isNegatablePredicate))

/-- Whether an opening parenthesis comes first. -/
def startsArguments (tokens : List Token) : Bool := tokens.head?.any (·.kind == .opening)

/-- What the check of fields has to remember of the tokens before. -/
structure FieldState where
  previous : Option Token := none
  sorting : Bool := false
  column : Bool := false
  deriving Repr

def checkFieldsFrom (rules : Rules) (state : FieldState) : List Token → Except Rejection Unit
  | [] => .ok ()
  | token :: rest =>
    let after (column : Bool) : FieldState := { state with previous := some token, column }
    if token.isKeyword (ascii "order") && rest.head?.any (·.isKeyword (ascii "by")) then
      match rest with
      | [] => .ok ()
      | by_ :: rest => checkFieldsFrom rules ⟨some by_, true, true⟩ rest
    else
      match token.kind with
      | .customField =>
        if rules.allowsCustomField token.text then checkFieldsFrom rules (after false) rest
        else .error (.unknownField token.text)
      | .operator =>
        match state.previous with
        | none => .error (.unknownField token.text)
        | some left =>
          if left.kind = .identifier ∨ left.kind = .customField then
            checkFieldsFrom rules (after state.column) rest
          else .error (.unknownField left.text)
      | .comma => checkFieldsFrom rules (after state.sorting) rest
      | .identifier =>
        if startsArguments rest then checkFieldsFrom rules (after false) rest
        else if (state.column || followsField rest) && !rules.allowsField token.text then
          .error (.unknownField token.text)
        else checkFieldsFrom rules (after false) rest
      | _ => checkFieldsFrom rules (after false) rest

/-- Checks that every field is on the whitelist; reports the first that is not. -/
def checkFields (rules : Rules) (tokens : List Token) : Except Rejection Unit :=
  checkFieldsFrom rules {} tokens

/-- Checks that every called name is on the whitelist; reports the first that is not. -/
def checkFunctions (rules : Rules) : List Token → Except Rejection Unit
  | [] => .ok ()
  | token :: rest =>
    if token.kind = .identifier ∧ startsArguments rest ∧
        rules.functions.contains token.text.toLower = false then
      .error (.unknownFunction token.text)
    else checkFunctions rules rest

/-- Checks that no name is a reserved word of SQL; reports the first that is. -/
def checkSqlWords (rules : Rules) : List Token → Except Rejection Unit
  | [] => .ok ()
  | token :: rest =>
    if token.kind = .identifier ∧ rules.sqlWords.contains token.text.toLower then
      .error (.sqlWord token.text.toLower)
    else checkSqlWords rules rest

end QueryGate.Jql
