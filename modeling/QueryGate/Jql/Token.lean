import QueryGate.NameSet
import QueryGate.Quoted
import QueryGate.Rejection

/-! # Tokens of an issue search

A query is read as a flat sequence of tokens, without a grammar over them: the checks ask for
the kind of a token and of its neighbours. Every byte that is not whitespace lies in exactly
one token, and a token's text is the piece of the query that starts at its offset.
-/

namespace QueryGate.Jql

inductive TokenKind where
  /-- A name that is not a keyword. -/
  | identifier
  /-- A name in the keyword table. -/
  | keyword
  /-- A field given by its number: `cf[…`, well formed or not. -/
  | customField
  /-- A literal in double or single quotes. -/
  | string
  /-- A number, a date or a relative date. -/
  | number
  /-- A comparison. -/
  | operator
  | opening
  | closing
  | comma
  | other
  deriving Repr, DecidableEq

namespace TokenKind

/-- Every kind, in the order of their numbers. -/
def all : List TokenKind :=
  [.identifier, .keyword, .customField, .string, .number, .operator, .opening, .closing,
   .comma, .other]

def name : TokenKind → Text
  | .identifier => ascii "identifier"
  | .keyword => ascii "keyword"
  | .customField => ascii "custom_field"
  | .string => ascii "string"
  | .number => ascii "number"
  | .operator => ascii "operator"
  | .opening => ascii "open"
  | .closing => ascii "close"
  | .comma => ascii "comma"
  | .other => ascii "other"

/-- The word for a kind that may be out of range. -/
def label (kind : Option TokenKind) : Text := kind.elim (ascii "unknown") name

end TokenKind

structure Token where
  kind : TokenKind
  text : Text
  offset : Nat
  deriving Repr, DecidableEq

namespace Token

/-- Whether the token is the keyword `word`, given in lower case, in any case. -/
def isKeyword (token : Token) (word : Text) : Bool :=
  token.kind == .keyword && token.text.toLower == word

end Token

/-- Whether `cf[` starts here, in any case. -/
def startsCustomField (c : UInt8) (rest : Text) : Bool :=
  (ascii "cf[").isPrefixOf (Text.toLower (c :: rest.take 2))

/-- How many bytes after the first belong to a custom field: `f[`, the word in the brackets,
and the closing bracket if it follows. -/
def customFieldSpan (rest : Text) : Nat :=
  let word := (rest.drop 2).takeWhile Byte.isWord
  let closed := ((rest.drop 2).drop word.length).head? == some Byte.closeBracket
  2 + word.length + (if closed then 1 else 0)

/-- A byte that continues a number: digits and letters, and what separates the parts of a
date. -/
def isNumberByte (b : UInt8) : Bool :=
  Byte.isAlphanumeric b || b == Byte.dot || b == Byte.minus || b == Byte.slash

/-- Whether a number starts here: with a digit, or with a sign that a digit follows. -/
def startsNumber (c : UInt8) (rest : Text) : Bool :=
  Byte.isDigit c || ((c == Byte.minus || c == Byte.plus) && rest.head?.any Byte.isDigit)

/-- Whether two bytes make one comparison: `!=`, `!~`, `>=` or `<=`. -/
def isLongOperator (c d : UInt8) : Bool :=
  (c == Byte.bang && (d == Byte.equals || d == Byte.tilde)) ||
    ((c == Byte.greater || c == Byte.less) && d == Byte.equals)

/-- The kind of a byte that makes a token of its own. -/
def singleKind (c : UInt8) : TokenKind :=
  if c = Byte.equals ∨ c = Byte.greater ∨ c = Byte.less ∨ c = Byte.tilde then .operator
  else if c = Byte.openParen then .opening
  else if c = Byte.closeParen then .closing
  else if c = Byte.comma then .comma
  else .other

/-- The token that starts with `c`, which is no whitespace: its kind, and how many bytes of
`rest` belong to it. Only a literal that is never closed has none. -/
def lexeme? (keywords : NameSet) (c : UInt8) (rest : Text) : Option (TokenKind × Nat) :=
  if c = Byte.doubleQuote ∨ c = Byte.singleQuote then
    (Quoted.span? c rest).map fun n => (.string, n)
  else if startsCustomField c rest then some (.customField, customFieldSpan rest)
  else if Byte.isNameStart c then
    let word := rest.takeWhile Byte.isWord
    let kind :=
      if keywords.contains (Text.toLower (c :: word)) then .keyword else .identifier
    some (kind, word.length)
  else if startsNumber c rest then some (.number, (rest.takeWhile isNumberByte).length)
  else if rest.head?.any (isLongOperator c) then some (.operator, 1)
  else some (singleKind c, 0)

/-- The tokens of a text that starts at `offset` and whose first `taken` bytes belong to a
token before it. -/
def tokenizeFrom (keywords : NameSet) (offset taken : Nat) :
    Text → Except Rejection (List Token)
  | [] => .ok []
  | c :: rest =>
    match taken with
    | taken + 1 => tokenizeFrom keywords (offset + 1) taken rest
    | 0 =>
      if Byte.isBlank c then tokenizeFrom keywords (offset + 1) 0 rest
      else
        match lexeme? keywords c rest with
        | none => .error (.openLiteral (c :: rest))
        | some (kind, n) =>
          (tokenizeFrom keywords (offset + 1) n rest).map
            (⟨kind, c :: rest.take n, offset⟩ :: ·)

/-- The tokens of a query, in order. It has none when a literal is never closed. -/
def tokenize (keywords : NameSet) (query : Text) : Except Rejection (List Token) :=
  tokenizeFrom keywords 0 0 query

end QueryGate.Jql
