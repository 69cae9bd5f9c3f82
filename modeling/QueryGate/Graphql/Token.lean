import QueryGate.Quoted
import QueryGate.Rejection

/-! # Tokens of a document

A document is read as a flat sequence of tokens, as far as finding operations and names needs
it. Whitespace separates tokens, and a comment runs from `#` to the end of its line; every
other byte lies in exactly one token.
-/

namespace QueryGate.Graphql

inductive TokenKind where
  | name
  /-- A dollar sign and a name. -/
  | variable
  /-- A literal in double quotes, or a block between two fences. -/
  | string
  | number
  /-- One of `! ( ) { } [ ] : = @ | & ,`. -/
  | punctuator
  | spread
  | other
  deriving Repr, DecidableEq

namespace TokenKind

/-- Every kind, in the order of their numbers. -/
def all : List TokenKind :=
  [.name, .variable, .string, .number, .punctuator, .spread, .other]

/-- The word for a kind; `label` where a kind may be out of range. -/
def word : TokenKind → Text
  | .name => ascii "name"
  | .variable => ascii "variable"
  | .string => ascii "string"
  | .number => ascii "number"
  | .punctuator => ascii "punctuator"
  | .spread => ascii "spread"
  | .other => ascii "other"

/-- The word for a kind that may be out of range. -/
def label (kind : Option TokenKind) : Text := kind.elim (ascii "unknown") word

end TokenKind

/-- A token: its kind, its text and where it starts in the document. The text of a variable is
its name, without the dollar sign. -/
structure Token where
  kind : TokenKind
  text : Text
  offset : Nat
  deriving Repr, DecidableEq

namespace Token

/-- The piece of the document a token was read from. -/
def slice (token : Token) : Text :=
  if token.kind = .variable then Byte.dollar :: token.text else token.text

def isPunctuator (token : Token) (b : UInt8) : Bool :=
  token.kind == .punctuator && token.text == [b]

def isName (token : Token) (word : Text) : Bool :=
  token.kind == .name && token.text == word

end Token

def punctuators : Text := ascii "!()\x7b\x7d[]:=@|&,"

/-- Whether a number starts here: with a digit, or with a minus sign that a digit follows. -/
def startsNumber (c : UInt8) (rest : Text) : Bool :=
  Byte.isDigit c || (c == Byte.minus && rest.head?.any Byte.isDigit)

/-- How many bytes continue a number whose last byte so far is `last`: digits, dots, exponent
marks, and a sign directly after an exponent mark. -/
def numberSpan (last : UInt8) : Text → Nat
  | [] => 0
  | b :: rest =>
    let isMark (b : UInt8) : Bool := Byte.lower b == 0x65
    if Byte.isDigit b || b == Byte.dot || isMark b ||
        ((b == Byte.plus || b == Byte.minus) && isMark last) then
      1 + numberSpan b rest
    else 0

/-- The token that starts with `c`, which starts neither whitespace nor a comment: its kind, and
how many bytes of `rest` belong to it. Only a literal that is never closed has none. -/
def lexeme? (c : UInt8) (rest : Text) : Option (TokenKind × Nat) :=
  if Quoted.fence.isPrefixOf (c :: rest.take 2) then
    (Quoted.throughFence? (rest.drop 2)).map fun n => (.string, 2 + n)
  else if c = Byte.doubleQuote then (Quoted.span? c rest).map fun n => (.string, n)
  else if Byte.isNameStart c then some (.name, (rest.takeWhile Byte.isWord).length)
  else if c = Byte.dollar ∧ rest.head?.any Byte.isNameStart then
    some (.variable, (rest.takeWhile Byte.isWord).length)
  else if startsNumber c rest then some (.number, numberSpan c rest)
  else if (ascii "...").isPrefixOf (c :: rest.take 2) then some (.spread, 2)
  else some (if c ∈ punctuators then .punctuator else .other, 0)

/-- The text of a token of the given kind that was read from `slice`. -/
def tokenText (kind : TokenKind) (slice : Text) : Text :=
  if kind = .variable then slice.tail else slice

/-- The tokens of a text that starts at `offset` and whose first `taken` bytes belong to a
token or a comment before it. -/
def tokenizeFrom (offset taken : Nat) : Text → Except Rejection (List Token)
  | [] => .ok []
  | c :: rest =>
    match taken with
    | taken + 1 => tokenizeFrom (offset + 1) taken rest
    | 0 =>
      if Byte.isBlank c then tokenizeFrom (offset + 1) 0 rest
      else if c = Byte.hash then
        tokenizeFrom (offset + 1) (rest.takeWhile (· ≠ Byte.lineFeed)).length rest
      else
        match lexeme? c rest with
        | none => .error (.openLiteral (c :: rest))
        | some (kind, n) =>
          (tokenizeFrom (offset + 1) n rest).map
            (⟨kind, tokenText kind (c :: rest.take n), offset⟩ :: ·)

/-- The tokens of a document, in order. It has none when a literal is never closed. -/
def tokenize (document : Text) : Except Rejection (List Token) := tokenizeFrom 0 0 document

end QueryGate.Graphql
