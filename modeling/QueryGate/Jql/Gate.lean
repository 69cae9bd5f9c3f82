import QueryGate.Jql.Fields
import QueryGate.Nesting
import QueryGate.Quoted
import QueryGate.Screening

/-! # Judging an issue search

A query passes a fixed sequence of checks, and the first that fails decides. What passes is
handed on without its surrounding whitespace, and is otherwise unchanged.
-/

namespace QueryGate.Jql

/-- The rules of a gate with its patterns ready to be searched for. -/
structure Gate where
  rules : Rules
  detector : Detector

namespace Gate

def ofRules (rules : Rules) : Gate := ⟨rules, .ofSources rules.patterns⟩

/-- What the quotes and parentheses of a query have to satisfy. -/
def nesting (gate : Gate) : Nesting.Policy where
  delimiters := [⟨Byte.openParen, Byte.closeParen, true⟩]
  maxDepth := gate.rules.maxNesting
  quotes := [Byte.doubleQuote, Byte.singleQuote]

def checkBounds (gate : Gate) (query : Text) : Except Rejection Unit :=
  checkSize .jql gate.rules.maxLength query

def checkPatterns (gate : Gate) (query : Text) : Except Rejection Unit :=
  gate.detector.check .jql query

/-- Judges a query: its size, its patterns, its quotes and parentheses, and then the fields,
functions and reserved words among its tokens. -/
def judge (gate : Gate) (query : Text) : Except Rejection Text := do
  gate.checkBounds query
  gate.checkPatterns query
  let _ ← Nesting.check gate.nesting query
  let tokens ← tokenize gate.rules.keywords query
  checkFields gate.rules tokens
  checkFunctions gate.rules tokens
  checkSqlWords gate.rules tokens
  return query.trim

end Gate

/-- The bytes that are escaped, each with what stands for it behind a backslash. -/
def escapes : List (UInt8 × UInt8) :=
  [(Byte.backslash, Byte.backslash), (Byte.doubleQuote, Byte.doubleQuote)]

/-- Escapes a value for use between double quotes. -/
def escape (value : Text) : Text := Quoted.escape escapes value

end QueryGate.Jql
