import QueryGate.Graphql.Names
import QueryGate.Graphql.Variables
import QueryGate.Nesting
import QueryGate.Quoted
import QueryGate.Screening

/-! # Judging a document

A document and its variables pass a fixed sequence of checks, and the first that fails decides.
What passes is handed on without its surrounding whitespace, and is otherwise unchanged.
-/

namespace QueryGate.Graphql

/-- The rules of a gate with its patterns ready to be searched for. -/
structure Gate where
  rules : Rules
  detector : Detector

namespace Gate

def ofRules (rules : Rules) : Gate := ⟨rules, .ofSources rules.patterns⟩

/-- What the quotes and delimiters of a document have to satisfy; only braces count towards the
depth. -/
def nesting (gate : Gate) : Nesting.Policy where
  delimiters :=
    [⟨Byte.openBrace, Byte.closeBrace, true⟩, ⟨Byte.openParen, Byte.closeParen, false⟩,
     ⟨Byte.openBracket, Byte.closeBracket, false⟩]
  maxDepth := gate.rules.maxDepth
  quotes := [Byte.doubleQuote]

def checkBounds (gate : Gate) (document : Text) : Except Rejection Unit :=
  checkSize .graphql gate.rules.maxLength document

def checkPatterns (gate : Gate) (document : Text) : Except Rejection Unit :=
  gate.detector.check .graphql document

/-- Judges a document: its size, its patterns, its one operation, its quotes and delimiters, its
names, and then the variables if there are any. -/
def judge (gate : Gate) (document : Text) (given : Option Variables) :
    Except Rejection Text := do
  gate.checkBounds document
  gate.checkPatterns document
  let tokens ← tokenize document
  let header ← detectOperation tokens
  let _ ← Nesting.check gate.nesting document
  checkNames gate.rules header.kind tokens
  match given with
  | some given => checkVariables gate.rules gate.detector given
  | none => .ok ()
  return document.trim

/-- Judges a document as `judge` does, and then checks that the operation `expected` may be
invoked and that its name occurs in the document. -/
def judgeFor (gate : Gate) (document expected : Text) (given : Option Variables) :
    Except Rejection Text := do
  let accepted ← gate.judge document given
  let tokens ← tokenize accepted
  let header ← detectOperation tokens
  if tokens.any (·.isName expected) && (gate.rules.operations header.kind).contains expected then
    return accepted
  else .error (.operationMissing header.kind expected)

end Gate

/-- The bytes that are escaped, each with what stands for it behind a backslash. -/
def escapes : List (UInt8 × UInt8) :=
  [(Byte.backslash, Byte.backslash), (Byte.doubleQuote, Byte.doubleQuote),
   (Byte.lineFeed, 'n'.toUInt8), (Byte.carriageReturn, 'r'.toUInt8), (Byte.tab, 't'.toUInt8)]

/-- Escapes a value for use between double quotes. -/
def escape (value : Text) : Text := Quoted.escape escapes value

end QueryGate.Graphql
