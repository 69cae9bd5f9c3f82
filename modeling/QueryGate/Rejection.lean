import QueryGate.Language

/-! # Reasons to refuse a query

A `Rejection` is a cause: it holds what was found, and nothing that is only wording. From a
cause follow its `code`, which callers branch on, its `message`, which people read, and its
`context`, the token, pattern or path that provoked it.
-/

namespace QueryGate

/-- The classes of refusal, stable for machines. -/
inductive RejectionCode where
  | emptyInput
  | tooLong
  | dangerousPattern
  | unbalancedQuotes
  | unbalancedDelimiters
  | nestingTooDeep
  | unknownField
  | unknownFunction
  | unknownOperation
  | unsupportedOperation
  | sqlKeywordNotAllowed
  | invalidVariableName
  | tooManyVariables
  | variableTooLarge
  | unsupportedVariableType
  deriving Repr, DecidableEq

namespace RejectionCode

/-- Every code, in the order of their numbers. -/
def all : List RejectionCode :=
  [.emptyInput, .tooLong, .dangerousPattern, .unbalancedQuotes, .unbalancedDelimiters,
   .nestingTooDeep, .unknownField, .unknownFunction, .unknownOperation, .unsupportedOperation,
   .sqlKeywordNotAllowed, .invalidVariableName, .tooManyVariables, .variableTooLarge,
   .unsupportedVariableType]

/-- The name of a code in log lines and on the command line. -/
def name : RejectionCode → Text
  | .emptyInput => ascii "EmptyInput"
  | .tooLong => ascii "TooLong"
  | .dangerousPattern => ascii "DangerousPattern"
  | .unbalancedQuotes => ascii "UnbalancedQuotes"
  | .unbalancedDelimiters => ascii "UnbalancedDelimiters"
  | .nestingTooDeep => ascii "NestingTooDeep"
  | .unknownField => ascii "UnknownField"
  | .unknownFunction => ascii "UnknownFunction"
  | .unknownOperation => ascii "UnknownOperation"
  | .unsupportedOperation => ascii "UnsupportedOperation"
  | .sqlKeywordNotAllowed => ascii "SqlKeywordNotAllowed"
  | .invalidVariableName => ascii "InvalidVariableName"
  | .tooManyVariables => ascii "TooManyVariables"
  | .variableTooLarge => ascii "VariableTooLarge"
  | .unsupportedVariableType => ascii "UnsupportedVariableType"

/-- The name of a code that may be out of range. -/
def label (code : Option RejectionCode) : Text := code.elim (ascii "Unknown") name

end RejectionCode

/-- The ways in which a variable value exceeds a limit. -/
inductive Excess where
  | depth
  | text
  | list
  | map
  deriving Repr, DecidableEq

/-- A cause for refusing a query, a document or its variables. -/
inductive Rejection where
  | blank (language : Language)
  | tooLong (language : Language) (limit size : Nat)
  /-- A dangerous pattern was found in the query; `pattern` is its source, empty when no
  pattern could be compiled. -/
  | dangerous (language : Language) (pattern : Text)
  /-- The number of unescaped double quotes is odd. -/
  | oddQuotes (count : Nat)
  | openRegion
  /-- A string literal is never closed; `rest` is the text from its opening quote on. -/
  | openLiteral (rest : Text)
  | strayClose (closing : UInt8)
  | missingClose (opening closing : UInt8)
  | tooDeep (limit depth : Nat)
  /-- A name in the place of a field is not on the whitelist. -/
  | unknownField (name : Text)
  | unknownFunction (name : Text)
  /-- A word reserved for SQL stands outside every literal; `word` is in lower case. -/
  | sqlWord (word : Text)
  /-- A second operation starts; `keyword` is its first word, empty for a bare block. -/
  | secondOperation (keyword : Text)
  | subscription
  | fragmentWithoutSelection
  | operationWithoutSelection (keyword : Text)
  /-- A token stands where a definition has to start. -/
  | strayToken (token : Text)
  | noOperation
  | operationMissing (kind : Graphql.OperationKind) (expected : Text)
  | tooManyVariables (limit count : Nat)
  | badVariableName (name : Text)
  | oversized (path : Text) (excess : Excess)
  | dangerousValue (path : Text)
  | noVariables
  | variablesNotMap
  | unreadableVariables (reason : Text)
  | badKey (path : Text)
  | undefinedValue (path : Text)
  deriving Repr, DecidableEq

namespace Rejection

/-- How many bytes of an unclosed literal its rejection shows. -/
def literalExcerpt : Nat := 32

/-- How many bytes of a malformed variable name its rejection shows. -/
def nameExcerpt : Nat := 64

def code : Rejection → RejectionCode
  | .blank _ => .emptyInput
  | .tooLong .. => .tooLong
  | .dangerous .. | .dangerousValue _ => .dangerousPattern
  | .oddQuotes _ | .openRegion | .openLiteral _ => .unbalancedQuotes
  | .strayClose _ | .missingClose .. => .unbalancedDelimiters
  | .tooDeep .. => .nestingTooDeep
  | .unknownField _ => .unknownField
  | .unknownFunction _ => .unknownFunction
  | .sqlWord _ => .sqlKeywordNotAllowed
  | .secondOperation _ | .subscription => .unsupportedOperation
  | .fragmentWithoutSelection | .operationWithoutSelection _ | .strayToken _ | .noOperation
  | .operationMissing .. => .unknownOperation
  | .tooManyVariables .. => .tooManyVariables
  | .badVariableName _ => .invalidVariableName
  | .oversized .. => .variableTooLarge
  | .noVariables | .variablesNotMap | .unreadableVariables _ | .badKey _
  | .undefinedValue _ => .unsupportedVariableType

def languageTitle : Language → Text
  | .jql => ascii "JQL"
  | .graphql => ascii "GraphQL"

def excessText : Excess → Text
  | .depth => ascii "nested too deeply"
  | .text => ascii "string value too long"
  | .list => ascii "array too large"
  | .map => ascii "object too large"

def message : Rejection → Text
  | .blank language => languageTitle language ++ ascii " query cannot be empty"
  | .tooLong language limit _ =>
      languageTitle language ++ ascii " query too long (max " ++ Text.decimal limit ++
        ascii " characters)"
  | .dangerous .jql _ => ascii "JQL query contains dangerous patterns"
  | .dangerous .graphql _ => ascii "GraphQL query contains dangerous pattern"
  | .oddQuotes _ => ascii "unbalanced quotes"
  | .openRegion | .openLiteral _ => ascii "unterminated string literal"
  | .strayClose closing =>
      ascii "unbalanced delimiters: '" ++ [closing] ++ ascii "' without matching open"
  | .missingClose opening closing =>
      ascii "unbalanced delimiters: '" ++ [opening] ++ ascii "' without matching '" ++
        [closing] ++ ascii "'"
  | .tooDeep limit _ =>
      ascii "nesting too deep (max " ++ Text.decimal limit ++ ascii " levels)"
  | .unknownField name => ascii "Unknown or disallowed field: " ++ name
  | .unknownFunction name => ascii "Unknown or disallowed function: " ++ name
  | .sqlWord word => ascii "SQL keyword not allowed in JQL: " ++ word
  | .secondOperation _ => ascii "multiple operations in one document are not supported"
  | .subscription => ascii "Subscription operations are not allowed"
  | .fragmentWithoutSelection => ascii "fragment definition has no selection set"
  | .operationWithoutSelection _ => ascii "operation has no selection set"
  | .strayToken _ => ascii "Invalid GraphQL query structure"
  | .noOperation => ascii "no query or mutation operation found"
  | .operationMissing kind expected =>
      ascii "Expected " ++ kind.name ++ ascii " operation not found: " ++ expected
  | .tooManyVariables limit _ =>
      ascii "Too many variables (max " ++ Text.decimal limit ++ ascii ")"
  | .badVariableName name => ascii "Invalid variable name: " ++ Text.abridge name nameExcerpt
  | .oversized path excess =>
      ascii "Variable '" ++ path ++ ascii "' " ++ excessText excess
  | .dangerousValue path => ascii "Variable '" ++ path ++ ascii "' contains dangerous pattern"
  | .noVariables => ascii "undefined variables document"
  | .variablesNotMap => ascii "variables must be an object"
  | .unreadableVariables reason => ascii "variables parse error: " ++ reason
  | .badKey _ => ascii "non-scalar object key"
  | .undefinedValue _ => ascii "undefined variable value"

/-- The token, pattern, measure or path that provoked the refusal; never the whole query. -/
def context : Rejection → Text
  | .tooLong _ _ size => Text.decimal size ++ ascii " characters"
  | .dangerous _ pattern => pattern
  | .oddQuotes count => Text.decimal count ++ ascii " double quotes"
  | .openLiteral rest => Text.abridge rest literalExcerpt
  | .strayClose closing => [closing]
  | .missingClose opening _ => [opening]
  | .tooDeep _ depth => ascii "depth " ++ Text.decimal depth
  | .unknownField name | .unknownFunction name => name
  | .sqlWord word => word
  | .secondOperation keyword | .operationWithoutSelection keyword => keyword
  | .subscription => ascii "subscription"
  | .fragmentWithoutSelection => ascii "fragment"
  | .strayToken token => token
  | .operationMissing _ expected => expected
  | .tooManyVariables _ count => Text.decimal count ++ ascii " variables"
  | .badVariableName name => Text.abridge name nameExcerpt
  | .oversized path _ | .dangerousValue path | .badKey path | .undefinedValue path => path
  | .blank _ | .openRegion | .noOperation | .noVariables | .variablesNotMap
  | .unreadableVariables _ => []

end Rejection

end QueryGate
