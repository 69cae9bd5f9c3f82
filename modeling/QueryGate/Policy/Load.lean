import QueryGate.Document.Scalar
import QueryGate.Policy

/-! # The policy in a rules document

A rules document overrides the built-in policy section by section. It is taken as a whole or not
at all: the first fault decides, sections and keys being read in a fixed order.

A list under `allowed_…` takes the place of the built-in names and one under `extra_…` adds to
them. Names for issue searches are put in lower case. Keys that are not known are ignored, and
so are log settings that are not scalars.
-/

namespace QueryGate

inductive PolicySection where
  | global
  | jql
  | graphql
  deriving Repr, DecidableEq

def PolicySection.name : PolicySection → Text
  | .global => ascii "global"
  | .jql => ascii "jql"
  | .graphql => ascii "graphql"

/-- What can be wrong in a section. -/
inductive PolicyFault where
  /-- A number is not written as one, or out of range. -/
  | badNumber
  | notMap
  | notSequence (key : Text)
  | notScalars (key : Text)
  | noPatterns
  | rangeNotMap
  | rangeReversed
  deriving Repr, DecidableEq

/-- Why a rules document is refused. -/
inductive PolicyError where
  | rootNotMap
  | inSection (part : PolicySection) (fault : PolicyFault)
  deriving Repr, DecidableEq

namespace PolicyFault

/-- The wording of a fault. Nodes carry no position, so for rules that were read from a file the wording
of `badNumber` lacks the line and the column that the reader of the file puts in front of it. -/
def message : PolicyFault → Text
  | .badNumber => ascii "bad conversion"
  | .notMap => ascii "must be a map"
  | .notSequence key => key ++ ascii " must be a sequence"
  | .notScalars key => key ++ ascii " entries must be scalars"
  | .noPatterns =>
      ascii ("dangerous_patterns must have at least one pattern " ++
        "(fail-close: empty pattern list would reject every query)")
  | .rangeNotMap => ascii "custom_field_range must be a map"
  | .rangeReversed => ascii "custom_field_range.min must not exceed custom_field_range.max"

end PolicyFault

namespace PolicyError

/-- The explanation of an error; a number that cannot be read is told apart from a section that
is invalid. -/
def message : PolicyError → Text
  | .rootNotMap => ascii "policy_loader: rules document is not a valid YAML map (top-level)"
  | .inSection part fault =>
    let lead :=
      if fault = .badNumber then ascii "policy_loader: error parsing '"
      else ascii "policy_loader: invalid '"
    lead ++ part.name ++ ascii "' section: " ++ fault.message

end PolicyError

namespace Policy

/-- The entries of a map, by which its keys are looked up. -/
abbrev Entries := List (Document × Document)

/-- A number of `bits` bits under a key, or else `fallback`. -/
def readNumber (bits : Nat) (entries : Entries) (key : String) (fallback : Nat) :
    Except PolicyFault Nat :=
  match Document.child? entries (ascii key) with
  | none => .ok fallback
  | some node =>
    match node.text?.bind (Document.unsigned? bits) with
    | some n => .ok n
    | none => .error .badNumber

/-- A length, a depth or a count under a key, or else `fallback`. -/
def readSize (entries : Entries) (key : String) (fallback : Nat) : Except PolicyFault Nat :=
  readNumber 64 entries key fallback

/-- The texts under a key, if the key is there. -/
def readTexts? (entries : Entries) (key : String) : Except PolicyFault (Option (List Text)) :=
  match Document.child? entries (ascii key) with
  | none => .ok none
  | some node =>
    match node.items? with
    | none => .error (.notSequence (ascii key))
    | some items =>
      match items.mapM Document.text? with
      | some texts => .ok (some texts)
      | none => .error (.notScalars (ascii key))

/-- A set of names: `builtin`, or the names under one key instead of it, and the names under the
other besides. -/
def readNames (normalize : Text → Text) (entries : Entries) (allowed extra : String)
    (builtin : NameSet) : Except PolicyFault NameSet := do
  let replaced ← readTexts? entries allowed
  let added ← readTexts? entries extra
  let base := match replaced with
    | some names => NameSet.ofList (names.map normalize)
    | none => builtin
  return base.insertAll ((added.getD []).map normalize)

/-- The dangerous patterns, or else `builtin`. -/
def readPatterns (entries : Entries) (builtin : List Text) : Except PolicyFault (List Text) := do
  match ← readTexts? entries "dangerous_patterns" with
  | none => return builtin
  | some [] => .error .noPatterns
  | some patterns => return patterns

/-- The range of custom fields, or else `builtin`; either end may be left out. -/
def readRange (entries : Entries) (builtin : Jql.FieldRange) :
    Except PolicyFault Jql.FieldRange := do
  match Document.child? entries (ascii "custom_field_range") with
  | none => return builtin
  | some node =>
    match node.entries? with
    | none => .error .rangeNotMap
    | some bounds =>
      let least ← readNumber 32 bounds "min" builtin.least
      let greatest ← readNumber 32 bounds "max" builtin.greatest
      if greatest < least then .error .rangeReversed
      else return { least, greatest }

/-- A text under a key, or else `fallback`. -/
def readText (entries : Entries) (key : String) (fallback : Text) : Text :=
  ((Document.child? entries (ascii key)).bind Document.text?).getD fallback

def readLog (builtin : LogSettings) (entries : Entries) : Except PolicyFault LogSettings :=
  .ok {
    level := readText entries "log_level" builtin.level
    path := readText entries "audit_log_path" builtin.path }

def readJql (builtin : Jql.Rules) (entries : Entries) : Except PolicyFault Jql.Rules := do
  let maxLength ← readSize entries "max_length" builtin.maxLength
  let maxNesting ← readSize entries "max_nesting_depth" builtin.maxNesting
  let fields ← readNames Text.toLower entries "allowed_fields" "extra_fields" builtin.fields
  let functions ←
    readNames Text.toLower entries "allowed_functions" "extra_functions" builtin.functions
  let customFields ← readRange entries builtin.customFields
  let patterns ← readPatterns entries builtin.patterns
  return { builtin with maxLength, maxNesting, fields, functions, customFields, patterns }

def readGraphql (builtin : Graphql.Rules) (entries : Entries) :
    Except PolicyFault Graphql.Rules := do
  let maxLength ← readSize entries "max_length" builtin.maxLength
  let maxDepth ← readSize entries "max_depth" builtin.maxDepth
  let maxVariables ← readSize entries "max_variables" builtin.maxVariables
  let maxTextLength ← readSize entries "max_string_length" builtin.maxTextLength
  let maxListLength ← readSize entries "max_list_length" builtin.maxListLength
  let maxMapSize ← readSize entries "max_object_keys" builtin.maxMapSize
  let maxVariableDepth ← readSize entries "max_variable_depth" builtin.maxVariableDepth
  let fields ← readNames id entries "allowed_fields" "extra_fields" builtin.fields
  let queries ← readNames id entries "allowed_queries" "extra_queries" builtin.queries
  let mutations ← readNames id entries "allowed_mutations" "extra_mutations" builtin.mutations
  let patterns ← readPatterns entries builtin.patterns
  return { builtin with
    maxLength, maxDepth, maxVariables, maxTextLength, maxListLength, maxMapSize,
    maxVariableDepth, fields, queries, mutations, patterns }

/-- Reads a section of the document; an absent one and a null one leave `builtin`. -/
def readSection {α : Type} (part : PolicySection) (builtin : α)
    (read : α → Entries → Except PolicyFault α) (root : Entries) : Except PolicyError α :=
  match Document.child? root part.name with
  | none | some .null => .ok builtin
  | some node =>
    match node.entries? with
    | none => .error (.inSection part .notMap)
    | some entries => (read builtin entries).mapError (.inSection part)

/-- The policy that a rules document describes. -/
def ofDocument (document : Document) : Except PolicyError Policy := do
  match document.entries? with
  | none => .error .rootNotMap
  | some root =>
    let log ← readSection .global builtin.log readLog root
    let jql ← readSection .jql builtin.jql readJql root
    let graphql ← readSection .graphql builtin.graphql readGraphql root
    return { log, jql, graphql }

end Policy

end QueryGate
