import QueryGate.Jql.Gate
import QueryGate.Proofs.Screening
import QueryGate.Proofs.Steps

/-! # What an accepted query has passed

Every theorem about accepted queries starts from here: the query has one sequence of tokens, and
each check has let it through.
-/

namespace QueryGate.Jql

/-- A query with these tokens passes every check of a gate. -/
structure Gate.Passes (gate : Gate) (query : Text) (tokens : List Token) : Prop where
  bounds : gate.checkBounds query = .ok ()
  patterns : gate.checkPatterns query = .ok ()
  nesting : ∃ report, Nesting.check gate.nesting query = .ok report
  lexed : tokenize gate.rules.keywords query = .ok tokens
  fields : checkFields gate.rules tokens = .ok ()
  functions : checkFunctions gate.rules tokens = .ok ()
  sqlWords : checkSqlWords gate.rules tokens = .ok ()

theorem judge_eq_ok_iff {gate : Gate} {query accepted : Text} :
    gate.judge query = .ok accepted ↔
      (∃ tokens, gate.Passes query tokens) ∧ accepted = query.trim := by
  unfold Gate.judge
  simp only [bind_eq_ok_iff]
  constructor
  · rintro ⟨_, bounds, _, patterns, report, nesting, tokens, lexed, _, fields, _, functions, _,
      sqlWords, same⟩
    exact ⟨⟨tokens, bounds, patterns, ⟨report, nesting⟩, lexed, fields, functions, sqlWords⟩,
      (Except.ok.inj same).symm⟩
  · rintro ⟨⟨tokens, bounds, patterns, ⟨report, nesting⟩, lexed, fields, functions, sqlWords⟩, rfl⟩
    exact ⟨(), bounds, (), patterns, report, nesting, tokens, lexed, (), fields, (), functions, (),
      sqlWords, rfl⟩

section Refused

variable {gate : Gate} {query : Text} {rejection : Rejection}

theorem judge_of_bounds (refused : gate.checkBounds query = .error rejection) :
    gate.judge query = .error rejection := by
  rw [Gate.judge, refused]
  rfl

theorem judge_of_patterns (bounds : gate.checkBounds query = .ok ())
    (refused : gate.checkPatterns query = .error rejection) :
    gate.judge query = .error rejection := by
  rw [Gate.judge, bounds, refused]
  rfl

theorem judge_of_fields {tokens : List Token} (bounds : gate.checkBounds query = .ok ())
    (patterns : gate.checkPatterns query = .ok ())
    (nesting : ∃ report, Nesting.check gate.nesting query = .ok report)
    (lexed : tokenize gate.rules.keywords query = .ok tokens)
    (refused : checkFields gate.rules tokens = .error rejection) :
    gate.judge query = .error rejection := by
  obtain ⟨report, nesting⟩ := nesting
  rw [Gate.judge, bounds, patterns, nesting, lexed]
  change checkFields gate.rules tokens >>= _ = _
  rw [refused]
  rfl

end Refused

/-- Rules for a small tracker: two fields, and custom fields of one range. -/
def Rules.sample : Rules where
  maxLength := 80
  maxNesting := 2
  fields := .ofList [ascii "key", ascii "status"]
  functions := .ofList [ascii "now"]
  keywords := .ofList [ascii "and", ascii "in", ascii "order", ascii "by"]
  sqlWords := .ofList [ascii "drop", ascii "select"]
  patterns := [ascii ";", ascii "\\bexec\\b"]
  customFields := ⟨10, 19⟩

end QueryGate.Jql
