import QueryGate.Proofs.Jql.Gate
import QueryGate.Proofs.Jql.Outline
import QueryGate.Proofs.Nesting.Pieces
import QueryGate.Proofs.Pattern.Margins

/-! # Judging a query again

What a gate hands on is the core of the query, and the gate accepts the core as it is: no check sees
more in the core than it saw in the query.
-/

namespace QueryGate.Jql

variable {gate : Gate} {query accepted : Text} {tokens : List Token}

/-- The bytes that mean something to the check of the nesting. -/
def heededBytes : Text :=
  [Byte.doubleQuote, Byte.singleQuote, Byte.backslash, Byte.openParen, Byte.closeParen]

theorem ignores_of_outside (gate : Gate) {p : UInt8 → Bool} (outside : heededBytes.any p = false)
    {b : UInt8} (inside : p b = true) : gate.nesting.Ignores b := by
  have apart : ∀ c ∈ heededBytes, b ≠ c := by
    rintro c listed rfl
    exact List.any_eq_false.mp outside b listed inside
  simp only [heededBytes, List.forall_mem_cons] at apart
  obtain ⟨double, single, backslash, opening, closing, -⟩ := apart
  constructor
  case uncounted => exact double
  case unescaping => exact backslash
  case unquoted => exact fun listed => (List.mem_pair.mp listed).elim double single
  case undelimiting =>
    intro pair listed
    obtain rfl := List.mem_singleton.mp listed
    exact ⟨opening, closing⟩

theorem ignores_of_isBlank (gate : Gate) (b : UInt8) (blank : Byte.isBlank b = true) :
    gate.nesting.Ignores b :=
  ignores_of_outside (p := Byte.isBlank) gate (by decide) blank

theorem Gate.Passes.trim (steady : gate.detector.IsSteady) (passes : gate.Passes query tokens) :
    ∃ others, gate.Passes query.trim others := by
  have isCore := Text.isCore_trim query
  obtain ⟨others, k, lexed, shifted⟩ := tokenize_of_isCore isCore passes.lexed
  have checked : TokensPass gate.rules others := by
    refine TokensPass.of_outlines ⟨passes.fields, passes.functions, passes.sqlWords⟩ ?_
    rw [shifted, outlines_shift]
  refine ⟨others, ?_⟩
  constructor
  case bounds => exact checkSize_trim passes.bounds
  case patterns => exact Detector.check_trim steady passes.patterns
  case nesting =>
    rw [Nesting.check_of_isCore (ignores_of_isBlank gate) isCore]
    exact passes.nesting
  case lexed => exact lexed
  case fields => exact checked.fields
  case functions => exact checked.functions
  case sqlWords => exact checked.sqlWords

theorem isSteady_builtin : (Gate.ofRules Rules.builtin).detector.IsSteady := by
  decide +kernel

/-- A gate with the built-in rules accepts what it has handed on, and hands it on unchanged. -/
theorem judge_accepted_query (judged : (Gate.ofRules Rules.builtin).judge query = .ok accepted) :
    accepted.IsCore query ∧ (Gate.ofRules Rules.builtin).judge accepted = .ok accepted := by
  obtain ⟨⟨tokens, passes⟩, rfl⟩ := judge_eq_ok_iff.mp judged
  obtain ⟨others, again⟩ := passes.trim isSteady_builtin
  exact ⟨Text.isCore_trim query,
    judge_eq_ok_iff.mpr ⟨⟨others, again⟩, (Text.trim_trim query).symm⟩⟩

theorem judge_accepted_query_paddedKey :
    (Gate.ofRules Rules.builtin).judge (ascii "\n key = 'a' \t") = .ok (ascii "key = 'a'") ∧
      (ascii "key = 'a'").IsCore (ascii "\n key = 'a' \t") ∧
      (Gate.ofRules Rules.builtin).judge (ascii "key = 'a'") = .ok (ascii "key = 'a'") := by
  have judged : (Gate.ofRules Rules.builtin).judge (ascii "\n key = 'a' \t") =
      .ok (ascii "key = 'a'") := by decide +kernel
  exact ⟨judged, judge_accepted_query judged⟩

end QueryGate.Jql
