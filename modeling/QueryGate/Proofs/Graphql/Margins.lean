import QueryGate.Proofs.Graphql.Gate
import QueryGate.Proofs.Graphql.Outline
import QueryGate.Proofs.Nesting.Pieces
import QueryGate.Proofs.Pattern.Margins

/-! # Judging a document again

As for queries, a gate accepts the core of every document it accepts. A comment at the end of the core
may have gone on into the whitespace behind it, which changes no token.
-/

namespace QueryGate.Graphql

variable {gate : Gate} {document accepted : Text} {given : Option Variables} {tokens : List Token}
  {header : Header}

theorem ignores_of_isBlank (gate : Gate) (b : UInt8) (blank : Byte.isBlank b = true) :
    gate.nesting.Ignores b := by
  have apart : ∀ c, Byte.isBlank c = false → b ≠ c := fun c => Byte.ne_of_isBlank blank
  constructor
  case uncounted => exact apart _ rfl
  case unescaping => exact apart _ rfl
  case unquoted => exact fun listed => apart _ rfl (List.mem_singleton.mp listed)
  case undelimiting =>
    intro pair listed
    rcases List.mem_cons.mp listed with rfl | listed
    · exact ⟨apart _ rfl, apart _ rfl⟩
    rcases List.mem_cons.mp listed with rfl | listed
    · exact ⟨apart _ rfl, apart _ rfl⟩
    obtain rfl := List.mem_singleton.mp listed
    exact ⟨apart _ rfl, apart _ rfl⟩

theorem Gate.Passes.trim (steady : gate.detector.IsSteady)
    (passes : gate.Passes document tokens header) :
    ∃ others, gate.Passes document.trim others header := by
  have isCore := Text.isCore_trim document
  obtain ⟨others, k, lexed, shifted⟩ := tokenize_of_isCore isCore passes.lexed
  have checked : TokensPass gate.rules others header := by
    refine TokensPass.of_outlines ⟨passes.operation, passes.names⟩ ?_
    rw [shifted, outlines_shift]
  refine ⟨others, ?_⟩
  constructor
  case bounds => exact checkSize_trim passes.bounds
  case patterns => exact Detector.check_trim steady passes.patterns
  case lexed => exact lexed
  case operation => exact checked.operation
  case nesting =>
    rw [Nesting.check_of_isCore (ignores_of_isBlank gate) isCore]
    exact passes.nesting
  case names => exact checked.names

theorem isSteady_builtin : (Gate.ofRules Rules.builtin).detector.IsSteady := by
  decide +kernel

/-- A gate with the built-in rules accepts what it has handed on, with the same variables, and hands
it on unchanged. -/
theorem judge_accepted_document
    (judged : (Gate.ofRules Rules.builtin).judge document given = .ok accepted) :
    accepted.IsCore document ∧
      (Gate.ofRules Rules.builtin).judge accepted given = .ok accepted := by
  obtain ⟨⟨tokens, header, passes⟩, values, rfl⟩ := judge_eq_ok_iff.mp judged
  obtain ⟨others, again⟩ := passes.trim isSteady_builtin
  exact ⟨Text.isCore_trim document,
    judge_eq_ok_iff.mpr ⟨⟨others, header, again⟩, values, (Text.trim_trim document).symm⟩⟩

/-- A document that ends in a comment, with whitespace around it. -/
def commentedTotal : Text := ascii "\n\x7btotal\x7d #a \t\n"

theorem judge_accepted_document_commentedTotal :
    (Gate.ofRules Rules.builtin).judge commentedTotal (some [(ascii "limit", .int 5)]) =
        .ok (ascii "\x7btotal\x7d #a") ∧
      (ascii "\x7btotal\x7d #a").IsCore commentedTotal ∧
      (Gate.ofRules Rules.builtin).judge (ascii "\x7btotal\x7d #a") (some [(ascii "limit", .int 5)]) =
        .ok (ascii "\x7btotal\x7d #a") := by
  have judged : (Gate.ofRules Rules.builtin).judge commentedTotal (some [(ascii "limit", .int 5)]) =
      .ok (ascii "\x7btotal\x7d #a") := by decide +kernel
  exact ⟨judged, judge_accepted_document judged⟩

end QueryGate.Graphql
