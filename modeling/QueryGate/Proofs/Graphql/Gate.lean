import QueryGate.Graphql.Gate
import QueryGate.Proofs.Screening
import QueryGate.Proofs.Steps

/-! # What an accepted document has passed -/

namespace QueryGate.Graphql

/-- A document with these tokens passes every check of a gate but that of its variables. -/
structure Gate.Passes (gate : Gate) (document : Text) (tokens : List Token) (header : Header) :
    Prop where
  bounds : gate.checkBounds document = .ok ()
  patterns : gate.checkPatterns document = .ok ()
  lexed : tokenize document = .ok tokens
  operation : detectOperation tokens = .ok header
  nesting : ∃ report, Nesting.check gate.nesting document = .ok report
  names : checkNames gate.rules header.kind tokens = .ok ()

/-- The variables pass their check, if there are any. -/
def Gate.PassesVariables (gate : Gate) (given : Option Variables) : Prop :=
  ∀ values ∈ given, checkVariables gate.rules gate.detector values = .ok ()

theorem judge_eq_ok_iff {gate : Gate} {document accepted : Text} {given : Option Variables} :
    gate.judge document given = .ok accepted ↔
      (∃ tokens header, gate.Passes document tokens header) ∧ gate.PassesVariables given ∧
        accepted = document.trim := by
  unfold Gate.judge Gate.PassesVariables
  simp only [bind_eq_ok_iff]
  constructor
  · rintro ⟨_, bounds, _, patterns, tokens, lexed, header, operation, report, nesting, _, names,
      finish⟩
    refine ⟨⟨tokens, header, bounds, patterns, lexed, operation, ⟨report, nesting⟩, names⟩, ?_⟩
    cases given with
    | none => exact ⟨by simp, (Except.ok.inj finish).symm⟩
    | some values =>
        obtain ⟨_, checked, same⟩ := bind_eq_ok_iff.mp finish
        exact ⟨by simpa using checked, (Except.ok.inj same).symm⟩
  · rintro ⟨⟨tokens, header, bounds, patterns, lexed, operation, ⟨report, nesting⟩, names⟩,
      checked, rfl⟩
    refine ⟨(), bounds, (), patterns, tokens, lexed, header, operation, report, nesting, (), names,
      ?_⟩
    cases given with
    | none => rfl
    | some values => exact bind_eq_ok_iff.mpr ⟨(), checked values rfl, rfl⟩

section Refused

variable {gate : Gate} {document : Text} {given : Option Variables} {rejection : Rejection}

theorem judge_of_bounds (refused : gate.checkBounds document = .error rejection) :
    gate.judge document given = .error rejection := by
  rw [Gate.judge, refused]
  rfl

theorem judge_of_patterns (bounds : gate.checkBounds document = .ok ())
    (refused : gate.checkPatterns document = .error rejection) :
    gate.judge document given = .error rejection := by
  rw [Gate.judge, bounds, refused]
  rfl

end Refused

end QueryGate.Graphql
