import QueryGate.Proofs.Graphql.Gate
import QueryGate.Proofs.Graphql.Lexing
import QueryGate.Proofs.Graphql.Values
import QueryGate.Proofs.Graphql.Walk
import QueryGate.Proofs.Nesting.Check

/-! # What a refused document has come to

A name that may not stand where it stands has a code of its own. A document that is refused with it
has therefore passed every check before that of its names.
-/

namespace QueryGate.Graphql

section Codes

variable {gate : Gate} {document t : Text} {tokens : List Token} {rejection : Rejection}

theorem code_of_tokenizeFrom {offset taken : Nat}
    (refused : tokenizeFrom offset taken t = .error rejection) :
    rejection.code = .unbalancedQuotes := by
  induction t generalizing offset taken with
  | nil => cases refused
  | cons c rest ih =>
      cases taken with
      | succ taken => exact ih refused
      | zero =>
          cases blank : Byte.isBlank c with
          | true =>
              rw [tokenizeFrom_of_blank blank] at refused
              exact ih refused
          | false =>
              by_cases comments : c = Byte.hash
              · subst comments
                rw [tokenizeFrom_of_hash] at refused
                exact ih refused
              cases found : lexeme? c rest with
              | none =>
                  rw [tokenizeFrom_of_open blank comments found] at refused
                  cases refused
                  rfl
              | some lexeme =>
                  rw [tokenizeFrom_of_lexeme blank comments found, map_eq_error_iff] at refused
                  exact ih refused

/-- What comes before and after the check of names refuses with other codes. -/
theorem names_refused_of_judge {given : Option Variables}
    (refused : gate.judge document given = .error rejection)
    (named : rejection.code = .unknownField) :
    ∃ tokens header, tokenize document = .ok tokens ∧ detectOperation tokens = .ok header ∧
      checkNames gate.rules header.kind tokens = .error rejection := by
  have other : ∀ codes : List RejectionCode, .unknownField ∉ codes → rejection.code ∉ codes :=
    fun codes apart => named ▸ apart
  unfold Gate.judge at refused
  simp only [bind_eq_error_iff] at refused
  rcases refused with bounds | ⟨_, _, patterns | ⟨_, _, unread | ⟨tokens, lexed, refused⟩⟩⟩
  · exact absurd (code_of_checkSize bounds) (other _ (by decide))
  · exact absurd ((Detector.code_of_check patterns).symm.trans named) (by decide)
  · exact absurd ((code_of_tokenizeFrom unread).symm.trans named) (by decide)
  rcases refused with stray | ⟨header, operation, nesting | ⟨_, _, names | ⟨_, _, refused⟩⟩⟩
  · exact absurd (code_of_walk stray) (other _ (by decide))
  · exact absurd (Nesting.code_of_check nesting) (other _ (by decide))
  · exact ⟨tokens, header, lexed, operation, names⟩
  · cases given with
    | none => cases refused
    | some values =>
        rcases bind_eq_error_iff.mp refused with oversized | ⟨_, _, passes⟩
        · exact absurd (code_of_checkVariables oversized) (other _ (by decide))
        · cases passes

end Codes

end QueryGate.Graphql
