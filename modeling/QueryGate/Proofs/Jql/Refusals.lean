import QueryGate.Proofs.Jql.Fields
import QueryGate.Proofs.Jql.Lexing
import QueryGate.Proofs.Nesting.Check

/-! # What a refused query has come to

Each check refuses with codes of its own. A query that is refused for a field, a function or a
reserved word has therefore passed every check before that one, and what refused it are its tokens.
-/

namespace QueryGate.Jql

/-- The checks of tokens refuse these tokens, and the first that does gives the reason. -/
inductive TokensRefuse (rules : Rules) (tokens : List Token) (rejection : Rejection) : Prop where
  | fields (refused : checkFields rules tokens = .error rejection) :
      TokensRefuse rules tokens rejection
  | functions (fields : checkFields rules tokens = .ok ())
      (refused : checkFunctions rules tokens = .error rejection) :
      TokensRefuse rules tokens rejection
  | sqlWords (fields : checkFields rules tokens = .ok ())
      (functions : checkFunctions rules tokens = .ok ())
      (refused : checkSqlWords rules tokens = .error rejection) :
      TokensRefuse rules tokens rejection

/-- The codes of the refusals that are due to tokens. -/
def tokenCodes : List RejectionCode := [.unknownField, .unknownFunction, .sqlKeywordNotAllowed]

/-! ## The codes of each check -/

section Codes

variable {gate : Gate} {rules : Rules} {query t : Text} {tokens : List Token} {rejection : Rejection}

theorem code_of_tokenizeFrom {keywords : NameSet} {offset taken : Nat}
    (refused : tokenizeFrom keywords offset taken t = .error rejection) :
    rejection.code = .unbalancedQuotes := by
  induction t generalizing offset taken with
  | nil => cases refused
  | cons c rest ih =>
      cases taken with
      | succ taken => exact ih refused
      | zero =>
          cases blank : Byte.isBlank c with
          | true =>
              rw [tokenizeFrom_of_blank blank] at refused
              exact ih refused
          | false =>
              cases found : lexeme? keywords c rest with
              | none =>
                  rw [tokenizeFrom_of_open blank found] at refused
                  cases refused
                  rfl
              | some lexeme =>
                  rw [tokenizeFrom_of_lexeme blank found, map_eq_error_iff] at refused
                  exact ih refused

theorem code_of_fields (refused : checkFields rules tokens = .error rejection) :
    rejection.code = .unknownField := by
  obtain ⟨i, -, -, rfl⟩ := (checkFields_eq_error_iff rules tokens rejection).mp refused
  rfl

theorem code_of_functions (refused : checkFunctions rules tokens = .error rejection) :
    rejection.code = .unknownFunction := by
  induction tokens with
  | nil => cases refused
  | cons token rest ih =>
      rw [checkFunctions] at refused
      split at refused
      · cases refused
        rfl
      · exact ih refused

theorem code_of_sqlWords (refused : checkSqlWords rules tokens = .error rejection) :
    rejection.code = .sqlKeywordNotAllowed := by
  induction tokens with
  | nil => cases refused
  | cons token rest ih =>
      rw [checkSqlWords] at refused
      split at refused
      · cases refused
        rfl
      · exact ih refused

end Codes

/-! ## Refused tokens -/

section Refused

variable {gate : Gate} {query : Text} {tokens : List Token} {rejection : Rejection}

theorem tokensRefuse_of_judge (refused : gate.judge query = .error rejection)
    (named : rejection.code ∈ tokenCodes) :
    ∃ tokens, tokenize gate.rules.keywords query = .ok tokens ∧
      TokensRefuse gate.rules tokens rejection := by
  have other : ∀ codes : List RejectionCode, (∀ code ∈ codes, code ∉ tokenCodes) →
      rejection.code ∉ codes := fun codes apart listed => apart _ listed named
  unfold Gate.judge at refused
  simp only [bind_eq_error_iff] at refused
  rcases refused with
    bounds | ⟨_, _, patterns | ⟨_, _, nesting | ⟨_, _, unread | ⟨tokens, lexed, refused⟩⟩⟩⟩
  · exact absurd (code_of_checkSize bounds) (other _ (by decide))
  · rw [Detector.code_of_check patterns] at named
    exact absurd named (by decide)
  · exact absurd (Nesting.code_of_check nesting) (other _ (by decide))
  · rw [code_of_tokenizeFrom unread] at named
    exact absurd named (by decide)
  refine ⟨tokens, lexed, ?_⟩
  rcases refused with refused | ⟨_, fields, refused | ⟨_, functions, refused | ⟨_, _, passes⟩⟩⟩
  · exact .fields refused
  · exact .functions fields refused
  · exact .sqlWords fields functions refused
  · cases passes

namespace TokensRefuse

variable {rules : Rules} (refuse : TokensRefuse rules tokens rejection)

include refuse

theorem fields_of_code (code : rejection.code = .unknownField) :
    checkFields rules tokens = .error rejection := by
  cases refuse with
  | fields refused => exact refused
  | functions _ refused => exact absurd ((code_of_functions refused).symm.trans code) (by decide)
  | sqlWords _ _ refused => exact absurd ((code_of_sqlWords refused).symm.trans code) (by decide)

theorem functions_of_code (code : rejection.code = .unknownFunction) :
    checkFunctions rules tokens = .error rejection := by
  cases refuse with
  | fields refused => exact absurd ((code_of_fields refused).symm.trans code) (by decide)
  | functions _ refused => exact refused
  | sqlWords _ _ refused => exact absurd ((code_of_sqlWords refused).symm.trans code) (by decide)

theorem sqlWords_of_code (code : rejection.code = .sqlKeywordNotAllowed) :
    checkSqlWords rules tokens = .error rejection := by
  cases refuse with
  | fields refused => exact absurd ((code_of_fields refused).symm.trans code) (by decide)
  | functions _ refused => exact absurd ((code_of_functions refused).symm.trans code) (by decide)
  | sqlWords _ _ refused => exact refused

end TokensRefuse

end Refused

end QueryGate.Jql
