import QueryGate.Proofs.Jql.Nesting
import QueryGate.Proofs.Nesting.Literals

/-! # How a query is read

A query is read in pieces: whitespace, tokens, and at the end perhaps a literal that is never closed. As
long as no backslash stands outside literals, the check of nesting takes for code what the pieces have
outside literals.
-/

namespace QueryGate.Jql

open Nesting

/-- No backslash is read outside literals. -/
def ReadsPlainly (keywords : NameSet) (query : Text) : Prop :=
  ∀ piece ∈ piecesFrom keywords 0 query, piece.literal = false → Byte.backslash ∉ piece.text

instance (keywords : NameSet) (query : Text) : Decidable (ReadsPlainly keywords query) :=
  inferInstanceAs (Decidable (∀ piece ∈ _, _ → _))

theorem openLiteral_of_lexeme? {keywords : NameSet} {c : UInt8} {rest : Text}
    (absent : lexeme? keywords c rest = none) : c ∈ quotes ∧ Quoted.span? c rest = none := by
  rw [mem_quotes_iff]
  unfold lexeme? at absent
  by_cases quoted : c = Byte.doubleQuote ∨ c = Byte.singleQuote
  · rw [if_pos quoted] at absent
    exact ⟨quoted, Option.map_eq_none_iff.mp absent⟩
  · rw [if_neg quoted] at absent
    split at absent
    · cases absent
    · split at absent
      · cases absent
      · split at absent
        · cases absent
        · split at absent <;> cases absent

namespace Reads

variable {keywords : NameSet} {offset : Nat} {t : Text} {pieces : List Piece}
  {lexed : Except Rejection (List Token)} {tokens : List Token}

theorem parts (reads : Reads keywords offset t pieces lexed)
    (plainly : ∀ piece ∈ pieces, piece.literal = false → Byte.backslash ∉ piece.text) :
    Parts quotes pieces lexed.isOk := by
  induction reads with
  | done => exact .done
  | @blank offset c rest pieces lexed blank more ih =>
      obtain ⟨first, later⟩ := List.forall_mem_cons.mp plainly
      refine .plain ?_ (first rfl) (ih later)
      simpa using not_mem_quotes_of_isBlank blank
  | @token offset c rest kind n pieces lexed visible lexeme more ih =>
      obtain ⟨first, later⟩ := List.forall_mem_cons.mp plainly
      have rested := ih later
      rw [isOk_map]
      by_cases literal : kind = .string
      · obtain ⟨quoted, closes⟩ := lexeme.closes_of_string literal
        rw [literal]
        exact .literal (mem_quotes_iff.mpr quoted) closes rested
      · have bare : (kind == .string) = false := beq_false_of_ne literal
        rw [bare] at first ⊢
        exact .plain (lexeme.not_mem_quotes literal) (first rfl) rested
  | openLiteral absent =>
      obtain ⟨opens, stays⟩ := openLiteral_of_lexeme? absent
      exact .openLiteral opens stays

theorem inLiteral_iff (reads : Reads keywords offset t pieces lexed) (read : lexed = .ok tokens) :
    ∀ i < t.length, InLiteral tokens (offset + i) ↔ literalAt pieces i = true := by
  induction reads generalizing tokens with
  | done => exact fun i inside => absurd inside (Nat.not_lt_zero i)
  | @blank offset c rest pieces lexed blank more ih =>
      rw [← List.singleton_append]
      refine forall_literalAt_cons ⟨[c], false⟩ (fun i inside => ?_) (fun i inside => ?_)
      · refine iff_of_false ((more.lexed_of_ok read).not_inLiteral ?_) Bool.false_ne_true
        simp only [List.length_singleton] at inside
        omega
      · rw [List.length_singleton, ← Nat.add_assoc]
        exact ih read i inside
  | @token offset c rest kind n pieces lexed visible lexeme more ih =>
      obtain ⟨others, later, rfl⟩ := map_eq_ok_iff.mp read
      have size : (c :: rest.take n).length = n + 1 := by simp [lexeme.length_le]
      have rested := more.lexed_of_ok later
      have whole : c :: rest = (c :: rest.take n) ++ rest.drop n := by simp
      rw [whole]
      refine forall_literalAt_cons ⟨c :: rest.take n, kind == .string⟩ (fun i inside => ?_)
        (fun i inside => ?_)
      · rw [beq_iff_eq]
        constructor
        · rintro ⟨token, member, literal, covers⟩
          rcases List.mem_cons.mp member with rfl | after
          · exact literal
          · have starts := rested.offset_le token after
            have begins := covers.1
            dsimp only at inside
            omega
        · intro literal
          exact ⟨_, List.mem_cons_self, literal, Nat.le_add_right _ _, Nat.add_lt_add_left inside _⟩
      · rw [inLiteral_cons]
        · dsimp only
          rw [size, show offset + (n + 1 + i) = offset + 1 + n + i by omega]
          exact ih later i inside
        · intro _ covers
          have ends := covers.2
          dsimp only at ends
          omega
  | openLiteral => cases read

end Reads

theorem quoting_quotes : Quoting quotes := by
  constructor <;> intro quote listed <;> rcases mem_quotes_iff.mp listed with rfl | rfl <;> decide

/-- As long as no backslash stands outside literals, the check of nesting knows the literals of a query. -/
theorem scansAgree_of_readsPlainly {keywords : NameSet} {query : Text}
    (plainly : ReadsPlainly keywords query) :
    ScansAgree quotes [parentheses] (·.kind == .opening) (·.kind == .closing) outsideLiterals query
      (tokenize keywords query) := by
  have reads : Reads keywords 0 query (piecesFrom keywords 0 query) (tokenize keywords query) :=
    reads_tokenizeFrom keywords 0 query
  refine scansAgree_of_parts parentheses reads.whole quoting_quotes (by decide) (fun code => by rfl)
    (reads.parts plainly) ?_ ?_
  · intro tokens read i inside
    have same := reads.inLiteral_iff read i inside
    rw [Nat.zero_add] at same
    simp only [outsideLiterals, same, Bool.decide_eq_true]
  · intro tokens read limit
    exact (reads.lexed_of_ok read).nestsWithin_iff

end QueryGate.Jql
