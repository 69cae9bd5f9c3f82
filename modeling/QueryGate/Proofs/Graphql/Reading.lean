import QueryGate.Proofs.Graphql.Nesting
import QueryGate.Proofs.Nesting.Literals

/-! # How a document is read

A document is read in pieces: whitespace, comments, tokens, and at the end perhaps a literal that is never
closed. As long as there are no comments and no block literals, and no backslash stands outside literals,
the check of nesting takes for code what the pieces have outside literals.
-/

namespace QueryGate.Graphql

open Nesting

/-- Pieces without a backslash or a hash outside literals, and without a block literal. -/
structure AllPlain (pieces : List Piece) : Prop where
  unescaping : ∀ piece ∈ pieces, piece.literal = false → Byte.backslash ∉ piece.text
  uncommented : ∀ piece ∈ pieces, piece.literal = false → Byte.hash ∉ piece.text
  unfenced : ∀ piece ∈ pieces, piece.literal = true → Quoted.fence.isPrefixOf piece.text = false

theorem AllPlain.tail {piece : Piece} {pieces : List Piece} (plain : AllPlain (piece :: pieces)) :
    AllPlain pieces where
  unescaping other member := plain.unescaping other (List.mem_cons_of_mem _ member)
  uncommented other member := plain.uncommented other (List.mem_cons_of_mem _ member)
  unfenced other member := plain.unfenced other (List.mem_cons_of_mem _ member)

/-- No backslash and no hash is read outside literals, and no block literal. -/
def ReadsPlainly (document : Text) : Prop := AllPlain (piecesFrom 0 document)

/-- Byte number `i` of the document lies in a literal. -/
def InLiteral (tokens : List Token) (i : Nat) : Prop :=
  ∃ token ∈ tokens, token.kind = .string ∧ token.offset ≤ i ∧ i < token.offset + token.text.length

instance (tokens : List Token) (i : Nat) : Decidable (InLiteral tokens i) :=
  inferInstanceAs (Decidable (∃ token ∈ tokens, _ ∧ _))

/-- Whether the tokens have byte number `i` outside literals. -/
def outsideLiterals (tokens : List Token) (i : Nat) : Bool := !decide (InLiteral tokens i)

theorem unfenced_of_prefix {s t : Text} (begins : s <+: t)
    (unfenced : Quoted.fence.isPrefixOf t = false) : Quoted.fence.isPrefixOf s = false := by
  obtain ⟨rest, rfl⟩ := begins
  refine Bool.eq_false_iff.mpr fun fenced => ?_
  rw [Quoted.isPrefixOf_append fenced] at unfenced
  cases unfenced

theorem openLiteral_of_lexeme? {c : UInt8} {rest : Text} (absent : lexeme? c rest = none)
    (unfenced : Quoted.fence.isPrefixOf (c :: rest) = false) :
    c ∈ quotes ∧ Quoted.span? c rest = none := by
  have short : Quoted.fence.isPrefixOf (c :: rest.take 2) = false :=
    unfenced_of_prefix (List.cons_prefix_cons.mpr ⟨rfl, List.take_prefix 2 rest⟩) unfenced
  unfold lexeme? at absent
  rw [if_neg (by simp [short])] at absent
  by_cases quoted : c = Byte.doubleQuote
  · rw [if_pos quoted] at absent
    exact ⟨List.mem_singleton.mpr quoted, Option.map_eq_none_iff.mp absent⟩
  · rw [if_neg quoted] at absent
    split at absent
    · cases absent
    · split at absent
      · cases absent
      · split at absent
        · cases absent
        · split at absent <;> cases absent

namespace Lexeme

variable {c : UInt8} {rest : Text} {kind : TokenKind} {n : Nat}

theorem closes_of_string (lexeme : Lexeme c rest kind n) (literal : kind = .string)
    (unfenced : Quoted.fence.isPrefixOf (c :: rest.take n) = false) :
    c ∈ quotes ∧ Quoted.span? c rest = some n := by
  cases lexeme with
  | block fenced closes =>
      have short := unfenced_of_prefix
        (List.cons_prefix_cons.mpr ⟨rfl, List.take_prefix_take_left (Nat.le_add_right 2 _)⟩) unfenced
      rw [fenced] at short
      cases short
  | literal quoted closes => exact ⟨List.mem_singleton.mpr quoted, closes⟩
  | name | parameter | number | spread => cases literal
  | single =>
      unfold singleKind at literal
      split at literal <;> cases literal

end Lexeme

namespace Reads

variable {offset : Nat} {t : Text} {pieces : List Piece} {asides : List Aside}
  {lexed : Except Rejection (List Token)} {tokens : List Token}

theorem parts (reads : Reads offset t pieces asides lexed) (plain : AllPlain pieces) :
    Parts quotes pieces lexed.isOk := by
  induction reads with
  | done => exact .done
  | @blank offset c rest pieces asides lexed blank more ih =>
      refine .plain ?_ (plain.unescaping _ List.mem_cons_self rfl) (ih plain.tail)
      simpa using not_mem_quotes_of_isBlank blank
  | comment => exact absurd List.mem_cons_self (plain.uncommented _ List.mem_cons_self rfl)
  | literal lexeme more ih =>
      obtain ⟨opens, closes⟩ :=
        lexeme.closes_of_string rfl (plain.unfenced _ List.mem_cons_self rfl)
      rw [isOk_map]
      exact .literal opens closes (ih plain.tail)
  | token lexeme unquoted more ih =>
      rw [isOk_map]
      exact .plain (lexeme.not_mem_quotes unquoted) (plain.unescaping _ List.mem_cons_self rfl)
        (ih plain.tail)
  | openLiteral absent =>
      obtain ⟨opens, stays⟩ :=
        openLiteral_of_lexeme? absent (plain.unfenced _ List.mem_cons_self rfl)
      exact .openLiteral opens stays

theorem inAside_iff (reads : Reads offset t pieces asides lexed) (plain : AllPlain pieces)
    (read : lexed = .ok tokens) (i : Nat) : InAside asides i ↔ InLiteral tokens i := by
  induction reads generalizing tokens with
  | done =>
      obtain rfl := Except.ok.inj read
      simp [InAside, InLiteral]
  | blank _ _ ih => exact ih plain.tail read
  | comment => exact absurd List.mem_cons_self (plain.uncommented _ List.mem_cons_self rfl)
  | literal _ _ ih =>
      obtain ⟨others, later, rfl⟩ := map_eq_ok_iff.mp read
      rw [inAside_cons, ih plain.tail later]
      simp only [InLiteral, List.exists_mem_cons_iff, true_and]
  | token _ unquoted _ ih =>
      obtain ⟨others, later, rfl⟩ := map_eq_ok_iff.mp read
      rw [ih plain.tail later]
      simp only [InLiteral, List.exists_mem_cons_iff, unquoted, false_and, false_or]
  | openLiteral => cases read

theorem literalAt_iff (reads : Reads offset t pieces asides lexed) (plain : AllPlain pieces)
    (read : lexed = .ok tokens) :
    ∀ i < t.length, InAside asides (offset + i) ↔ literalAt pieces i = true := by
  induction reads generalizing tokens with
  | done => exact fun i inside => absurd inside (Nat.not_lt_zero i)
  | @blank offset c rest pieces asides lexed blank more ih =>
      rw [← List.singleton_append]
      refine forall_literalAt_cons ⟨[c], false⟩ (fun i inside => ?_) (fun i inside => ?_)
      · refine iff_of_false ((more.lexed_of_ok read).not_inAside ?_) Bool.false_ne_true
        simp only [List.length_singleton] at inside
        omega
      · rw [List.length_singleton, ← Nat.add_assoc]
        exact ih plain.tail read i inside
  | comment => exact absurd List.mem_cons_self (plain.uncommented _ List.mem_cons_self rfl)
  | @literal offset c rest n pieces asides lexed lexeme more ih =>
      obtain ⟨others, later, rfl⟩ := map_eq_ok_iff.mp read
      have size : (c :: rest.take n).length = n + 1 := by simp [lexeme.length_le]
      have whole : c :: rest = (c :: rest.take n) ++ rest.drop n := by simp
      rw [whole]
      refine forall_literalAt_cons ⟨c :: rest.take n, true⟩ (fun i inside => ?_)
        (fun i inside => ?_)
      · exact iff_of_true (inAside_cons.mpr (Or.inl ⟨Nat.le_add_right _ _, Nat.add_lt_add_left inside _⟩))
          rfl
      · rw [inAside_cons, or_iff_right fun within => by have ends := within.2; dsimp only at ends; omega]
        dsimp only
        rw [size, show offset + (n + 1 + i) = offset + 1 + n + i by omega]
        exact ih plain.tail later i inside
  | @token offset c rest kind n pieces asides lexed lexeme unquoted more ih =>
      obtain ⟨others, later, rfl⟩ := map_eq_ok_iff.mp read
      have size : (c :: rest.take n).length = n + 1 := by simp [lexeme.length_le]
      have whole : c :: rest = (c :: rest.take n) ++ rest.drop n := by simp
      rw [whole]
      refine forall_literalAt_cons ⟨c :: rest.take n, false⟩ (fun i inside => ?_)
        (fun i inside => ?_)
      · refine iff_of_false ((more.lexed_of_ok later).not_inAside ?_) Bool.false_ne_true
        dsimp only at inside
        omega
      · dsimp only
        rw [size, show offset + (n + 1 + i) = offset + 1 + n + i by omega]
        exact ih plain.tail later i inside
  | openLiteral => cases read

end Reads

theorem quoting_quotes : Quoting quotes := by
  constructor <;> intro quote listed <;> obtain rfl := List.mem_singleton.mp listed <;> decide

/-- As long as there are no comments and no block literals, and no backslash stands outside literals, the
check of nesting knows the literals of a document. -/
theorem scansAgree_of_readsPlainly {document : Text} (plainly : ReadsPlainly document) :
    ScansAgree quotes pairs (·.isPunctuator Byte.openBrace) (·.isPunctuator Byte.closeBrace)
      outsideLiterals document (tokenize document) := by
  have reads : Reads 0 document (piecesFrom 0 document) (asidesFrom 0 0 document) (tokenize document) :=
    reads_tokenizeFrom 0 document
  refine scansAgree_of_parts braces reads.whole quoting_quotes (by decide) (fun code => by rfl)
    (reads.parts plainly) ?_ ?_
  · intro tokens read i inside
    have same := reads.literalAt_iff plainly read i inside
    rw [Nat.zero_add, reads.inAside_iff plainly read] at same
    simp only [outsideLiterals, same, Bool.decide_eq_true]
  · intro tokens read limit
    have outside : outsideAsides (asidesFrom 0 0 document) = outsideLiterals tokens := by
      funext i
      simp only [outsideAsides, outsideLiterals, reads.inAside_iff plainly read]
    rw [← outside]
    exact @Lexed.nestsWithin_iff _ _ _ (reads.lexed_of_ok read) braces rfl rfl limit

end QueryGate.Graphql
