import QueryGate.Text

/-! # Texts in pieces

A lexer reads a text in pieces, and sets the literals among them apart from all others.
-/

namespace QueryGate

/-- A piece of a text: a literal, or bytes outside literals. -/
structure Piece where
  text : Text
  literal : Bool
  deriving Repr, DecidableEq

/-- The text that the pieces make up. -/
def wholeOf (pieces : List Piece) : Text := pieces.flatMap Piece.text

/-- Whether byte number `i` of the text that the pieces make up lies in a literal. -/
def literalAt : List Piece → Nat → Bool
  | [], _ => false
  | piece :: pieces, i =>
    if i < piece.text.length then piece.literal else literalAt pieces (i - piece.text.length)

@[simp] theorem wholeOf_nil : wholeOf [] = [] := rfl

@[simp] theorem wholeOf_cons (piece : Piece) (pieces : List Piece) :
    wholeOf (piece :: pieces) = piece.text ++ wholeOf pieces := rfl

section Literals

variable {piece : Piece} {pieces : List Piece}

theorem literalAt_left {i : Nat} (inside : i < piece.text.length) :
    literalAt (piece :: pieces) i = piece.literal := if_pos inside

theorem literalAt_right (piece : Piece) (i : Nat) :
    literalAt (piece :: pieces) (piece.text.length + i) = literalAt pieces i := by
  rw [literalAt, if_neg (by omega), Nat.add_sub_cancel_left]

theorem forall_literalAt_cons (piece : Piece) {t : Text} {expected : Nat → Prop}
    (first : ∀ i < piece.text.length, expected i ↔ piece.literal = true)
    (later : ∀ i < t.length, expected (piece.text.length + i) ↔ literalAt pieces i = true) :
    ∀ i < (piece.text ++ t).length, expected i ↔ literalAt (piece :: pieces) i = true := by
  intro i inside
  by_cases early : i < piece.text.length
  · rw [literalAt_left early]
    exact first i early
  · obtain ⟨j, rfl⟩ : ∃ j, i = piece.text.length + j := ⟨i - piece.text.length, by omega⟩
    rw [literalAt_right]
    exact later j (by simpa using inside)

end Literals

end QueryGate
