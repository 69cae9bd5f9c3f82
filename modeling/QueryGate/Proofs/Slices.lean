import Mathlib.Data.List.TakeWhile
import QueryGate.Text

/-! # What a lexer reads and what it leaves out

A lexer cuts a text into slices, which become tokens, and gaps, which become nothing. From a cut it is
seen that nothing is lost: the slices lie in order, no byte lies in two of them, and every byte outside
them lies in a gap.

The texts of the slices can be put together again with a space between any two. A reader that reads each of
the tokens from its text, as long as only a space follows, reads them all again.
-/

namespace QueryGate

/-- A piece of a text, and where it starts. -/
structure Slice where
  text : Text
  offset : Nat
  deriving Repr, DecidableEq

/-- The slice has byte number `i` of the text. -/
def Slice.Holds (slice : Slice) (i : Nat) : Prop :=
  slice.offset ≤ i ∧ i < slice.offset + slice.text.length

instance (slice : Slice) (i : Nat) : Decidable (slice.Holds i) :=
  inferInstanceAs (Decidable (_ ∧ _))

section Notions

/- Whether a piece may be a gap depends on the piece and on what follows it. -/
variable (isGap : Text → Text → Prop)

/-- A text that starts at an offset is cut into slices and gaps. -/
inductive Cut : Nat → Text → List Slice → Prop where
  | done {offset} : Cut offset [] []
  | gap {offset piece rest slices} (skipped : isGap piece rest)
      (more : Cut (offset + piece.length) rest slices) : Cut offset (piece ++ rest) slices
  | slice {offset piece rest slices} (visible : piece ≠ [])
      (more : Cut (offset + piece.length) rest slices) :
      Cut offset (piece ++ rest) (⟨piece, offset⟩ :: slices)

/-- Byte number `i` of a text that starts at an offset lies in a gap, and no slice has any byte of the
gap. -/
def InGap (offset : Nat) (t : Text) (slices : List Slice) (i : Nat) : Prop :=
  ∃ before piece after, t = before ++ (piece ++ after) ∧ isGap piece after ∧
    (before.length ≤ i ∧ i < before.length + piece.length) ∧
    ∀ j, before.length ≤ j → j < before.length + piece.length →
      ∀ slice ∈ slices, ¬ slice.Holds (offset + j)

/-- The slices of a text leave out nothing but its gaps. -/
structure Lossless (t : Text) (slices : List Slice) : Prop where
  increasing : slices.Pairwise fun first second => first.offset < second.offset
  apart : slices.Pairwise fun first second => first.offset + first.text.length ≤ second.offset
  stands : ∀ slice ∈ slices, (t.drop slice.offset).take slice.text.length = slice.text
  covered : ∀ i < t.length, (∃ slice ∈ slices, slice.Holds i) ∨ InGap isGap 0 t slices i

end Notions

variable {isGap : Text → Text → Prop} {offset : Nat} {t : Text} {slices : List Slice}

theorem InGap.behind {piece rest : Text} {others : List Slice} {i : Nat}
    (inGap : InGap isGap (offset + piece.length) rest slices i)
    (early : ∀ slice ∈ others, slice ∈ slices ∨
      slice.offset + slice.text.length ≤ offset + piece.length) :
    InGap isGap offset (piece ++ rest) others (piece.length + i) := by
  obtain ⟨before, gap, after, rfl, skipped, within, free⟩ := inGap
  refine ⟨piece ++ before, gap, after, by simp, skipped, ?_, ?_⟩
  · simp only [List.length_append]
    omega
  · intro j starts ends slice member holds
    simp only [List.length_append] at starts ends
    rcases early slice member with later | ended
    · have elsewhere := free (j - piece.length) (by omega) (by omega) slice later
      rw [show offset + piece.length + (j - piece.length) = offset + j by omega] at elsewhere
      exact elsewhere holds
    · have reaches := holds.2
      omega

namespace Cut

theorem offset_le (cut : Cut isGap offset t slices) : ∀ slice ∈ slices, offset ≤ slice.offset := by
  induction cut with
  | done => simp
  | gap _ _ ih =>
      intro slice member
      have later := ih slice member
      omega
  | slice _ _ ih =>
      intro slice member
      rcases List.mem_cons.mp member with rfl | member
      · exact Nat.le_refl _
      · have later := ih slice member
        omega

theorem visible (cut : Cut isGap offset t slices) : ∀ slice ∈ slices, slice.text ≠ [] := by
  induction cut with
  | done => simp
  | gap _ _ ih => exact ih
  | slice visible _ ih => exact List.forall_mem_cons.mpr ⟨visible, ih⟩

theorem apart (cut : Cut isGap offset t slices) :
    slices.Pairwise fun first second => first.offset + first.text.length ≤ second.offset := by
  induction cut with
  | done => exact .nil
  | gap _ _ ih => exact ih
  | slice _ more ih => exact .cons more.offset_le ih

theorem increasing (cut : Cut isGap offset t slices) :
    slices.Pairwise fun first second => first.offset < second.offset := by
  refine cut.apart.imp_of_mem fun {first second} member _ ends => ?_
  have shown := List.length_pos_iff.mpr (cut.visible first member)
  omega

theorem stands (cut : Cut isGap offset t slices) {before : Text} (starts : before.length = offset) :
    ∀ slice ∈ slices, ((before ++ t).drop slice.offset).take slice.text.length = slice.text := by
  induction cut generalizing before with
  | done => simp
  | @gap offset piece rest slices _ _ ih =>
      rw [← List.append_assoc]
      exact ih (by rw [List.length_append, starts])
  | @slice offset piece rest slices _ _ ih =>
      intro slice member
      rcases List.mem_cons.mp member with rfl | member
      · rw [← starts, List.drop_left, List.take_left]
      · rw [← List.append_assoc]
        exact ih (by rw [List.length_append, starts]) slice member

theorem covered (cut : Cut isGap offset t slices) {i : Nat} (inside : i < t.length) :
    (∃ slice ∈ slices, slice.Holds (offset + i)) ∨ InGap isGap offset t slices i := by
  induction cut generalizing i with
  | done => simp at inside
  | @gap offset piece rest slices skipped more ih =>
      by_cases early : i < piece.length
      · refine Or.inr ⟨[], piece, rest, rfl, skipped, by simpa using early, ?_⟩
        intro j _ within slice member holds
        have later := more.offset_le slice member
        have before := holds.1
        simp only [List.length_nil, Nat.zero_add] at within
        omega
      · obtain ⟨k, rfl⟩ : ∃ k, i = piece.length + k := ⟨i - piece.length, by omega⟩
        rw [← Nat.add_assoc]
        rcases ih (by simpa using inside) with held | inGap
        · exact Or.inl held
        · exact Or.inr (inGap.behind fun slice member => Or.inl member)
  | @slice offset piece rest slices visible more ih =>
      by_cases early : i < piece.length
      · exact Or.inl ⟨_, List.mem_cons_self, Nat.le_add_right _ _, Nat.add_lt_add_left early _⟩
      · obtain ⟨k, rfl⟩ : ∃ k, i = piece.length + k := ⟨i - piece.length, by omega⟩
        rw [← Nat.add_assoc]
        rcases ih (by simpa using inside) with ⟨slice, member, holds⟩ | inGap
        · exact Or.inl ⟨slice, List.mem_cons_of_mem _ member, holds⟩
        · refine Or.inr (inGap.behind fun slice member => ?_)
          rcases List.mem_cons.mp member with rfl | member
          · exact Or.inr (Nat.le_refl _)
          · exact Or.inl member

/-- A text that is cut from its beginning loses nothing. -/
theorem lossless (cut : Cut isGap 0 t slices) : Lossless isGap t slices where
  increasing := cut.increasing
  apart := cut.apart
  stands := cut.stands (List.length_nil)
  covered i inside := by
    have found := cut.covered inside
    rwa [Nat.zero_add] at found

end Cut

/-! ## Runs -/

section Runs

variable (p : UInt8 → Bool) (t : Text)

theorem take_length_takeWhile : t.take (t.takeWhile p).length = t.takeWhile p :=
  (List.prefix_iff_eq_take.mp (List.takeWhile_prefix p)).symm

theorem drop_length_takeWhile : t.drop (t.takeWhile p).length = t.dropWhile p := by
  rw [← List.append_right_inj (t.takeWhile p), List.takeWhile_append_dropWhile]
  exact (congrArg (· ++ _) (take_length_takeWhile p t).symm).trans (List.take_append_drop _ _)

end Runs

/-! ## Texts with spaces between them -/

/-- The texts in their order, with one space between any two. -/
def spaced (texts : List Text) : Text := [Byte.space].intercalate texts

/-- The texts, each with a space in front. -/
def behindSpaces (texts : List Text) : Text := texts.flatMap (Byte.space :: ·)

theorem spaced_cons (t : Text) (texts : List Text) :
    spaced (t :: texts) = t ++ behindSpaces texts := by
  induction texts generalizing t with
  | nil => simp [spaced, behindSpaces, List.intercalate]
  | cons other texts ih =>
      rw [behindSpaces, List.flatMap_cons, List.cons_append, ← behindSpaces, ← ih other]
      simp [spaced, List.intercalate, List.intersperse]

/-! ## Reading them again -/

section Readers

variable {ε Token : Type} {tokens : List Token}

/-- A reader of texts from an offset reads each of the tokens from its text, when nothing follows or a
space, and passes over spaces. -/
structure ReadsAlone (read : Nat → Text → Except ε (List Token)) (textOf : Token → Text)
    (place : Nat → Token → Token) (tokens : List Token) : Prop where
  done : ∀ offset, read offset [] = .ok []
  space : ∀ offset t, read offset (Byte.space :: t) = read (offset + 1) t
  token : ∀ token ∈ tokens, ∀ offset texts,
    read offset (textOf token ++ behindSpaces texts) =
      (read (offset + (textOf token).length) (behindSpaces texts)).map (place offset token :: ·)
  placed : ∀ offset token, place 0 (place offset token) = place 0 token

namespace ReadsAlone

variable {read : Nat → Text → Except ε (List Token)} {textOf : Token → Text}
  {place : Nat → Token → Token}

theorem tail {token : Token} (reads : ReadsAlone read textOf place (token :: tokens)) :
    ReadsAlone read textOf place tokens where
  done := reads.done
  space := reads.space
  token other member := reads.token other (List.mem_cons_of_mem token member)
  placed := reads.placed

theorem behindSpaces_ok (reads : ReadsAlone read textOf place tokens) (offset : Nat) :
    ∃ others, read offset (behindSpaces (tokens.map textOf)) = .ok others ∧
      others.map (place 0) = tokens.map (place 0) := by
  induction tokens generalizing offset with
  | nil => exact ⟨[], reads.done offset, rfl⟩
  | cons token tokens ih =>
      obtain ⟨others, again, same⟩ := ih reads.tail (offset + 1 + (textOf token).length)
      refine ⟨place (offset + 1) token :: others, ?_, by simp [same, reads.placed]⟩
      have first := reads.token token List.mem_cons_self (offset + 1) (tokens.map textOf)
      rw [again] at first
      exact (reads.space offset _).trans first

/-- The tokens are read again from their texts with spaces between them. -/
theorem spaced_ok (reads : ReadsAlone read textOf place tokens) :
    ∃ others, read 0 (spaced (tokens.map textOf)) = .ok others ∧
      others.map (place 0) = tokens.map (place 0) := by
  cases tokens with
  | nil => exact ⟨[], reads.done 0, rfl⟩
  | cons token tokens =>
      obtain ⟨others, again, same⟩ := reads.tail.behindSpaces_ok (0 + (textOf token).length)
      refine ⟨place 0 token :: others, ?_, by simp [same, reads.placed]⟩
      have first := reads.token token List.mem_cons_self 0 (tokens.map textOf)
      rw [again] at first
      rw [List.map_cons, spaced_cons]
      exact first

end ReadsAlone

end Readers

end QueryGate
