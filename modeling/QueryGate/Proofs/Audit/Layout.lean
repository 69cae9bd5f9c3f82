import Mathlib.Data.List.Forall2
import QueryGate.Audit.Instant
import QueryGate.Proofs.Digits

/-! # Numbers of fixed width

A text of a fixed layout has its numbers one after the other, each with its number of digits and with one
byte behind it. Such a text can be read back, and the texts of one layout are in the order of their numbers.
-/

namespace QueryGate.Audit

open Document (digitsValue)

/-- So many digits that stand for a number. -/
structure Numeral (width n : Nat) (digits : Text) : Prop where
  length : digits.length = width
  isDigit : ∀ b ∈ digits, Byte.isDigit b = true
  value : digitsValue 10 digits = n

theorem numeral_padded {width n : Nat} (positive : 0 < width) (small : n < 10 ^ width) :
    Numeral width n (padded width (Text.decimal n)) := by
  have short : (Text.decimal n).length ≤ width := by
    rw [Text.decimal, List.length_map]
    exact (Nat.length_toDigits_le_iff (by decide) positive).mpr small
  have zeros (count : Nat) : digitsValue 10 (List.replicate count Byte.zero ++ Text.decimal n) = n := by
    induction count with
    | zero => exact Text.digitsValue_decimal n
    | succ count ih =>
        have worthless : Byte.hexValue Byte.zero = 0 := rfl
        rw [List.replicate_succ, List.cons_append, Text.digitsValue_cons, ih, worthless, Nat.zero_mul,
          Nat.zero_add]
  refine ⟨?_, ?_, zeros _⟩
  · rw [padded, List.length_append, List.length_replicate]
    omega
  · rw [padded]
    refine List.forall_mem_append.mpr ⟨fun b member => ?_, Text.isDigit_of_mem_decimal⟩
    rw [List.eq_of_mem_replicate member]
    rfl

/-- The width of each number, and the byte behind it. -/
abbrev Layout := List (Nat × UInt8)

/-- The letters that stand for the digits of a date and of a time. -/
def isNumberLetter (b : UInt8) : Bool := ascii "YMDhms" |>.contains b

/-- A text has a form when it has a digit for each such letter of it, and its other bytes themselves. -/
def Follows (form text : Text) : Prop :=
  List.Forall₂ (fun mark b => if isNumberLetter mark then Byte.isDigit b = true else b = mark) form text

namespace Layout

def render : Layout → List Nat → Text
  | (width, mark) :: layout, n :: numbers => padded width (Text.decimal n) ++ mark :: render layout numbers
  | _, _ => []

/-- The numbers of a text that has nothing but the layout. -/
def read? : Layout → Text → Option (List Nat)
  | [], [] => some []
  | [], _ :: _ => none
  | (width, mark) :: layout, text =>
      let digits := text.take width
      if digits.length = width ∧ digits.all Byte.isDigit = true ∧ text[width]? = some mark then
        (read? layout (text.drop (width + 1))).map (digitsValue 10 digits :: ·)
      else none

/-- Each number has digits enough. -/
abbrev Fits (layout : Layout) (numbers : List Nat) : Prop :=
  List.Forall₂ (fun part n => 0 < part.1 ∧ n < 10 ^ part.1) layout numbers

variable {layout : Layout} {numbers numbers' : List Nat}

/-- The form of a layout: for each number its letter, as often as it has digits, and the byte behind it. -/
def form : Layout → List UInt8 → Text
  | (width, mark) :: layout, letter :: letters => List.replicate width letter ++ mark :: form layout letters
  | _, _ => []

theorem follows_render {letters : List UInt8} (fits : Fits layout numbers)
    (marked : List.Forall₂ (fun part letter => isNumberLetter letter = true ∧ isNumberLetter part.2 = false)
      layout letters) :
    Follows (layout.form letters) (render layout numbers) := by
  induction fits generalizing letters with
  | nil => exact .nil
  | @cons part n layout numbers room fits ih =>
      cases marked with
      | @cons _ letter _ letters marked rest =>
          obtain ⟨length, isDigit, -⟩ := numeral_padded room.1 room.2
          have other : ¬ isNumberLetter part.2 = true := Bool.eq_false_iff.mp marked.2
          refine List.rel_append (List.forall₂_iff_get.mpr ⟨?_, fun i inside inside' => ?_⟩)
            (.cons (by rw [if_neg other]) (ih rest))
          · rw [List.length_replicate, length]
          · rw [List.get_eq_getElem, List.getElem_replicate, if_pos marked.1]
            exact isDigit _ (List.get_mem _ _)

theorem read?_render (fits : Fits layout numbers) : read? layout (render layout numbers) = some numbers := by
  induction fits with
  | nil => rfl
  | @cons part n layout numbers room fits ih =>
      obtain ⟨width, mark⟩ := part
      obtain ⟨length, isDigit, value⟩ := numeral_padded room.1 room.2
      rw [render]
      generalize padded width (Text.decimal n) = digits at length isDigit value ⊢
      have taken : (digits ++ mark :: render layout numbers).take width = digits := List.take_left' length
      have dropped : (digits ++ mark :: render layout numbers).drop width = mark :: render layout numbers :=
        List.drop_left' length
      have behind : (digits ++ mark :: render layout numbers)[width]? = some mark := by
        rw [← List.head?_drop, dropped, List.head?_cons]
      rw [read?, taken, if_pos ⟨length, List.all_eq_true.mpr isDigit, behind⟩, ← List.drop_drop, dropped,
        List.drop_one, List.tail_cons, ih, value]
      rfl

theorem render_lt (fits : Fits layout numbers) (fits' : Fits layout numbers') (less : numbers < numbers') :
    render layout numbers < render layout numbers' := by
  induction fits generalizing numbers' with
  | nil =>
      cases fits'
      exact absurd less (List.lt_irrefl _)
  | @cons part n layout numbers room fits ih =>
      cases fits' with
      | @cons _ n' _ numbers' room' fits' =>
          have digits := numeral_padded room.1 room.2
          have digits' := numeral_padded room'.1 room'.2
          rw [render, render]
          rcases List.cons_lt_cons_iff.mp less with smaller | ⟨rfl, rest⟩
          · refine Text.append_lt_of_digitsValue_lt digits.isDigit digits'.isDigit ?_ ?_ _ _
            · rw [digits.length, digits'.length]
            · rwa [digits.value, digits'.value]
          · exact List.append_left_lt (List.cons_lt_cons_self.mpr (ih fits' rest))

end Layout

end QueryGate.Audit
