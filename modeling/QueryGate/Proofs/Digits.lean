import Mathlib.Algebra.Group.Nat.Defs
import Mathlib.Data.List.Induction
import QueryGate.Document.Scalar

/-! # Decimal digits

The digits that a number is written with: they are digits, they have the number for their value, and
the first of several is not zero. So many digits stand for no more numbers than there are.
-/

namespace QueryGate.Text

theorem decimal_of_lt {n : Nat} (small : n < 10) :
    ∃ digit, decimal n = [digit] ∧ Byte.isDigit digit = true ∧ Byte.hexValue digit = n := by
  have each : ∀ d < 10, Byte.isDigit (Nat.digitChar d).toUInt8 = true ∧
      Byte.hexValue (Nat.digitChar d).toUInt8 = d := by decide
  exact ⟨(Nat.digitChar n).toUInt8, by rw [decimal, Nat.toDigits_of_lt_base small]; rfl, each n small⟩

theorem decimal_append {n d : Nat} (positive : 0 < n) (small : d < 10) :
    decimal (10 * n + d) = decimal n ++ decimal d := by
  rw [decimal, ← Nat.toDigits_append_toDigits (by decide) positive small, List.map_append]
  rfl

theorem isDigit_of_mem_decimal {n : Nat} : ∀ b ∈ decimal n, Byte.isDigit b = true := by
  induction n using Nat.base_induction 10 (by decide) with
  | single d small =>
      obtain ⟨digit, written, isDigit, -⟩ := decimal_of_lt small
      simpa [written] using isDigit
  | digit n d small positive ih =>
      obtain ⟨digit, written, isDigit, -⟩ := decimal_of_lt small
      rw [decimal_append positive small, written]
      exact List.forall_mem_append.mpr ⟨ih, by simpa using isDigit⟩

theorem digitsValue_decimal (n : Nat) : Document.digitsValue 10 (decimal n) = n := by
  induction n using Nat.base_induction 10 (by decide) with
  | single d small =>
      obtain ⟨digit, written, -, value⟩ := decimal_of_lt small
      simp [written, Document.digitsValue, value]
  | digit n d small positive ih =>
      obtain ⟨digit, written, -, value⟩ := decimal_of_lt small
      rw [decimal_append positive small, written]
      unfold Document.digitsValue at ih ⊢
      rw [List.foldl_append, ih, List.foldl_cons, List.foldl_nil, value, Nat.mul_comm]

theorem decimal_ne_nil (n : Nat) : decimal n ≠ [] := by
  simp [decimal]

theorem head?_decimal {n : Nat} (positive : 0 < n) : (decimal n).head? ≠ some Byte.zero := by
  induction n using Nat.base_induction 10 (by decide) with
  | single d small =>
      obtain ⟨digit, written, -, value⟩ := decimal_of_lt small
      rw [written]
      rintro same
      obtain rfl := Option.some.inj same
      exact Nat.ne_of_lt positive value
  | digit n d small above ih =>
      have begins := ih above
      obtain ⟨first, rest, written⟩ := List.exists_cons_of_ne_nil (decimal_ne_nil n)
      rw [written] at begins
      rw [decimal_append above small, written]
      exact begins

/-! ## Values -/

theorem digitsValue_concat (base : Nat) (digits : Text) (b : UInt8) :
    Document.digitsValue base (digits ++ [b]) =
      Document.digitsValue base digits * base + Byte.hexValue b := by
  simp [Document.digitsValue, List.foldl_append]

theorem hexValue_lt_of_isDigit : ∀ b, Byte.isDigit b = true → Byte.hexValue b < 10 := by
  decide +kernel

theorem digitsValue_lt {digits : Text} (decimal : ∀ b ∈ digits, Byte.isDigit b = true) :
    Document.digitsValue 10 digits < 10 ^ digits.length := by
  induction digits using List.reverseRecOn with
  | nil => decide
  | append_singleton digits b ih =>
      obtain ⟨others, last⟩ := List.forall_mem_append.mp decimal
      have below := ih others
      have small := hexValue_lt_of_isDigit b (last b List.mem_cons_self)
      rw [digitsValue_concat, List.length_append, List.length_singleton, Nat.pow_succ]
      omega

theorem digitsValue_cons (base : Nat) (b : UInt8) (digits : Text) :
    Document.digitsValue base (b :: digits) =
      Byte.hexValue b * base ^ digits.length + Document.digitsValue base digits := by
  induction digits using List.reverseRecOn with
  | nil => simp [Document.digitsValue]
  | append_singleton digits last ih =>
      rw [← List.cons_append, digitsValue_concat, ih, digitsValue_concat, List.length_append,
        List.length_singleton, Nat.pow_succ, Nat.add_mul, Nat.mul_assoc, Nat.add_assoc]

theorem toNat_of_isDigit : ∀ b, Byte.isDigit b = true → b.toNat = Byte.hexValue b + 0x30 := by
  decide +kernel

theorem append_lt_of_digitsValue_lt {s t : Text} (digits : ∀ b ∈ s, Byte.isDigit b = true)
    (digits' : ∀ b ∈ t, Byte.isDigit b = true) (places : s.length = t.length)
    (less : Document.digitsValue 10 s < Document.digitsValue 10 t) (u v : Text) : s ++ u < t ++ v := by
  induction s generalizing t with
  | nil =>
      obtain rfl := List.length_eq_zero_iff.mp places.symm
      exact absurd less (Nat.lt_irrefl _)
  | cons a s ih =>
      obtain ⟨b, t, rfl⟩ := List.exists_cons_of_length_eq_add_one places.symm
      obtain ⟨first, rest⟩ := List.forall_mem_cons.mp digits
      obtain ⟨first', rest'⟩ := List.forall_mem_cons.mp digits'
      have places_rest := Nat.succ.inj places
      have below := digitsValue_lt rest'
      rw [digitsValue_cons, digitsValue_cons, places_rest] at less
      have value := toNat_of_isDigit a first
      have value' := toNat_of_isDigit b first'
      rw [List.cons_append, List.cons_append, List.cons_lt_cons_iff]
      obtain smaller | same | greater := Nat.lt_trichotomy (Byte.hexValue a) (Byte.hexValue b)
      · exact .inl (UInt8.lt_iff_toNat_lt.mpr (by omega))
      · refine .inr ⟨UInt8.toNat_inj.mp (by omega), ih rest rest' places_rest ?_⟩
        rw [same] at less
        exact Nat.lt_of_add_lt_add_left less
      · -- a greater first digit is worth more than everything after it
        have worth : (Byte.hexValue b + 1) * 10 ^ t.length ≤ Byte.hexValue a * 10 ^ t.length :=
          Nat.mul_le_mul_right _ greater
        rw [Nat.add_mul] at worth
        omega

end QueryGate.Text
