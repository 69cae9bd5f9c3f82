import Mathlib.Data.List.Induction
import QueryGate.Nesting
import QueryGate.Proofs.Nesting.Balance

/-! # What the check of nesting guarantees

The scan keeps one depth for each pair of delimiters and one total for the tracked pairs. The
depth of a pair does not depend on the other pairs, and the total is the sum of the tracked
depths after every byte. As long as no closing delimiter was stray, a depth is what the pair has
opened less what it has closed, so an accepted text has balanced code.
-/

namespace QueryGate.Nesting

namespace Delimiter

/-- The open depth of a pair after one more byte of code. -/
def step (pair : Delimiter) (depth : Nat) (b : UInt8) : Nat :=
  if b = pair.opening then depth + 1
  else if b = pair.closing then depth - 1
  else depth

/-- The open depth of a pair at the end of the code. -/
def depth (pair : Delimiter) (code : Text) : Nat := code.foldl pair.step 0

/-- A byte closes the pair while nothing is open. -/
def Strays (pair : Delimiter) (depth : Nat) (b : UInt8) : Prop :=
  b ≠ pair.opening ∧ b = pair.closing ∧ depth = 0

instance (pair : Delimiter) (depth : Nat) (b : UInt8) : Decidable (pair.Strays depth b) :=
  inferInstanceAs (Decidable (_ ∧ _ ∧ _))

@[simp] theorem depth_nil (pair : Delimiter) : pair.depth [] = 0 := rfl

@[simp] theorem depth_concat (pair : Delimiter) (code : Text) (b : UInt8) :
    pair.depth (code ++ [b]) = pair.step (pair.depth code) b := by
  simp [depth, List.foldl_append]

/-- What a pair adds to the total of open tracked pairs. -/
def share (pair : Delimiter) (depth : Nat) : Nat := if pair.tracked then depth else 0

end Delimiter

/-- The total of the depths of the tracked pairs. -/
def total : List (Delimiter × Nat) → Nat
  | [] => 0
  | (pair, depth) :: rest => pair.share depth + total rest

theorem share_le_total {pair : Delimiter} {depth : Nat} {pairs : List (Delimiter × Nat)}
    (member : (pair, depth) ∈ pairs) : pair.share depth ≤ total pairs := by
  induction pairs with
  | nil => cases member
  | cons head rest ih =>
      cases member with
      | head => exact Nat.le_add_right _ _
      | tail _ later => exact Nat.le_trans (ih later) (Nat.le_add_left _ _)

theorem visitPair_depth (b : UInt8) (pair : Delimiter) (depth : Nat) (tally : Tally) :
    (visitPair b pair depth tally).1 = pair.step depth b := by
  unfold visitPair Delimiter.step
  split
  · rfl
  · split
    · cases depth <;> rfl
    · rfl

theorem visitPair_tracked {b : UInt8} {pair : Delimiter} {depth others : Nat} {tally : Tally}
    (counted : tally.tracked = others + pair.share depth) :
    (visitPair b pair depth tally).2.tracked = others + pair.share (pair.step depth b) := by
  unfold visitPair Delimiter.step
  unfold Delimiter.share at *
  cases watched : pair.tracked with
  | false =>
      simp only [watched, Bool.false_eq_true, if_false] at counted ⊢
      split
      · exact counted
      · split
        · cases depth <;> exact counted
        · exact counted
  | true =>
      simp only [watched, if_true] at counted ⊢
      split
      · simp only [counted]
        omega
      · split
        · cases depth with
          | zero => exact counted
          | succ depth =>
              simp only [counted]
              omega
        · exact counted

/-- The total of one pair more or less leaves the peak where it is or raises it to itself. -/
theorem visitPair_peak (b : UInt8) (pair : Delimiter) (depth : Nat) {tally : Tally}
    (bounded : tally.tracked ≤ tally.peak) :
    (visitPair b pair depth tally).2.peak =
      max tally.peak (visitPair b pair depth tally).2.tracked := by
  have kept : tally.peak = max tally.peak tally.tracked := (Nat.max_eq_left bounded).symm
  unfold visitPair
  split
  · cases pair.tracked with
    | false => exact kept
    | true => rfl
  · split
    · cases depth with
      | zero => exact kept
      | succ depth =>
          cases pair.tracked with
          | false => exact kept
          | true => exact (Nat.max_eq_left (Nat.le_trans (Nat.sub_le _ _) bounded)).symm
    · exact kept

theorem visitPair_stray (b : UInt8) (pair : Delimiter) (depth : Nat) (tally : Tally) :
    (visitPair b pair depth tally).2.stray =
      (tally.stray <|> if pair.Strays depth b then some b else none) := by
  unfold visitPair
  by_cases strays : pair.Strays depth b
  · rw [if_pos strays]
    obtain ⟨other, rfl, rfl⟩ := strays
    rw [if_neg other, if_pos rfl]
  · have kept : (tally.stray <|> none) = tally.stray := by cases tally.stray <;> rfl
    rw [if_neg strays, kept]
    split
    · split <;> rfl
    · next other =>
        split
        · next closes =>
            cases depth with
            | zero => exact absurd ⟨other, closes, rfl⟩ strays
            | succ depth =>
                dsimp only
                split <;> rfl
        · rfl

/-! ## One byte of code -/

theorem visit_pairs (b : UInt8) (pairs : List (Delimiter × Nat)) (tally : Tally) :
    (visit b pairs tally).1 = pairs.map fun pair => (pair.1, pair.1.step pair.2 b) := by
  induction pairs generalizing tally with
  | nil => rfl
  | cons head rest ih => simp only [visit, List.map_cons, visitPair_depth, ih]

theorem visit_tracked {b : UInt8} {pairs : List (Delimiter × Nat)} (others : Nat) {tally : Tally}
    (counted : tally.tracked = others + total pairs) :
    (visit b pairs tally).2.tracked = others + total (visit b pairs tally).1 := by
  induction pairs generalizing tally others with
  | nil => exact counted
  | cons head rest ih =>
      obtain ⟨pair, depth⟩ := head
      have before : tally.tracked = (others + total rest) + pair.share depth := by
        rw [counted, total]
        omega
      have after := visitPair_tracked (b := b) before
      have passed : (visitPair b pair depth tally).2.tracked =
          (others + pair.share (pair.step depth b)) + total rest := by
        rw [after]
        omega
      have rested := ih _ passed
      simp only [visit]
      rw [rested]
      simp only [total, visitPair_depth]
      omega

theorem visit_peak {b : UInt8} {pairs : List (Delimiter × Nat)} {tally : Tally}
    (bounded : tally.tracked ≤ tally.peak) :
    (visit b pairs tally).2.tracked ≤ (visit b pairs tally).2.peak ∧
      tally.peak ≤ (visit b pairs tally).2.peak := by
  induction pairs generalizing tally with
  | nil => exact ⟨bounded, Nat.le_refl _⟩
  | cons head rest ih =>
      obtain ⟨pair, depth⟩ := head
      have first := visitPair_peak b pair depth bounded
      have others := ih (first ▸ Nat.le_max_right _ _)
      exact ⟨others.1, Nat.le_trans (first ▸ Nat.le_max_left _ _) others.2⟩

theorem visit_stray (b : UInt8) (pairs : List (Delimiter × Nat)) (tally : Tally) :
    (visit b pairs tally).2.stray =
      (tally.stray <|> if ∃ pair ∈ pairs, pair.1.Strays pair.2 b then some b else none) := by
  induction pairs generalizing tally with
  | nil => simp [visit]
  | cons head rest ih =>
      obtain ⟨pair, depth⟩ := head
      simp only [visit, ih, visitPair_stray, List.mem_cons, exists_eq_or_imp]
      cases tally.stray with
      | some _ => rfl
      | none =>
          by_cases strays : pair.Strays depth b
          · simp [strays]
          · rw [if_neg strays]
            exact (if_congr (or_iff_right strays) rfl rfl).symm

theorem visit_clean_iff {b : UInt8} {pairs : List (Delimiter × Nat)} {tally : Tally} :
    (visit b pairs tally).2.stray = none ↔
      tally.stray = none ∧ ∀ pair ∈ pairs, ¬ pair.1.Strays pair.2 b := by
  rw [visit_stray]
  cases tally.stray <;> simp

theorem visit_of_ne {b : UInt8} {pairs : List (Delimiter × Nat)} (tally : Tally)
    (other : ∀ pair ∈ pairs, b ≠ pair.1.opening ∧ b ≠ pair.1.closing) :
    visit b pairs tally = (pairs, tally) := by
  induction pairs generalizing tally with
  | nil => rfl
  | cons head pairs ih =>
      obtain ⟨pair, depth⟩ := head
      obtain ⟨notOpening, notClosing⟩ := other (pair, depth) List.mem_cons_self
      have rest := ih tally fun pair member => other pair (List.mem_cons_of_mem _ member)
      simp only [visit, visitPair, if_neg notOpening, if_neg notClosing, rest]

/-! ## The whole code -/

section Scan

variable (delimiters : List Delimiter)

theorem scan_concat (code : Text) (b : UInt8) :
    scan delimiters (code ++ [b]) =
      visit b (scan delimiters code).1 (scan delimiters code).2 := by
  simp [scan, List.foldl_append]

theorem scan_pairs (code : Text) :
    (scan delimiters code).1 = delimiters.map fun pair => (pair, pair.depth code) := by
  induction code using List.reverseRecOn with
  | nil => rfl
  | append_singleton code b ih =>
      rw [scan_concat, visit_pairs, ih, List.map_map]
      simp

/-- After every byte of code the total is the sum of the depths of the tracked pairs. -/
theorem scan_tracked (code : Text) :
    (scan delimiters code).2.tracked = total (scan delimiters code).1 := by
  induction code using List.reverseRecOn with
  | nil =>
      have none_open : ∀ pairs : List Delimiter, total (pairs.map (·, 0)) = 0 := by
        intro pairs
        induction pairs with
        | nil => rfl
        | cons pair rest ih =>
            simpa [total, Delimiter.share] using ih
      exact (none_open delimiters).symm
  | append_singleton code b ih =>
      rw [scan_concat]
      simpa using visit_tracked (b := b) 0 (by simpa using ih)

theorem scan_tracked_le_peak (code : Text) :
    (scan delimiters code).2.tracked ≤ (scan delimiters code).2.peak := by
  induction code using List.reverseRecOn with
  | nil => exact Nat.le_refl _
  | append_singleton code b ih =>
      rw [scan_concat]
      exact (visit_peak ih).1

variable {delimiters}

theorem scan_peak_mono {start code : Text} (begins : start <+: code) :
    (scan delimiters start).2.peak ≤ (scan delimiters code).2.peak := by
  induction code using List.reverseRecOn with
  | nil => exact Nat.le_of_eq (by rw [List.prefix_nil.mp begins])
  | append_singleton code b ih =>
      rcases List.prefix_concat_iff.mp begins with rfl | within
      · exact Nat.le_refl _
      · rw [scan_concat]
        exact Nat.le_trans (ih within) (visit_peak (scan_tracked_le_peak delimiters code)).2

/-- As long as nothing was stray, a pair has opened what it has closed and what is still
open. -/
theorem depth_add_closed {pair : Delimiter} (member : pair ∈ delimiters)
    (distinct : pair.opening ≠ pair.closing) {code : Text}
    (clean : (scan delimiters code).2.stray = none) :
    pair.depth code + code.count pair.closing = code.count pair.opening := by
  induction code using List.reverseRecOn with
  | nil => rfl
  | append_singleton code b ih =>
      rw [scan_concat] at clean
      obtain ⟨before, unstray⟩ := visit_clean_iff.mp clean
      have held := ih before
      have kept : ¬ pair.Strays (pair.depth code) b := by
        refine unstray (pair, pair.depth code) ?_
        rw [scan_pairs]
        exact List.mem_map_of_mem member
      simp only [Delimiter.depth_concat, Delimiter.step, List.count_append, List.count_singleton,
        beq_iff_eq]
      by_cases opens : b = pair.opening
      · have other : b ≠ pair.closing := fun closes => distinct (opens.symm.trans closes)
        rw [if_pos opens, if_pos opens, if_neg other]
        omega
      · rw [if_neg opens, if_neg opens]
        by_cases closes : b = pair.closing
        · have positive : pair.depth code ≠ 0 := fun empty => kept ⟨opens, closes, empty⟩
          rw [if_pos closes, if_pos closes]
          omega
        · rw [if_neg closes, if_neg closes]
          exact held

theorem clean_beginning {start code : Text} (begins : start <+: code)
    (clean : (scan delimiters code).2.stray = none) :
    (scan delimiters start).2.stray = none := by
  induction code using List.reverseRecOn with
  | nil =>
      rw [List.prefix_nil.mp begins]
      exact clean
  | append_singleton code b ih =>
      rcases List.prefix_concat_iff.mp begins with rfl | within
      · exact clean
      · rw [scan_concat] at clean
        exact ih within (visit_clean_iff.mp clean).1

theorem depth_le_peak {pair : Delimiter} (member : pair ∈ delimiters)
    (tracked : pair.tracked = true) (code : Text) :
    pair.depth code ≤ (scan delimiters code).2.peak := by
  have listed : (pair, pair.depth code) ∈ (scan delimiters code).1 := by
    rw [scan_pairs]
    exact List.mem_map.mpr ⟨pair, member, rfl⟩
  calc
    pair.depth code = pair.share (pair.depth code) := by simp [Delimiter.share, tracked]
    _ ≤ total (scan delimiters code).1 := share_le_total listed
    _ = (scan delimiters code).2.tracked := (scan_tracked delimiters code).symm
    _ ≤ (scan delimiters code).2.peak := scan_tracked_le_peak delimiters code

end Scan

/-! ## The check -/

section Check

variable {policy : Policy} {t : Text} {report : Report}

theorem check_eq_ok_iff :
    check policy t = .ok report ↔
      countQuotes t % 2 = 0 ∧ (read policy.quotes t).closed = true ∧
      (scan policy.delimiters (read policy.quotes t).code).2.stray = none ∧
      (∀ pair ∈ policy.delimiters, pair.depth (read policy.quotes t).code = 0) ∧
      (scan policy.delimiters (read policy.quotes t).code).2.peak ≤ policy.maxDepth ∧
      report = ⟨countQuotes t, (scan policy.delimiters (read policy.quotes t).code).2.peak⟩ := by
  have settled :
      (scan policy.delimiters (read policy.quotes t).code).1.find? (fun pair => pair.2 ≠ 0) = none ↔
        ∀ pair ∈ policy.delimiters, pair.depth (read policy.quotes t).code = 0 := by
    rw [scan_pairs]
    simp
  rw [← settled]
  unfold check
  by_cases even : countQuotes t % 2 = 0
  · cases closed : (read policy.quotes t).closed with
    | false => simp [even, closed]
    | true =>
        cases stray : (scan policy.delimiters (read policy.quotes t).code).2.stray with
        | some closing => simp [even, closed, stray]
        | none =>
            cases missing : (scan policy.delimiters (read policy.quotes t).code).1.find?
                (fun pair => pair.2 ≠ 0) with
            | some pair => simp only [even, closed, stray, missing, ne_eq, not_true_eq_false,
                if_false, Bool.true_eq_false, reduceCtorEq, false_and, and_false]
            | none =>
                simp only [even, closed, stray, missing, ne_eq, not_true_eq_false, if_false,
                  Bool.true_eq_false, true_and]
                by_cases deep :
                    (scan policy.delimiters (read policy.quotes t).code).2.peak > policy.maxDepth
                · simp [deep, Nat.not_le.mpr deep]
                · simp [deep, Nat.not_lt.mp deep, eq_comm]
  · simp [even]

theorem code_of_check {rejection : Rejection} (refused : check policy t = .error rejection) :
    rejection.code ∈ [.unbalancedQuotes, .unbalancedDelimiters, .nestingTooDeep] := by
  unfold check at refused
  dsimp only at refused
  split at refused
  · cases refused
    simp [Rejection.code]
  split at refused
  · cases refused
    simp [Rejection.code]
  split at refused
  · cases refused
    simp [Rejection.code]
  split at refused
  · cases refused
    simp [Rejection.code]
  split at refused
  · cases refused
    simp [Rejection.code]
  · cases refused

variable (accepted : check policy t = .ok report)

include accepted

theorem check_of_deeper {depth : Nat} (deeper : policy.maxDepth ≤ depth) :
    check { policy with maxDepth := depth } t = .ok report := by
  rw [check_eq_ok_iff] at accepted ⊢
  obtain ⟨even, closed, clean, settled, bounded, reported⟩ := accepted
  exact ⟨even, closed, clean, settled, Nat.le_trans bounded deeper, reported⟩

theorem balanced_of_check {pair : Delimiter} (member : pair ∈ policy.delimiters)
    (distinct : pair.opening ≠ pair.closing) :
    Balanced (· == pair.opening) (· == pair.closing) (read policy.quotes t).code := by
  obtain ⟨-, -, clean, settled, -⟩ := check_eq_ok_iff.mp accepted
  refine ⟨fun start begins => ?_, ?_⟩
  · have held := depth_add_closed member distinct (clean_beginning begins clean)
    simp only [← List.count_eq_countP]
    omega
  · have held := depth_add_closed member distinct clean
    rw [settled pair member] at held
    simp only [← List.count_eq_countP]
    omega

theorem nestsWithin_of_check {pair : Delimiter} (member : pair ∈ policy.delimiters)
    (distinct : pair.opening ≠ pair.closing) (tracked : pair.tracked = true) :
    NestsWithin (· == pair.opening) (· == pair.closing) policy.maxDepth
      (read policy.quotes t).code := by
  obtain ⟨-, -, clean, -, bounded, -⟩ := check_eq_ok_iff.mp accepted
  intro start begins
  have held := depth_add_closed member distinct (clean_beginning begins clean)
  have deep := calc
    pair.depth start ≤ (scan policy.delimiters start).2.peak := depth_le_peak member tracked start
    _ ≤ (scan policy.delimiters (read policy.quotes t).code).2.peak := scan_peak_mono begins
    _ ≤ policy.maxDepth := bounded
  simp only [← List.count_eq_countP]
  omega

end Check

end QueryGate.Nesting
