import Mathlib.Data.Nat.PSub
import QueryGate.Proofs.Nesting.Check

/-! # The counters of the scan

A closing delimiter takes one from the depth of its pair, and from the total if the pair is tracked. The scan
is run once more here with a subtraction that has no result at zero, and it has its result on every code,
because the total stays the sum of the tracked depths from one pair to the next. Where one pair alone is
tracked the total is its depth, so the peak is the greatest nesting of that pair.

Nothing is assumed of the delimiters: a byte may stand for several of them.
-/

namespace QueryGate.Nesting

/-! ## A scan that fails below zero -/

/-- What a byte does to the open depth of one pair, and to the tally; nothing when a counter that is zero
would be lowered. -/
def visitPair? (b : UInt8) (pair : Delimiter) (depth : Nat) (tally : Tally) : Option (Nat × Tally) :=
  if b = pair.opening then
    some (depth + 1,
      if pair.tracked then
        { tally with tracked := tally.tracked + 1, peak := max tally.peak (tally.tracked + 1) }
      else tally)
  else if b = pair.closing then
    if depth = 0 then some (0, { tally with stray := tally.stray <|> some b })
    else do
      let depth ← depth.ppred
      if pair.tracked then
        let tracked ← tally.tracked.ppred
        return (depth, { tally with tracked })
      else return (depth, tally)
  else some (depth, tally)

/-- What a byte does to every pair in turn, if no counter that is zero would be lowered. -/
def visit? (b : UInt8) :
    List (Delimiter × Nat) → Tally → Option (List (Delimiter × Nat) × Tally)
  | [], tally => some ([], tally)
  | (pair, depth) :: pairs, tally => do
    let (depth, tally) ← visitPair? b pair depth tally
    let (pairs, tally) ← visit? b pairs tally
    return ((pair, depth) :: pairs, tally)

/-- The open depths and the tally at the end of the code, if no counter that is zero would be lowered. -/
def scan? (delimiters : List Delimiter) (code : Text) : Option (List (Delimiter × Nat) × Tally) :=
  code.foldlM (fun (pairs, tally) b => visit? b pairs tally) (delimiters.map (·, 0), {})

section Lowering

variable {b : UInt8} {pair : Delimiter} {depth : Nat} {pairs : List (Delimiter × Nat)} {tally : Tally}

theorem visitPair?_eq_some (within : pair.share depth ≤ tally.tracked) :
    visitPair? b pair depth tally = some (visitPair b pair depth tally) := by
  unfold visitPair? visitPair
  by_cases opens : b = pair.opening
  · rw [if_pos opens, if_pos opens]
  rw [if_neg opens, if_neg opens]
  by_cases closes : b = pair.closing
  · rw [if_pos closes, if_pos closes]
    cases depth with
    | zero => rfl
    | succ depth =>
        cases watched : pair.tracked with
        | false => simp
        | true =>
            rw [Delimiter.share, if_pos watched] at within
            obtain ⟨tracked, lowered⟩ := Nat.exists_eq_succ_of_ne_zero (Nat.ne_zero_of_lt within)
            simp [lowered]
  · rw [if_neg closes, if_neg closes]

/-- The pairs that are still to be visited never have more open than the total. -/
theorem visit?_eq_some (others : Nat) (counted : tally.tracked = others + total pairs) :
    visit? b pairs tally = some (visit b pairs tally) := by
  induction pairs generalizing tally others with
  | nil => rfl
  | cons head rest ih =>
      obtain ⟨pair, depth⟩ := head
      rw [total] at counted
      have before : tally.tracked = (others + total rest) + pair.share depth := by omega
      have passed : (visitPair b pair depth tally).2.tracked =
          (others + pair.share (pair.step depth b)) + total rest := by
        rw [visitPair_tracked before]
        omega
      have first : visitPair? b pair depth tally = some (visitPair b pair depth tally) :=
        visitPair?_eq_some (by omega)
      simp [visit?, visit, first, ih _ passed]

theorem scan?_eq_some (delimiters : List Delimiter) (code : Text) :
    scan? delimiters code = some (scan delimiters code) := by
  induction code using List.reverseRecOn with
  | nil => rfl
  | append_singleton code b ih =>
      have counted : (scan delimiters code).2.tracked = 0 + total (scan delimiters code).1 := by
        rw [Nat.zero_add, scan_tracked]
      unfold scan? at ih ⊢
      rw [List.foldlM_append, ih, scan_concat]
      simp [visit?_eq_some 0 counted]

end Lowering

/-! ## One tracked pair -/

section Single

variable {b : UInt8} {pair : Delimiter} {pairs : List (Delimiter × Nat)} {tally : Tally}

theorem total_filter (pairs : List (Delimiter × Nat)) :
    total (pairs.filter (·.1.tracked)) = total pairs := by
  induction pairs with
  | nil => rfl
  | cons head rest ih =>
      obtain ⟨pair, depth⟩ := head
      cases watched : pair.tracked with
      | false => simp [total, Delimiter.share, watched, ih]
      | true => simp [total, watched, ih]

theorem visitPair_of_untracked (b : UInt8) (tally : Tally) (depth : Nat) (untracked : pair.tracked = false) :
    (visitPair b pair depth tally).2.tracked = tally.tracked ∧
      (visitPair b pair depth tally).2.peak = tally.peak := by
  unfold visitPair
  split
  · simp [untracked]
  · split
    · cases depth <;> simp [untracked]
    · exact ⟨rfl, rfl⟩

theorem visit_of_untracked (b : UInt8) (tally : Tally) (untracked : pairs.filter (·.1.tracked) = []) :
    (visit b pairs tally).2.tracked = tally.tracked ∧ (visit b pairs tally).2.peak = tally.peak := by
  induction pairs generalizing tally with
  | nil => exact ⟨rfl, rfl⟩
  | cons head rest ih =>
      obtain ⟨pair, depth⟩ := head
      obtain ⟨this, others⟩ := List.forall_mem_cons.mp (List.filter_eq_nil_iff.mp untracked)
      obtain ⟨tracked, peak⟩ :=
        visitPair_of_untracked b tally depth (Bool.eq_false_iff.mpr this)
      obtain ⟨sameTracked, samePeak⟩ :=
        ih (visitPair b pair depth tally).2 (List.filter_eq_nil_iff.mpr others)
      exact ⟨sameTracked.trans tracked, samePeak.trans peak⟩

theorem visit_peak_of_single {visited : Delimiter × Nat}
    (single : pairs.filter (·.1.tracked) = [visited]) (bounded : tally.tracked ≤ tally.peak) :
    (visit b pairs tally).2.peak = max tally.peak (visit b pairs tally).2.tracked := by
  induction pairs generalizing tally with
  | nil => cases single
  | cons head rest ih =>
      obtain ⟨pair, depth⟩ := head
      cases watched : pair.tracked with
      | true =>
          simp only [List.filter_cons, watched, if_true] at single
          obtain ⟨tracked, peak⟩ :=
            visit_of_untracked b (visitPair b pair depth tally).2 (List.cons.inj single).2
          simp only [visit, tracked, peak]
          exact visitPair_peak b pair depth bounded
      | false =>
          simp only [List.filter_cons, watched, Bool.false_eq_true, if_false] at single
          obtain ⟨tracked, peak⟩ := visitPair_of_untracked b tally depth watched
          have later := @ih (visitPair b pair depth tally).2 single (by rwa [tracked, peak])
          simp only [visit, later, peak]

theorem deepen_eq {depth peak : Nat} (bounded : depth ≤ peak) :
    deepen pair.opening pair.closing (depth, peak) b =
      (pair.step depth b, max peak (pair.step depth b)) := by
  unfold deepen Delimiter.step
  split
  · rfl
  · split
    · exact Prod.ext rfl (by simp; omega)
    · exact Prod.ext rfl (Nat.max_eq_left bounded).symm

variable {delimiters : List Delimiter} (single : delimiters.filter (·.tracked) = [pair]) (code : Text)

include single

theorem scan_pairs_of_single :
    (scan delimiters code).1.filter (·.1.tracked) = [(pair, pair.depth code)] := by
  have watched : ((fun visited : Delimiter × Nat => visited.1.tracked) ∘
      fun pair : Delimiter => (pair, pair.depth code)) = (·.tracked) := rfl
  rw [scan_pairs, List.filter_map, watched, single, List.map_singleton]

theorem scan_tracked_of_single : (scan delimiters code).2.tracked = pair.depth code := by
  have watched : pair.tracked = true := (List.mem_filter.mp (single ▸ List.mem_singleton_self pair)).2
  rw [scan_tracked, ← total_filter, scan_pairs_of_single single, total, total, Delimiter.share,
    if_pos watched, Nat.add_zero]

theorem foldl_deepen_of_single :
    code.foldl (deepen pair.opening pair.closing) (0, 0) =
      (pair.depth code, (scan delimiters code).2.peak) := by
  induction code using List.reverseRecOn with
  | nil => rfl
  | append_singleton code b ih =>
      have tracked := scan_tracked_of_single single (code ++ [b])
      have bounded := scan_tracked_le_peak delimiters code
      rw [scan_concat] at tracked
      rw [List.foldl_append, ih, List.foldl_cons, List.foldl_nil, scan_concat,
        visit_peak_of_single (scan_pairs_of_single single code) bounded, tracked,
        Delimiter.depth_concat]
      exact deepen_eq (scan_tracked_of_single single code ▸ bounded)

end Single

/-! ## The counters of a check -/

/-- After every byte of code the total is the sum of the depths of the tracked pairs, and up to there no
counter was lowered when it was zero. Where one pair alone is tracked, an accepted text is reported with the
greatest nesting of that pair. -/
theorem counters_consistent (policy : Policy) (t : Text) :
    (∀ seen, seen <+: (read policy.quotes t).code →
      scan? policy.delimiters seen = some (scan policy.delimiters seen) ∧
      (scan policy.delimiters seen).2.tracked = total (scan policy.delimiters seen).1) ∧
    ∀ pair report, policy.delimiters.filter (·.tracked) = [pair] → check policy t = .ok report →
      report.maxDepth = maxNesting pair.opening pair.closing policy.quotes t := by
  refine ⟨fun seen _ => ⟨scan?_eq_some _ seen, scan_tracked _ seen⟩, ?_⟩
  intro pair report single accepted
  obtain ⟨-, -, -, -, -, rfl⟩ := check_eq_ok_iff.mp accepted
  rw [maxNesting, foldl_deepen_of_single single]

/-- Parentheses for two pairs at once, of which one is tracked, and a bar that only opens. -/
def sharedPolicy : Policy where
  delimiters := [⟨Byte.openParen, Byte.closeParen, false⟩, ⟨Byte.openParen, Byte.closeParen, true⟩,
    ⟨Byte.bar, Byte.bar, false⟩]

theorem counters_consistent_shared :
    sharedPolicy.delimiters.filter (·.tracked) = [⟨Byte.openParen, Byte.closeParen, true⟩] ∧
    check sharedPolicy (ascii "((a)(\"((\"))") = .ok ⟨2, 2⟩ ∧
    maxNesting Byte.openParen Byte.closeParen [Byte.doubleQuote] (ascii "((a)(\"((\"))") = 2 ∧
    scan? sharedPolicy.delimiters (ascii "((a)") = some (scan sharedPolicy.delimiters (ascii "((a)")) ∧
    (scan sharedPolicy.delimiters (ascii "((a)")).2.tracked = 1 := by
  have single : sharedPolicy.delimiters.filter (·.tracked) =
      [⟨Byte.openParen, Byte.closeParen, true⟩] := by decide
  have accepted : check sharedPolicy (ascii "((a)(\"((\"))") = .ok ⟨2, 2⟩ := by decide +kernel
  obtain ⟨counted, reported⟩ := counters_consistent sharedPolicy (ascii "((a)(\"((\"))")
  obtain ⟨lowered, total⟩ := counted (ascii "((a)") (by decide +kernel)
  exact ⟨single, accepted, (reported _ _ single accepted).symm, lowered, total.trans (by decide +kernel)⟩

end QueryGate.Nesting
