import QueryGate.Proofs.Nesting.Check
import QueryGate.Proofs.Nesting.Division

/-! # The verdict on a text

The check keeps one depth for each pair of delimiters, the total of the tracked ones with its peak, and the
first closing delimiter that came too early. When no byte stands for two delimiters, all of this is seen
from counts: how often the beginnings of the code open and close each pair. The verdict is stated in
terms of these counts, and every text has exactly one.
-/

namespace QueryGate.Nesting

/-- No byte stands for two delimiters. -/
def DistinctBytes (delimiters : List Delimiter) : Prop :=
  (delimiters.flatMap fun pair => [pair.opening, pair.closing]).Nodup

instance (delimiters : List Delimiter) : Decidable (DistinctBytes delimiters) :=
  inferInstanceAs (Decidable (List.Nodup _))

/-- No beginning of the code closes more of a pair than it opens. -/
def Covered (delimiters : List Delimiter) (code : Text) : Prop :=
  ∀ pair ∈ delimiters, ∀ start, start <+: code →
    start.count pair.closing ≤ start.count pair.opening

/-- How many of the tracked pairs the code leaves open. -/
def openTracked (delimiters : List Delimiter) (code : Text) : Nat :=
  total (delimiters.map fun pair => (pair, code.count pair.opening - code.count pair.closing))

/-- The most tracked pairs that a beginning of the code leaves open. -/
def deepest (delimiters : List Delimiter) (code : Text) : Nat := peakOf (openTracked delimiters) code

/-- What stands in the code of a pair's own bytes is a balanced word. -/
def Delimiter.Balances (pair : Delimiter) (code : Text) : Prop :=
  Balanced (· == pair.opening) (· == pair.closing)
    (code.filter fun b => b == pair.opening || b == pair.closing)

/-- The quotes of a text come in pairs, and its last region is closed. -/
structure QuotesPass (t : Text) (reading : Reading) : Prop where
  even : evenQuotes t % 2 = 0
  closed : reading.closed = true

/-- The verdict on a text that is divided into code and regions. -/
inductive Decides (policy : Policy) (t : Text) (reading : Reading) : Except Rejection Report → Prop where
  | oddQuotes (odd : evenQuotes t % 2 = 1) :
      Decides policy t reading (.error (.oddQuotes (evenQuotes t)))
  | openRegion (even : evenQuotes t % 2 = 0) (unclosed : reading.closed = false) :
      Decides policy t reading (.error .openRegion)
  | strayClose {before pair after} (pass : QuotesPass t reading)
      (whole : reading.code = before ++ pair.closing :: after) (listed : pair ∈ policy.delimiters)
      (covered : Covered policy.delimiters before)
      (exhausted : before.count pair.closing = before.count pair.opening) :
      Decides policy t reading (.error (.strayClose pair.closing))
  | missingClose {first pair last} (pass : QuotesPass t reading)
      (covered : Covered policy.delimiters reading.code)
      (order : policy.delimiters = first ++ pair :: last)
      (settled : ∀ other ∈ first, reading.code.count other.closing = reading.code.count other.opening)
      (left : reading.code.count pair.closing < reading.code.count pair.opening) :
      Decides policy t reading (.error (.missingClose pair.opening pair.closing))
  | tooDeep (pass : QuotesPass t reading)
      (balanced : ∀ pair ∈ policy.delimiters, pair.Balances reading.code)
      (deep : policy.maxDepth < deepest policy.delimiters reading.code) :
      Decides policy t reading
        (.error (.tooDeep policy.maxDepth (deepest policy.delimiters reading.code)))
  | accepted (pass : QuotesPass t reading)
      (balanced : ∀ pair ∈ policy.delimiters, pair.Balances reading.code)
      (shallow : deepest policy.delimiters reading.code ≤ policy.maxDepth) :
      Decides policy t reading (.ok ⟨evenQuotes t, deepest policy.delimiters reading.code⟩)

section Delimiters

variable {delimiters rest : List Delimiter} {pair : Delimiter} {code before after : Text} {b : UInt8}

theorem DistinctBytes.tail (distinct : DistinctBytes (pair :: rest)) : DistinctBytes rest := by
  rw [DistinctBytes, List.flatMap_cons] at distinct
  exact (List.nodup_append.mp distinct).2.1

theorem DistinctBytes.others (distinct : DistinctBytes (pair :: rest))
    (own : b = pair.opening ∨ b = pair.closing) {other : Delimiter} (member : other ∈ rest) :
    b ≠ other.opening ∧ b ≠ other.closing := by
  rw [DistinctBytes, List.flatMap_cons] at distinct
  have apart := (List.nodup_append.mp distinct).2.2 b (by simpa using own)
  exact ⟨apart _ (List.mem_flatMap.mpr ⟨other, member, by simp⟩),
    apart _ (List.mem_flatMap.mpr ⟨other, member, by simp⟩)⟩

theorem DistinctBytes.opening_ne (distinct : DistinctBytes delimiters) (member : pair ∈ delimiters) :
    pair.opening ≠ pair.closing := by
  induction delimiters with
  | nil => cases member
  | cons head rest ih =>
      rcases List.mem_cons.mp member with rfl | later
      · rw [DistinctBytes, List.flatMap_cons] at distinct
        simpa using (List.nodup_append.mp distinct).1
      · exact ih distinct.tail later

theorem balances_iff :
    pair.Balances code ↔ Balanced (· == pair.opening) (· == pair.closing) code :=
  balanced_filter _ (fun _ opens => by simp [beq_iff_eq.mp opens])
    fun _ closes => by simp [beq_iff_eq.mp closes]

theorem covered_of_balances (balanced : ∀ pair ∈ delimiters, pair.Balances code) :
    Covered delimiters code := by
  intro pair member start begins
  have covered := (balances_iff.mp (balanced pair member)).covered start begins
  rwa [← List.count_eq_countP, ← List.count_eq_countP] at covered

theorem balances_of_covered (covered : Covered delimiters code) (member : pair ∈ delimiters)
    (settled : code.count pair.closing = code.count pair.opening) : pair.Balances code := by
  refine balances_iff.mpr ⟨fun start begins => ?_, ?_⟩
  · rw [← List.count_eq_countP, ← List.count_eq_countP]
    exact covered pair member start begins
  · rwa [← List.count_eq_countP, ← List.count_eq_countP]

theorem exists_stray (uncovered : ¬ Covered delimiters code) :
    ∃ before pair after, code = before ++ pair.closing :: after ∧ pair ∈ delimiters ∧
      Covered delimiters before ∧ before.count pair.closing = before.count pair.opening := by
  induction code using List.reverseRecOn with
  | nil =>
      refine absurd (fun pair _ start begins => ?_) uncovered
      rw [List.prefix_nil.mp begins, List.count_nil, List.count_nil]
  | append_singleton code b ih =>
      by_cases covered : Covered delimiters code
      · simp only [Covered, not_forall, Nat.not_le] at uncovered
        obtain ⟨pair, member, start, begins, more⟩ := uncovered
        rcases List.prefix_concat_iff.mp begins with rfl | within
        · have held := covered pair member code (List.prefix_refl code)
          simp only [List.count_append, List.count_singleton, beq_iff_eq] at more
          by_cases closes : b = pair.closing
          · subst closes
            refine ⟨code, pair, [], rfl, member, covered, ?_⟩
            rw [if_pos rfl] at more
            omega
          · rw [if_neg closes] at more
            omega
        · exact absurd (covered pair member start within) (Nat.not_le.mpr more)
      · obtain ⟨before, pair, after, rfl, found⟩ := ih covered
        exact ⟨before, pair, after ++ [b], by simp, found⟩

end Delimiters

section Scan

variable {delimiters : List Delimiter} {pair : Delimiter} {code start : Text} {b : UInt8}
  {pairs : List (Delimiter × Nat)} {tally : Tally}

theorem scan_stray_of_beginning (begins : start <+: code)
    (stray : (scan delimiters start).2.stray = some b) :
    (scan delimiters code).2.stray = some b := by
  induction code using List.reverseRecOn with
  | nil => rwa [List.prefix_nil.mp begins] at stray
  | append_singleton code c ih =>
      rcases List.prefix_concat_iff.mp begins with rfl | within
      · exact stray
      · rw [scan_concat, visit_stray, ih within]
        rfl

/-- One byte changes at most one pair, so the total passes no value but the one it ends with. -/
theorem visit_peak_eq (distinct : DistinctBytes (pairs.map Prod.fst))
    (bounded : tally.tracked ≤ tally.peak) :
    (visit b pairs tally).2.peak = max tally.peak (visit b pairs tally).2.tracked := by
  induction pairs generalizing tally with
  | nil => exact (Nat.max_eq_left bounded).symm
  | cons head rest ih =>
      obtain ⟨pair, depth⟩ := head
      by_cases own : b = pair.opening ∨ b = pair.closing
      · have others : ∀ other ∈ rest, b ≠ other.1.opening ∧ b ≠ other.1.closing := fun other member =>
          distinct.others own (List.mem_map_of_mem member)
        simp only [visit, visit_of_ne _ others]
        exact visitPair_peak b pair depth bounded
      · obtain ⟨notOpening, notClosing⟩ := not_or.mp own
        simp only [visit, visitPair, if_neg notOpening, if_neg notClosing]
        exact ih distinct.tail bounded

variable (distinct : DistinctBytes delimiters)

include distinct

theorem clean_iff_covered :
    (scan delimiters code).2.stray = none ↔ Covered delimiters code := by
  constructor
  · intro clean pair member start begins
    have held := depth_add_closed member (distinct.opening_ne member) (clean_beginning begins clean)
    omega
  · intro covered
    induction code using List.reverseRecOn with
    | nil => rfl
    | append_singleton code b ih =>
        have before := ih fun pair member start begins =>
          covered pair member start (begins.trans (List.prefix_append code [b]))
        rw [scan_concat, visit_clean_iff]
        refine ⟨before, fun visited member => ?_⟩
        rw [scan_pairs] at member
        obtain ⟨pair, listed, rfl⟩ := List.mem_map.mp member
        rintro ⟨notOpening, rfl, empty⟩
        have held := depth_add_closed listed (distinct.opening_ne listed) before
        have more := covered pair listed _ (List.prefix_refl _)
        simp only [List.count_append, List.count_singleton, beq_self_eq_true, beq_iff_eq,
          if_neg notOpening, if_true] at more
        dsimp only at empty
        omega

theorem depth_eq (covered : Covered delimiters code) (member : pair ∈ delimiters) :
    pair.depth code = code.count pair.opening - code.count pair.closing := by
  have held := depth_add_closed member (distinct.opening_ne member)
    ((clean_iff_covered distinct).mpr covered)
  omega

theorem scan_tracked_eq (covered : Covered delimiters code) :
    (scan delimiters code).2.tracked = openTracked delimiters code := by
  rw [scan_tracked, scan_pairs, openTracked]
  refine congrArg total (List.map_congr_left fun pair member => ?_)
  rw [depth_eq distinct covered member]

theorem scan_peak_eq (covered : Covered delimiters code) :
    (scan delimiters code).2.peak = deepest delimiters code := by
  induction code using List.reverseRecOn with
  | nil =>
      rw [deepest, peakOf_nil, ← scan_tracked_eq distinct covered]
      rfl
  | append_singleton code b ih =>
      have before : Covered delimiters code := fun pair member start begins =>
        covered pair member start (begins.trans (List.prefix_append code [b]))
      have listed : ((scan delimiters code).1).map Prod.fst = delimiters := by
        rw [scan_pairs, List.map_map]
        exact List.map_id delimiters
      have tracked := scan_tracked_eq distinct covered
      rw [scan_concat] at tracked ⊢
      rw [visit_peak_eq (listed.symm ▸ distinct) (scan_tracked_le_peak delimiters code), ih before,
        tracked, deepest, deepest, peakOf_concat]

end Scan

/-! ## The verdict -/

section Verdict

variable {policy : Policy} {t : Text} {outcome : Except Rejection Report}

theorem exists_decides (policy : Policy) (t : Text) (reading : Reading) :
    ∃ outcome, Decides policy t reading outcome := by
  by_cases odd : evenQuotes t % 2 = 1
  · exact ⟨_, .oddQuotes odd⟩
  have even : evenQuotes t % 2 = 0 := by omega
  cases closed : reading.closed with
  | false => exact ⟨_, .openRegion even closed⟩
  | true =>
      have pass : QuotesPass t reading := ⟨even, closed⟩
      by_cases covered : Covered policy.delimiters reading.code
      · cases missing : policy.delimiters.find? fun pair =>
            reading.code.count pair.closing ≠ reading.code.count pair.opening with
        | some pair =>
            obtain ⟨unsettled, first, last, order, settled⟩ :=
              List.find?_eq_some_iff_append.mp missing
            have listed : pair ∈ policy.delimiters := by simp [order]
            have held := covered pair listed _ (List.prefix_refl _)
            have left : reading.code.count pair.closing < reading.code.count pair.opening :=
              Nat.lt_of_le_of_ne held (of_decide_eq_true unsettled)
            exact ⟨_, .missingClose pass covered order (by simpa using settled) left⟩
        | none =>
            have balanced : ∀ pair ∈ policy.delimiters, pair.Balances reading.code := by
              intro pair member
              exact balances_of_covered covered member
                (by simpa using List.find?_eq_none.mp missing pair member)
            by_cases shallow : deepest policy.delimiters reading.code ≤ policy.maxDepth
            · exact ⟨_, .accepted pass balanced shallow⟩
            · exact ⟨_, .tooDeep pass balanced (Nat.not_le.mp shallow)⟩
      · obtain ⟨before, pair, after, whole, listed, first, exhausted⟩ := exists_stray covered
        exact ⟨_, .strayClose pass whole listed first exhausted⟩

section Due

variable {code : Text} (distinct : DistinctBytes policy.delimiters)
  (covered : Covered policy.delimiters code)

include distinct covered

theorem scan_missing {first last : List Delimiter} {pair : Delimiter}
    (order : policy.delimiters = first ++ pair :: last)
    (settled : ∀ other ∈ first, code.count other.closing = code.count other.opening)
    (left : code.count pair.closing < code.count pair.opening) :
    (scan policy.delimiters code).1.find? (fun pair => pair.2 ≠ 0) = some (pair, pair.depth code) := by
  have depth : ∀ {pair}, pair ∈ policy.delimiters →
      pair.depth code = code.count pair.opening - code.count pair.closing := depth_eq distinct covered
  rw [scan_pairs, List.find?_eq_some_iff_append]
  refine ⟨?_, first.map fun pair => (pair, pair.depth code),
    last.map fun pair => (pair, pair.depth code), by rw [order, List.map_append, List.map_cons], ?_⟩
  · rw [depth (by simp [order])]
    simpa using Nat.sub_ne_zero_of_lt left
  · intro visited member
    obtain ⟨other, among, rfl⟩ := List.mem_map.mp member
    rw [depth (by simp [order, among]), settled other among, Nat.sub_self]
    rfl

theorem scan_settled (settled : ∀ pair ∈ policy.delimiters, pair.Balances code) :
    ∀ pair ∈ policy.delimiters, pair.depth code = 0 := by
  intro pair member
  have balanced := (balances_iff.mp (settled pair member)).settled
  rw [← List.count_eq_countP, ← List.count_eq_countP] at balanced
  rw [depth_eq distinct covered member, balanced, Nat.sub_self]

end Due

theorem check_of_decides (distinct : DistinctBytes policy.delimiters)
    (decides : Decides policy t (read policy.quotes t) outcome) : check policy t = outcome := by
  cases decides with
  | oddQuotes odd => simp [check, countQuotes_eq_evenQuotes, odd]
  | openRegion even unclosed => simp [check, countQuotes_eq_evenQuotes, even, unclosed]
  | @strayClose before pair after pass whole listed covered exhausted =>
      have clean := (clean_iff_covered distinct).mpr covered
      have other : pair.closing ≠ pair.opening := (distinct.opening_ne listed).symm
      have empty : pair.depth before = 0 := by
        rw [depth_eq distinct covered listed, exhausted, Nat.sub_self]
      have strays : ∃ visited ∈ (scan policy.delimiters before).1,
          visited.1.Strays visited.2 pair.closing := by
        rw [scan_pairs]
        exact ⟨_, List.mem_map_of_mem listed, other, rfl, empty⟩
      have first : (scan policy.delimiters (before ++ [pair.closing])).2.stray = some pair.closing := by
        rw [scan_concat, visit_stray, clean, if_pos strays]
        rfl
      have begins : before ++ [pair.closing] <+: (read policy.quotes t).code :=
        ⟨after, by rw [whole, List.append_assoc]; rfl⟩
      have stray := scan_stray_of_beginning begins first
      simp [check, countQuotes_eq_evenQuotes, pass.even, pass.closed, stray]
  | missingClose pass covered order settled left =>
      have clean := (clean_iff_covered distinct).mpr covered
      have missing := scan_missing distinct covered order settled left
      simp only [check, countQuotes_eq_evenQuotes, pass.even, pass.closed, clean, missing]
      rfl
  | tooDeep pass balanced deep =>
      have covered := covered_of_balances balanced
      have clean := (clean_iff_covered distinct).mpr covered
      have settled := scan_settled distinct covered balanced
      have missing : (scan policy.delimiters (read policy.quotes t).code).1.find?
          (fun pair => pair.2 ≠ 0) = none := by
        rw [scan_pairs]
        simpa using settled
      simp only [check, countQuotes_eq_evenQuotes, pass.even, pass.closed, clean, missing,
        scan_peak_eq distinct covered, if_pos deep]
      rfl
  | accepted pass balanced shallow =>
      have covered := covered_of_balances balanced
      have peak := scan_peak_eq distinct covered
      rw [check_eq_ok_iff, countQuotes_eq_evenQuotes, peak]
      exact ⟨pass.even, pass.closed, (clean_iff_covered distinct).mpr covered,
        scan_settled distinct covered balanced, shallow, rfl⟩

/-- Every text has one division, and one verdict is due on it, which is what the check gives. The quotes
open regions, all but a zero byte, which is left out of the code. -/
theorem check_exact (policy : Policy) (distinct : DistinctBytes policy.delimiters) (t : Text) :
    ∃ reading,
      (∀ other, Divides (policy.quotes.filter (· ≠ 0)) (policy.quotes.filter (· = 0)) [] t other ↔
        other = reading) ∧
      (0 ∉ policy.quotes → ∀ other, Divides policy.quotes [] [] t other ↔ other = reading) ∧
      ∀ outcome, check policy t = outcome ↔ Decides policy t reading outcome := by
  refine ⟨read policy.quotes t, fun other => divides_iff (sorts_filter _),
    fun visible other => divides_iff (sorts_self visible), fun outcome => ⟨?_, ?_⟩⟩
  · rintro rfl
    obtain ⟨outcome, decides⟩ := exists_decides policy t (read policy.quotes t)
    exact check_of_decides distinct decides ▸ decides
  · exact check_of_decides distinct

/-- Parentheses count towards the depth and brackets do not, and two bytes open regions. -/
def mixed : Policy where
  delimiters := [⟨Byte.openParen, Byte.closeParen, true⟩, ⟨Byte.openBracket, Byte.closeBracket, false⟩]
  quotes := [Byte.doubleQuote, Byte.singleQuote]

/-- The pairs need not be nested in each other, and nothing in a region counts. -/
theorem check_exact_mixed :
    DistinctBytes mixed.delimiters ∧ 0 ∉ mixed.quotes ∧
      (∃ reading, Divides mixed.quotes [] [] (ascii "'(\"' ([)] \\' \"]\"") reading ∧
        Decides mixed (ascii "'(\"' ([)] \\' \"]\"") reading (.error (.oddQuotes 3))) ∧
      ∃ reading, Divides mixed.quotes [] [] (ascii "'(' ([)] \\' \"]\"") reading ∧
        Decides mixed (ascii "'(' ([)] \\' \"]\"") reading (.ok ⟨2, 1⟩) := by
  have distinct : DistinctBytes mixed.delimiters := by decide
  have visible : 0 ∉ mixed.quotes := by decide
  obtain ⟨odd, -, oddDivides, oddVerdict⟩ :=
    check_exact mixed distinct (ascii "'(\"' ([)] \\' \"]\"")
  obtain ⟨even, -, evenDivides, evenVerdict⟩ := check_exact mixed distinct (ascii "'(' ([)] \\' \"]\"")
  exact ⟨distinct, visible,
    ⟨odd, (oddDivides visible odd).mpr rfl, (oddVerdict _).mp (by decide)⟩,
    ⟨even, (evenDivides visible even).mpr rfl, (evenVerdict _).mp (by decide)⟩⟩

/-- A zero byte is the only quote. -/
def zeroQuoted : Policy where
  delimiters := [⟨Byte.openParen, Byte.closeParen, true⟩]
  quotes := [0]

/-- A zero byte should open a region just as any other quote does, and opens none. -/
theorem zeroQuoted_opens_nothing :
    DistinctBytes zeroQuoted.delimiters ∧
      Divides zeroQuoted.quotes [] [] [0, Byte.openParen, 0] ⟨[], true⟩ ∧
      Decides zeroQuoted [0, Byte.openParen, 0] ⟨[], true⟩ (.ok ⟨0, 0⟩) ∧
      check zeroQuoted [0, Byte.openParen, 0] =
        .error (.missingClose Byte.openParen Byte.closeParen) := by
  have hidden : Hides 0 ([] ++ [0]) [Byte.openParen] :=
    hides_cons.mpr ⟨by decide, .nil⟩
  have balanced : ∀ pair ∈ zeroQuoted.delimiters, pair.Balances [] := fun pair _ =>
    balances_iff.mpr ⟨fun start begins => by rw [List.prefix_nil.mp begins]; rfl, rfl⟩
  have divides : Divides zeroQuoted.quotes [] [] ((0 : UInt8) :: ([Byte.openParen] ++ 0 :: [])) ⟨[], true⟩ :=
    .region (by decide) (by decide) hidden (by decide) .done
  exact ⟨by decide, divides, .accepted ⟨by decide, rfl⟩ balanced (by decide), by decide⟩

end Verdict

end QueryGate.Nesting
