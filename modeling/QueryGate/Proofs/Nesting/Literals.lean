import QueryGate.Proofs.Nesting.Drift
import QueryGate.Proofs.Nesting.Pieces
import QueryGate.Proofs.Nesting.Verdict
import QueryGate.Proofs.Piece
import QueryGate.Proofs.Steps

/-! # Texts divided by literals

A lexer divides a text into literals and what stands between them. Where no backslash stands between
them, the check of nesting divides the text in the same way: it looks back along a run of backslashes and
a literal is read forward, and inside a literal the two come to the same.
-/

namespace QueryGate.Nesting

open Cursor

/-- The pieces are literals, and bytes without a quote or a backslash between them. Whether the last
literal is closed is told besides. -/
inductive Parts (quotes : Text) : List Piece → Bool → Prop where
  | done : Parts quotes [] true
  | plain {text pieces closed} (unquoted : ∀ b ∈ text, b ∉ quotes) (unescaping : Byte.backslash ∉ text)
      (more : Parts quotes pieces closed) : Parts quotes (⟨text, false⟩ :: pieces) closed
  | literal {quote rest n pieces closed} (opens : quote ∈ quotes)
      (closes : Quoted.span? quote rest = some n) (more : Parts quotes pieces closed) :
      Parts quotes (⟨quote :: rest.take n, true⟩ :: pieces) closed
  | openLiteral {quote rest} (opens : quote ∈ quotes) (stays : Quoted.span? quote rest = none) :
      Parts quotes [⟨quote :: rest, true⟩] false

/-- Every quote opens a region, and none of them escapes what follows it. -/
structure Quoting (quotes : Text) : Prop where
  unescaping : ∀ quote ∈ quotes, quote ≠ Byte.backslash
  visible : ∀ quote ∈ quotes, quote ≠ 0

section Parts

variable {quotes rest : Text} {quote : UInt8} {pieces : List Piece} {closed : Bool}

variable (quotes) in
theorem past_openLiteral (unescaping : quote ≠ Byte.backslash)
    (stays : Quoted.span? quote rest = none) :
    (past quotes ⟨some quote, false⟩ rest).region = some quote := by
  fun_induction Quoted.span? quote rest with
  | case1 => rfl
  | case2 => simp [next, unescaping.symm]
  | case3 c rest ih =>
      have inside : next quotes (next quotes ⟨some quote, false⟩ Byte.backslash) c =
          ⟨some quote, false⟩ := by
        simp [next, escapesNext, unescaping.symm]
      rw [past_cons, past_cons, inside]
      exact ih (Option.map_eq_none_iff.mp stays)
  | case4 => cases stays
  | case5 c rest plain other ih =>
      have inside : next quotes ⟨some quote, false⟩ c = ⟨some quote, false⟩ := by
        simp [next, escapesNext, plain, other]
      rw [past_cons, inside]
      exact ih (Option.map_eq_none_iff.mp stays)

theorem Parts.past_eq (parts : Parts quotes pieces closed) (quoting : Quoting quotes) :
    (past quotes {} (wholeOf pieces)).region.isNone = closed := by
  obtain ⟨unescaping, visible⟩ := quoting
  induction parts with
  | done => rfl
  | plain unquoted bare more ih =>
      rw [wholeOf_cons, past_append, past_of_plain unquoted, foldl_escapesNext_of_not_mem bare]
      exact ih
  | literal opens closes more ih =>
      obtain ⟨ends, -⟩ := past_quoted (unescaping _ opens) closes opens (visible _ opens)
      rw [wholeOf_cons, past_append, ends]
      exact ih
  | @openLiteral quote rest opens stays =>
      have opened : next quotes {} quote = ⟨some quote, false⟩ := by
        simp [next, regionOf_of_ne (visible _ opens), escapesNext, opens, unescaping _ opens]
      rw [wholeOf_cons, wholeOf_nil, List.append_nil, past_cons, opened,
        past_openLiteral quotes (unescaping _ opens) stays]
      rfl

theorem Parts.takes_iff (parts : Parts quotes pieces closed) (quoting : Quoting quotes)
    (ends : closed = true) :
    ∀ i < (wholeOf pieces).length,
      takes quotes {} (wholeOf pieces) i = true ↔ literalAt pieces i = false := by
  obtain ⟨unescaping, visible⟩ := quoting
  induction parts with
  | done => exact fun i inside => absurd inside (Nat.not_lt_zero i)
  | @plain text pieces closed unquoted bare more ih =>
      rw [wholeOf_cons, takes_append_iff, past_of_plain unquoted, foldl_escapesNext_of_not_mem bare]
      refine ⟨fun i inside => ?_, fun i inside => ?_⟩
      · rw [takes_of_plain unquoted inside, literalAt_left inside]
        exact iff_of_true rfl rfl
      · rw [literalAt_right]
        exact ih ends i inside
  | @literal quote rest n pieces closed opens closes more ih =>
      obtain ⟨after, hidden⟩ := past_quoted (unescaping _ opens) closes opens (visible _ opens)
      rw [wholeOf_cons, takes_append_iff, after]
      refine ⟨fun i inside => ?_, fun i inside => ?_⟩
      · have within : i ≤ n := by
          simp only [List.length_cons, List.length_take] at inside
          omega
        rw [hidden i within, literalAt_left inside]
        simp
      · rw [literalAt_right]
        exact ih ends i inside
  | openLiteral => cases ends

end Parts

/-! ## Literals that are never closed -/

theorem oddRun_concat {before : Text} (even : oddRun before = false) (b : UInt8) :
    oddRun (before ++ [b]) = (b == Byte.backslash) := by
  rw [← escapesNext_oddRun, even, escapesNext, Bool.not_false, Bool.and_true]

theorem span?_eq_none_iff {quote : UInt8} {before t : Text} (unescaping : quote ≠ Byte.backslash)
    (even : oddRun before = false) : Quoted.span? quote t = none ↔ Hides quote before t := by
  fun_induction Quoted.span? quote t generalizing before with
  | case1 => simp [Hides.nil]
  | case2 =>
      rw [hides_cons]
      exact iff_of_true rfl ⟨fun same => absurd same.symm unescaping, .nil⟩
  | case3 c rest ih =>
      have escaped : oddRun (before ++ [Byte.backslash]) = true := by simp [oddRun_concat even]
      have settled : oddRun (before ++ [Byte.backslash] ++ [c]) = false := by
        rw [← escapesNext_oddRun, escaped, escapesNext, Bool.not_true, Bool.and_false]
      rw [hides_cons, hides_cons, Option.map_eq_none_iff, ih settled]
      simp [escaped, unescaping.symm]
  | case4 rest =>
      rw [hides_cons]
      simp [even]
  | case5 c rest plain other ih =>
      have settled : oddRun (before ++ [c]) = false := by simp [oddRun_concat even, plain]
      rw [hides_cons, Option.map_eq_none_iff, ih settled]
      simp [other]

/-! ## A lexer and the check -/

/-- A lexer that sees tokens outside literals agrees with the check of nesting about a text. -/
structure ScansAgree {α : Type} (quotes : Text) (delimiters : List Delimiter) (opens closes : α → Bool)
    (outside : List α → Nat → Bool) (t : Text) (lexed : Except Rejection (List α)) : Prop where
  /-- The division ends outside regions just if the text has tokens. -/
  ends : (read quotes t).closed = true ↔ ∃ tokens, lexed = .ok tokens
  places : ∀ tokens, lexed = .ok tokens → ∀ i < t.length, isCode quotes t i = outside tokens i
  code : ∀ tokens, lexed = .ok tokens → (read quotes t).code = bytesSeen t (outside tokens)
  /-- The depth that the check reports is that of the tokens. -/
  depth : ∀ tokens, lexed = .ok tokens → ∀ limit report,
    check ⟨delimiters, limit, quotes⟩ t = .ok report → report.maxDepth = peakOpen opens closes tokens

theorem bytesSeen_congr {t : Text} {one other : Nat → Bool} (same : ∀ i < t.length, one i = other i) :
    bytesSeen t one = bytesSeen t other := by
  refine List.filterMap_congr fun i member => ?_
  rw [byteSeen, byteSeen, same i (List.mem_range.mp member)]

theorem maxDepth_of_check {policy : Policy} {t : Text} {report : Report}
    (distinct : DistinctBytes policy.delimiters) (accepted : check policy t = .ok report) :
    report.maxDepth = deepest policy.delimiters (read policy.quotes t).code := by
  obtain ⟨-, -, clean, -, -, rfl⟩ := check_eq_ok_iff.mp accepted
  exact scan_peak_eq distinct ((clean_iff_covered distinct).mp clean)

/-- A lexer agrees with the check when its pieces are literals and bytes without a quote or a backslash
between them, and its tokens nest as the bytes outside literals do. -/
theorem scansAgree_of_parts {α : Type} {quotes : Text} {delimiters : List Delimiter}
    {opens closes : α → Bool} {outside : List α → Nat → Bool} {lexed : Except Rejection (List α)}
    {pieces : List Piece} {t : Text} (pair : Delimiter) (whole : wholeOf pieces = t) (quoting : Quoting quotes)
    (distinct : DistinctBytes delimiters)
    (counted : ∀ code, openTracked delimiters code = code.count pair.opening - code.count pair.closing)
    (parts : Parts quotes pieces lexed.isOk)
    (literals : ∀ tokens, lexed = .ok tokens → ∀ i < t.length,
      outside tokens i = !literalAt pieces i)
    (nests : ∀ tokens, lexed = .ok tokens → ∀ limit, NestsWithin opens closes limit tokens ↔
      NestsWithin (· == pair.opening) (· == pair.closing) limit
        (bytesSeen t (outside tokens))) :
    ScansAgree quotes delimiters opens closes outside t lexed := by
  subst whole
  have places : ∀ tokens, lexed = .ok tokens → ∀ i < (wholeOf pieces).length,
      isCode quotes (wholeOf pieces) i = outside tokens i := by
    rintro tokens rfl i inside
    rw [Bool.eq_iff_iff, literals tokens rfl i inside, Bool.not_eq_true']
    exact parts.takes_iff quoting rfl i inside
  have code : ∀ tokens, lexed = .ok tokens →
      (read quotes (wholeOf pieces)).code = bytesSeen (wholeOf pieces) (outside tokens) := by
    intro tokens read
    rw [code_eq_bytesSeen, bytesSeen_congr (places tokens read)]
  refine ⟨?_, places, code, ?_⟩
  · have closed := readFrom_closed quotes {} (wholeOf pieces)
    rw [parts.past_eq quoting] at closed
    rw [read, closed]
    refine ⟨exists_of_isOk, ?_⟩
    rintro ⟨tokens, rfl⟩
    rfl
  · intro tokens read limit report accepted
    have open_eq : openTracked delimiters = fun code => code.count pair.opening - code.count pair.closing :=
      funext counted
    rw [maxDepth_of_check distinct accepted, code tokens read, deepest, open_eq]
    refine eq_of_forall_ge_iff fun bound => ?_
    rw [peakOpen_le_iff, nests tokens read bound, ← peakOpen_le_iff, peakOpen]
    simp only [List.count_eq_countP]

end QueryGate.Nesting
