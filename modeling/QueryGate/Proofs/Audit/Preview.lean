import QueryGate.Proofs.Audit.Characters
import QueryGate.Proofs.Audit.Members

/-! # The beginning of a query

A line shows a beginning of its query, of at most 128 bytes. A long query is cut at the last place up to there
that no continuing byte follows, and in valid UTF-8 this is the last place where a character ends.
-/

namespace QueryGate.Audit

section Cut

variable {query : Text}

theorem cutBefore_spec (query : Text) (cut : Nat) :
    cutBefore query cut ≤ cut ∧
      (cutBefore query cut = 0 ∨ query[cutBefore query cut]?.any isContinuation = false) ∧
      ∀ n, cutBefore query cut < n → n ≤ cut → query[n]?.any isContinuation = true := by
  induction cut with
  | zero => exact ⟨Nat.le_refl 0, .inl rfl, fun n beyond within => by omega⟩
  | succ cut ih =>
      obtain ⟨below, apart, continues⟩ := ih
      rw [cutBefore]
      split
      · next inside =>
        refine ⟨Nat.le_succ_of_le below, apart, fun n beyond within => ?_⟩
        rcases Nat.le_succ_iff.mp within with earlier | rfl
        · exact continues n beyond earlier
        · exact inside
      · next ends =>
        exact ⟨Nat.le_refl _, .inr (Bool.eq_false_iff.mpr ends), fun n beyond within => by omega⟩

theorem preview_length (query : Text) : (preview query).length ≤ 128 := by
  unfold preview
  split
  · assumption
  · exact (List.length_take_le _ _).trans (cutBefore_spec query 128).1

variable (valid : IsUtf8 query)

include valid

theorem isUtf8_preview : IsUtf8 (preview query) := by
  unfold preview
  split
  · exact valid
  · rcases (cutBefore_spec query previewLength).2.1 with nothing | apart
    · rw [nothing]
      exact isUtf8_iff.mpr ⟨[], rfl⟩
    · exact isUtf8_take valid apart

theorem prefix_preview {start : Text} (begins : start <+: query) (short : start.length ≤ 128)
    (whole : IsUtf8 start) : start <+: preview query := by
  unfold preview
  split
  · exact begins
  · next long =>
    have apart := not_continues_of_prefix begins valid whole
    refine List.prefix_of_prefix_length_le begins (List.take_prefix _ _) ?_
    rw [List.length_take]
    refine Nat.le_min.mpr ⟨Nat.not_lt.mp fun beyond => ?_, begins.length_le⟩
    have inside := (cutBefore_spec query previewLength).2.2 start.length beyond short
    rw [apart] at inside
    cases inside

/-- A character has at most four bytes, so no more than three are given up. -/
theorem le_length_preview (long : 128 < query.length) : 125 ≤ (preview query).length := by
  obtain ⟨start, begins, whole, within, near⟩ := exists_prefix_near valid (Nat.le_of_lt long)
  have kept := (prefix_preview valid begins within whole).length_le
  omega

end Cut

/-- The text in a line's preview is the escape of a beginning of the query with at most 128 bytes, which is all
of a query that has no more. Of a query in valid UTF-8 it is the longest such beginning that is valid itself, so
of a longer query at least 125 bytes, and the escape is valid too. -/
theorem preview_keeps_characters {query line : Text} {time : Instant} (recorded : Records query time line) :
    ∃ shown, Shows line (ascii "query_preview") (Json.escape shown) shown ∧
      shown <+: query ∧ shown.length ≤ 128 ∧ (query.length ≤ 128 → shown = query) ∧
      (IsUtf8 query →
        IsUtf8 shown ∧
        (∀ start, start <+: query → start.length ≤ 128 → IsUtf8 start → start <+: shown) ∧
        (128 < query.length → 125 ≤ shown.length) ∧
        IsUtf8 (Json.escape shown)) := by
  refine ⟨preview query, shows_preview recorded, preview_prefix query, preview_length query,
    fun short => if_pos short, fun valid => ⟨isUtf8_preview valid, ?_, le_length_preview valid, ?_⟩⟩
  · exact fun start begins short whole => prefix_preview valid begins short whole
  · exact isUtf8_escape (isUtf8_preview valid)

/-- Of 126 letters and a character of three bytes, the letters are shown. -/
theorem preview_keeps_characters_straddling :
    let letters : Text := List.replicate 126 0x61
    let query : Text := letters ++ [0xE2, 0x82, 0xAC, 0x62]
    let entry : Acceptance := ⟨some .jql, [], query, .ofMilliseconds 0, 0⟩
    Records query entry.time entry.line ∧ IsUtf8 query ∧
      Shows entry.line (ascii "query_preview") (Json.escape letters) letters := by
  intro letters query entry
  have valid : IsUtf8 query := by decide +kernel
  obtain ⟨shown, shows, begins, within, -, whole⟩ := preview_keeps_characters (.accepted entry)
  obtain ⟨itself, longest, -, -⟩ := whole valid
  have kept : letters <+: shown :=
    longest letters (List.prefix_append _ _) (by simp [letters]) (by decide +kernel)
  have least : 126 ≤ shown.length := by simpa [letters] using kept.length_le
  -- the two longer beginnings would end inside the character
  have taken := List.prefix_iff_eq_take.mp begins
  have ends : shown.length = 126 := by
    obtain ends | one | two : shown.length = 126 ∨ shown.length = 127 ∨ shown.length = 128 := by omega
    · exact ends
    · rw [taken, one] at itself
      exact absurd itself (by decide +kernel)
    · rw [taken, two] at itself
      exact absurd itself (by decide +kernel)
  obtain rfl : letters = shown := kept.eq_of_length (by simp [letters, ends])
  exact ⟨.accepted entry, valid, shows⟩

end QueryGate.Audit
