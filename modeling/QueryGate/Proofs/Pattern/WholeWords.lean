import QueryGate.Proofs.Bytes
import QueryGate.Proofs.Joining
import QueryGate.Proofs.Pattern.Words

/-! # Patterns of whole words

A word between two word boundaries is found where the text has the word, in any case, as a whole: no
word byte stands next to it. Behind a name there is no such place unless the name itself is the word.
-/

namespace QueryGate.Pattern

/-- The cursor behind the next bytes, which `rest` follows. -/
def Cursor.beyond (cursor : Cursor) (taken rest : Text) : Cursor :=
  { cursor with
    position := cursor.position + taken.length
    previous := taken.getLast?.or cursor.previous
    rest }

theorem Cursor.beyond_past (cursor : Cursor) (b : UInt8) (taken more rest : Text) :
    (cursor.past b more).beyond taken rest = cursor.beyond (b :: taken) rest := by
  have place : cursor.position + 1 + taken.length = cursor.position + (b :: taken).length := by
    rw [List.length_cons]
    omega
  have last : taken.getLast?.or (some b) = (b :: taken).getLast?.or cursor.previous := by
    rw [List.getLast?_cons, Option.some_or]
    cases taken.getLast? <;> rfl
  simp only [beyond, past, place, last]

/-! ## Boundaries around a word -/

section Boundaries

variable {scope : Scope} {cursor : Cursor} {found rest : Text}
  (wordy : ∀ b ∈ found, Byte.isWord b = true) (nonempty : found ≠ [])

include wordy nonempty

theorem boundary_before_word_iff (ahead : cursor.rest = found ++ rest) :
    Assertion.wordBoundary.holds scope cursor = true ↔
      ∀ b ∈ cursor.previous, Byte.isWord b = false := by
  have first : cursor.rest.head?.any Byte.isWord = true := by
    rw [ahead, List.head?_append, List.head?_eq_some_head nonempty]
    exact wordy _ (List.head_mem nonempty)
  have onward : ¬ (cursor.position = scope.origin ∧ cursor.rest.isEmpty = true) := by
    simp [ahead, nonempty]
  rw [Assertion.holds, Assertion.holds.boundary, if_neg onward, first]
  simp [Option.any_eq_false]

theorem boundary_behind_word_iff (origin : cursor.position = scope.origin) :
    Assertion.wordBoundary.holds scope (cursor.beyond found rest) = true ↔
      Text.Apart Byte.isWord rest := by
  have last : (cursor.beyond found rest).previous.any Byte.isWord = true := by
    rw [Cursor.beyond, List.getLast?_eq_some_getLast nonempty]
    exact wordy _ (List.getLast_mem nonempty)
  have moved : ¬ ((cursor.beyond found rest).position = scope.origin ∧
      (cursor.beyond found rest).rest.isEmpty = true) := by
    have longer := List.length_pos_iff.mpr nonempty
    simp only [Cursor.beyond]
    omega
  rw [Assertion.holds, Assertion.holds.boundary, if_neg moved, last]
  simp [Option.any_eq_false, Text.Apart, Cursor.beyond]

end Boundaries

namespace Tree

/-- The tree of a word between two word boundaries. -/
def wholeWord (w : Text) : Tree :=
  .seq (.assert .wordBoundary) (word w (.seq (.assert .wordBoundary) .empty))

variable {w t : Text} {tail : Tree} {scope : Scope} {start finish : Cursor}

theorem spans_word_iff :
    (word w tail).Spans scope start finish ↔
      ∃ found rest, start.rest = found ++ rest ∧ found.toLower = w.toLower ∧
        tail.Spans scope (start.beyond found rest) finish := by
  induction w generalizing start with
  | nil =>
      rw [show word [] tail = tail from rfl]
      constructor
      · exact fun spans => ⟨[], start.rest, rfl, rfl, spans⟩
      · rintro ⟨found, rest, split, same, spans⟩
        obtain rfl := List.map_eq_nil_iff.mp same
        obtain rfl : start.rest = rest := split
        exact spans
  | cons b w ih =>
      constructor
      · rintro ⟨_, ⟨c, rest, split, listed, rfl⟩, later⟩
        obtain ⟨found, rest, beyond, same, spans⟩ := ih.mp later
        rw [Cursor.beyond_past] at spans
        refine ⟨c :: found, rest, ?_, ?_, spans⟩
        · rw [split, List.cons_append]
          exact congrArg (c :: ·) beyond
        · rw [Text.toLower, List.map_cons, contains_single.mp listed]
          exact congrArg (Byte.lower b :: ·) same
      · rintro ⟨found, rest, split, same, spans⟩
        obtain ⟨c, found, rfl, folded, same⟩ := List.map_eq_cons_iff.mp same
        refine ⟨_, ⟨c, found ++ rest, split, contains_single.mpr folded, rfl⟩, ih.mpr ?_⟩
        exact ⟨found, rest, rfl, same, by rwa [Cursor.beyond_past]⟩

theorem wordy_of_toLower_eq (wordy : ∀ b ∈ w, Byte.isWord b = true) (same : t.toLower = w.toLower) :
    ∀ b ∈ t, Byte.isWord b = true := by
  intro b member
  have lowered : Byte.lower b ∈ w.toLower := by
    rw [← same]
    exact List.mem_map_of_mem member
  obtain ⟨c, listed, folded⟩ := List.mem_map.mp lowered
  rw [← Byte.isWord_lower, ← folded, Byte.isWord_lower, wordy c listed]

theorem wholeWord_occurs_iff (wordy : ∀ b ∈ w, Byte.isWord b = true) (nonempty : w ≠ []) :
    (wholeWord w).Occurs t ↔
      ∃ before found after, t = before ++ (found ++ after) ∧ found.toLower = w.toLower ∧
        (∀ b ∈ before.getLast?, Byte.isWord b = false) ∧ Text.Apart Byte.isWord after := by
  have matched : ∀ {found : Text}, found.toLower = w.toLower →
      (∀ b ∈ found, Byte.isWord b = true) ∧ found ≠ [] := by
    intro found same
    refine ⟨wordy_of_toLower_eq wordy same, ?_⟩
    rintro rfl
    exact nonempty (List.map_eq_nil_iff.mp same.symm)
  constructor
  · rintro ⟨before, _, rfl, finish, _, ⟨rfl, starts⟩, later⟩
    obtain ⟨found, after, rfl, same, _, ⟨rfl, ends⟩, -⟩ := spans_word_iff.mp later
    obtain ⟨words, filled⟩ := matched same
    exact ⟨before, found, after, rfl, same, (boundary_before_word_iff words filled rfl).mp starts,
      (boundary_behind_word_iff words filled rfl).mp ends⟩
  · rintro ⟨before, found, after, rfl, same, front, back⟩
    obtain ⟨words, filled⟩ := matched same
    let start := Cursor.between before (found ++ after)
    have ends : (Tree.seq (.assert .wordBoundary) .empty).Spans (.between before (found ++ after))
        (start.beyond found after) (start.beyond found after) :=
      ⟨_, ⟨rfl, (boundary_behind_word_iff words filled rfl).mpr back⟩, rfl⟩
    exact ⟨before, found ++ after, rfl, _, start,
      ⟨rfl, (boundary_before_word_iff words filled rfl).mpr front⟩,
      spans_word_iff.mpr ⟨found, after, rfl, same, ends⟩⟩

theorem wholeWord_occurs_name_iff (wordy : ∀ b ∈ w, Byte.isWord b = true) (nonempty : w ≠ [])
    {name more : Text} (named : ∀ b ∈ name, Byte.isWord b = true)
    (apart : Text.Apart Byte.isWord more) (absent : ¬ w.toLower <:+: more.toLower) :
    (wholeWord w).Occurs (name ++ more) ↔ name.toLower = w.toLower := by
  rw [wholeWord_occurs_iff wordy nonempty]
  constructor
  · rintro ⟨before, found, after, split, same, front, back⟩
    rcases List.append_eq_append_iff.mp split with ⟨middle, rfl, beyond⟩ | ⟨middle, rfl, within⟩
    · refine absurd ?_ absent
      rw [← same, beyond]
      exact ⟨Text.toLower middle, after.toLower, by simp [Text.toLower]⟩
    · cases before using List.reverseRecOn with
      | append_singleton before b =>
          have wordless := front b (by simp)
          rw [named b (by simp)] at wordless
          cases wordless
      | nil =>
          have words : ∀ b ∈ found, Byte.isWord b = true := wordy_of_toLower_eq wordy same
          have names : ∀ b ∈ middle, Byte.isWord b = true := named
          have whole : found ++ after = middle ++ more := within
          obtain rfl : found = middle := by
            rw [← back.takeWhile_run words, whole, apart.takeWhile_run names]
          exact same
  · intro same
    exact ⟨[], name, more, rfl, same, by simp, apart⟩

end Tree

end QueryGate.Pattern
