import QueryGate.Proofs.Margins

/-! # Texts put together

A reader that has stopped at the end of a text stops there too when another text follows, as long as
the other text does not go on with a byte the reader would take.
-/

namespace QueryGate

namespace Text

/-- The text is empty or starts with a byte outside the class. -/
def Apart (p : UInt8 → Bool) (t : Text) : Prop := ∀ b ∈ t.head?, p b = false

variable {p q : UInt8 → Bool} {s t : Text}

theorem Apart.mono (within : ∀ b, q b = true → p b = true) (apart : Apart p t) : Apart q t := by
  intro b first
  cases taken : q b with
  | false => rfl
  | true => exact (within b taken).symm.trans (apart b first)

theorem Blank.apart (outside : ∀ b, Byte.isBlank b = true → p b = false) (blank : Blank t) :
    Apart p t := fun b first => outside b (blank b (List.mem_of_mem_head? first))

theorem Apart.takeWhile_append (apart : Apart p t) : (s ++ t).takeWhile p = s.takeWhile p := by
  induction s with
  | nil =>
      cases t with
      | nil => rfl
      | cons b t => simp [apart b rfl]
  | cons c s ih => simp only [List.cons_append, List.takeWhile_cons, ih]

theorem Apart.takeWhile_run (apart : Apart p t) (run : ∀ b ∈ s, p b = true) :
    (s ++ t).takeWhile p = s := by
  rw [apart.takeWhile_append, List.takeWhile_eq_self_iff.mpr run]

theorem Apart.any_head?_append (apart : Apart p t) : (s ++ t).head?.any p = s.head?.any p := by
  cases s with
  | cons c s => rfl
  | nil =>
      cases t with
      | nil => rfl
      | cons b t => exact apart b rfl

/-- What follows completes no beginning when it does not go on with a byte of the beginning, or when
the last byte before it is none. -/
theorem prefix_append_iff {start : Text}
    (apart : ∀ b ∈ t.head?, b ∈ start → ∃ last ∈ s.getLast?, last ∉ start) :
    start <+: s ++ t ↔ start <+: s := by
  constructor
  · intro begins
    rcases Nat.lt_or_ge s.length start.length with short | long
    · obtain ⟨more, rfl⟩ := List.prefix_of_prefix_length_le (List.prefix_append s t) begins short.le
      cases more with
      | nil => simp at short
      | cons b more =>
          obtain ⟨tail, rfl⟩ := (List.prefix_append_right_inj s).mp begins
          obtain ⟨last, ends, absent⟩ := apart b rfl (by simp)
          exact absurd (List.mem_append_left _ (List.mem_of_getLast? ends)) absent
    · exact List.prefix_of_prefix_length_le begins (List.prefix_append s t) long
  · intro begins
    exact begins.trans (List.prefix_append s t)

theorem isPrefixOf_take_append {start rest : Text} {c : UInt8} (short : start.length ≤ 3)
    (apart : ∀ b ∈ t.head?, b ∈ start → ∃ last ∈ (c :: rest).getLast?, last ∉ start) :
    start.isPrefixOf (c :: (rest ++ t).take 2) = start.isPrefixOf (c :: rest.take 2) := by
  have whole : ∀ more : Text, start.isPrefixOf (c :: more.take 2) = true ↔ start <+: c :: more := by
    intro more
    rw [List.isPrefixOf_iff_prefix, ← List.take_succ_cons, List.prefix_take_iff]
    exact and_iff_left short
  rw [Bool.eq_iff_iff, whole, whole]
  exact prefix_append_iff apart

end Text

/-- A view that does not see shifts sees no more of an exchange than that of what is exchanged. -/
theorem map_exchange {α β : Type} {view : α → β} {shift move : α → α} {a b : α}
    {first last : List α} (shifted : view ∘ shift = view) (moved : view ∘ move = view)
    (same : view a = view b) :
    (first ++ a :: last.map shift).map view = (first ++ b :: last.map move).map view := by
  simp only [List.map_append, List.map_cons, List.map_map, shifted, moved, same]

end QueryGate
