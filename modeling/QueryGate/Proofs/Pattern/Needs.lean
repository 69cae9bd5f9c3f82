import QueryGate.Proofs.Pattern.Meaning

/-! # What a pattern cannot do without

Wherever a tree leads, it consumes bytes of certain sets, in a certain order. A text that does not have
these bytes in this order has no place for the tree, whatever else the tree asks for.
-/

namespace QueryGate.Pattern

/-! ## Sets of bytes in a text -/

/-- The text has a byte of each set, in this order and with anything in between. -/
def meets : List ByteClass → Text → Bool
  | [], _ => true
  | _ :: _, [] => false
  | set :: sets, b :: t => set.contains b && meets sets t || meets (set :: sets) t

/-- No byte of a class is in the set. -/
def ByteClass.misses (set : ByteClass) (p : UInt8 → Bool) : Bool :=
  decide (∀ b, p b = true → set.contains b = false)

/-- What is left of a list of sets, at least, behind bytes of a class. -/
def leftBehind (p : UInt8 → Bool) (sets : List ByteClass) : List ByteClass :=
  sets.dropWhile fun set => !set.misses p

section Meeting

variable {set : ByteClass} {sets others : List ByteClass} {s t : Text} {p : UInt8 → Bool}

theorem meets_nil (t : Text) : meets [] t = true := by
  cases t <;> rfl

theorem meets_cons_iff :
    meets (set :: sets) t = true ↔
      ∃ before b after, t = before ++ b :: after ∧ set.contains b = true ∧ meets sets after = true := by
  induction t with
  | nil => simp [meets]
  | cons c t ih =>
      rw [meets, Bool.or_eq_true, Bool.and_eq_true, ih]
      constructor
      · rintro (⟨listed, met⟩ | ⟨before, b, after, rfl, listed, met⟩)
        · exact ⟨[], c, t, rfl, listed, met⟩
        · exact ⟨c :: before, b, after, rfl, listed, met⟩
      · rintro ⟨before, b, after, split, listed, met⟩
        cases before with
        | nil =>
            obtain ⟨rfl, rfl⟩ := List.cons.inj split
            exact Or.inl ⟨listed, met⟩
        | cons d before =>
            obtain ⟨rfl, rfl⟩ := List.cons.inj split
            exact Or.inr ⟨before, b, after, rfl, listed, met⟩

theorem meets_prepend (s : Text) (met : meets sets t = true) : meets sets (s ++ t) = true := by
  cases sets with
  | nil => exact meets_nil _
  | cons set sets =>
      obtain ⟨before, b, after, rfl, listed, met⟩ := meets_cons_iff.mp met
      exact meets_cons_iff.mpr ⟨s ++ before, b, after, by simp, listed, met⟩

theorem meets_append (one : meets sets s = true) (other : meets others t = true) :
    meets (sets ++ others) (s ++ t) = true := by
  induction sets generalizing s with
  | nil => exact meets_prepend s other
  | cons set sets ih =>
      obtain ⟨before, b, after, rfl, listed, met⟩ := meets_cons_iff.mp one
      exact meets_cons_iff.mpr ⟨before, b, after ++ t, by simp, listed, ih met⟩

theorem behind_or_within {before after : Text} {b : UInt8} (split : s ++ t = before ++ b :: after) :
    (∃ middle, t = middle ++ b :: after) ∨
      ∃ inside, s = before ++ b :: inside ∧ after = inside ++ t := by
  rcases List.append_eq_append_iff.mp split with ⟨middle, -, rfl⟩ | ⟨middle, rfl, rest⟩
  · exact Or.inl ⟨middle, rfl⟩
  · cases middle with
    | nil => exact Or.inl ⟨[], rest.symm⟩
    | cons c middle =>
        obtain ⟨rfl, rfl⟩ := List.cons.inj rest
        exact Or.inr ⟨middle, rfl, rfl⟩

/-- Bytes of a class meet no more sets than those that have such a byte; a text behind them has to meet
what is left. -/
theorem meets_leftBehind (within : ∀ b ∈ s, p b = true) (met : meets sets (s ++ t) = true) :
    meets (leftBehind p sets) t = true := by
  induction sets generalizing s t with
  | nil => exact meets_nil t
  | cons set sets ih =>
      obtain ⟨before, b, after, split, listed, later⟩ := meets_cons_iff.mp met
      cases missed : set.misses p with
      | true =>
          -- What meets this set is no byte of the class, so all of the sets are met behind them.
          rw [leftBehind, List.dropWhile_cons_of_neg (by simp [missed])]
          rcases behind_or_within split with ⟨middle, rfl⟩ | ⟨inside, rfl, -⟩
          · exact meets_cons_iff.mpr ⟨middle, b, after, rfl, listed, later⟩
          · unfold ByteClass.misses at missed
            have unlisted := of_decide_eq_true missed b (within b (by simp))
            rw [listed] at unlisted
            cases unlisted
      | false =>
          rw [leftBehind, List.dropWhile_cons_of_pos (by simp [missed])]
          rcases behind_or_within split with ⟨middle, rfl⟩ | ⟨inside, rfl, rfl⟩
          · have behind : meets (leftBehind p sets) after = true := ih (s := []) (by simp) later
            exact meets_prepend middle (meets_prepend [b] behind)
          · exact ih (fun c member => within c (by simp [member])) later

end Meeting

/-! ## What a tree needs -/

/-- Sets of which a tree consumes a byte each, in this order, wherever it leads. Of alternatives and
of what may be left out nothing is known. -/
def Tree.needs : Tree → List ByteClass
  | .empty | .assert _ | .backreference _ | .alt _ _ | .lookahead _ _ => []
  | .bytes set => [set]
  | .seq first second => first.needs ++ second.needs
  | .capture _ body => body.needs
  | .repeated body quantifier _ => (List.replicate quantifier.least body.needs).flatten

/-- Between the cursors lie bytes that meet the sets. -/
def Consumes (sets : List ByteClass) (start finish : Cursor) : Prop :=
  ∃ taken, start.rest = taken ++ finish.rest ∧ meets sets taken = true

section Consuming

variable {sets others : List ByteClass} {start middle finish : Cursor}

theorem consumes_refl (start : Cursor) : Consumes [] start start := ⟨[], rfl, rfl⟩

theorem Consumes.append (one : Consumes sets start middle) (other : Consumes others middle finish) :
    Consumes (sets ++ others) start finish := by
  obtain ⟨taken, ahead, met⟩ := one
  obtain ⟨more, beyond, later⟩ := other
  exact ⟨taken ++ more, by rw [ahead, beyond, List.append_assoc], meets_append met later⟩

theorem Consumes.nothing (consumes : Consumes sets start finish) : Consumes [] start finish := by
  obtain ⟨taken, ahead, -⟩ := consumes
  exact ⟨taken, ahead, meets_nil taken⟩

theorem consumes_of_repeats {step : Cursor → Cursor → Prop}
    (consumes : ∀ start finish, step start finish → Consumes sets start finish) {least n : Nat}
    (enough : least ≤ n) (path : Repeats step n start finish) :
    Consumes (List.replicate least sets).flatten start finish := by
  induction n generalizing least start with
  | zero =>
      obtain rfl := Nat.le_zero.mp enough
      obtain rfl := path
      exact consumes_refl _
  | succ n ih =>
      obtain ⟨middle, one, rest⟩ := path
      have first := consumes start middle one
      cases least with
      | zero => exact first.nothing.append (ih (Nat.zero_le n) rest)
      | succ least =>
          rw [List.replicate_succ, List.flatten_cons]
          exact first.append (ih (Nat.le_of_succ_le_succ enough) rest)

end Consuming

theorem Tree.Spans.consumes {tree : Tree} {scope : Scope} {start finish : Cursor}
    (spans : tree.Spans scope start finish) : Consumes tree.needs start finish := by
  induction tree generalizing scope start finish with
  | empty =>
      obtain rfl := spans
      exact consumes_refl _
  | bytes set =>
      obtain ⟨b, rest, split, listed, rfl⟩ := spans
      exact ⟨[b], split, by simp [needs, meets, listed]⟩
  | assert | lookahead =>
      obtain ⟨rfl, -⟩ := spans
      exact consumes_refl _
  | backreference => cases spans
  | seq _ _ first second =>
      obtain ⟨middle, one, other⟩ := spans
      exact (first one).append (second other)
  | alt _ _ first second =>
      cases spans with
      | inl one => exact (first one).nothing
      | inr other => exact (second other).nothing
  | capture _ _ ih => exact ih spans
  | repeated _ quantifier _ ih =>
      obtain ⟨n, ⟨least, -⟩, path⟩ := spans
      exact consumes_of_repeats (fun _ _ one => ih one) least path

/-- Where a tree leads somewhere from a place of a text, the text has what the tree needs. -/
theorem Tree.Occurs.meets_needs {tree : Tree} {t : Text} (occurs : tree.Occurs t) :
    meets tree.needs t = true := by
  obtain ⟨before, after, rfl, finish, spans⟩ := occurs
  obtain ⟨taken, ahead, met⟩ := spans.consumes
  obtain rfl : after = taken ++ finish.rest := ahead
  have whole := meets_append met (meets_nil finish.rest)
  rw [List.append_nil] at whole
  exact meets_prepend before whole

end QueryGate.Pattern
