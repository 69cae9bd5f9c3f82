import Mathlib.Data.List.Infix

/-! # Balanced sequences

A sequence is judged by its beginnings, so nothing has to be said about which item closes
which. Bytes and tokens are compared through what they open and close: two sequences with the
same delimiters are balanced alike, however much else stands between them.
-/

namespace QueryGate

variable {α γ : Type}

/-- No beginning closes more than it opens, and the whole closes as much as it opens. -/
structure Balanced (opens closes : α → Bool) (items : List α) : Prop where
  covered : ∀ start, start <+: items → start.countP closes ≤ start.countP opens
  settled : items.countP closes = items.countP opens

/-- No beginning leaves more than `limit` open. -/
def NestsWithin (opens closes : α → Bool) (limit : Nat) (items : List α) : Prop :=
  ∀ start, start <+: items → start.countP opens ≤ start.countP closes + limit

/-! ## Peaks -/

/-- The greatest that a measure becomes over the beginnings of a sequence. -/
def peakOf (measure : List α → Nat) (items : List α) : Nat :=
  (items.inits.map measure).foldr max 0

/-- The most that a sequence leaves open at once. -/
def peakOpen (opens closes : α → Bool) (items : List α) : Nat :=
  peakOf (fun start => start.countP opens - start.countP closes) items

theorem peakOf_le_iff {measure : List α → Nat} {items : List α} {limit : Nat} :
    peakOf measure items ≤ limit ↔ ∀ start, start <+: items → measure start ≤ limit := by
  have greatest : ∀ measures : List Nat, measures.foldr max 0 ≤ limit ↔
      ∀ measured ∈ measures, measured ≤ limit := by
    intro measures
    induction measures with
    | nil => simp
    | cons measured rest ih => rw [List.foldr_cons, Nat.max_le, ih, List.forall_mem_cons]
  rw [peakOf, greatest, List.forall_mem_map]
  exact forall_congr' fun start => by rw [List.mem_inits]

theorem peakOf_nil (measure : List α → Nat) : peakOf measure [] = measure [] := by
  refine eq_of_forall_ge_iff fun limit => ?_
  simp [peakOf_le_iff]

theorem peakOf_concat (measure : List α → Nat) (items : List α) (item : α) :
    peakOf measure (items ++ [item]) = max (peakOf measure items) (measure (items ++ [item])) := by
  refine eq_of_forall_ge_iff fun limit => ?_
  simp only [peakOf_le_iff, Nat.max_le, List.prefix_concat_iff]
  exact ⟨fun all => ⟨fun start begins => all start (Or.inr begins), all _ (Or.inl rfl)⟩,
    fun ⟨earlier, whole⟩ start begins => begins.elim (· ▸ whole) (earlier start)⟩

theorem peakOpen_le_iff {opens closes : α → Bool} {items : List α} {limit : Nat} :
    peakOpen opens closes items ≤ limit ↔ NestsWithin opens closes limit items := by
  simp only [peakOpen, peakOf_le_iff, NestsWithin, Nat.sub_le_iff_le_add']

/-! ## Images -/

theorem prefix_of_filterMap {f : α → Option γ} {items : List α} {start : List γ}
    (begins : start <+: items.filterMap f) :
    ∃ origin, origin <+: items ∧ origin.filterMap f = start := by
  obtain ⟨tail, split⟩ := begins
  obtain ⟨origin, rest, rfl, mapped, -⟩ := List.filterMap_eq_append_iff.mp split.symm
  exact ⟨origin, List.prefix_append origin rest, mapped⟩

theorem countP_images (f : α → Option γ) (p : γ → Bool) (items : List α) :
    (items.filterMap f).countP p = items.countP fun item => (f item).any p := by
  rw [List.countP_filterMap]
  congr 1
  funext item
  cases f item <;> rfl

theorem balanced_images {f : α → Option γ} {opens closes : γ → Bool} {items : List α} :
    Balanced (fun item => (f item).any opens) (fun item => (f item).any closes) items ↔
      Balanced opens closes (items.filterMap f) := by
  constructor
  · intro balanced
    refine ⟨fun start begins => ?_, ?_⟩
    · obtain ⟨origin, within, rfl⟩ := prefix_of_filterMap begins
      simpa only [countP_images] using balanced.covered origin within
    · simpa only [countP_images] using balanced.settled
  · intro balanced
    refine ⟨fun start begins => ?_, ?_⟩
    · simpa only [countP_images] using balanced.covered _ (begins.filterMap f)
    · simpa only [countP_images] using balanced.settled

theorem nestsWithin_images {f : α → Option γ} {opens closes : γ → Bool} {limit : Nat}
    {items : List α} :
    NestsWithin (fun item => (f item).any opens) (fun item => (f item).any closes) limit items ↔
      NestsWithin opens closes limit (items.filterMap f) := by
  constructor
  · intro bounded start begins
    obtain ⟨origin, within, rfl⟩ := prefix_of_filterMap begins
    simpa only [countP_images] using bounded origin within
  · intro bounded start begins
    simpa only [countP_images] using bounded _ (begins.filterMap f)

theorem any_guard {kept p : α → Bool} (implied : ∀ item, p item = true → kept item = true) :
    (fun item => (Option.guard kept item).any p) = p := by
  funext item
  cases passes : kept item with
  | true => simp [Option.guard, passes]
  | false =>
      have refused : p item = false := by
        cases holds : p item with
        | false => rfl
        | true => exact absurd (implied item holds) (by simp [passes])
      simp [Option.guard, passes, refused]

section Filter

variable (kept : α → Bool) {opens closes : α → Bool} {items : List α}
  (opening : ∀ item, opens item = true → kept item = true)
  (closing : ∀ item, closes item = true → kept item = true)

include opening closing

theorem balanced_filter :
    Balanced opens closes (items.filter kept) ↔ Balanced opens closes items := by
  rw [← List.filterMap_eq_filter, ← balanced_images, any_guard opening, any_guard closing]

theorem nestsWithin_filter {limit : Nat} :
    NestsWithin opens closes limit (items.filter kept) ↔
      NestsWithin opens closes limit items := by
  rw [← List.filterMap_eq_filter, ← nestsWithin_images, any_guard opening, any_guard closing]

end Filter

end QueryGate
