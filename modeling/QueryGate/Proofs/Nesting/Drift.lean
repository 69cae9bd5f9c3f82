import Mathlib.Data.List.Nodup
import QueryGate.Proofs.Nesting.Check
import QueryGate.Proofs.Nesting.Reading

/-! # Two readings of one text

A lexer sees delimiters at some positions of a text, and the check of nesting takes some of its
bytes for code. Where the two differ, what the lexer sees is nested as the code is, up to a drift:
the delimiters that the check missed in its quoted regions, less those it counted although the
lexer has them in a literal or a comment. The drift decides whether what the check guarantees of
the code holds of the tokens, and two readings that agree on the delimiters have none.
-/

namespace QueryGate.Nesting

/-! ## Seen positions -/

/-- The byte at a position, if the position is seen. -/
def byteSeen (t : Text) (seen : Nat → Bool) (i : Nat) : Option UInt8 :=
  if seen i then t[i]? else none

/-- The bytes at the seen positions of a text, in order. -/
def bytesSeen (t : Text) (seen : Nat → Bool) : Text :=
  (List.range t.length).filterMap (byteSeen t seen)

/-- How often a byte stands at a seen position among the first `n`. -/
def timesSeen (t : Text) (seen : Nat → Bool) (b : UInt8) (n : Nat) : Nat :=
  (List.range n).countP fun i => (byteSeen t seen i).any (· == b)

theorem byteSeen_eq_some_iff {t : Text} {seen : Nat → Bool} {i : Nat} {b : UInt8} :
    byteSeen t seen i = some b ↔ seen i = true ∧ t[i]? = some b := by
  cases visible : seen i <;> simp [byteSeen, visible]

theorem code_eq_bytesSeen (quotes t : Text) :
    (read quotes t).code = bytesSeen t (isCode quotes t) := by
  rw [read, readFrom_code quotes {} t, List.filterMap_filter]
  rfl

theorem prefix_range_iff {start : List Nat} {n : Nat} :
    start <+: List.range n ↔ ∃ m ≤ n, start = List.range m := by
  constructor
  · intro begins
    have short : start.length ≤ n := by simpa using begins.length_le
    refine ⟨start.length, short, ?_⟩
    rw [List.prefix_iff_eq_take.mp begins, List.take_range, List.length_range]
  · rintro ⟨m, short, rfl⟩
    rw [← Nat.min_eq_left short, ← List.take_range]
    exact List.take_prefix _ _

section Seen

variable {t : Text} {seen : Nat → Bool} {opening closing : UInt8}

theorem balanced_bytesSeen :
    Balanced (· == opening) (· == closing) (bytesSeen t seen) ↔
      (∀ n ≤ t.length, timesSeen t seen closing n ≤ timesSeen t seen opening n) ∧
        timesSeen t seen closing t.length = timesSeen t seen opening t.length := by
  rw [bytesSeen, ← balanced_images]
  constructor
  · intro balanced
    exact ⟨fun n short => balanced.covered _ (prefix_range_iff.mpr ⟨n, short, rfl⟩),
      balanced.settled⟩
  · rintro ⟨covered, settled⟩
    refine ⟨fun start begins => ?_, settled⟩
    obtain ⟨n, short, rfl⟩ := prefix_range_iff.mp begins
    exact covered n short

theorem nestsWithin_bytesSeen {limit : Nat} :
    NestsWithin (· == opening) (· == closing) limit (bytesSeen t seen) ↔
      ∀ n ≤ t.length, timesSeen t seen opening n ≤ timesSeen t seen closing n + limit := by
  rw [bytesSeen, ← nestsWithin_images]
  constructor
  · exact fun bounded n short => bounded _ (prefix_range_iff.mpr ⟨n, short, rfl⟩)
  · intro bounded start begins
    obtain ⟨n, short, rfl⟩ := prefix_range_iff.mp begins
    exact bounded n short

end Seen

/-- The watched bytes among those that are seen are the marked ones, in the order of the marks. -/
theorem bytesSeen_filter {t : Text} {seen : Nat → Bool} {watched : UInt8 → Bool}
    {marks : List (Nat × UInt8)} (sorted : marks.Pairwise fun first second => first.1 < second.1)
    (marked : ∀ i b, (i, b) ∈ marks ↔ byteSeen t seen i = some b ∧ watched b = true) :
    (bytesSeen t seen).filter watched = marks.map Prod.snd := by
  let found (i : Nat) : Option (Nat × UInt8) := ((byteSeen t seen i).filter watched).map (i, ·)
  have found_iff : ∀ i mark, found i = some mark ↔
      mark.1 = i ∧ byteSeen t seen i = some mark.2 ∧ watched mark.2 = true := by
    rintro i ⟨j, b⟩
    simp only [found, Option.map_eq_some_iff, Option.filter_eq_some_iff, Prod.mk.injEq]
    constructor
    · rintro ⟨c, described, rfl, rfl⟩
      exact ⟨rfl, described⟩
    · rintro ⟨rfl, described⟩
      exact ⟨b, described, rfl, rfl⟩
  have ascending : ((List.range t.length).filterMap found).Pairwise
      fun first second => first.1 < second.1 := by
    refine List.pairwise_filterMap.mpr (List.pairwise_lt_range.imp ?_)
    intro i j before first one second other
    rwa [((found_iff i first).mp one).1, ((found_iff j second).mp other).1]
  have members : ∀ mark, mark ∈ (List.range t.length).filterMap found ↔ mark ∈ marks := by
    rintro ⟨i, b⟩
    rw [marked, List.mem_filterMap]
    constructor
    · rintro ⟨j, -, described⟩
      obtain ⟨rfl, seen, wanted⟩ := (found_iff j _).mp described
      exact ⟨seen, wanted⟩
    · rintro ⟨visible, wanted⟩
      have inside := (List.getElem?_eq_some_iff.mp (byteSeen_eq_some_iff.mp visible).2).1
      exact ⟨i, List.mem_range.mpr inside, (found_iff i _).mpr ⟨rfl, visible, wanted⟩⟩
  have distinct : ∀ {first second : Nat × UInt8}, first.1 < second.1 → first ≠ second := by
    rintro first _ before rfl
    exact Nat.lt_irrefl _ before
  have same : (List.range t.length).filterMap found = marks :=
    ((List.perm_ext_iff_of_nodup (ascending.imp distinct) (sorted.imp distinct)).mpr
      members).eq_of_pairwise (fun _ _ _ _ first second => absurd first (Nat.lt_asymm second))
      ascending sorted
  rw [← same, bytesSeen, List.filter_filterMap, List.map_filterMap]
  congr 1
  funext i
  simp only [found, Option.map_map, Function.comp_def, Option.map_id']

theorem pairwise_marks {α : Type} {place : α → Nat} {byte : α → Option UInt8} {items : List α}
    (increasing : items.Pairwise fun first second => place first < place second) :
    (items.filterMap fun item => (byte item).map (place item, ·)).Pairwise
      fun first second => first.1 < second.1 := by
  refine List.pairwise_filterMap.mpr (increasing.imp fun before first one second other => ?_)
  obtain ⟨_, -, rfl⟩ := Option.map_eq_some_iff.mp one
  obtain ⟨_, -, rfl⟩ := Option.map_eq_some_iff.mp other
  exact before

section Marks

variable {α : Type} {items : List α} {mark : α → Option (Nat × UInt8)} {t : Text}
  {seen : Nat → Bool} {watched : UInt8 → Bool} {opening closing : UInt8}
  (sorted : (items.filterMap mark).Pairwise fun first second => first.1 < second.1)
  (marked : ∀ i b, (i, b) ∈ items.filterMap mark ↔ byteSeen t seen i = some b ∧ watched b = true)
  (opens : watched opening = true) (closes : watched closing = true)

include sorted marked opens closes

theorem balanced_marks :
    Balanced (fun item => (mark item).any (·.2 == opening))
        (fun item => (mark item).any (·.2 == closing)) items ↔
      Balanced (· == opening) (· == closing) (bytesSeen t seen) := by
  rw [balanced_images, ← balanced_filter watched (by simp [opens]) (by simp [closes]),
    bytesSeen_filter sorted marked, ← List.filterMap_eq_map]
  exact @balanced_images _ _ (some ∘ Prod.snd) (· == opening) (· == closing) _

theorem nestsWithin_marks {limit : Nat} :
    NestsWithin (fun item => (mark item).any (·.2 == opening))
        (fun item => (mark item).any (·.2 == closing)) limit items ↔
      NestsWithin (· == opening) (· == closing) limit (bytesSeen t seen) := by
  rw [nestsWithin_images,
    ← nestsWithin_filter watched (by simp [opens]) (by simp [closes]),
    bytesSeen_filter sorted marked, ← List.filterMap_eq_map]
  exact @nestsWithin_images _ _ (some ∘ Prod.snd) (· == opening) (· == closing) limit _

end Marks

/-! ## The drift between two readings -/

section

variable (quotes t : Text) (seen : Nat → Bool) (pair : Delimiter) (n : Nat)

/-- How many pairs the check of nesting has open after `n` bytes. -/
def openInCode : Int :=
  timesSeen t (isCode quotes t) pair.opening n - timesSeen t (isCode quotes t) pair.closing n

/-- How often a byte among the first `n` is seen that the check takes for quoted. -/
def missed (b : UInt8) : Nat := timesSeen t (fun i => seen i && !isCode quotes t i) b n

/-- How often the check takes a byte among the first `n` for code that is not seen. -/
def invented (b : UInt8) : Nat := timesSeen t (fun i => isCode quotes t i && !seen i) b n

/-- How many more pairs are seen open after `n` bytes than the check has open. -/
def drift : Int :=
  (missed quotes t seen n pair.opening - missed quotes t seen n pair.closing) -
    (invented quotes t seen n pair.opening - invented quotes t seen n pair.closing)

end

/-- The drift neither takes the open pairs below zero nor leaves one open. -/
structure Settles (quotes t : Text) (seen : Nat → Bool) (pair : Delimiter) : Prop where
  covered : ∀ n ≤ t.length, 0 ≤ openInCode quotes t pair n + drift quotes t seen pair n
  settled : drift quotes t seen pair t.length = 0

/-- The drift takes the open pairs nowhere above a limit. -/
def StaysWithin (quotes t : Text) (seen : Nat → Bool) (pair : Delimiter) (limit : Nat) : Prop :=
  ∀ n ≤ t.length, openInCode quotes t pair n + drift quotes t seen pair n ≤ limit

/-- Two readings agree on the bytes of a kind. -/
def AgreesOn (watched : UInt8 → Bool) (quotes t : Text) (seen : Nat → Bool) : Prop :=
  ∀ i b, t[i]? = some b → watched b = true → isCode quotes t i = seen i

section Drift

variable {quotes t : Text} {seen : Nat → Bool} {pair : Delimiter}

theorem timesSeen_add (one other : Nat → Bool) (b : UInt8) (n : Nat) :
    timesSeen t one b n + timesSeen t (fun i => other i && !one i) b n =
      timesSeen t other b n + timesSeen t (fun i => one i && !other i) b n := by
  induction n with
  | zero => rfl
  | succ n ih =>
      have last : ∀ seen : Nat → Bool, timesSeen t seen b (n + 1) =
          timesSeen t seen b n + if (byteSeen t seen n).any (· == b) then 1 else 0 := by
        intro seen
        rw [timesSeen, List.range_succ, List.countP_append, List.countP_singleton]
        rfl
      cases mine : one n <;> cases theirs : other n <;>
        simp only [last, byteSeen, mine, theirs, Bool.not_true, Bool.not_false, Bool.and_self,
          Bool.and_true, Bool.and_false] <;> omega

variable (quotes t seen pair) in
theorem openInCode_add_drift (n : Nat) :
    openInCode quotes t pair n + drift quotes t seen pair n =
      (timesSeen t seen pair.opening n : Int) - timesSeen t seen pair.closing n := by
  have openings := timesSeen_add (t := t) (isCode quotes t) seen pair.opening n
  have closings := timesSeen_add (t := t) (isCode quotes t) seen pair.closing n
  unfold openInCode drift missed invented
  omega

theorem drift_of_agreesOn {watched : UInt8 → Bool} (agrees : AgreesOn watched quotes t seen)
    (opening : watched pair.opening = true) (closing : watched pair.closing = true) (n : Nat) :
    drift quotes t seen pair n = 0 := by
  have same : ∀ b, watched b = true → timesSeen t seen b n = timesSeen t (isCode quotes t) b n := by
    intro b wanted
    refine List.countP_congr fun i _ => ?_
    simp only [Option.any_eq_true, beq_iff_eq, exists_eq_right, byteSeen_eq_some_iff]
    refine and_congr_left fun found => ?_
    rw [agrees i b found wanted]
  have openings := openInCode_add_drift quotes t seen pair n
  rw [same _ opening, same _ closing] at openings
  unfold openInCode at openings
  omega

theorem drift_self (n : Nat) : drift quotes t (isCode quotes t) pair n = 0 := by
  have agrees : AgreesOn (fun _ => true) quotes t (isCode quotes t) := fun _ _ _ _ => rfl
  exact drift_of_agreesOn agrees rfl rfl n

variable (quotes) in
/-- What is seen stays within a limit exactly as far as the drift lets it. -/
theorem nestsWithin_iff_staysWithin {limit : Nat} :
    NestsWithin (· == pair.opening) (· == pair.closing) limit (bytesSeen t seen) ↔
      StaysWithin quotes t seen pair limit := by
  rw [nestsWithin_bytesSeen]
  refine forall₂_congr fun n _ => ?_
  rw [openInCode_add_drift]
  omega

section Accepted

variable {policy : Policy} {report : Report} (accepted : check policy t = .ok report)
  (member : pair ∈ policy.delimiters) (distinct : pair.opening ≠ pair.closing)

include accepted member distinct

theorem balanced_iff_settles :
    Balanced (· == pair.opening) (· == pair.closing) (bytesSeen t seen) ↔
      Settles policy.quotes t seen pair := by
  have code := balanced_of_check accepted member distinct
  rw [code_eq_bytesSeen, balanced_bytesSeen] at code
  have whole := openInCode_add_drift policy.quotes t seen pair t.length
  have closed : openInCode policy.quotes t pair t.length = 0 := by
    unfold openInCode
    omega
  rw [balanced_bytesSeen]
  constructor
  · rintro ⟨covered, settled⟩
    refine ⟨fun n short => ?_, by omega⟩
    have before := covered n short
    rw [openInCode_add_drift]
    omega
  · rintro ⟨covered, settled⟩
    refine ⟨fun n short => ?_, by omega⟩
    have before := covered n short
    rw [openInCode_add_drift] at before
    omega

variable {watched : UInt8 → Bool} (agrees : AgreesOn watched policy.quotes t seen)
  (opening : watched pair.opening = true) (closing : watched pair.closing = true)

include agrees opening closing

theorem settles_of_agreesOn : Settles policy.quotes t seen pair := by
  have code := balanced_of_check accepted member distinct
  rw [code_eq_bytesSeen, balanced_iff_settles accepted member distinct] at code
  have still := fun n => drift_of_agreesOn agrees opening closing n
  refine ⟨fun n short => ?_, still _⟩
  simpa only [drift_self, still] using code.covered n short

theorem staysWithin_of_agreesOn (tracked : pair.tracked = true) :
    StaysWithin policy.quotes t seen pair policy.maxDepth := by
  have code := nestsWithin_of_check accepted member distinct tracked
  rw [code_eq_bytesSeen, nestsWithin_iff_staysWithin policy.quotes] at code
  have still := fun n => drift_of_agreesOn agrees opening closing n
  intro n short
  simpa only [drift_self, still] using code n short

end Accepted

end Drift

end QueryGate.Nesting
