import QueryGate.Nesting
import QueryGate.Quoted

/-! # The division of a text, byte by byte

`read` divides a whole text. Here the division is followed as it goes: a cursor holds what it
knows between two bytes, so that a text can be read in pieces and every byte can be asked
whether it was taken for code.
-/

namespace QueryGate.Nesting

theorem regionOf_of_ne {quote : UInt8} (visible : quote ≠ 0) : regionOf quote = some quote :=
  if_neg visible

theorem eq_of_regionOf {b quote : UInt8} (opened : regionOf b = some quote) : b = quote := by
  unfold regionOf at opened
  split at opened
  · cases opened
  · exact Option.some.inj opened

/-- Whether the byte after a text is escaped. -/
def escapedAfter (t : Text) : Bool := t.foldl escapesNext false

theorem escapedAfter_append (s t : Text) :
    escapedAfter (s ++ t) = t.foldl escapesNext (escapedAfter s) := by
  simp [escapedAfter, List.foldl_append]

/-- Where the division of a text stands between two bytes. -/
structure Cursor where
  /-- The quote of the region around it, if there is one. -/
  region : Option UInt8 := none
  /-- Whether the next byte is escaped. -/
  escaped : Bool := false
  deriving Repr, DecidableEq

namespace Cursor

section

variable (quotes : Text)

/-- The cursor past one more byte. -/
def next (cursor : Cursor) (b : UInt8) : Cursor where
  region :=
    match cursor.region with
    | some quote => if b = quote ∧ cursor.escaped = false then none else some quote
    | none => if b ∈ quotes ∧ cursor.escaped = false then regionOf b else none
  escaped := escapesNext cursor.escaped b

/-- The cursor past a text. -/
def past (cursor : Cursor) (t : Text) : Cursor := t.foldl (next quotes) cursor

/-- Whether a byte at the cursor is code: no region is open, and it is no quote that counts. -/
def keeps (cursor : Cursor) (b : UInt8) : Bool :=
  cursor.region.isNone && !decide (b ∈ quotes ∧ cursor.escaped = false)

/-- Whether byte number `i` of a text that starts at the cursor is code. -/
def takes (cursor : Cursor) (t : Text) (i : Nat) : Bool :=
  t[i]?.any ((cursor.past quotes (t.take i)).keeps quotes)

end

variable {quotes : Text}

@[simp] theorem past_nil (cursor : Cursor) : cursor.past quotes [] = cursor := rfl

@[simp] theorem past_cons (cursor : Cursor) (b : UInt8) (t : Text) :
    cursor.past quotes (b :: t) = (cursor.next quotes b).past quotes t := rfl

@[simp] theorem past_append (cursor : Cursor) (s t : Text) :
    cursor.past quotes (s ++ t) = (cursor.past quotes s).past quotes t := by
  simp [past, List.foldl_append]

variable (quotes) in
theorem past_escaped (cursor : Cursor) (t : Text) :
    (cursor.past quotes t).escaped = t.foldl escapesNext cursor.escaped := by
  induction t generalizing cursor with
  | nil => rfl
  | cons b t ih => simpa [next] using ih (cursor.next quotes b)

theorem keeps_of_region {cursor : Cursor} {quote : UInt8} (inside : cursor.region = some quote) :
    cursor.keeps quotes = fun _ => false := by
  funext b
  simp [keeps, inside]

theorem takes_zero (cursor : Cursor) (b : UInt8) (t : Text) :
    cursor.takes quotes (b :: t) 0 = cursor.keeps quotes b := by
  simp [takes]

theorem takes_of_region {cursor : Cursor} {t : Text} {i : Nat} {quote : UInt8}
    (inside : (cursor.past quotes (t.take i)).region = some quote) :
    cursor.takes quotes t i = false := by
  rw [takes, keeps_of_region inside]
  cases t[i]? <;> rfl

theorem takes_left (cursor : Cursor) {s : Text} (t : Text) {i : Nat} (inside : i < s.length) :
    cursor.takes quotes (s ++ t) i = cursor.takes quotes s i := by
  rw [takes, takes, List.take_append_of_le_length (Nat.le_of_lt inside),
    List.getElem?_append_left inside]

theorem takes_right (cursor : Cursor) (s t : Text) (i : Nat) :
    cursor.takes quotes (s ++ t) (s.length + i) = (cursor.past quotes s).takes quotes t i := by
  simp [takes, List.take_append, List.take_of_length_le, List.getElem?_append_right]

theorem takes_append_iff (cursor : Cursor) (s t : Text) (expected : Nat → Prop) :
    (∀ i < (s ++ t).length, cursor.takes quotes (s ++ t) i = true ↔ expected i) ↔
      (∀ i < s.length, cursor.takes quotes s i = true ↔ expected i) ∧
      (∀ i < t.length, (cursor.past quotes s).takes quotes t i = true ↔ expected (s.length + i)) := by
  constructor
  · intro all
    refine ⟨fun i inside => ?_, fun i inside => ?_⟩
    · rw [← takes_left cursor t inside]
      exact all i (by simp only [List.length_append]; omega)
    · rw [← takes_right]
      exact all _ (by simp only [List.length_append]; omega)
  · rintro ⟨first, second⟩ i inside
    by_cases early : i < s.length
    · rw [takes_left cursor t early]
      exact first i early
    · obtain ⟨j, rfl⟩ : ∃ j, i = s.length + j := ⟨i - s.length, by omega⟩
      rw [takes_right]
      exact second j (by simpa using inside)

theorem next_of_not_mem {escaped : Bool} {b : UInt8} (plain : b ∉ quotes) :
    next quotes ⟨none, escaped⟩ b = ⟨none, escapesNext escaped b⟩ := by
  simp [next, plain]

theorem past_of_plain {escaped : Bool} {t : Text} (plain : ∀ b ∈ t, b ∉ quotes) :
    past quotes ⟨none, escaped⟩ t = ⟨none, t.foldl escapesNext escaped⟩ := by
  induction t generalizing escaped with
  | nil => rfl
  | cons b t ih =>
      rw [past_cons, next_of_not_mem (plain b (by simp)), List.foldl_cons]
      exact ih fun other member => plain other (by simp [member])

theorem takes_of_plain {escaped : Bool} {t : Text} (plain : ∀ b ∈ t, b ∉ quotes) {i : Nat}
    (inside : i < t.length) : takes quotes ⟨none, escaped⟩ t i = true := by
  rw [takes, past_of_plain fun b member => plain b (List.mem_of_mem_take member),
    List.getElem?_eq_getElem inside]
  simp [keeps, plain _ (List.getElem_mem inside)]

theorem takes_plain_append_iff {before s : Text} (plain : ∀ b ∈ s, b ∉ quotes) (t : Text)
    (hidden : Nat → Prop) :
    (∀ i < (s ++ t).length,
        takes quotes ⟨none, escapedAfter before⟩ (s ++ t) i = true ↔ ¬ hidden i) ↔
      (∀ i < s.length, ¬ hidden i) ∧
      (∀ i < t.length, takes quotes ⟨none, escapedAfter (before ++ s)⟩ t i = true ↔
        ¬ hidden (s.length + i)) := by
  rw [takes_append_iff, past_of_plain plain, escapedAfter_append]
  refine and_congr_left fun _ => forall₂_congr fun i inside => ?_
  rw [takes_of_plain plain inside, eq_self, true_iff]

/-! ## Literals -/

section Literal

variable {quote : UInt8} {t : Text} {n : Nat}
  (unescaping : quote ≠ Byte.backslash) (closes : Quoted.span? quote t = some n)

include unescaping closes

variable (quotes) in
theorem past_literal :
    past quotes ⟨some quote, false⟩ (t.take n) = ⟨none, false⟩ ∧
      ∀ i < n, (past quotes ⟨some quote, false⟩ (t.take i)).region = some quote := by
  fun_induction Quoted.span? quote t generalizing n with
  | case1 => simp at closes
  | case2 => simp at closes
  | case3 c rest ih =>
      obtain ⟨m, closed, rfl⟩ := Option.map_eq_some_iff.mp closes
      have inside : next quotes (next quotes ⟨some quote, false⟩ Byte.backslash) c =
          ⟨some quote, false⟩ := by
        simp [next, escapesNext, unescaping.symm]
      obtain ⟨ends, within⟩ := ih closed
      refine ⟨?_, fun i before => ?_⟩
      · simpa [inside] using ends
      · cases i with
        | zero => rfl
        | succ i =>
            cases i with
            | zero => simp [next, unescaping.symm]
            | succ i => simpa [inside] using within i (by omega)
  | case4 rest other =>
      obtain rfl := Option.some.inj closes
      refine ⟨by simp [next, escapesNext, other], fun i before => ?_⟩
      obtain rfl : i = 0 := by omega
      rfl
  | case5 c rest plain other ih =>
      obtain ⟨m, closed, rfl⟩ := Option.map_eq_some_iff.mp closes
      have inside : next quotes ⟨some quote, false⟩ c = ⟨some quote, false⟩ := by
        simp [next, escapesNext, plain, other]
      obtain ⟨ends, within⟩ := ih closed
      refine ⟨by simpa [inside] using ends, fun i before => ?_⟩
      cases i with
      | zero => rfl
      | succ i => simpa [inside] using within i (by omega)

/-- A literal whose opening quote is not escaped holds no code, and leaves no region open. -/
theorem past_quoted (opening : quote ∈ quotes) (visible : quote ≠ 0) :
    past quotes ⟨none, false⟩ (quote :: t.take n) = ⟨none, false⟩ ∧
      ∀ i ≤ n, takes quotes ⟨none, false⟩ (quote :: t.take n) i = false := by
  have opens : next quotes ⟨none, false⟩ quote = ⟨some quote, false⟩ := by
    simp [next, regionOf_of_ne visible, escapesNext, opening, unescaping]
  obtain ⟨ends, within⟩ := past_literal quotes unescaping closes
  refine ⟨by rw [past_cons, opens, ends], fun i before => ?_⟩
  cases i with
  | zero => simp [takes_zero, keeps, opening]
  | succ i =>
      have inside : (past quotes ⟨none, false⟩ ((quote :: t.take n).take (i + 1))).region =
          some quote := by
        rw [List.take_succ_cons, past_cons, opens, List.take_take,
          Nat.min_eq_left (Nat.le_of_lt before), within i before]
      exact takes_of_region inside

end Literal

end Cursor

/-- Whether the division of a text takes byte number `i` for code. -/
def isCode (quotes t : Text) (i : Nat) : Bool := Cursor.takes quotes {} t i

section Division

variable (quotes : Text)

theorem readFrom_cons (cursor : Cursor) (b : UInt8) (t : Text) :
    readFrom quotes cursor.region cursor.escaped (b :: t) =
      let after := cursor.next quotes b
      let reading := readFrom quotes after.region after.escaped t
      if cursor.keeps quotes b then { reading with code := b :: reading.code } else reading := by
  obtain ⟨region, escaped⟩ := cursor
  cases region with
  | none =>
      by_cases opens : b ∈ quotes ∧ escaped = false
      · simp [readFrom, Cursor.next, Cursor.keeps, opens]
      · simp [readFrom, Cursor.next, Cursor.keeps, opens]
  | some quote =>
      by_cases closes : b = quote ∧ escaped = false <;>
        simp [readFrom, Cursor.next, Cursor.keeps, closes]

theorem readFrom_closed (cursor : Cursor) (t : Text) :
    (readFrom quotes cursor.region cursor.escaped t).closed =
      (cursor.past quotes t).region.isNone := by
  induction t generalizing cursor with
  | nil => rfl
  | cons b t ih =>
      rw [readFrom_cons, Cursor.past_cons, ← ih]
      dsimp only
      split <;> rfl

theorem readFrom_code (cursor : Cursor) (t : Text) :
    (readFrom quotes cursor.region cursor.escaped t).code =
      ((List.range t.length).filter (cursor.takes quotes t)).filterMap (t[·]?) := by
  induction t generalizing cursor with
  | nil => rfl
  | cons b t ih =>
      have later : (List.map Nat.succ (List.range t.length)).filter (cursor.takes quotes (b :: t)) =
          ((List.range t.length).filter ((cursor.next quotes b).takes quotes t)).map Nat.succ := by
        rw [List.filter_map]
        congr 2
      have rest :
          (((List.range t.length).filter ((cursor.next quotes b).takes quotes t)).map
            Nat.succ).filterMap ((b :: t)[·]?) =
          (readFrom quotes (cursor.next quotes b).region (cursor.next quotes b).escaped t).code := by
        rw [ih, List.filterMap_map]
        congr 1
      rw [readFrom_cons, List.length_cons, List.range_succ_eq_map, List.filter_cons, later,
        Cursor.takes_zero]
      dsimp only
      split
      · rw [List.filterMap_cons, rest]
        rfl
      · exact rest.symm

end Division

end QueryGate.Nesting
