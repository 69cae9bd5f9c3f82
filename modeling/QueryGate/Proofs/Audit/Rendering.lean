import QueryGate.Audit.Json
import QueryGate.Proofs.Audit.Grammar
import QueryGate.Proofs.Digits
import QueryGate.Proofs.Joining

/-! # Written objects are read back

What is written as an object is one object of the grammar, and its members stand for what they were written
from. Whatever bytes a text has, they end neither its string nor the line.
-/

namespace QueryGate.Audit.Json

/-! ## Strings -/

/-- A byte that stands for itself inside a string. -/
def isPlain (b : UInt8) : Bool :=
  b != Byte.doubleQuote && b != Byte.backslash && !Byte.isControl b

/-- Every byte of the text stands for itself. -/
def Plain (t : Text) : Prop := ∀ b ∈ t, isPlain b = true

theorem plain_of_all {t : Text} (all : t.all isPlain = true) : Plain t := List.all_eq_true.mp all

@[simp] theorem plain_cons {b : UInt8} {t : Text} : Plain (b :: t) ↔ isPlain b = true ∧ Plain t :=
  List.forall_mem_cons

@[simp] theorem plain_append {s t : Text} : Plain (s ++ t) ↔ Plain s ∧ Plain t :=
  List.forall_mem_append

theorem hexDigit_spec : ∀ n < 16, Byte.isHexDigit (hexDigit n) = true ∧ Byte.hexValue (hexDigit n) = n := by
  decide

theorem character?_of_isPlain {b : UInt8} (plain : isPlain b = true) (rest : Text) :
    character? (b :: rest) = some ([b], rest) := by
  simp only [isPlain, Bool.and_eq_true, bne_iff_ne, Bool.not_eq_true'] at plain
  obtain ⟨⟨unquoted, unescaped⟩, visible⟩ := plain
  simp [character?, unquoted, unescaped, visible]

theorem quad?_byte (b : UInt8) (rest : Text) :
    quad? (Byte.zero :: Byte.zero :: hexDigit (b.toNat / 16) :: hexDigit (b.toNat % 16) :: rest) =
      some (b.toNat, rest) := by
  have size := b.toNat_lt
  obtain ⟨isHigh, high⟩ := hexDigit_spec (b.toNat / 16) (by omega)
  obtain ⟨isLow, low⟩ := hexDigit_spec (b.toNat % 16) (by omega)
  have zero : Byte.isHexDigit Byte.zero = true ∧ Byte.hexValue Byte.zero = 0 := by decide
  simp [quad?, Document.digitsValue, isHigh, high, isLow, low, zero]
  omega

theorem character?_number {b : UInt8} (control : Byte.isControl b = true) (rest : Text) :
    character? (ascii "\\u00" ++ [hexDigit (b.toNat / 16), hexDigit (b.toNat % 16)] ++ rest) =
      some ([b], rest) := by
  have encoded : ∀ b, Byte.isControl b = true →
      b.toNat < 0xD800 ∧ String.utf8EncodeChar (Char.ofNat b.toNat) = [b] := by decide +kernel
  obtain ⟨small, itself⟩ := encoded b control
  have number : codePoint? (Byte.zero :: Byte.zero :: hexDigit (b.toNat / 16) ::
      hexDigit (b.toNat % 16) :: rest) = some (b.toNat, rest) := by
    simp [codePoint?, quad?_byte, small]
  have bytes : ascii "\\u00" = [Byte.backslash, 0x75, Byte.zero, Byte.zero] := by decide
  simp [bytes, character?, number, itself]

theorem character?_escapeByte (b : UInt8) (rest : Text) :
    character? (escapeByte b ++ rest) = some ([b], rest) := by
  unfold escapeByte
  split
  · next same => subst same; rfl
  split
  · next same => subst same; rfl
  split
  · next same => subst same; rfl
  split
  · next same => subst same; rfl
  split
  · next same => subst same; rfl
  split
  · next same => subst same; rfl
  split
  · next same => subst same; rfl
  split
  · next control => exact character?_number control rest
  · next unquoted unescaped _ _ _ _ _ visible =>
    exact character?_of_isPlain (by simp [isPlain, unquoted, unescaped, visible]) rest

theorem inside_escape (t rest : Text) : Inside (escape t ++ Byte.doubleQuote :: rest) t rest := by
  induction t with
  | nil => exact .close
  | cons b t ih =>
      rw [escape, List.flatMap_cons, List.append_assoc]
      exact .character (character?_escapeByte b _) ih

theorem escape_of_plain {t : Text} (plain : Plain t) : escape t = t := by
  have itself : ∀ b, isPlain b = true → escapeByte b = [b] := by decide +kernel
  induction t with
  | nil => rfl
  | cons b t ih =>
      obtain ⟨first, others⟩ := plain_cons.mp plain
      rw [escape, List.flatMap_cons, itself b first]
      exact congrArg (b :: ·) (ih others)

/-! ## Numbers -/

theorem plain_decimal (n : Nat) : Plain (Text.decimal n) := by
  have digit : ∀ b, Byte.isDigit b = true → isPlain b = true := by decide +kernel
  exact fun b member => digit b (Text.isDigit_of_mem_decimal b member)

theorem plain_signedDecimal (n : Int) : Plain (Text.signedDecimal n) := by
  unfold Text.signedDecimal
  split
  · exact plain_cons.mpr ⟨rfl, plain_decimal _⟩
  · exact plain_decimal _

/-- A byte that a number could go on with. -/
def isNumeric (b : UInt8) : Bool := Byte.isDigit b || b == Byte.dot || Byte.lower b == 0x65

section Numbers

variable {rest : Text} (apart : Text.Apart isNumeric rest)

include apart

theorem digits?_decimal (n : Nat) : digits? (Text.decimal n ++ rest) = some (Text.decimal n, rest) := by
  have ends : Text.Apart Byte.isDigit rest := apart.mono fun b digit => by simp [isNumeric, digit]
  have run := ends.takeWhile_run (Text.isDigit_of_mem_decimal (n := n))
  simp [digits?, run, Text.decimal_ne_nil]

theorem whole?_decimal (n : Nat) : whole? (Text.decimal n ++ rest) = some (Text.decimal n, rest) := by
  obtain rfl | positive := Nat.eq_zero_or_pos n
  · have zero : Text.decimal 0 = [Byte.zero] := by decide
    simp [whole?, zero]
  · have begins : (Text.decimal n ++ rest).head? ≠ some Byte.zero := by
      rw [List.head?_append_of_ne_nil _ (Text.decimal_ne_nil n)]
      exact Text.head?_decimal positive
    rw [whole?, if_neg begins, digits?_decimal apart]

theorem fraction?_of_apart : fraction? rest = some ([], rest) := by
  refine if_neg fun dot => ?_
  have outside := apart _ dot
  revert outside
  decide

theorem exponent?_of_apart : exponent? rest = some (0, rest) := by
  refine if_neg fun mark => ?_
  obtain ⟨b, first, letter⟩ := (Option.any_eq_true _ _).mp mark
  have outside := apart b first
  simp [isNumeric, letter] at outside

theorem number?_signedDecimal (n : Int) : number? (Text.signedDecimal n ++ rest) = some ((n : ℚ), rest) := by
  have absolute := whole?_decimal apart n.natAbs
  by_cases negative : n < 0
  · have size : ((n.natAbs : ℕ) : ℚ) = -(n : ℚ) := by
      rw [← Int.cast_natCast, Int.ofNat_natAbs_of_nonpos negative.le, Int.cast_neg]
    simp [number?, Text.signedDecimal, negative, absolute, fraction?_of_apart apart,
      exponent?_of_apart apart, Text.digitsValue_decimal, size]
  · have size : ((n.natAbs : ℕ) : ℚ) = (n : ℚ) := by
      rw [← Int.cast_natCast, Int.natAbs_of_nonneg (not_lt.mp negative)]
    have unsigned : (Text.decimal n.natAbs).head? ≠ some Byte.minus := fun first =>
      Bool.noConfusion (Text.isDigit_of_mem_decimal _ (List.mem_of_mem_head? first))
    simp [number?, Text.signedDecimal, negative, unsigned, Text.decimal_ne_nil, absolute,
      fraction?_of_apart apart, exponent?_of_apart apart, Text.digitsValue_decimal, size]

end Numbers

/-! ## Objects -/

/-- What a written value stands for. -/
def Scalar.value : Scalar → Value
  | .word t | .string t => .string t
  | .number n => .number n

/-- A word is written without escapes, so it may have nothing that needs one. -/
def Scalar.IsFit : Scalar → Prop
  | .word t => Plain t
  | .string _ | .number _ => True

/-- A member as it is written has a plain key and a fit value. -/
structure FitField (field : String × Scalar) : Prop where
  key : Plain (ascii field.1)
  value : field.2.IsFit

/-- What a written member stands for. -/
def memberOf (field : String × Scalar) : Text × Value := (ascii field.1, field.2.value)

theorem inside_of_plain {t : Text} (plain : Plain t) (rest : Text) :
    Inside (t ++ Byte.doubleQuote :: rest) t rest := by
  have inside := inside_escape t rest
  rwa [escape_of_plain plain] at inside

theorem reads_render {s : Scalar} (fit : s.IsFit) {rest : Text} (apart : Text.Apart isNumeric rest) :
    Reads .value (s.render ++ rest) s.value rest := by
  cases s with
  | word t =>
      have inside := inside_of_plain fit rest
      simpa [Scalar.render, Scalar.value] using Reads.string inside
  | string t =>
      have inside := inside_escape t rest
      simpa [Scalar.render, Scalar.value] using Reads.string inside
  | number n => exact .number (number?_signedDecimal apart n)

theorem skip_cons {b : UInt8} (visible : isSpace b = false) (t : Text) : skip (b :: t) = b :: t := by
  simp [skip, visible]

theorem Reads.skip {t rest : Text} {value : Value} (reads : Reads .value t value rest) :
    Reads .value (skip t) value rest := by
  have visible : ∀ b, (kindOf? b).isSome = true → isSpace b = false := by decide +kernel
  have kind := reads.kind
  cases t with
  | nil => exact reads
  | cons b t =>
      rw [skip_cons (visible b (Option.isSome_of_eq_some kind))]
      exact reads

theorem readsKey_renderField {field : String × Scalar} (plain : Plain (ascii field.1)) (rest : Text) :
    ReadsKey (renderField field ++ rest) (ascii field.1) (field.2.render ++ rest) := by
  have inside := inside_of_plain plain (Byte.colon :: (field.2.render ++ rest))
  exact ⟨_, _, skip_cons rfl _, by simpa [renderField] using inside, skip_cons rfl _⟩

theorem apart_of_closes {b : UInt8} (closes : b = Byte.closeBrace ∨ b = Byte.comma) (rest : Text) :
    Text.Apart isNumeric (b :: rest) := by
  intro c first
  obtain rfl := Option.some.inj first
  rcases closes with rfl | rfl <;> rfl

theorem reads_members {field : String × Scalar} {more : List (String × Scalar)}
    (fit : ∀ f ∈ field :: more, FitField f) (rest : Text) :
    Reads .members ([Byte.comma].intercalate ((field :: more).map renderField) ++ Byte.closeBrace :: rest)
      (.object ((field :: more).map memberOf)) rest := by
  -- on the members behind the first: what follows a value is a brace just for the last of them
  induction more generalizing field with
  | nil =>
      have this := fit field (by simp)
      have value := reads_render this.value (apart_of_closes (.inl rfl) rest)
      rw [List.map_singleton, List.intercalate_singleton]
      exact .lastMember (readsKey_renderField this.key _) value.skip (skip_cons rfl _)
  | cons next more ih =>
      obtain ⟨this, others⟩ := List.forall_mem_cons.mp fit
      have later := ih others
      rw [List.map_cons, List.map_cons, List.intercalate_cons_cons, List.append_assoc, List.append_assoc,
        List.singleton_append, ← List.map_cons]
      have value := reads_render this.value (apart_of_closes (.inr rfl)
        ([Byte.comma].intercalate ((next :: more).map renderField) ++ Byte.closeBrace :: rest))
      exact .nextMember (readsKey_renderField this.key _) value.skip (skip_cons rfl _) later

theorem denotes_renderObject {field : String × Scalar} {more : List (String × Scalar)}
    (fit : ∀ f ∈ field :: more, FitField f) {value : Value} :
    Denotes (renderObject (field :: more)) value ↔ value = .object ((field :: more).map memberOf) := by
  have written : Denotes (renderObject (field :: more)) (.object ((field :: more).map memberOf)) := by
    have starts : skip (renderObject (field :: more)) = renderObject (field :: more) :=
      skip_cons rfl _
    exact ⟨[], starts.symm ▸ .object (reads_members fit []), rfl⟩
  exact ⟨fun denotes => denotes.unique written, fun same => same ▸ written⟩

/-! ## Lines stay lines -/

/-- No byte of the text is a control byte, so none ends a line. -/
def Visible (t : Text) : Prop := ∀ b ∈ t, Byte.isControl b = false

@[simp] theorem visible_nil : Visible [] := List.forall_mem_nil _

@[simp] theorem visible_cons {b : UInt8} {t : Text} :
    Visible (b :: t) ↔ Byte.isControl b = false ∧ Visible t := List.forall_mem_cons

@[simp] theorem visible_append {s t : Text} : Visible (s ++ t) ↔ Visible s ∧ Visible t :=
  List.forall_mem_append

theorem visible_of_plain {t : Text} (plain : Plain t) : Visible t := by
  intro b member
  have visible := plain b member
  simp_all [isPlain]

theorem visible_escape (t : Text) : Visible (escape t) := by
  have each : ∀ b, (escapeByte b).all (fun c => !Byte.isControl c) = true := by decide +kernel
  intro c member
  obtain ⟨b, -, inside⟩ := List.mem_flatMap.mp member
  simpa using List.all_eq_true.mp (each b) c inside

theorem visible_render {s : Scalar} (fit : s.IsFit) : Visible s.render := by
  have quote : Byte.isControl Byte.doubleQuote = false := rfl
  cases s with
  | word t => simp [Scalar.render, quote, visible_of_plain fit]
  | string t => simp [Scalar.render, quote, visible_escape]
  | number n => exact visible_of_plain (plain_signedDecimal n)

theorem visible_renderField {field : String × Scalar} (fit : FitField field) :
    Visible (renderField field) := by
  have marks : Byte.isControl Byte.doubleQuote = false ∧ Byte.isControl Byte.colon = false := ⟨rfl, rfl⟩
  simp [renderField, marks, visible_of_plain fit.key, visible_render fit.value]

theorem visible_members {fields : List (String × Scalar)} (fit : ∀ f ∈ fields, FitField f) :
    Visible ([Byte.comma].intercalate (fields.map renderField)) := by
  induction fields with
  | nil => exact visible_nil
  | cons field more ih =>
      obtain ⟨this, others⟩ := List.forall_mem_cons.mp fit
      cases more with
      | nil => simpa using visible_renderField this
      | cons next more =>
          have comma : Byte.isControl Byte.comma = false := rfl
          simpa [visible_renderField this, comma] using ih others

theorem visible_renderObject {fields : List (String × Scalar)} (fit : ∀ f ∈ fields, FitField f) :
    Visible (renderObject fields) := by
  have marks : Byte.isControl Byte.openBrace = false ∧ Byte.isControl Byte.closeBrace = false := ⟨rfl, rfl⟩
  simp [renderObject, marks, visible_members fit]

theorem fitFields {fields : List (String × Scalar)}
    (keys : (fields.map Prod.fst).all (fun key => (ascii key).all isPlain) = true)
    (values : ∀ s ∈ fields.map Prod.snd, s.IsFit) : ∀ f ∈ fields, FitField f := fun _ member =>
  ⟨plain_of_all (List.all_eq_true.mp keys _ (List.mem_map_of_mem member)),
    values _ (List.mem_map_of_mem member)⟩

/-- A written object keeps to one line, and stands for its members in their order and for nothing else. -/
theorem renderObject_read {field : String × Scalar} {more : List (String × Scalar)}
    (fit : ∀ f ∈ field :: more, FitField f) : Visible (renderObject (field :: more)) ∧
      ∀ value, Denotes (renderObject (field :: more)) value ↔
        value = .object ((field :: more).map memberOf) :=
  ⟨visible_renderObject fit, fun _ => denotes_renderObject fit⟩

end QueryGate.Audit.Json
