import Mathlib.Algebra.Field.Rat
import QueryGate.Document.Scalar

/-! # The grammar of JSON

How a text in JSON is read from left to right, over bytes: a byte of a string that is no quote, no
backslash and no control byte stands for itself, and an escape by number for the bytes of its character.
A text has at most one reading.
-/

namespace QueryGate.Audit.Json

/-- What a text in JSON stands for. Objects keep the order of their members. -/
inductive Value where
  | null
  | bool (b : Bool)
  | number (q : ℚ)
  | string (t : Text)
  | array (items : List Value)
  | object (members : List (Text × Value))

/-- The whitespace that may stand between tokens. -/
def isSpace (b : UInt8) : Bool :=
  b == Byte.space || b == Byte.tab || b == Byte.lineFeed || b == Byte.carriageReturn

def skip (t : Text) : Text := t.dropWhile isSpace

/-! ## Numbers -/

/-- One or more digits, as many as there are, and what follows them. -/
def digits? (t : Text) : Option (Text × Text) :=
  let run := t.takeWhile Byte.isDigit
  if run.isEmpty then none else some (run, t.drop run.length)

/-- The digits in front of the point. None follow a zero that comes first. -/
def whole? (t : Text) : Option (Text × Text) :=
  if t.head? = some Byte.zero then some ([Byte.zero], t.tail) else digits? t

/-- The digits behind the point, if there is a point. -/
def fraction? (t : Text) : Option (Text × Text) :=
  if t.head? = some Byte.dot then digits? t.tail else some ([], t)

/-- The power of ten behind an `e`, if there is one. -/
def exponent? (t : Text) : Option (Int × Text) :=
  if t.head?.any (fun b => Byte.lower b == 0x65) then
    let (negative, t) := Document.takeSign t.tail
    (digits? t).map fun (digits, rest) =>
      let n : Int := Document.digitsValue 10 digits
      (if negative then -n else n, rest)
  else some (0, t)

/-- A number at the start of a text, and what follows it. -/
def number? (t : Text) : Option (ℚ × Text) := do
  let negative := t.head? = some Byte.minus
  let (whole, t) ← whole? (if negative then t.tail else t)
  let (fraction, t) ← fraction? t
  let (exponent, t) ← exponent? t
  let magnitude : ℚ :=
    Document.digitsValue 10 (whole ++ fraction) * 10 ^ (exponent - fraction.length)
  return (if negative then -magnitude else magnitude, t)

/-! ## Strings -/

/-- The byte that a backslash and one more byte stand for. -/
def shortEscape? (b : UInt8) : Option UInt8 :=
  let table : List (UInt8 × UInt8) :=
    [(Byte.doubleQuote, Byte.doubleQuote), (Byte.backslash, Byte.backslash), (Byte.slash, Byte.slash),
     (0x62, 0x08), (0x66, 0x0C), (0x6E, Byte.lineFeed), (0x72, Byte.carriageReturn), (0x74, Byte.tab)]
  table.lookup b

/-- The number behind `\u`: four hexadecimal digits. -/
def quad? (t : Text) : Option (Nat × Text) :=
  let digits := t.take 4
  if digits.length = 4 ∧ digits.all Byte.isHexDigit then
    some (Document.digitsValue 16 digits, t.drop 4)
  else none

/-- The number of the character behind `\u`. Characters above `0xFFFF` are written as a high and a low
half, and a half by itself is no character. -/
def codePoint? (t : Text) : Option (Nat × Text) := do
  let (n, t) ← quad? t
  if n < 0xD800 ∨ 0xDFFF < n then return (n, t)
  else if n < 0xDC00 ∧ t.take 2 = ascii "\\u" then
    let (low, t) ← quad? (t.drop 2)
    if 0xDC00 ≤ low ∧ low ≤ 0xDFFF then
      return (0x10000 + (n - 0xD800) * 0x400 + (low - 0xDC00), t)
    else none
  else none

/-- The bytes that the first character inside a string stands for, and what follows it. -/
def character? : Text → Option (Text × Text)
  | [] => none
  | b :: t =>
    if b = Byte.backslash then
      match t with
      | [] => none
      | c :: t =>
        if c = 0x75 then (codePoint? t).map fun (n, t) => (String.utf8EncodeChar (Char.ofNat n), t)
        else (shortEscape? c).map fun e => ([e], t)
    else if b = Byte.doubleQuote ∨ Byte.isControl b then none
    else some ([b], t)

/-- The inside of a string up to its closing quote: the text that it stands for, and what follows. -/
inductive Inside : Text → Text → Text → Prop where
  | close {rest} : Inside (Byte.doubleQuote :: rest) [] rest
  | character {t shown next more rest} (first : character? t = some (shown, next))
      (others : Inside next more rest) : Inside t (shown ++ more) rest

theorem Inside.unique {t text other rest after : Text} (one : Inside t text rest)
    (two : Inside t other after) : text = other ∧ rest = after := by
  induction one generalizing other with
  | close =>
      cases two with
      | close => exact ⟨rfl, rfl⟩
      | character first _ => cases first
  | character first _ ih =>
      cases two with
      | close => cases first
      | character first' others' =>
          obtain ⟨rfl, rfl⟩ := Prod.mk.inj (Option.some.inj (first.symm.trans first'))
          obtain ⟨rfl, rfl⟩ := ih others'
          exact ⟨rfl, rfl⟩

/-! ## Values -/

/-- The words that are values. -/
def words : List (Text × Value) :=
  [(ascii "null", .null), (ascii "true", .bool true), (ascii "false", .bool false)]

/-- The key of a member at the start of a text, with the colon behind it. -/
def ReadsKey (t key rest : Text) : Prop :=
  ∃ quoted parted, skip t = Byte.doubleQuote :: quoted ∧ Inside quoted key parted ∧
    skip parted = Byte.colon :: rest

/-- What is to be read: a value, or the rest of an array or an object behind its opening bracket or a
comma. -/
inductive Phrase where
  | value
  | items
  | members

/-- Reading a phrase at the start of a text: the value that it stands for, and what follows it. The rest
of an array stands for an array, and the rest of an object for an object. -/
inductive Reads : Phrase → Text → Value → Text → Prop where
  | word {t word value rest} (listed : (word, value) ∈ words) (begins : t = word ++ rest) :
      Reads .value t value rest
  | number {t q rest} (found : number? t = some (q, rest)) : Reads .value t (.number q) rest
  | string {t text rest} (inside : Inside t text rest) :
      Reads .value (Byte.doubleQuote :: t) (.string text) rest
  | emptyArray {t rest} (closes : skip t = Byte.closeBracket :: rest) :
      Reads .value (Byte.openBracket :: t) (.array []) rest
  | array {t items rest} (inside : Reads .items t (.array items) rest) :
      Reads .value (Byte.openBracket :: t) (.array items) rest
  | emptyObject {t rest} (closes : skip t = Byte.closeBrace :: rest) :
      Reads .value (Byte.openBrace :: t) (.object []) rest
  | object {t members rest} (inside : Reads .members t (.object members) rest) :
      Reads .value (Byte.openBrace :: t) (.object members) rest
  | lastItem {t item after rest} (first : Reads .value (skip t) item after)
      (closes : skip after = Byte.closeBracket :: rest) : Reads .items t (.array [item]) rest
  | nextItem {t item after next items rest} (first : Reads .value (skip t) item after)
      (goesOn : skip after = Byte.comma :: next) (others : Reads .items next (.array items) rest) :
      Reads .items t (.array (item :: items)) rest
  | lastMember {t key next value after rest} (named : ReadsKey t key next)
      (first : Reads .value (skip next) value after)
      (closes : skip after = Byte.closeBrace :: rest) : Reads .members t (.object [(key, value)]) rest
  | nextMember {t key next value after later members rest} (named : ReadsKey t key next)
      (first : Reads .value (skip next) value after) (goesOn : skip after = Byte.comma :: later)
      (others : Reads .members later (.object members) rest) :
      Reads .members t (.object ((key, value) :: members)) rest

/-- The whole text is one value, with whitespace around it. -/
def Denotes (t : Text) (value : Value) : Prop :=
  ∃ rest, Reads .value (skip t) value rest ∧ skip rest = []

/-! ## A text has at most one reading -/

theorem ReadsKey.unique {t key other rest after : Text} (one : ReadsKey t key rest)
    (two : ReadsKey t other after) : key = other ∧ rest = after := by
  obtain ⟨quoted, parted, starts, inside, colon⟩ := one
  obtain ⟨quoted', parted', starts', inside', colon'⟩ := two
  obtain rfl := (List.cons.inj (starts.symm.trans starts')).2
  obtain ⟨rfl, rfl⟩ := inside.unique inside'
  exact ⟨rfl, (List.cons.inj (colon.symm.trans colon')).2⟩

inductive Kind where
  | word
  | number
  | string
  | array
  | object
  deriving DecidableEq

def Value.kind : Value → Kind
  | .null | .bool _ => .word
  | .number _ => .number
  | .string _ => .string
  | .array _ => .array
  | .object _ => .object

/-- The first byte of a value tells its kind. -/
def kindOf? (b : UInt8) : Option Kind :=
  if b = Byte.doubleQuote then some .string
  else if b = Byte.openBracket then some .array
  else if b = Byte.openBrace then some .object
  else if b = Byte.minus ∨ Byte.isDigit b then some .number
  else if b ∈ words.flatMap (·.1.take 1) then some .word
  else none

theorem digits?_eq_some {t digits rest : Text} (found : digits? t = some (digits, rest)) :
    ∃ b ∈ t.head?, Byte.isDigit b = true := by
  cases t with
  | nil => cases found
  | cons b t =>
      refine ⟨b, rfl, ?_⟩
      cases digit : Byte.isDigit b with
      | true => rfl
      | false => simp [digits?, digit] at found

theorem number?_eq_some {t rest : Text} {q : ℚ} (found : number? t = some (q, rest)) :
    ∃ b ∈ t.head?, b = Byte.minus ∨ Byte.isDigit b = true := by
  by_cases negative : t.head? = some Byte.minus
  · exact ⟨Byte.minus, negative, .inl rfl⟩
  · simp only [number?, negative, if_false, Option.bind_eq_bind, Option.bind_eq_some_iff] at found
    obtain ⟨⟨whole, after⟩, readWhole, -⟩ := found
    unfold whole? at readWhole
    split at readWhole
    · next zero => exact ⟨Byte.zero, zero, .inr rfl⟩
    · obtain ⟨b, first, digit⟩ := digits?_eq_some readWhole
      exact ⟨b, first, .inr digit⟩

theorem kindOf?_number : ∀ b, (b = Byte.minus ∨ Byte.isDigit b = true) → kindOf? b = some .number := by
  decide +kernel

theorem words_begin {word : Text} {value : Value} (listed : (word, value) ∈ words) :
    ∃ b more, word = b :: more ∧ kindOf? b = some .word ∧ value.kind = .word := by
  simp only [words, List.mem_cons, Prod.mk.injEq, List.not_mem_nil, or_false] at listed
  rcases listed with ⟨rfl, rfl⟩ | ⟨rfl, rfl⟩ | ⟨rfl, rfl⟩
  · exact ⟨0x6E, ascii "ull", by decide, by decide, rfl⟩
  · exact ⟨0x74, ascii "rue", by decide, by decide, rfl⟩
  · exact ⟨0x66, ascii "alse", by decide, by decide, rfl⟩

theorem words_unique {word other rest after : Text} {value given : Value} (listed : (word, value) ∈ words)
    (alsoListed : (other, given) ∈ words) (same : word ++ rest = other ++ after) :
    value = given ∧ rest = after := by
  have bytes : words = [([0x6E, 0x75, 0x6C, 0x6C], .null), ([0x74, 0x72, 0x75, 0x65], .bool true),
      ([0x66, 0x61, 0x6C, 0x73, 0x65], .bool false)] := rfl
  simp only [bytes, List.mem_cons, Prod.mk.injEq, List.not_mem_nil, or_false] at listed alsoListed
  rcases listed with ⟨rfl, rfl⟩ | ⟨rfl, rfl⟩ | ⟨rfl, rfl⟩ <;>
    rcases alsoListed with ⟨rfl, rfl⟩ | ⟨rfl, rfl⟩ | ⟨rfl, rfl⟩ <;>
    simp_all

theorem Reads.kind {t rest : Text} {value : Value} (reads : Reads .value t value rest) :
    t.head?.bind kindOf? = some value.kind := by
  cases reads with
  | word listed begins =>
      obtain ⟨b, more, rfl, kind, word⟩ := words_begin listed
      rw [begins, word]
      exact kind
  | number found =>
      obtain ⟨b, first, among⟩ := number?_eq_some found
      rw [first]
      exact kindOf?_number b among
  | string | emptyArray | array | emptyObject | object => rfl

section Unique

variable {t word rest after : Text} {value other : Value}

theorem words_kind (listed : (word, value) ∈ words) : value.kind = .word := by
  obtain ⟨-, -, -, -, kind⟩ := words_begin listed
  exact kind

theorem Reads.of_word (listed : (word, value) ∈ words) (reads : Reads .value (word ++ rest) other after) :
    value = other ∧ rest = after := by
  have kind := (Reads.word listed rfl).kind.symm.trans reads.kind
  rw [words_kind listed] at kind
  generalize begins : word ++ rest = whole at reads
  cases reads with
  | word alsoListed alsoBegins => exact words_unique listed alsoListed (begins.trans alsoBegins)
  | _ => cases kind

theorem Reads.of_number {q : ℚ} (found : number? t = some (q, rest))
    (reads : Reads .value t other after) : .number q = other ∧ rest = after := by
  have kind := (Reads.number found).kind.symm.trans reads.kind
  cases reads with
  | number alsoFound =>
      obtain ⟨rfl, rfl⟩ := Prod.mk.inj (Option.some.inj (found.symm.trans alsoFound))
      exact ⟨rfl, rfl⟩
  | word listed => cases kind.trans (congrArg some (words_kind listed))
  | _ => cases kind

theorem Reads.of_quote (reads : Reads .value (Byte.doubleQuote :: t) value rest) :
    ∃ text, value = .string text ∧ Inside t text rest := by
  have kind : some Kind.string = some value.kind := reads.kind
  generalize starts : Byte.doubleQuote :: t = whole at reads
  cases reads with
  | string inside =>
      obtain rfl := (List.cons.inj starts).2
      exact ⟨_, rfl, inside⟩
  | word listed => cases kind.trans (congrArg some (words_kind listed))
  | _ => cases kind

theorem Reads.unclosed_items (reads : Reads .items t value rest) (next : Text) :
    skip t ≠ Byte.closeBracket :: next := by
  intro closes
  cases reads with
  | lastItem first | nextItem first =>
      have kind := first.kind
      rw [closes] at kind
      cases kind

theorem Reads.unclosed_members (reads : Reads .members t value rest) (next : Text) :
    skip t ≠ Byte.closeBrace :: next := by
  intro closes
  cases reads with
  | lastMember named | nextMember named =>
      obtain ⟨quoted, parted, starts, -⟩ := named
      cases closes.symm.trans starts

theorem Reads.of_bracket (reads : Reads .value (Byte.openBracket :: t) value rest) :
    value = .array [] ∧ skip t = Byte.closeBracket :: rest ∨
      ∃ items, value = .array items ∧ Reads .items t (.array items) rest := by
  have kind : some Kind.array = some value.kind := reads.kind
  generalize starts : Byte.openBracket :: t = whole at reads
  cases reads with
  | emptyArray closes =>
      obtain rfl := (List.cons.inj starts).2
      exact .inl ⟨rfl, closes⟩
  | array inside =>
      obtain rfl := (List.cons.inj starts).2
      exact .inr ⟨_, rfl, inside⟩
  | word listed => cases kind.trans (congrArg some (words_kind listed))
  | _ => cases kind

theorem Reads.of_brace (reads : Reads .value (Byte.openBrace :: t) value rest) :
    value = .object [] ∧ skip t = Byte.closeBrace :: rest ∨
      ∃ members, value = .object members ∧ Reads .members t (.object members) rest := by
  have kind : some Kind.object = some value.kind := reads.kind
  generalize starts : Byte.openBrace :: t = whole at reads
  cases reads with
  | emptyObject closes =>
      obtain rfl := (List.cons.inj starts).2
      exact .inl ⟨rfl, closes⟩
  | object inside =>
      obtain rfl := (List.cons.inj starts).2
      exact .inr ⟨_, rfl, inside⟩
  | word listed => cases kind.trans (congrArg some (words_kind listed))
  | _ => cases kind

/-- Reading is determined by the text, the place where it ends included. -/
theorem Reads.unique {phrase : Phrase} (one : Reads phrase t value rest)
    (two : Reads phrase t other after) : value = other ∧ rest = after := by
  induction one generalizing other after with
  | word listed begins => exact of_word listed (begins ▸ two)
  | number found => exact of_number found two
  | string inside =>
      obtain ⟨text, rfl, alsoInside⟩ := of_quote two
      obtain ⟨rfl, rfl⟩ := inside.unique alsoInside
      exact ⟨rfl, rfl⟩
  | emptyArray closes =>
      obtain ⟨rfl, alsoCloses⟩ | ⟨items, rfl, inside⟩ := of_bracket two
      · exact ⟨rfl, (List.cons.inj (closes.symm.trans alsoCloses)).2⟩
      · exact absurd closes (inside.unclosed_items _)
  | array inside ih =>
      obtain ⟨rfl, closes⟩ | ⟨items, rfl, alsoInside⟩ := of_bracket two
      · exact absurd closes (inside.unclosed_items _)
      · exact ih alsoInside
  | emptyObject closes =>
      obtain ⟨rfl, alsoCloses⟩ | ⟨members, rfl, inside⟩ := of_brace two
      · exact ⟨rfl, (List.cons.inj (closes.symm.trans alsoCloses)).2⟩
      · exact absurd closes (inside.unclosed_members _)
  | object inside ih =>
      obtain ⟨rfl, closes⟩ | ⟨members, rfl, alsoInside⟩ := of_brace two
      · exact absurd closes (inside.unclosed_members _)
      · exact ih alsoInside
  | lastItem first closes ih =>
      cases two with
      | lastItem first' closes' =>
          obtain ⟨rfl, rfl⟩ := ih first'
          exact ⟨rfl, (List.cons.inj (closes.symm.trans closes')).2⟩
      | nextItem first' goesOn' =>
          obtain ⟨rfl, rfl⟩ := ih first'
          cases closes.symm.trans goesOn'
  | nextItem first goesOn others ih ihOthers =>
      cases two with
      | lastItem first' closes' =>
          obtain ⟨rfl, rfl⟩ := ih first'
          cases goesOn.symm.trans closes'
      | nextItem first' goesOn' others' =>
          obtain ⟨rfl, rfl⟩ := ih first'
          obtain rfl := (List.cons.inj (goesOn.symm.trans goesOn')).2
          obtain ⟨same, rfl⟩ := ihOthers others'
          obtain rfl := Value.array.inj same
          exact ⟨rfl, rfl⟩
  | lastMember named first closes ih =>
      cases two with
      | lastMember named' first' closes' =>
          obtain ⟨rfl, rfl⟩ := named.unique named'
          obtain ⟨rfl, rfl⟩ := ih first'
          exact ⟨rfl, (List.cons.inj (closes.symm.trans closes')).2⟩
      | nextMember named' first' goesOn' =>
          obtain ⟨rfl, rfl⟩ := named.unique named'
          obtain ⟨rfl, rfl⟩ := ih first'
          cases closes.symm.trans goesOn'
  | nextMember named first goesOn others ih ihOthers =>
      cases two with
      | lastMember named' first' closes' =>
          obtain ⟨rfl, rfl⟩ := named.unique named'
          obtain ⟨rfl, rfl⟩ := ih first'
          cases goesOn.symm.trans closes'
      | nextMember named' first' goesOn' others' =>
          obtain ⟨rfl, rfl⟩ := named.unique named'
          obtain ⟨rfl, rfl⟩ := ih first'
          obtain rfl := (List.cons.inj (goesOn.symm.trans goesOn')).2
          obtain ⟨same, rfl⟩ := ihOthers others'
          obtain rfl := Value.object.inj same
          exact ⟨rfl, rfl⟩

theorem Denotes.unique (one : Denotes t value) (two : Denotes t other) : value = other := by
  obtain ⟨rest, reads, -⟩ := one
  obtain ⟨after, alsoReads, -⟩ := two
  exact (reads.unique alsoReads).1

end Unique

end QueryGate.Audit.Json
