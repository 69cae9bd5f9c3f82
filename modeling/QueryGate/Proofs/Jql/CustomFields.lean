import QueryGate.Proofs.Digits
import QueryGate.Proofs.Jql.Margins
import QueryGate.Proofs.Jql.Spacing
import QueryGate.Proofs.Pattern.Detection

/-! # Custom fields by their number

A custom field is read with whatever word stands in its brackets, and with the closing bracket if it is
there. Compared with a literal, it is let through by every check but that of the fields, so the fate of
the query is that of the word: the field has to be closed, and the word a number of at most nine digits
in the range of the rules.
-/

namespace QueryGate.Jql

/-- What stands behind the field: a comparison and a literal. -/
def valueOperand : Text := ascii " = \"v\""

/-- A field compared with a literal. -/
def condition (field : Text) : Text := field ++ valueOperand

/-- A custom field up to its closing bracket: the two letters, the opening bracket and a word. -/
def openField (letters word : Text) : Text := letters ++ Byte.openBracket :: word

def customField (letters word : Text) : Text := openField letters word ++ [Byte.closeBracket]

/-- A word of one to nine digits whose number is in the range of the rules. -/
structure NumbersField (rules : Rules) (word : Text) : Prop where
  nonempty : 1 ≤ word.length
  short : word.length ≤ 9
  digits : ∀ b ∈ word, Byte.isDigit b = true
  least : rules.customFields.least ≤ Document.digitsValue 10 word
  greatest : Document.digitsValue 10 word ≤ rules.customFields.greatest

/-! ## The number of a field -/

section Number

variable {letters word : Text}

theorem foldl_digits {digits : Text} (decimal : ∀ b ∈ digits, Byte.isDigit b = true) :
    digits.foldl (fun n b => n * 10 + (b.toNat - 0x30)) 0 = Document.digitsValue 10 digits := by
  refine List.foldl_ext _ _ _ fun n b member => ?_
  rw [Byte.hexValue, if_pos (decimal b member)]

theorem customFieldNumber?_customField (two : letters.length = 2) {n : Nat} :
    customFieldNumber? (customField letters word) = some n ↔
      (1 ≤ word.length ∧ word.length ≤ 9 ∧ ∀ b ∈ word, Byte.isDigit b = true) ∧
        n = Document.digitsValue 10 word := by
  have size : (customField letters word).length = word.length + 4 := by
    simp [customField, openField, two]
    omega
  have digits : ((customField letters word).drop 3).dropLast = word := by
    have split : customField letters word = (letters ++ [Byte.openBracket]) ++ (word ++ [Byte.closeBracket]) := by
      simp [customField, openField]
    have three : (letters ++ [Byte.openBracket]).length = 3 := by simp [two]
    rw [split, ← three, List.drop_left, List.dropLast_concat]
  have last : (customField letters word).getLast? = some Byte.closeBracket := List.getLast?_concat
  simp only [customFieldNumber?, digits, last, size, List.all_eq_true, true_and]
  constructor
  · intro found
    split at found
    · next number =>
      obtain ⟨long, short, decimal⟩ := number
      rw [foldl_digits decimal] at found
      exact ⟨⟨by omega, short, decimal⟩, (Option.some.inj found).symm⟩
    · cases found
  · rintro ⟨⟨nonempty, short, decimal⟩, rfl⟩
    rw [if_pos ⟨by omega, short, decimal⟩, foldl_digits decimal]

theorem allowsCustomField_iff (rules : Rules) (two : letters.length = 2) :
    rules.allowsCustomField (customField letters word) = true ↔ NumbersField rules word := by
  unfold Rules.allowsCustomField
  constructor
  · intro allowed
    cases number : customFieldNumber? (customField letters word) with
    | none =>
        rw [number] at allowed
        cases allowed
    | some n =>
        rw [number] at allowed
        obtain ⟨⟨nonempty, short, digits⟩, rfl⟩ := (customFieldNumber?_customField two).mp number
        obtain ⟨least, greatest⟩ := of_decide_eq_true allowed
        exact ⟨nonempty, short, digits, least, greatest⟩
  · intro numbers
    have number : customFieldNumber? (customField letters word) = some (Document.digitsValue 10 word) :=
      (customFieldNumber?_customField two).mpr ⟨⟨numbers.nonempty, numbers.short, numbers.digits⟩, rfl⟩
    rw [number]
    exact decide_eq_true ⟨numbers.least, numbers.greatest⟩

theorem not_allowsCustomField_openField (rules : Rules) (wordy : ∀ b ∈ word, Byte.isWord b = true) :
    rules.allowsCustomField (openField letters word) = false := by
  have unclosed : (openField letters word).getLast? ≠ some Byte.closeBracket := by
    intro last
    rw [openField, List.getLast?_append_cons] at last
    rcases List.mem_cons.mp (List.mem_of_getLast? last) with same | inside
    · cases same
    · cases wordy _ inside
  have unnumbered : customFieldNumber? (openField letters word) = none := by
    simp [customFieldNumber?, unclosed]
  rw [Rules.allowsCustomField, unnumbered]

/-- No step of the conversion of a number of nine digits leaves 32 bits. -/
theorem digitsValue_lt_of_prefix {start : Text} (short : word.length ≤ 9)
    (digits : ∀ b ∈ word, Byte.isDigit b = true) (begins : start <+: word) :
    Document.digitsValue 10 start < 2 ^ 32 := calc
  Document.digitsValue 10 start < 10 ^ start.length :=
    Text.digitsValue_lt fun b member => digits b (begins.subset member)
  _ ≤ 10 ^ 9 := Nat.pow_le_pow_right (by decide) (begins.length_le.trans short)
  _ < 2 ^ 32 := by decide

end Number

/-! ## The tokens of the condition -/

section Tokens

variable {keywords : NameSet} {letters word tail field : Text}

/-- The field, the comparison and the literal. -/
def conditionTokens (field : Text) : List Token :=
  [⟨.customField, field, 0⟩, ⟨.operator, ascii "=", 1 + field.length⟩,
    ⟨.string, ascii "\"v\"", 3 + field.length⟩]

theorem exists_letters (cased : letters.toLower = ascii "cf") :
    ∃ c f, letters = [c, f] ∧ Byte.lower c = 0x63 ∧ Byte.lower f = 0x66 := by
  have bytes : ascii "cf" = [0x63, 0x66] := by decide
  obtain ⟨c, rest, rfl, first, more⟩ := List.map_eq_cons_iff.mp (cased.trans bytes)
  obtain ⟨f, rest, rfl, second, nothing⟩ := List.map_eq_cons_iff.mp more
  rw [List.map_eq_nil_iff.mp nothing]
  exact ⟨c, f, rfl, first, second⟩

theorem tokenize_field (cased : letters.toLower = ascii "cf")
    (wordy : ∀ b ∈ word, Byte.isWord b = true) (closing : tail = [] ∨ tail = [Byte.closeBracket]) :
    tokenize keywords (openField letters word ++ tail) =
      .ok [⟨.customField, openField letters word ++ tail, 0⟩] := by
  obtain ⟨c, f, rfl, first, second⟩ := exists_letters cased
  have whole : openField [c, f] word ++ tail = c :: f :: Byte.openBracket :: (word ++ tail) := rfl
  have letter : ∀ b, Byte.lower b = 0x63 →
      ¬ (b = Byte.doubleQuote ∨ b = Byte.singleQuote) ∧ Byte.isBlank b = false := by decide +kernel
  obtain ⟨unquoted, visible⟩ := letter c first
  have starts : startsCustomField c (f :: Byte.openBracket :: (word ++ tail)) = true := by
    have bytes : ascii "cf[" = [0x63, 0x66, Byte.openBracket] := by decide
    have bracket : Byte.lower Byte.openBracket = Byte.openBracket := by decide
    simp [startsCustomField, bytes, Text.toLower, first, second, bracket]
  have span : customFieldSpan (f :: Byte.openBracket :: (word ++ tail)) =
      (f :: Byte.openBracket :: (word ++ tail)).length := by
    rcases closing with rfl | rfl
    · rw [customFieldSpan_run wordy (fun b none => by cases none)]
      simp
      omega
    · rw [customFieldSpan_run wordy (fun b bracket => by obtain rfl := Option.some.inj bracket; decide)]
      simp
      omega
  have found : lexeme? keywords c (f :: Byte.openBracket :: (word ++ tail)) =
      some (.customField, (f :: Byte.openBracket :: (word ++ tail)).length) := by
    rw [lexeme?, if_neg unquoted, if_pos starts, span]
  rw [whole, tokenize, tokenizeFrom_of_lexeme visible found, tokenizeFrom_taken, List.drop_length,
    List.take_length]
  rfl

theorem tokenize_condition (read : tokenize keywords field = .ok [⟨.customField, field, 0⟩]) :
    tokenize keywords (condition field) = .ok (conditionTokens field) := by
  have bytes : valueOperand =
      [Byte.space, Byte.equals, Byte.space, Byte.doubleQuote, 0x76, Byte.doubleQuote] := by decide
  have apart : Text.Apart Lexeme.isInner valueOperand := by
    rw [bytes]
    intro b first
    obtain rfl := Option.some.inj first
    decide
  have behind : tokenizeFrom keywords 0 0 valueOperand =
      .ok [⟨.operator, ascii "=", 1⟩, ⟨.string, ascii "\"v\"", 3⟩] := by
    rw [bytes]
    rfl
  rw [tokenize, condition, tokenizeFrom_append apart read (Nat.zero_le _), tokenizeFrom_shift, behind]
  rfl

end Tokens

/-! ## The checks of the condition -/

section Checks

variable {rules : Rules} {letters word field : Text}

theorem checkFields_condition (rules : Rules) (field : Text) :
    checkFields rules (conditionTokens field) =
      if rules.allowsCustomField field = true then .ok () else .error (.unknownField field) := by
  cases allowed : rules.allowsCustomField field <;>
    simp [checkFields, checkFieldsFrom, conditionTokens, Token.isKeyword, allowed]

theorem checkFunctions_condition (rules : Rules) (field : Text) :
    checkFunctions rules (conditionTokens field) = .ok () := by
  simp [checkFunctions, conditionTokens]

theorem checkSqlWords_condition (rules : Rules) (field : Text) :
    checkSqlWords rules (conditionTokens field) = .ok () := by
  simp [checkSqlWords, conditionTokens]

theorem isFieldByte_customField (cased : letters.toLower = ascii "cf")
    (wordy : ∀ b ∈ word, Byte.isWord b = true) :
    ∀ b ∈ customField letters word, isFieldByte b = true := by
  obtain ⟨c, f, rfl, first, second⟩ := exists_letters cased
  have letter : ∀ b, Byte.lower b = 0x63 ∨ Byte.lower b = 0x66 → isFieldByte b = true := by
    decide +kernel
  intro b member
  simp only [customField, openField, List.mem_append, List.mem_cons, List.not_mem_nil, or_false] at member
  rcases member with (((rfl | rfl) | rfl | inside) | rfl)
  · exact letter b (.inl first)
  · exact letter b (.inr second)
  · rfl
  · exact isFieldByte_of_isWord (wordy b inside)
  · rfl

theorem trim_condition (nonempty : field ≠ []) (named : ∀ b ∈ field, isFieldByte b = true) :
    (condition field).trim = condition field := by
  have visible : ∀ b, isFieldByte b = true → Byte.isBlank b = false := by decide +kernel
  apply Text.trim_eq_self
  · intro b first
    rw [condition, List.head?_append_of_ne_nil _ nonempty] at first
    exact visible b (named b (List.mem_of_mem_head? first))
  · intro b last
    have quote : valueOperand.getLast? = some Byte.doubleQuote := by decide
    rw [condition, List.getLast?_append, quote] at last
    obtain rfl := Option.some.inj last
    decide

theorem nesting_condition (rules : Rules) (named : ∀ b ∈ field, isFieldByte b = true) :
    ∃ report, Nesting.check (Gate.ofRules rules).nesting (condition field) = .ok report := by
  have ignored : ∀ b ∈ field, (Gate.ofRules rules).nesting.Ignores b := fun b member =>
    ignores_of_outside (p := isFieldByte) _ (by decide) (named b member)
  obtain ⟨report, flat⟩ : ∃ report,
      Nesting.check (Gate.ofRules { maxNesting := 0 }).nesting valueOperand = .ok report :=
    exists_of_isOk (by decide +kernel)
  have alone : Nesting.check (Gate.ofRules rules).nesting valueOperand = .ok report :=
    Nesting.check_of_deeper flat (Nat.zero_le rules.maxNesting)
  have margins := Nesting.check_margins (t := valueOperand) ignored
    (List.forall_mem_nil (Gate.ofRules rules).nesting.Ignores)
  rw [List.append_nil] at margins
  exact ⟨report, margins.trans alone⟩

end Checks

/-! ## The verdict -/

section Verdict

variable {rules : Rules} {letters word : Text} (cased : letters.toLower = ascii "cf")
  (wordy : ∀ b ∈ word, Byte.isWord b = true)

include cased wordy

theorem judge_customField (fits : (condition (customField letters word)).length ≤ rules.maxLength)
    (undetected : ((Detector.ofSources rules.patterns).inspect
      (condition (customField letters word))).isDetected = false) :
    (Gate.ofRules rules).judge (condition (customField letters word)) =
      if rules.allowsCustomField (customField letters word) = true then
        .ok (condition (customField letters word))
      else .error (.unknownField (customField letters word)) := by
  have nonempty : customField letters word ≠ [] := by simp [customField]
  have named := isFieldByte_customField cased wordy
  have trimmed := trim_condition nonempty named
  have bounds : (Gate.ofRules rules).checkBounds (condition (customField letters word)) = .ok () := by
    refine checkSize_eq_ok_iff.mpr ⟨?_, fits⟩
    rw [trimmed]
    exact List.append_ne_nil_of_left_ne_nil nonempty _
  have patterns : (Gate.ofRules rules).checkPatterns (condition (customField letters word)) = .ok () :=
    Detector.check_eq_ok_iff.mpr undetected
  have nesting := nesting_condition rules named
  have lexed : tokenize rules.keywords (condition (customField letters word)) =
      .ok (conditionTokens (customField letters word)) :=
    tokenize_condition (tokenize_field cased wordy (.inr rfl))
  have fields := checkFields_condition rules (customField letters word)
  split at fields
  · next allowed =>
    rw [if_pos allowed]
    refine judge_eq_ok_iff.mpr ⟨⟨_, bounds, patterns, nesting, lexed, fields, ?_, ?_⟩, trimmed.symm⟩
    · exact checkFunctions_condition rules _
    · exact checkSqlWords_condition rules _
  · next refused =>
    rw [if_neg refused]
    exact judge_of_fields bounds patterns nesting lexed fields

theorem judge_openField : ∃ rejection,
    (Gate.ofRules rules).judge (condition (openField letters word)) = .error rejection := by
  cases verdict : (Gate.ofRules rules).judge (condition (openField letters word)) with
  | error rejection => exact ⟨rejection, rfl⟩
  | ok accepted =>
      obtain ⟨⟨tokens, passes⟩, -⟩ := judge_eq_ok_iff.mp verdict
      have alone : tokenize rules.keywords (openField letters word ++ []) =
          .ok [⟨.customField, openField letters word ++ [], 0⟩] := tokenize_field cased wordy (.inl rfl)
      rw [List.append_nil] at alone
      obtain rfl := Except.ok.inj ((tokenize_condition alone).symm.trans passes.lexed)
      have refused := (checkFields_condition rules _).symm.trans passes.fields
      rw [not_allowsCustomField_openField rules wordy] at refused
      cases refused

end Verdict

open Detector Pattern

end QueryGate.Jql
