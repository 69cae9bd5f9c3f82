import QueryGate.Proofs.Jql.Joining
import QueryGate.Proofs.Jql.Margins
import QueryGate.Proofs.Jql.Words
import QueryGate.Proofs.Pattern.Needs
import QueryGate.Proofs.Pattern.WholeWords

/-! # A name compared with a literal

A query that compares a name with a literal has three tokens, and all checks but those of the patterns
and of the fields let it through, whatever the name is. Of the built-in patterns only those of whole
words can be found in it, so under the built-in rules the fate of the query is that of its name.
-/

namespace QueryGate.Jql

/-- What stands behind the name: a comparison and a short literal. -/
def operand : Text := ascii " = \"x\""

/-- A name compared with a literal. -/
def comparison (name : Text) : Text := name ++ operand

theorem apart_operand : Text.Apart Lexeme.isInner operand := by
  intro b first
  obtain rfl := Option.some.inj first
  decide

/-! ## The tokens of a comparison -/

section Tokens

variable {keywords : NameSet} {name : Text}

/-- The kind of a name's token. -/
def nameKind (keywords : NameSet) (name : Text) : TokenKind :=
  if keywords.contains name.toLower then .keyword else .identifier

/-- The name, the comparison and the literal. -/
def comparisonTokens (keywords : NameSet) (name : Text) : List Token :=
  [⟨nameKind keywords name, name, 0⟩, ⟨.operator, ascii "=", 1 + name.length⟩,
    ⟨.string, ascii "\"x\"", 3 + name.length⟩]

theorem unquoted_of_isWord {b : UInt8} (word : Byte.isWord b = true) :
    ¬ (b = Byte.doubleQuote ∨ b = Byte.singleQuote) := by
  rintro (rfl | rfl) <;> cases word

theorem not_startsCustomField_of_isWord {first : UInt8} {rest : Text}
    (wordy : ∀ b ∈ first :: rest, Byte.isWord b = true) :
    startsCustomField first rest = false := by
  rw [startsCustomField, Bool.eq_false_iff, Ne, List.isPrefixOf_iff_prefix]
  intro begins
  have bracket : Byte.openBracket ∈ Text.toLower (first :: rest.take 2) :=
    begins.subset (by decide)
  obtain ⟨b, member, folded⟩ := List.mem_map.mp bracket
  have inside : b ∈ first :: rest := by
    rw [← List.take_succ_cons] at member
    exact List.mem_of_mem_take member
  have word := wordy b inside
  rw [← Byte.isWord_lower, folded] at word
  cases word

theorem lexeme?_name {first : UInt8} {rest : Text} (starts : Byte.isNameStart first = true)
    (words : ∀ b ∈ rest, Byte.isWord b = true) :
    lexeme? keywords first rest = some (nameKind keywords (first :: rest), rest.length) := by
  have wordy : ∀ b ∈ first :: rest, Byte.isWord b = true :=
    List.forall_mem_cons.mpr ⟨Byte.isWord_of_isNameStart starts, words⟩
  rw [lexeme?, if_neg (unquoted_of_isWord (wordy first List.mem_cons_self)),
    not_startsCustomField_of_isWord wordy, if_neg Bool.false_ne_true, if_pos starts,
    List.takeWhile_eq_self_iff.mpr words]
  rfl

theorem tokenize_name (named : name.IsIdentifier) :
    tokenize keywords name = .ok [⟨nameKind keywords name, name, 0⟩] := by
  obtain ⟨first, rest, rfl, starts, words⟩ := named
  have visible := Byte.not_isBlank_of_isWord (Byte.isWord_of_isNameStart starts)
  rw [tokenize, tokenizeFrom_of_lexeme visible (lexeme?_name starts words), tokenizeFrom_taken,
    List.drop_length, List.take_length]
  rfl

theorem tokenize_comparison (named : name.IsIdentifier) :
    tokenize keywords (comparison name) = .ok (comparisonTokens keywords name) := by
  have bytes : operand =
      [Byte.space, Byte.equals, Byte.space, Byte.doubleQuote, 0x78, Byte.doubleQuote] := by decide
  have behind : tokenizeFrom keywords 0 0 operand =
      .ok [⟨.operator, ascii "=", 1⟩, ⟨.string, ascii "\"x\"", 3⟩] := by
    rw [bytes]
    rfl
  have read : tokenizeFrom keywords 0 0 name = .ok [⟨nameKind keywords name, name, 0⟩] :=
    tokenize_name named
  rw [tokenize, comparison, tokenizeFrom_append apart_operand read (Nat.zero_le _),
    tokenizeFrom_shift, behind]
  rfl

end Tokens

/-! ## The checks of the tokens -/

section Checks

variable {rules : Rules} {name : Text}

theorem checkFields_comparison :
    checkFields rules (comparisonTokens rules.keywords name) =
      if rules.keywords.contains name.toLower = false ∧ rules.allowsField name = true then .ok ()
      else .error (.unknownField name) := by
  -- A keyword is reported at the comparison behind it, any other name where it stands.
  cases keyword : rules.keywords.contains name.toLower with
  | true =>
      have kind : nameKind rules.keywords name = .keyword := if_pos keyword
      simp [checkFields, checkFieldsFrom, comparisonTokens, kind, Token.isKeyword]
  | false =>
      have kind : nameKind rules.keywords name = .identifier := by
        rw [nameKind, keyword, if_neg Bool.false_ne_true]
      cases allowed : rules.allowsField name <;>
        simp [checkFields, checkFieldsFrom, comparisonTokens, kind, Token.isKeyword, startsArguments,
          followsField, allowed]

theorem checkFunctions_comparison :
    checkFunctions rules (comparisonTokens rules.keywords name) = .ok () := by
  simp [checkFunctions, comparisonTokens, startsArguments]

theorem checkSqlWords_comparison (unreserved : name.toLower ∉ rules.sqlWords) :
    checkSqlWords rules (comparisonTokens rules.keywords name) = .ok () := by
  rw [checkSqlWords_eq_ok_iff]
  simp [comparisonTokens, unreserved]

end Checks

/-! ## The checks of the text -/

section Checks

variable {rules : Rules} {name : Text}

theorem trim_comparison (named : name.IsIdentifier) : (comparison name).trim = comparison name := by
  obtain ⟨first, rest, rfl, starts, -⟩ := named
  apply Text.trim_eq_self
  · intro b head
    obtain rfl : first = b := Option.some.inj head
    exact Byte.not_isBlank_of_isWord (Byte.isWord_of_isNameStart starts)
  · intro b last
    have quote : operand.getLast? = some Byte.doubleQuote := by decide
    rw [comparison, List.getLast?_append, quote] at last
    obtain rfl : Byte.doubleQuote = b := Option.some.inj last
    decide

theorem length_comparison : (comparison name).length = name.length + 6 := by
  have size : operand.length = 6 := by decide
  rw [comparison, List.length_append, size]

theorem bounds_comparison (named : name.IsIdentifier)
    (fits : (comparison name).length ≤ rules.maxLength) :
    (Gate.ofRules rules).checkBounds (comparison name) = .ok () := by
  refine checkSize_eq_ok_iff.mpr ⟨?_, fits⟩
  rw [trim_comparison named]
  obtain ⟨first, rest, rfl, -⟩ := named
  exact List.cons_ne_nil _ _

theorem nesting_comparison (rules : Rules) (wordy : ∀ b ∈ name, Byte.isWord b = true) :
    ∃ report, Nesting.check (Gate.ofRules rules).nesting (comparison name) = .ok report := by
  have ignored : ∀ b ∈ name, (Gate.ofRules rules).nesting.Ignores b := fun b member =>
    ignores_of_outside (p := Byte.isWord) _ (by decide) (wordy b member)
  have nothing : ∀ b ∈ ([] : Text), (Gate.ofRules rules).nesting.Ignores b := by simp
  obtain ⟨report, flat⟩ : ∃ report,
      Nesting.check (Gate.ofRules { Rules.sample with maxNesting := 0 }).nesting operand = .ok report :=
    exists_of_isOk (by decide +kernel)
  have alone : Nesting.check (Gate.ofRules rules).nesting operand = .ok report :=
    Nesting.check_of_deeper flat (Nat.zero_le rules.maxNesting)
  have margins := Nesting.check_margins (t := operand) ignored nothing
  rw [List.append_nil] at margins
  rw [comparison, margins]
  exact ⟨report, alone⟩

end Checks

/-! ## The verdict under any rules -/

section Rules

variable {rules : Rules} {name : Text}

theorem allowsField_iff : rules.allowsField name = true ↔ name.toLower ∈ rules.fields :=
  NameSet.contains_iff_mem

theorem judge_comparison_of_field (named : name.IsIdentifier)
    (fits : (comparison name).length ≤ rules.maxLength)
    (undetected : ((Detector.ofSources rules.patterns).inspect (comparison name)).isDetected = false)
    (listed : name.toLower ∈ rules.fields) (unnamed : name.toLower ∉ rules.keywords)
    (unreserved : name.toLower ∉ rules.sqlWords) :
    (Gate.ofRules rules).judge (comparison name) = .ok (comparison name) := by
  refine judge_eq_ok_iff.mpr
    ⟨⟨comparisonTokens rules.keywords name, ?_⟩, (trim_comparison named).symm⟩
  constructor
  case bounds => exact bounds_comparison named fits
  case patterns => exact Detector.check_eq_ok_iff.mpr undetected
  case nesting => exact nesting_comparison rules named.isWord
  case lexed => exact tokenize_comparison named
  case fields =>
    have identifier : rules.keywords.contains name.toLower = false := by
      rw [Bool.eq_false_iff, Ne, NameSet.contains_iff_mem]
      exact unnamed
    exact checkFields_comparison.trans (if_pos ⟨identifier, allowsField_iff.mpr listed⟩)
  case functions => exact checkFunctions_comparison
  case sqlWords => exact checkSqlWords_comparison unreserved

theorem judge_comparison_of_no_field (named : name.IsIdentifier)
    (unlisted : name.toLower ∉ rules.fields) :
    ∃ rejection, (Gate.ofRules rules).judge (comparison name) = .error rejection := by
  cases verdict : (Gate.ofRules rules).judge (comparison name) with
  | error rejection => exact ⟨rejection, rfl⟩
  | ok accepted =>
      obtain ⟨⟨tokens, passes⟩, -⟩ := judge_eq_ok_iff.mp verdict
      obtain rfl := Except.ok.inj ((tokenize_comparison named).symm.trans passes.lexed)
      have refused := checkFields_comparison.symm.trans passes.fields
      rw [if_neg fun field => unlisted (allowsField_iff.mp field.2)] at refused
      cases refused

end Rules

/-! ## The built-in patterns -/

/-- The names that a built-in pattern looks for. -/
def barredNames : List Text := [ascii "exec", ascii "script"]

/-- Every other pattern needs something behind the name that is not there. -/
theorem pattern_builtin_cases :
    ∀ pattern ∈ (Gate.ofRules Rules.builtin).detector.patterns,
      (∃ w ∈ barredNames, pattern.tree = Pattern.Tree.wholeWord w) ∨
        Pattern.meets (Pattern.leftBehind Byte.isWord pattern.tree.needs) operand = false := by
  decide +kernel

theorem exists_pattern_builtin :
    ∀ w ∈ barredNames, ∃ pattern ∈ (Gate.ofRules Rules.builtin).detector.patterns,
      pattern.tree = Pattern.Tree.wholeWord w := by
  decide +kernel

section Patterns

open Pattern

variable {name : Text} (wordy : ∀ b ∈ name, Byte.isWord b = true)

include wordy

theorem wholeWord_occurs_comparison_iff {w : Text} (barred : w ∈ barredNames) :
    (Tree.wholeWord w).Occurs (comparison name) ↔ name.toLower = w := by
  have plain : ∀ w ∈ barredNames, (∀ b ∈ w, Byte.isWord b = true) ∧ w ≠ [] ∧ w.toLower = w ∧
      ¬ w.toLower <:+: operand.toLower := by decide +kernel
  obtain ⟨words, nonempty, lowered, absent⟩ := plain w barred
  have apart : Text.Apart Byte.isWord operand :=
    apart_operand.mono fun _ => Lexeme.isInner_of_isWord
  rw [comparison, Tree.wholeWord_occurs_name_iff words nonempty wordy apart absent, lowered]

theorem detected_comparison_iff :
    ((Gate.ofRules Rules.builtin).detector.inspect (comparison name)).isDetected = true ↔
      name.toLower ∈ barredNames := by
  have searched : (Gate.ofRules Rules.builtin).detector.failsClosed = false := by
    obtain ⟨pattern, listed, -⟩ := exists_pattern_builtin _ List.mem_cons_self
    exact List.isEmpty_eq_false_iff_exists_mem.mpr ⟨pattern, listed⟩
  rw [Detector.inspect_isDetected_iff, searched, or_iff_right Bool.false_ne_true]
  constructor
  · rintro ⟨pattern, listed, found⟩
    have occurs := (occursIn_iff (isSteady_builtin pattern listed).1 _).mp found
    rcases pattern_builtin_cases pattern listed with ⟨w, barred, same⟩ | unmet
    · rw [same, wholeWord_occurs_comparison_iff wordy barred] at occurs
      exact occurs ▸ barred
    · have met := meets_leftBehind wordy occurs.meets_needs
      rw [unmet] at met
      cases met
  · intro barred
    obtain ⟨pattern, listed, same⟩ := exists_pattern_builtin _ barred
    refine ⟨pattern, listed, (occursIn_iff (isSteady_builtin pattern listed).1 _).mpr ?_⟩
    rw [same, wholeWord_occurs_comparison_iff wordy barred]

end Patterns

/-! ## The verdict -/

section Verdict

variable {name : Text}

theorem fields_builtin :
    ∀ field ∈ Rules.builtin.fields, field ∉ Rules.builtin.keywords ∧
      field ∉ Rules.builtin.sqlWords ∧ field ∉ barredNames := by
  simp only [Rules.builtin, NameSet.forall_mem_ofList]
  decide +kernel

theorem patterns_comparison (named : name.IsIdentifier) (unbarred : name.toLower ∉ barredNames) :
    (Gate.ofRules Rules.builtin).checkPatterns (comparison name) = .ok () := by
  refine Detector.check_eq_ok_iff.mpr ?_
  rw [Bool.eq_false_iff, Ne, detected_comparison_iff named.isWord]
  exact unbarred

theorem fits_builtin (short : name.length ≤ 994) :
    (comparison name).length ≤ Rules.builtin.maxLength := by
  have limit : Rules.builtin.maxLength = 1000 := rfl
  rw [length_comparison, limit]
  omega

variable (named : name.IsIdentifier) (short : name.length ≤ 994)

include named short

theorem judge_comparison_of_barred (barred : name.toLower ∈ barredNames) :
    ∃ rejection, (Gate.ofRules Rules.builtin).judge (comparison name) = .error rejection ∧
      rejection.code = .dangerousPattern := by
  cases patterns : (Gate.ofRules Rules.builtin).checkPatterns (comparison name) with
  | error rejection =>
      exact ⟨rejection, judge_of_patterns (bounds_comparison named (fits_builtin short)) patterns,
        Detector.code_of_check patterns⟩
  | ok =>
      have clear := Detector.check_eq_ok_iff.mp patterns
      rw [(detected_comparison_iff named.isWord).mpr barred] at clear
      cases clear

/-- A listed name is no keyword, so the query has a field on the left. -/
theorem judge_comparison_of_listed (listed : name.toLower ∈ Rules.builtin.fields) :
    (Gate.ofRules Rules.builtin).judge (comparison name) = .ok (comparison name) := by
  obtain ⟨unnamed, unreserved, unbarred⟩ := fields_builtin _ listed
  have undetected := Detector.check_eq_ok_iff.mp (patterns_comparison named unbarred)
  exact judge_comparison_of_field named (fits_builtin short) undetected listed unnamed unreserved

theorem judge_comparison_of_unlisted (unlisted : name.toLower ∉ Rules.builtin.fields)
    (unbarred : name.toLower ∉ barredNames) :
    (Gate.ofRules Rules.builtin).judge (comparison name) = .error (.unknownField name) := by
  refine judge_of_fields (bounds_comparison named (fits_builtin short)) (patterns_comparison named unbarred)
    (nesting_comparison _ named.isWord) (tokenize_comparison named) ?_
  exact checkFields_comparison.trans (if_neg fun field => unlisted (allowsField_iff.mp field.2))

end Verdict

/-- Under the built-in rules the comparison of a name is accepted just if the name is a listed field,
in any case. A name that a built-in pattern looks for is refused as dangerous, and every other name as
an unknown field, keywords and reserved words included. -/
theorem judge_comparison_iff {name : Text} (isName : name.isName = true) (fits : name.length ≤ 994) :
    ((Gate.ofRules Rules.builtin).judge (comparison name) = .ok (comparison name) ↔
      name.toLower ∈ Rules.builtin.fields) ∧
    ((∃ rejection, (Gate.ofRules Rules.builtin).judge (comparison name) = .error rejection ∧
        rejection.code = .dangerousPattern) ↔
      name.toLower ∈ [ascii "exec", ascii "script"]) ∧
    ((∃ rejection, (Gate.ofRules Rules.builtin).judge (comparison name) = .error rejection ∧
        rejection.code = .unknownField ∧ rejection.context = name) ↔
      name.toLower ∉ Rules.builtin.fields ∧ name.toLower ∉ [ascii "exec", ascii "script"]) := by
  have named := Text.isName_iff.mp isName
  change _ ∧ (_ ↔ name.toLower ∈ barredNames) ∧ (_ ↔ _ ∧ name.toLower ∉ barredNames)
  by_cases listed : name.toLower ∈ Rules.builtin.fields
  · have accepted := judge_comparison_of_listed named fits listed
    have unbarred := (fields_builtin _ listed).2.2
    simp [accepted, listed, unbarred]
  by_cases barred : name.toLower ∈ barredNames
  · obtain ⟨rejection, refused, code⟩ := judge_comparison_of_barred named fits barred
    simp [refused, code, listed, barred]
  · have refused := judge_comparison_of_unlisted named fits listed barred
    simp [refused, listed, barred, Rejection.code, Rejection.context]

theorem judge_comparison_iff_threeNames :
    (Gate.ofRules Rules.builtin).judge (comparison (ascii "TestPlan")) =
      .ok (ascii "TestPlan = \"x\"") ∧
    (∃ rejection, (Gate.ofRules Rules.builtin).judge (comparison (ascii "EXEC")) = .error rejection ∧
      rejection.code = .dangerousPattern) ∧
    ∃ rejection, (Gate.ofRules Rules.builtin).judge (comparison (ascii "Order")) = .error rejection ∧
      rejection.code = .unknownField ∧ rejection.context = ascii "Order" := by
  obtain ⟨allowed, -, -⟩ := @judge_comparison_iff (ascii "TestPlan") (by decide) (by decide)
  obtain ⟨-, barred, -⟩ := @judge_comparison_iff (ascii "EXEC") (by decide) (by decide)
  obtain ⟨-, -, unknown⟩ := @judge_comparison_iff (ascii "Order") (by decide) (by decide)
  have listed : (ascii "TestPlan").toLower ∈ Rules.builtin.fields :=
    NameSet.mem_ofList.mpr (by decide +kernel)
  have unlisted : (ascii "Order").toLower ∉ Rules.builtin.fields := fun member =>
    absurd (NameSet.mem_ofList.mp member) (by decide +kernel)
  exact ⟨allowed.mpr listed, barred.mpr (by decide), unknown.mpr ⟨unlisted, by decide⟩⟩

end QueryGate.Jql
