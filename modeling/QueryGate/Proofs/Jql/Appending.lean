import QueryGate.Proofs.Jql.Outline
import QueryGate.Proofs.Jql.Refusals
import QueryGate.Proofs.Jql.Words

/-! # Queries that go on

A query that is refused for its tokens is not rescued by what is written behind it. The tokens of
the query stay, and each check of tokens comes to the place that it refused before. The one way out
would be an opening parenthesis, which makes a call of the last name.
-/

namespace QueryGate.Jql

/-! ## Places -/

section Places

variable {tokens : List Token} {i j : Nat} {rules : Rules} (more : List Token)

theorem KindAt.lt_length {kind : TokenKind} (found : KindAt tokens i kind) : i < tokens.length := by
  obtain ⟨token, present, -⟩ := found
  exact (List.getElem?_eq_some_iff.mp present).1

theorem kindAt_append (inside : i < tokens.length) {kind : TokenKind} :
    KindAt (tokens ++ more) i kind ↔ KindAt tokens i kind := by
  rw [KindAt, KindAt, List.getElem?_append_left inside]

theorem keywordAt_append (inside : i < tokens.length) {word : Text} :
    KeywordAt (tokens ++ more) i word ↔ KeywordAt tokens i word := by
  rw [KeywordAt, KeywordAt, List.getElem?_append_left inside]

theorem KeywordAt.append {word : Text} (found : KeywordAt tokens i word) :
    KeywordAt (tokens ++ more) i word :=
  (keywordAt_append more found.kindAt.lt_length).mpr found

theorem followsOrderBy_append (reaches : i ≤ tokens.length) :
    FollowsOrderBy (tokens ++ more) i ↔ FollowsOrderBy tokens i := by
  refine exists_congr fun k => and_congr_right fun place => ?_
  rw [keywordAt_append more (by omega), keywordAt_append more (by omega)]

theorem continuesOrderBy_append (reaches : i ≤ tokens.length) :
    ContinuesOrderBy (tokens ++ more) i ↔ ContinuesOrderBy tokens i := by
  refine exists_congr fun comma => and_congr_right fun place => ?_
  rw [kindAt_append more (by omega)]
  refine and_congr_right fun _ => exists_congr fun j => and_congr_right fun before => ?_
  exact followsOrderBy_append more (by omega)

theorem BeginsCondition.append (begins : BeginsCondition tokens i) :
    BeginsCondition (tokens ++ more) i := by
  rcases begins with operator | ⟨word, listed, keyword⟩ | ⟨negation, word, listed, keyword⟩
  · exact Or.inl ((kindAt_append more operator.lt_length).mpr operator)
  · exact Or.inr (Or.inl ⟨word, listed, keyword.append more⟩)
  · exact Or.inr (Or.inr ⟨negation.append more, word, listed, keyword.append more⟩)

/-- A condition that begins within the tokens has begun in them, unless they end with `not`. -/
theorem BeginsCondition.of_append (begins : BeginsCondition (tokens ++ more) i)
    (inside : i < tokens.length)
    (settled : KeywordAt tokens i (ascii "not") → i + 1 < tokens.length) :
    BeginsCondition tokens i := by
  rcases begins with operator | ⟨word, listed, keyword⟩ | ⟨negation, word, listed, keyword⟩
  · exact Or.inl ((kindAt_append more inside).mp operator)
  · exact Or.inr (Or.inl ⟨word, listed, (keywordAt_append more inside).mp keyword⟩)
  · have negation := (keywordAt_append more inside).mp negation
    have keyword := (keywordAt_append more (settled negation)).mp keyword
    exact Or.inr (Or.inr ⟨negation, word, listed, keyword⟩)

theorem IsFieldPlace.append (place : IsFieldPlace tokens i) (reaches : i ≤ tokens.length) :
    IsFieldPlace (tokens ++ more) i := by
  rcases place with begins | follows | continues
  · exact Or.inl (begins.append more)
  · exact Or.inr (Or.inl ((followsOrderBy_append more reaches).mpr follows))
  · exact Or.inr (Or.inr ((continuesOrderBy_append more reaches).mpr continues))

theorem IsFieldPlace.of_append (place : IsFieldPlace (tokens ++ more) i)
    (inside : i + 1 < tokens.length)
    (settled : KeywordAt tokens (i + 1) (ascii "not") → i + 1 + 1 < tokens.length) :
    IsFieldPlace tokens i := by
  rcases place with begins | follows | continues
  · exact Or.inl (begins.of_append more inside settled)
  · exact Or.inr (Or.inl ((followsOrderBy_append more (by omega)).mp follows))
  · exact Or.inr (Or.inr ((continuesOrderBy_append more (by omega)).mp continues))

theorem lt_length_of_refused (refused : ¬ FieldsAllowedAt tokens i rules) : i < tokens.length := by
  by_contra beyond
  exact refused (fieldsAllowedAt_of_length_le rules (Nat.le_of_not_lt beyond))

theorem not_fieldsAllowedAt_append (uncalled : startsArguments more = false)
    (refused : ¬ FieldsAllowedAt tokens i rules) : ¬ FieldsAllowedAt (tokens ++ more) i rules := by
  intro allowed
  have inside := lt_length_of_refused refused
  have same : (tokens ++ more)[i]? = tokens[i]? := List.getElem?_append_left inside
  apply refused
  constructor
  case customField =>
    intro token found
    exact allowed.customField token (same.trans found)
  case comparison =>
    intro operator
    obtain ⟨k, rfl, beside⟩ := allowed.comparison ((kindAt_append more inside).mpr operator)
    have before : k < tokens.length := Nat.lt_of_succ_lt inside
    exact ⟨k, rfl, beside.imp (kindAt_append more before).mp (kindAt_append more before).mp⟩
  case name =>
    intro token found kind unopened place
    refine allowed.name token (same.trans found) kind ?_ (place.append more inside.le)
    intro opening
    by_cases within : i + 1 < tokens.length
    · exact unopened ((kindAt_append more within).mp opening)
    · have ends : i + 1 = tokens.length := by omega
      rw [← startsArguments_drop, ends, List.drop_left, uncalled] at opening
      cases opening

theorem fieldsAllowedAt_append (refused : ¬ FieldsAllowedAt tokens i rules) (before : j < i)
    (allowed : FieldsAllowedAt tokens j rules) : FieldsAllowedAt (tokens ++ more) j rules := by
  have inside := lt_length_of_refused refused
  have same : (tokens ++ more)[j]? = tokens[j]? := List.getElem?_append_left (by omega)
  -- A keyword is not refused, so the look past a `not` ends at a token as well.
  have settled : KeywordAt tokens (j + 1) (ascii "not") → j + 1 + 1 < tokens.length := by
    intro negation
    obtain ⟨token, found, kind⟩ := negation.kindAt
    by_contra late
    obtain rfl : i = j + 1 := by omega
    exact refused ((fieldsAllowedAt_iff rules found).mpr (by simp [kind]))
  constructor
  case customField =>
    intro token found
    exact allowed.customField token (same.symm.trans found)
  case comparison =>
    intro operator
    obtain ⟨k, rfl, beside⟩ := allowed.comparison ((kindAt_append more (by omega)).mp operator)
    have before : k < tokens.length := by omega
    exact ⟨k, rfl, beside.imp (kindAt_append more before).mpr (kindAt_append more before).mpr⟩
  case name =>
    intro token found kind unopened place
    refine allowed.name token (same.symm.trans found) kind ?_ (place.of_append more (by omega) settled)
    exact fun opening => unopened ((kindAt_append more (by omega)).mpr opening)

theorem culprit_append (inside : i < tokens.length) : culprit (tokens ++ more) i = culprit tokens i := by
  have same : ∀ j ≤ i, (tokens ++ more)[j]? = tokens[j]? :=
    fun j bound => List.getElem?_append_left (by omega)
  unfold culprit
  rw [same i (Nat.le_refl i)]
  dsimp only
  split
  · rw [same (i - 1) (Nat.sub_le i 1)]
  · rw [same i (Nat.le_refl i)]

end Places

/-! ## Tokens -/

section Tokens

variable {tokens more : List Token} {rules : Rules} {rejection later : Rejection}

theorem checkFields_append (uncalled : startsArguments more = false)
    (refused : checkFields rules tokens = .error rejection) :
    checkFields rules (tokens ++ more) = .error rejection := by
  rw [checkFields_eq_error_iff] at refused ⊢
  obtain ⟨i, violates, earlier, rfl⟩ := refused
  refine ⟨i, not_fieldsAllowedAt_append more uncalled violates, fun j before => ?_, ?_⟩
  · exact fieldsAllowedAt_append more violates before (earlier j before)
  · rw [culprit_append more (lt_length_of_refused violates)]

theorem startsArguments_append (uncalled : startsArguments more = false) :
    startsArguments (tokens ++ more) = startsArguments tokens := by
  cases tokens with
  | nil => exact uncalled
  | cons token rest => rfl

theorem checkFunctions_append (uncalled : startsArguments more = false)
    (refused : checkFunctions rules tokens = .error rejection) :
    checkFunctions rules (tokens ++ more) = .error rejection := by
  induction tokens with
  | nil => cases refused
  | cons token rest ih =>
      rw [checkFunctions] at refused
      rw [List.cons_append, checkFunctions, startsArguments_append uncalled]
      split at refused
      · next offends => rw [if_pos offends, refused]
      · next passes =>
          rw [if_neg passes]
          exact ih refused

theorem checkSqlWords_append (refused : checkSqlWords rules tokens = .error rejection) :
    checkSqlWords rules (tokens ++ more) = .error rejection := by
  induction tokens with
  | nil => cases refused
  | cons token rest ih =>
      rw [checkSqlWords] at refused
      rw [List.cons_append, checkSqlWords]
      split at refused
      · next offends => rw [if_pos offends, refused]
      · next passes =>
          rw [if_neg passes]
          exact ih refused

namespace TokensRefuse

variable (refuse : TokensRefuse rules tokens rejection) (uncalled : startsArguments more = false)

include refuse uncalled

theorem not_tokensPass_append : ¬ TokensPass rules (tokens ++ more) := by
  intro passes
  cases refuse with
  | fields refused => cases passes.fields.symm.trans (checkFields_append uncalled refused)
  | functions _ refused => cases passes.functions.symm.trans (checkFunctions_append uncalled refused)
  | sqlWords _ _ refused => cases passes.sqlWords.symm.trans (checkSqlWords_append refused)

theorem eq_of_append (again : TokensRefuse rules (tokens ++ more) later)
    (same : later.code = rejection.code) : later = rejection := by
  cases refuse with
  | fields refused =>
      have reports := again.fields_of_code (same.trans (code_of_fields refused))
      exact Except.error.inj (reports.symm.trans (checkFields_append uncalled refused))
  | functions _ refused =>
      have reports := again.functions_of_code (same.trans (code_of_functions refused))
      exact Except.error.inj (reports.symm.trans (checkFunctions_append uncalled refused))
  | sqlWords _ _ refused =>
      have reports := again.sqlWords_of_code (same.trans (code_of_sqlWords refused))
      exact Except.error.inj (reports.symm.trans (checkSqlWords_append refused))

end TokensRefuse

end Tokens

/-! ## Queries -/

section Queries

variable {keywords : NameSet} {query s : Text} {tokens all : List Token}

theorem tokenize_append_space (read : tokenize keywords query = .ok tokens)
    (whole : tokenize keywords (query ++ Byte.space :: s) = .ok all) :
    ∃ more, Lexed keywords query.length (Byte.space :: s) more ∧ all = tokens ++ more := by
  have apart : Text.Apart Lexeme.isInner (Byte.space :: s) := by
    intro b first
    obtain rfl := Option.some.inj first
    rfl
  rw [tokenize, tokenizeFrom_append apart read (Nat.zero_le _), map_eq_ok_iff] at whole
  obtain ⟨more, later, rfl⟩ := whole
  rw [Nat.zero_add] at later
  exact ⟨more, lexed_of_tokenizeFrom later, rfl⟩

end Queries

/-- A query that is refused for a field, a function or a reserved word stays refused whatever is
written behind it, unless an opening parenthesis comes first. If it is refused for the same sort of
word again, then for the same word. -/
theorem judge_refused_query_append {rules : Rules} {query : Text} {rejection : Rejection}
    (refused : (Gate.ofRules rules).judge query = .error rejection)
    (named : rejection.code ∈ [.unknownField, .unknownFunction, .sqlKeywordNotAllowed])
    {s : Text} (uncalled : (s.dropWhile Byte.isBlank).head? ≠ some Byte.openParen) :
    ∃ later, (Gate.ofRules rules).judge (query ++ Byte.space :: s) = .error later ∧
      (later.code = rejection.code → later = rejection) := by
  obtain ⟨tokens, read, refuse⟩ := tokensRefuse_of_judge refused named
  have behind : ∀ all, tokenize rules.keywords (query ++ Byte.space :: s) = .ok all →
      ∃ more, startsArguments more = false ∧ all = tokens ++ more := by
    intro all whole
    obtain ⟨more, lexed, rfl⟩ := tokenize_append_space read whole
    refine ⟨more, ?_, rfl⟩
    cases opens : startsArguments more with
    | false => rfl
    | true => exact absurd (lexed.head?_of_startsArguments opens) uncalled
  cases judged : (Gate.ofRules rules).judge (query ++ Byte.space :: s) with
  | ok accepted =>
      obtain ⟨⟨all, passes⟩, -⟩ := judge_eq_ok_iff.mp judged
      obtain ⟨more, unopened, rfl⟩ := behind all passes.lexed
      have checked : TokensPass rules (tokens ++ more) :=
        ⟨passes.fields, passes.functions, passes.sqlWords⟩
      exact absurd checked (refuse.not_tokensPass_append unopened)
  | error later =>
      refine ⟨later, rfl, fun same => ?_⟩
      obtain ⟨all, whole, again⟩ := tokensRefuse_of_judge judged (same ▸ named)
      obtain ⟨more, unopened, rfl⟩ := behind all whole
      exact refuse.eq_of_append unopened again same

/-- A query that compares a name which is no field. -/
def badField : Text := ascii "badField = \"x\""

theorem judge_refused_query_append_badField :
    (Gate.ofRules .sample).judge badField = .error (.unknownField (ascii "badField")) ∧
      ∃ later, (Gate.ofRules .sample).judge
          (badField ++ Byte.space :: ascii "AND status = \"TEST\"") = .error later ∧
        (later.code = .unknownField → later = .unknownField (ascii "badField")) := by
  have refused : (Gate.ofRules .sample).judge badField =
      .error (.unknownField (ascii "badField")) := by decide +kernel
  exact ⟨refused, judge_refused_query_append refused (by decide) (by decide +kernel)⟩

-- A parenthesis makes a call of a name that was taken for a column.
example :
    (Gate.ofRules .sample).judge (ascii "order by now") = .error (.unknownField (ascii "now")) ∧
      (Gate.ofRules .sample).judge (ascii "order by now ()") = .ok (ascii "order by now ()") := by
  decide +kernel

end QueryGate.Jql
