import QueryGate.Jql.Fields
import QueryGate.Proofs.Jql.Gate

/-! # What the check of fields asks of every place

The check walks over the tokens with two flags and up to two tokens of lookahead. Said without the
walk, it asks of every place three things, each of which depends on the tokens around the place
alone and on where a sort order began. The first place that does not meet them is the one that is
reported.
-/

namespace QueryGate.Jql

section Places

variable (tokens : List Token) (i : Nat)

/-- A token of a kind stands at place `i`. -/
def KindAt (kind : TokenKind) : Prop := ∃ token, tokens[i]? = some token ∧ token.kind = kind

/-- A keyword stands at place `i`. -/
def KeywordAt (word : Text) : Prop := ∃ token, tokens[i]? = some token ∧ token.isKeyword word = true

/-- The two keywords that begin a sort order end right before place `i`. -/
def FollowsOrderBy : Prop :=
  ∃ k, i = k + 2 ∧ KeywordAt tokens k (ascii "order") ∧ KeywordAt tokens (k + 1) (ascii "by")

/-- A comma stands right before place `i`, and a sort order began before the comma. -/
def ContinuesOrderBy : Prop :=
  ∃ comma, i = comma + 1 ∧ KindAt tokens comma .comma ∧ ∃ j ≤ comma, FollowsOrderBy tokens j

/-- A comparison or a predicate begins at place `i`. -/
def BeginsCondition : Prop :=
  KindAt tokens i .operator ∨
    (∃ word ∈ [ascii "in", ascii "is", ascii "was", ascii "changed"], KeywordAt tokens i word) ∨
    (KeywordAt tokens i (ascii "not") ∧
      ∃ word ∈ [ascii "in", ascii "changed"], KeywordAt tokens (i + 1) word)

/-- A name at place `i` is taken for a field. -/
def IsFieldPlace : Prop :=
  BeginsCondition tokens (i + 1) ∨ FollowsOrderBy tokens i ∨ ContinuesOrderBy tokens i

/-- The text that is reported for place `i`: what stands left of a comparison, if anything does,
and otherwise the token itself. -/
def culprit : Text :=
  let blamed := if (tokens[i]?).any (·.kind == .operator) then i - 1 else i
  ((tokens[blamed]?).map Token.text).getD []

/-- What the check of fields asks of place `i`. -/
structure FieldsAllowedAt (rules : Rules) : Prop where
  customField : ∀ token, tokens[i]? = some token → token.kind = .customField →
    rules.allowsCustomField token.text = true
  comparison : KindAt tokens i .operator →
    ∃ k, i = k + 1 ∧ (KindAt tokens k .identifier ∨ KindAt tokens k .customField)
  name : ∀ token, tokens[i]? = some token → token.kind = .identifier →
    ¬ KindAt tokens (i + 1) .opening → IsFieldPlace tokens i → rules.allowsField token.text = true

/-- The token at place `i` is a name or a custom field on the whitelist. -/
def Whitelisted (rules : Rules) : Prop :=
  ∃ token, tokens[i]? = some token ∧
    (token.kind = .identifier ∧ rules.allowsField token.text = true ∨
      token.kind = .customField ∧ rules.allowsCustomField token.text = true)

end Places

/-! ## The tokens ahead -/

section Ahead

variable {tokens rest : List Token} {token : Token} {n : Nat}

theorem ahead_of_drop (split : tokens.drop n = token :: rest) :
    tokens[n]? = some token ∧ rest = tokens.drop (n + 1) := by
  constructor
  · rw [← List.head?_drop, split, List.head?_cons]
  · rw [← List.tail_drop, split, List.tail_cons]

theorem kindAt_iff (found : tokens[n]? = some token) {kind : TokenKind} :
    KindAt tokens n kind ↔ token.kind = kind := by
  simp [KindAt, found]

theorem keywordAt_iff (found : tokens[n]? = some token) {word : Text} :
    KeywordAt tokens n word ↔ token.isKeyword word = true := by
  simp [KeywordAt, found]

theorem KeywordAt.kindAt {word : Text} (keyword : KeywordAt tokens n word) :
    KindAt tokens n .keyword := by
  obtain ⟨token, found, named⟩ := keyword
  simp only [Token.isKeyword, Bool.and_eq_true, beq_iff_eq] at named
  exact ⟨token, found, named.1⟩

theorem KeywordAt.unique {one other : Text} (first : KeywordAt tokens n one)
    (second : KeywordAt tokens n other) : one = other := by
  obtain ⟨token, found, named⟩ := first
  rw [keywordAt_iff found] at second
  simp only [Token.isKeyword, Bool.and_eq_true, beq_iff_eq] at named second
  exact named.2.symm.trans second.2

theorem KindAt.unique {one another : TokenKind} (first : KindAt tokens n one)
    (second : KindAt tokens n another) : one = another := by
  obtain ⟨token, found, rfl⟩ := first
  exact (kindAt_iff found).mp second

theorem startsArguments_drop : startsArguments (tokens.drop n) = true ↔ KindAt tokens n .opening := by
  rw [startsArguments, List.head?_drop, Option.any_eq_true]
  simp only [beq_iff_eq, KindAt]

theorem followsField_drop : followsField (tokens.drop n) = true ↔ BeginsCondition tokens n := by
  cases split : tokens.drop n with
  | nil =>
      have absent : tokens[n]? = none := by rw [← List.head?_drop, split, List.head?_nil]
      simp [followsField, BeginsCondition, KindAt, KeywordAt, absent]
  | cons next rest =>
      obtain ⟨found, rfl⟩ := ahead_of_drop split
      have negated : (tokens.drop (n + 1)).head?.any (·.isNegatablePredicate) = true ↔
          ∃ word ∈ [ascii "in", ascii "changed"], KeywordAt tokens (n + 1) word := by
        rw [List.head?_drop, Option.any_eq_true]
        simp only [Token.isNegatablePredicate, Bool.or_eq_true, KeywordAt, List.mem_cons, exists_eq_or_imp,
          List.not_mem_nil, exists_eq_left, or_false, and_or_left, exists_or]
      simp only [followsField, BeginsCondition, Bool.or_eq_true, Bool.and_eq_true, beq_iff_eq,
        negated, kindAt_iff found, keywordAt_iff found, Token.isPredicate, List.mem_cons, exists_eq_or_imp,
        List.not_mem_nil, exists_eq_left, or_false, or_assoc]

end Ahead

/-! ## What the walk knows -/

/-- Before place `n` the state tells what stands before that place, and the place is not between
the two keywords of a sort order. -/
structure Knows (tokens : List Token) (n : Nat) (state : FieldState) : Prop where
  first : n = 0 → state.previous = none
  previous : ∀ k, n = k + 1 → state.previous = tokens[k]?
  sorting : state.sorting = true ↔ ∃ j ≤ n, FollowsOrderBy tokens j
  column : state.column = true ↔ FollowsOrderBy tokens n ∨ ContinuesOrderBy tokens n
  outside : ¬ FollowsOrderBy tokens (n + 1)

section Walk

variable {tokens rest : List Token} {token : Token} {n : Nat} {state : FieldState}

theorem knows_start (tokens : List Token) : Knows tokens 0 {} := by
  have early : ∀ j ≤ 1, ¬ FollowsOrderBy tokens j := by
    rintro j bound ⟨k, place, -⟩
    omega
  have fresh : ¬ ContinuesOrderBy tokens 0 := by
    rintro ⟨comma, place, -⟩
    omega
  constructor
  case first => exact fun _ => rfl
  case previous => intro k place; omega
  case sorting =>
      refine iff_of_false Bool.false_ne_true ?_
      rintro ⟨j, bound, follows⟩
      exact early j (by omega) follows
  case column =>
      refine iff_of_false Bool.false_ne_true ?_
      exact fun either => either.elim (early 0 (by omega)) fresh
  case outside => exact early 1 (by omega)

theorem followsOrderBy_add_two :
    FollowsOrderBy tokens (n + 2) ↔
      KeywordAt tokens n (ascii "order") ∧ KeywordAt tokens (n + 1) (ascii "by") := by
  constructor
  · rintro ⟨k, place, pair⟩
    obtain rfl : n = k := by omega
    exact pair
  · exact fun pair => ⟨n, rfl, pair⟩

theorem continuesOrderBy_succ :
    ContinuesOrderBy tokens (n + 1) ↔
      KindAt tokens n .comma ∧ ∃ j ≤ n, FollowsOrderBy tokens j := by
  constructor
  · rintro ⟨comma, place, described⟩
    obtain rfl : n = comma := by omega
    exact described
  · exact fun described => ⟨n, rfl, described⟩

theorem Knows.next (knows : Knows tokens n state) (found : tokens[n]? = some token)
    (unpaired : ¬ FollowsOrderBy tokens (n + 2)) {column : Bool}
    (expected : column = true ↔ token.kind = .comma ∧ state.sorting = true) :
    Knows tokens (n + 1) { state with previous := some token, column } := by
  constructor
  case first => intro place; omega
  case previous =>
      intro k place
      obtain rfl : n = k := by omega
      exact found.symm
  case sorting =>
      rw [knows.sorting]
      constructor
      · rintro ⟨j, bound, follows⟩
        exact ⟨j, Nat.le_succ_of_le bound, follows⟩
      · rintro ⟨j, bound, follows⟩
        refine ⟨j, Nat.le_of_lt_succ (Nat.lt_of_le_of_ne bound ?_), follows⟩
        rintro rfl
        exact knows.outside follows
  case column =>
      rw [expected, continuesOrderBy_succ, kindAt_iff found, ← knows.sorting]
      exact (or_iff_right knows.outside).symm
  case outside => exact unpaired

theorem knows_sorting {second : Token} (found : tokens[n + 1]? = some second)
    (pair : FollowsOrderBy tokens (n + 2)) : Knows tokens (n + 2) ⟨some second, true, true⟩ := by
  constructor
  case first => intro place; omega
  case previous =>
      intro k place
      obtain rfl : k = n + 1 := by omega
      exact found.symm
  case sorting => exact iff_of_true rfl ⟨n + 2, Nat.le_refl _, pair⟩
  case column => exact iff_of_true rfl (Or.inl pair)
  case outside =>
      intro again
      have other := (followsOrderBy_add_two.mp again).1
      have differ : ascii "order" ≠ ascii "by" := by decide
      exact differ (other.unique (followsOrderBy_add_two.mp pair).2)

theorem Knows.column_eq_false {k : Nat} (knows : Knows tokens (k + 1) state)
    (left : KindAt tokens k .identifier ∨ KindAt tokens k .customField) : state.column = false := by
  rw [← Bool.not_eq_true, knows.column]
  have keyword : ∀ {kind}, KindAt tokens k kind → kind ≠ .keyword → ¬ FollowsOrderBy tokens (k + 1) := by
    rintro kind found other ⟨j, place, -, second⟩
    obtain rfl : k = j + 1 := by omega
    exact other (found.unique second.kindAt)
  have comma : ∀ {kind}, KindAt tokens k kind → kind ≠ .comma → ¬ ContinuesOrderBy tokens (k + 1) := by
    intro kind found other continues
    exact other (found.unique (continuesOrderBy_succ.mp continues).1)
  rcases left with name | field
  · exact fun either => either.elim (keyword name (by decide)) (comma name (by decide))
  · exact fun either => either.elim (keyword field (by decide)) (comma field (by decide))

/-! ## One step and the whole walk -/

variable {rules : Rules}

theorem fieldsAllowedAt_iff (rules : Rules) (found : tokens[n]? = some token) :
    FieldsAllowedAt tokens n rules ↔
      (token.kind = .customField → rules.allowsCustomField token.text = true) ∧
      (token.kind = .operator →
        ∃ k, n = k + 1 ∧ (KindAt tokens k .identifier ∨ KindAt tokens k .customField)) ∧
      (token.kind = .identifier → ¬ KindAt tokens (n + 1) .opening → IsFieldPlace tokens n →
        rules.allowsField token.text = true) := by
  constructor
  · intro allowed
    exact ⟨allowed.customField token found,
      fun kind => allowed.comparison ((kindAt_iff found).mpr kind), allowed.name token found⟩
  · rintro ⟨field, comparison, name⟩
    have same : ∀ other, tokens[n]? = some other → other = token :=
      fun other present => Option.some.inj (present.symm.trans found)
    constructor
    case customField => exact fun other present => same other present ▸ field
    case comparison => exact fun operator => comparison ((kindAt_iff found).mp operator)
    case name => exact fun other present => same other present ▸ name

theorem culprit_of_ne_operator (found : tokens[n]? = some token) (other : token.kind ≠ .operator) :
    culprit tokens n = token.text := by
  simp [culprit, found, other]

theorem culprit_of_operator (found : tokens[n]? = some token) (kind : token.kind = .operator) :
    culprit tokens n = ((tokens[n - 1]?).map Token.text).getD [] := by
  simp [culprit, found, kind]

/-- What the walk comes to at place `n`: it refuses the token there and reports its culprit, or it
allows what it passes and goes on at a later place. -/
inductive Step (rules : Rules) (tokens : List Token) (n : Nat) : Except Rejection Unit → Prop where
  | refuses (refused : ¬ FieldsAllowedAt tokens n rules) :
      Step rules tokens n (.error (.unknownField (culprit tokens n)))
  | passes {m state} (later : n < m) (knows : Knows tokens m state)
      (allowed : ∀ i, n ≤ i → i < m → FieldsAllowedAt tokens i rules) :
      Step rules tokens n (checkFieldsFrom rules state (tokens.drop m))

theorem Step.refuse {text : Text} (refused : ¬ FieldsAllowedAt tokens n rules)
    (blamed : culprit tokens n = text) : Step rules tokens n (.error (.unknownField text)) :=
  blamed ▸ .refuses refused

theorem Step.one (knows : Knows tokens n state) (found : tokens[n]? = some token)
    (unpaired : ¬ FollowsOrderBy tokens (n + 2)) {column : Bool}
    (expected : column = true ↔ token.kind = .comma ∧ state.sorting = true)
    (allowed : FieldsAllowedAt tokens n rules) :
    Step rules tokens n
      (checkFieldsFrom rules { state with previous := some token, column }
        (tokens.drop (n + 1))) := by
  refine .passes (Nat.lt_succ_self n) (knows.next found unpaired expected) fun i starts ends => ?_
  obtain rfl : i = n := by omega
  exact allowed

theorem Step.two {second : Token} (present : tokens[n + 1]? = some second)
    (pair : FollowsOrderBy tokens (n + 2)) :
    Step rules tokens n
      (checkFieldsFrom rules ⟨some second, true, true⟩ (tokens.drop (n + 2))) := by
  obtain ⟨order, by_⟩ := followsOrderBy_add_two.mp pair
  refine .passes (by omega) (knows_sorting present pair) fun i starts ends => ?_
  have keyword : KindAt tokens i .keyword := by
    obtain rfl | rfl : i = n ∨ i = n + 1 := by omega
    · exact order.kindAt
    · exact by_.kindAt
  obtain ⟨token, found, kind⟩ := keyword
  simp [fieldsAllowedAt_iff rules found, kind]

/-- The two keywords of a sort order are what the walk looks for first. -/
theorem paired_iff (found : tokens[n]? = some token) :
    (token.isKeyword (ascii "order") &&
        (tokens.drop (n + 1)).head?.any (·.isKeyword (ascii "by"))) = true ↔
      FollowsOrderBy tokens (n + 2) := by
  rw [followsOrderBy_add_two, keywordAt_iff found, Bool.and_eq_true, List.head?_drop,
    Option.any_eq_true]
  rfl

theorem step_of_knows (knows : Knows tokens n state) (found : tokens[n]? = some token) :
    Step rules tokens n (checkFieldsFrom rules state (token :: tokens.drop (n + 1))) := by
  have walk := checkFieldsFrom.eq_def rules state (token :: tokens.drop (n + 1))
  dsimp only at walk
  by_cases pair : FollowsOrderBy tokens (n + 2)
  · obtain ⟨second, present, -⟩ := (followsOrderBy_add_two.mp pair).2
    obtain ⟨inside, rfl⟩ := List.getElem?_eq_some_iff.mp present
    rw [if_pos ((paired_iff found).mpr pair), List.drop_eq_getElem_cons inside] at walk
    rw [List.drop_eq_getElem_cons inside, walk]
    exact .two present pair
  rw [if_neg fun looked => pair ((paired_iff found).mp looked)] at walk
  rw [walk]
  have allowed_iff := fieldsAllowedAt_iff rules found
  cases kind : token.kind with
  | customField =>
      simp only [kind, reduceCtorEq, forall_const, false_implies, and_true] at allowed_iff
      have blamed := culprit_of_ne_operator found (by simp [kind])
      dsimp only
      split
      · next allowed => exact .one knows found pair (by simp [kind]) (allowed_iff.mpr allowed)
      · next refused => exact .refuse (refused ∘ allowed_iff.mp) blamed
  | operator =>
      simp only [kind, reduceCtorEq, forall_const, false_implies, and_true, true_and] at allowed_iff
      have blamed := culprit_of_operator found kind
      dsimp only
      cases n with
      | zero =>
          rw [Nat.zero_sub, found] at blamed
          rw [knows.first rfl]
          refine .refuse (fun allowed => ?_) blamed
          obtain ⟨k, place, -⟩ := allowed_iff.mp allowed
          omega
      | succ k =>
          have inside : k < tokens.length :=
            Nat.lt_of_succ_lt (List.getElem?_eq_some_iff.mp found).1
          have before := List.getElem?_eq_getElem inside
          rw [Nat.add_sub_cancel, before] at blamed
          rw [knows.previous k rfl, before]
          dsimp only
          split
          · next left =>
              have beside := left.imp (kindAt_iff before).mpr (kindAt_iff before).mpr
              refine .one knows found pair ?_ (allowed_iff.mpr ⟨k, rfl, beside⟩)
              simp [kind, knows.column_eq_false beside]
          · next other =>
              refine .refuse (fun allowed => ?_) blamed
              obtain ⟨j, place, beside⟩ := allowed_iff.mp allowed
              obtain rfl : k = j := by omega
              exact other (beside.imp (kindAt_iff before).mp (kindAt_iff before).mp)
  | identifier =>
      simp only [kind, reduceCtorEq, forall_const, false_implies, true_and] at allowed_iff
      have blamed := culprit_of_ne_operator found (by simp [kind])
      have place_iff : (state.column || followsField (tokens.drop (n + 1))) = true ↔
          IsFieldPlace tokens n := by
        rw [Bool.or_eq_true, followsField_drop, knows.column, or_comm]
        rfl
      have passes := fun allowed =>
        @Step.one _ _ _ _ _ knows found pair false (by simp [kind]) (allowed_iff.mpr allowed)
      dsimp only
      split
      · next called =>
          exact passes fun uncalled => absurd (startsArguments_drop.mp called) uncalled
      · next uncalled =>
          rw [startsArguments_drop] at uncalled
          split
          · next refused =>
              rw [Bool.and_eq_true, place_iff, Bool.not_eq_true'] at refused
              refine .refuse (fun allowed => ?_) blamed
              have listed := allowed_iff.mp allowed uncalled refused.1
              simp [refused.2] at listed
          · next unrefused =>
              refine passes fun _ place => ?_
              rw [Bool.and_eq_true, place_iff, Bool.not_eq_true', not_and] at unrefused
              simpa using unrefused place
  | comma | keyword | string | number | opening | closing | other =>
      refine .one knows found pair (by simp [kind]) (allowed_iff.mpr ?_)
      simp [kind]

theorem fieldsAllowedAt_of_length_le (rules : Rules) {i : Nat} (beyond : tokens.length ≤ i) :
    FieldsAllowedAt tokens i rules := by
  have absent := List.getElem?_eq_none beyond
  constructor
  case customField => simp [absent]
  case comparison => simp [KindAt, absent]
  case name => simp [absent]

/-- The rest of the walk allows every place from `n` on, or it reports the first that is refused. -/
theorem run_of_knows (knows : Knows tokens n state) :
    (checkFieldsFrom rules state (tokens.drop n) = .ok () ∧
      ∀ i, n ≤ i → FieldsAllowedAt tokens i rules) ∨
    ∃ i, n ≤ i ∧ ¬ FieldsAllowedAt tokens i rules ∧
      (∀ j, n ≤ j → j < i → FieldsAllowedAt tokens j rules) ∧
      checkFieldsFrom rules state (tokens.drop n) = .error (.unknownField (culprit tokens i)) := by
  induction left : tokens.length - n using Nat.strongRecOn generalizing n state with
  | ind left ih =>
      by_cases beyond : tokens.length ≤ n
      · rw [List.drop_of_length_le beyond]
        exact Or.inl ⟨rfl, fun i after => fieldsAllowedAt_of_length_le rules (by omega)⟩
      have inside : n < tokens.length := Nat.lt_of_not_le beyond
      have step : Step rules tokens n _ := step_of_knows knows (List.getElem?_eq_getElem inside)
      rw [← List.drop_eq_getElem_cons inside] at step
      generalize checkFieldsFrom rules state (tokens.drop n) = result at step
      cases step with
      | refuses refused =>
          refine Or.inr ⟨n, Nat.le_refl n, refused, fun j after before => ?_, rfl⟩
          omega
      | passes later knows allowed =>
          rename_i m state
          have spread : ∀ i, n ≤ i → (m ≤ i → FieldsAllowedAt tokens i rules) →
              FieldsAllowedAt tokens i rules := by
            intro i after rest
            by_cases early : i < m
            · exact allowed i after early
            · exact rest (Nat.le_of_not_lt early)
          rcases ih _ (by omega) knows rfl with ⟨ends, others⟩ | ⟨i, after, refused, others, reports⟩
          · exact Or.inl ⟨ends, fun i after => spread i after (others i)⟩
          · refine Or.inr ⟨i, by omega, refused, fun j after before => ?_, reports⟩
            exact spread j after fun late => others j late before

end Walk

/-! ## The specification -/

theorem checkFields_eq_ok_iff (rules : Rules) (tokens : List Token) :
    checkFields rules tokens = .ok () ↔ ∀ i, FieldsAllowedAt tokens i rules := by
  have run := @run_of_knows tokens 0 {} rules (knows_start tokens)
  rw [List.drop_zero] at run
  unfold checkFields
  rcases run with ⟨passes, allowed⟩ | ⟨i, -, refused, -, reports⟩
  · exact iff_of_true passes fun i => allowed i (Nat.zero_le i)
  · exact iff_of_false (by simp [reports]) fun allowed => refused (allowed i)

theorem checkFields_eq_error_iff (rules : Rules) (tokens : List Token) (rejection : Rejection) :
    checkFields rules tokens = .error rejection ↔
      ∃ i, ¬ FieldsAllowedAt tokens i rules ∧ (∀ j < i, FieldsAllowedAt tokens j rules) ∧
        rejection = .unknownField (culprit tokens i) := by
  have run := @run_of_knows tokens 0 {} rules (knows_start tokens)
  rw [List.drop_zero] at run
  unfold checkFields
  constructor
  · intro reported
    rcases run with ⟨passes, -⟩ | ⟨i, -, refused, earlier, reports⟩
    · simp [passes] at reported
    · rw [reports] at reported
      exact ⟨i, refused, fun j before => earlier j (Nat.zero_le j) before,
        (Except.error.inj reported).symm⟩
  · rintro ⟨i, refused, earlier, rfl⟩
    rcases run with ⟨-, allowed⟩ | ⟨j, -, other, before, reports⟩
    · exact absurd (allowed i (Nat.zero_le i)) refused
    · rcases Nat.lt_trichotomy i j with less | rfl | greater
      · exact absurd (before i (Nat.zero_le i) less) refused
      · exact reports
      · exact absurd (earlier j greater) other

section Allowed

variable {rules : Rules} {tokens : List Token} {k : Nat}

theorem whitelisted_name (allowed : FieldsAllowedAt tokens k rules)
    (named : KindAt tokens k .identifier) (uncalled : ¬ KindAt tokens (k + 1) .opening)
    (place : IsFieldPlace tokens k) : Whitelisted tokens k rules := by
  obtain ⟨token, found, kind⟩ := named
  exact ⟨token, found, Or.inl ⟨kind, allowed.name token found kind uncalled place⟩⟩

theorem whitelisted_customField (allowed : FieldsAllowedAt tokens k rules)
    (field : KindAt tokens k .customField) : Whitelisted tokens k rules := by
  obtain ⟨token, found, kind⟩ := field
  exact ⟨token, found, Or.inr ⟨kind, allowed.customField token found kind⟩⟩

theorem whitelisted_comparison {i : Nat} (allowed : ∀ i, FieldsAllowedAt tokens i rules)
    (operator : KindAt tokens i .operator) : ∃ k, i = k + 1 ∧ Whitelisted tokens k rules := by
  obtain ⟨k, rfl, name | field⟩ := (allowed i).comparison operator
  · have uncalled : ¬ KindAt tokens (k + 1) .opening :=
      fun opening => absurd (operator.unique opening) (by decide)
    exact ⟨k, rfl, whitelisted_name (allowed k) name uncalled (Or.inl (Or.inl operator))⟩
  · exact ⟨k, rfl, whitelisted_customField (allowed k) field⟩

end Allowed

/-- The check of fields passes exactly if every place is allowed, and it reports the culprit of the
first place that is not. In an accepted query what stands left of a comparison is therefore on the
whitelist. -/
theorem checkFields_iff_fieldsAllowedAt (rules : Rules) (tokens : List Token) :
    (checkFields rules tokens = .ok () ↔ ∀ i, FieldsAllowedAt tokens i rules) ∧
    (∀ rejection, checkFields rules tokens = .error rejection ↔
      ∃ i, ¬ FieldsAllowedAt tokens i rules ∧ (∀ j < i, FieldsAllowedAt tokens j rules) ∧
        rejection = .unknownField (culprit tokens i)) ∧
    ∀ query accepted, (Gate.ofRules rules).judge query = .ok accepted →
      tokenize rules.keywords query = .ok tokens →
      ∀ i, KindAt tokens i .operator → ∃ k, i = k + 1 ∧ Whitelisted tokens k rules := by
  refine ⟨checkFields_eq_ok_iff rules tokens, checkFields_eq_error_iff rules tokens, ?_⟩
  intro query accepted judged lexed i operator
  obtain ⟨⟨others, passes⟩, -⟩ := judge_eq_ok_iff.mp judged
  obtain rfl := Except.ok.inj (lexed.symm.trans passes.lexed)
  exact whitelisted_comparison ((checkFields_eq_ok_iff rules tokens).mp passes.fields) operator

/-- A query that compares a field. -/
def comparedStatus : Text := ascii "status = 'open'"

theorem checkFields_iff_fieldsAllowedAt_comparedStatus :
    ∃ tokens, tokenize Rules.builtin.keywords comparedStatus = .ok tokens ∧
      KindAt tokens 1 .operator ∧ Whitelisted tokens 0 .builtin := by
  let tokens : List Token :=
    [⟨.identifier, ascii "status", 0⟩, ⟨.operator, ascii "=", 7⟩, ⟨.string, ascii "'open'", 9⟩]
  have judged : (Gate.ofRules .builtin).judge comparedStatus = .ok comparedStatus.trim := by
    decide +kernel
  have lexed : tokenize Rules.builtin.keywords comparedStatus = .ok tokens := by decide +kernel
  have operator : KindAt tokens 1 .operator := ⟨_, rfl, rfl⟩
  obtain ⟨-, -, compared⟩ := checkFields_iff_fieldsAllowedAt .builtin tokens
  obtain ⟨k, place, whitelisted⟩ := compared _ _ judged lexed 1 operator
  obtain rfl : k = 0 := by omega
  exact ⟨tokens, lexed, operator, whitelisted⟩

end QueryGate.Jql
