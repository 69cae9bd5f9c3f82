import QueryGate.Proofs.Jql.Fields

/-! # Which fields escape the whitelist

What a predicate is about and what a query is sorted by are fields. The check of fields looks at
them from the left, and only where a name or a custom field stands: a literal or a number in front
of a predicate, a literal among the sort columns, and a name whose predicate is a denied `is` or
`was` are not looked at. These are all that escape.
-/

namespace QueryGate.Jql

section Places

variable (tokens : List Token) (k : Nat)

/-- Right after place `k` stands `in`, `is`, `was` or `changed`, or `not` and one of these. -/
def PrecedesPredicate : Prop :=
  ∃ word ∈ [ascii "in", ascii "is", ascii "was", ascii "changed"],
    KeywordAt tokens (k + 1) word ∨
      KeywordAt tokens (k + 1) (ascii "not") ∧ KeywordAt tokens (k + 2) word

/-- How many parentheses opened from place `start` on are open at place `n`. -/
def openSince (start n : Nat) : Nat :=
  ((tokens.take n).drop start).foldl
    (fun depth token =>
      match token.kind with
      | .opening => depth + 1
      | .closing => depth - 1
      | _ => depth)
    0

/-- A sort order begins at place `k`, or goes on there after a comma outside the parentheses opened
in it. -/
def ExpectsColumn : Prop :=
  FollowsOrderBy tokens k ∨
    ∃ start comma, FollowsOrderBy tokens start ∧ start ≤ comma ∧ k = comma + 1 ∧
      KindAt tokens comma .comma ∧ openSince tokens start comma = 0

/-- The token at place `k` is what a predicate is about. -/
def IsSubject : Prop :=
  PrecedesPredicate tokens k ∧
    (KindAt tokens k .identifier ∨ KindAt tokens k .customField ∨ KindAt tokens k .string ∨
      KindAt tokens k .number)

/-- The token at place `k` is what the query is sorted by. -/
def IsSortColumn : Prop :=
  ExpectsColumn tokens k ∧
    (KindAt tokens k .identifier ∧ ¬ KindAt tokens (k + 1) .opening ∨
      KindAt tokens k .customField ∨ KindAt tokens k .string)

/-- The token at place `k` is used as a field. -/
def UsedAsField : Prop := IsSubject tokens k ∨ IsSortColumn tokens k

/-- The predicate right after place `k` is a denied `is` or `was`. -/
def PrecedesDenial : Prop :=
  KeywordAt tokens (k + 1) (ascii "not") ∧
    (KeywordAt tokens (k + 2) (ascii "is") ∨ KeywordAt tokens (k + 2) (ascii "was"))

end Places

section Places

variable {tokens : List Token} {k : Nat} {rules : Rules}

theorem PrecedesPredicate.uncalled (precedes : PrecedesPredicate tokens k) :
    ¬ KindAt tokens (k + 1) .opening := by
  obtain ⟨word, -, keyword | ⟨keyword, -⟩⟩ := precedes
  · exact fun opening => absurd (keyword.kindAt.unique opening) (by decide)
  · exact fun opening => absurd (keyword.kindAt.unique opening) (by decide)

/-- The check takes a name for a field in front of every predicate but a denied `is` or `was`. -/
theorem PrecedesPredicate.isFieldPlace (precedes : PrecedesPredicate tokens k)
    (undenied : ¬ PrecedesDenial tokens k) : IsFieldPlace tokens k := by
  obtain ⟨word, listed, keyword | ⟨negation, keyword⟩⟩ := precedes
  · exact Or.inl (Or.inr (Or.inl ⟨word, listed, keyword⟩))
  · refine Or.inl (Or.inr (Or.inr ⟨negation, word, ?_, keyword⟩))
    simp only [List.mem_cons, List.not_mem_nil, or_false] at listed ⊢
    rcases listed with rfl | rfl | rfl | rfl
    · exact Or.inl rfl
    · exact absurd ⟨negation, Or.inl keyword⟩ undenied
    · exact absurd ⟨negation, Or.inr keyword⟩ undenied
    · exact Or.inr rfl

theorem ExpectsColumn.isFieldPlace (expects : ExpectsColumn tokens k) : IsFieldPlace tokens k := by
  rcases expects with follows | ⟨start, comma, follows, before, rfl, present, -⟩
  · exact Or.inr (Or.inl follows)
  · exact Or.inr (Or.inr ⟨comma, rfl, present, start, before, follows⟩)

theorem whitelisted_of_usedAsField (allowed : FieldsAllowedAt tokens k rules)
    (used : UsedAsField tokens k)
    (kind : KindAt tokens k .identifier ∨ KindAt tokens k .customField)
    (denied : KindAt tokens k .identifier → PrecedesDenial tokens k → Whitelisted tokens k rules) :
    Whitelisted tokens k rules := by
  rcases kind with name | field
  · by_cases denial : PrecedesDenial tokens k
    · exact denied name denial
    rcases used with ⟨precedes, -⟩ | ⟨expects, ⟨-, uncalled⟩ | field | literal⟩
    · exact whitelisted_name allowed name precedes.uncalled (precedes.isFieldPlace denial)
    · exact whitelisted_name allowed name uncalled expects.isFieldPlace
    · exact absurd (name.unique field) (by decide)
    · exact absurd (name.unique literal) (by decide)
  · exact whitelisted_customField allowed field

theorem PrecedesDenial.isSubject (denial : PrecedesDenial tokens k)
    (name : KindAt tokens k .identifier) : IsSubject tokens k := by
  refine ⟨?_, Or.inl name⟩
  obtain ⟨negation, is_ | was⟩ := denial
  · exact ⟨ascii "is", by decide, Or.inr ⟨negation, is_⟩⟩
  · exact ⟨ascii "was", by decide, Or.inr ⟨negation, was⟩⟩

end Places

/-- In an accepted query everything used as a field is on the whitelist exactly if it consists of
names and custom fields, and the names in front of a denied `is` or `was` are on the whitelist. -/
theorem whitelisted_iff_of_judge {rules : Rules} {query accepted : Text}
    (judged : (Gate.ofRules rules).judge query = .ok accepted) :
    ∃ tokens, tokenize rules.keywords query = .ok tokens ∧
      ((∀ k, UsedAsField tokens k → Whitelisted tokens k rules) ↔
        (∀ k, UsedAsField tokens k → KindAt tokens k .identifier ∨ KindAt tokens k .customField) ∧
        ∀ k, KindAt tokens k .identifier → PrecedesDenial tokens k →
          Whitelisted tokens k rules) := by
  obtain ⟨⟨tokens, passes⟩, -⟩ := judge_eq_ok_iff.mp judged
  have allowed := (checkFields_eq_ok_iff rules tokens).mp passes.fields
  refine ⟨tokens, passes.lexed, ?_⟩
  constructor
  · intro whitelisted
    refine ⟨fun k used => ?_, fun k name denial => whitelisted k (Or.inl (denial.isSubject name))⟩
    obtain ⟨token, found, ⟨kind, -⟩ | ⟨kind, -⟩⟩ := whitelisted k used
    · exact Or.inl ⟨token, found, kind⟩
    · exact Or.inr ⟨token, found, kind⟩
  · rintro ⟨kinds, denied⟩ k used
    exact whitelisted_of_usedAsField (allowed k) used (kinds k used) (denied k)

/-- A query with a denied predicate and two sort columns. -/
def sortedQuery : Text := ascii "status not in ('open', 'closed') order by cf[10001], key desc"

theorem whitelisted_iff_of_judge_sortedQuery :
    ∃ tokens, tokenize Rules.builtin.keywords sortedQuery = .ok tokens ∧
      ((∀ k, UsedAsField tokens k → Whitelisted tokens k .builtin) ↔
        (∀ k, UsedAsField tokens k → KindAt tokens k .identifier ∨ KindAt tokens k .customField) ∧
        ∀ k, KindAt tokens k .identifier → PrecedesDenial tokens k →
          Whitelisted tokens k .builtin) := by
  have judged : (Gate.ofRules .builtin).judge sortedQuery = .ok sortedQuery.trim := by
    decide +kernel
  exact whitelisted_iff_of_judge judged

/-- A query whose predicate is about a quoted name. -/
def quotedName : Text := ascii "\"password\" in (\"x\")"

/-- The quoted name is used as a field in an accepted query, and is not on the whitelist. -/
theorem quotedName_escapes_whitelist :
    (Gate.ofRules .builtin).judge quotedName = .ok quotedName.trim ∧
      ∃ tokens, tokenize Rules.builtin.keywords quotedName = .ok tokens ∧
        UsedAsField tokens 0 ∧ ¬ Whitelisted tokens 0 .builtin := by
  let tokens : List Token :=
    [⟨.string, ascii "\"password\"", 0⟩, ⟨.keyword, ascii "in", 11⟩, ⟨.opening, ascii "(", 14⟩,
      ⟨.string, ascii "\"x\"", 15⟩, ⟨.closing, ascii ")", 18⟩]
  refine ⟨by decide +kernel, tokens, by decide +kernel, ?_, ?_⟩
  · have keyword : KeywordAt tokens 1 (ascii "in") := ⟨_, rfl, by decide +kernel⟩
    have literal : KindAt tokens 0 .string := ⟨_, rfl, rfl⟩
    exact Or.inl ⟨⟨ascii "in", List.mem_cons_self, Or.inl keyword⟩, Or.inr (Or.inr (Or.inl literal))⟩
  · rintro ⟨token, found, listed⟩
    obtain rfl := Option.some.inj found
    simp at listed

end QueryGate.Jql
