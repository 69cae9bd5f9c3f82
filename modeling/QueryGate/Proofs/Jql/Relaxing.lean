import QueryGate.Proofs.Jql.Fields
import QueryGate.Proofs.Jql.Lexing
import QueryGate.Proofs.Jql.Words
import QueryGate.Proofs.Nesting.Check
import QueryGate.Proofs.Screening

/-! # Rules that ask less

Rules ask less when each of their bounds is as wide, each of their whitelists as long and each of
their lists of what is forbidden as short. Every check then lets through what it let through before.
The patterns are the exception to be minded: without a single valid one, nothing passes.
-/

namespace QueryGate.Jql

/-- The wider rules ask nothing that the others do not ask. -/
structure Relaxes (rules wider : Rules) : Prop where
  keywords : ∀ name, name ∈ wider.keywords ↔ name ∈ rules.keywords
  maxLength : rules.maxLength ≤ wider.maxLength
  maxNesting : rules.maxNesting ≤ wider.maxNesting
  fields : ∀ name ∈ rules.fields, name ∈ wider.fields
  functions : ∀ name ∈ rules.functions, name ∈ wider.functions
  sqlWords : ∀ name ∈ wider.sqlWords, name ∈ rules.sqlWords
  customFields : ∀ n, rules.customFields.least ≤ n ∧ n ≤ rules.customFields.greatest →
    wider.customFields.least ≤ n ∧ n ≤ wider.customFields.greatest
  /-- A source that is no pattern counts for nothing, so one at least has to be a pattern. -/
  searched : ∃ source ∈ wider.patterns, (Pattern.ofSource? source).isSome = true
  patterns : ∀ source ∈ wider.patterns, (Pattern.ofSource? source).isSome = true →
    source ∈ rules.patterns

namespace Relaxes

variable {rules wider : Rules} {query : Text} {tokens : List Token} {i : Nat}
  (relaxes : Relaxes rules wider)

include relaxes

theorem allowsField {name : Text} (allowed : rules.allowsField name = true) :
    wider.allowsField name = true := by
  rw [Rules.allowsField, NameSet.contains_iff_mem] at allowed ⊢
  exact relaxes.fields _ allowed

theorem allowsCustomField {text : Text} (allowed : rules.allowsCustomField text = true) :
    wider.allowsCustomField text = true := by
  unfold Rules.allowsCustomField at allowed ⊢
  cases number : customFieldNumber? text with
  | none =>
      rw [number] at allowed
      cases allowed
  | some n =>
      rw [number] at allowed
      exact decide_eq_true (relaxes.customFields n (of_decide_eq_true allowed))

theorem fieldsAllowedAt (allowed : FieldsAllowedAt tokens i rules) :
    FieldsAllowedAt tokens i wider := by
  constructor
  case customField =>
    intro token found kind
    exact relaxes.allowsCustomField (allowed.customField token found kind)
  case comparison => exact allowed.comparison
  case name =>
    intro token found kind uncalled place
    exact relaxes.allowsField (allowed.name token found kind uncalled place)

/-! ## Each check -/

theorem fields_pass (passes : checkFields rules tokens = .ok ()) :
    checkFields wider tokens = .ok () := by
  rw [checkFields_eq_ok_iff] at passes ⊢
  exact fun i => relaxes.fieldsAllowedAt (passes i)

theorem functions_pass (passes : checkFunctions rules tokens = .ok ()) :
    checkFunctions wider tokens = .ok () := by
  rw [checkFunctions_eq_ok_iff] at passes ⊢
  intro first token last split named called
  have listed := passes first token last split named called
  rw [NameSet.contains_iff_mem] at listed ⊢
  exact relaxes.functions _ listed

theorem sqlWords_pass (passes : checkSqlWords rules tokens = .ok ()) :
    checkSqlWords wider tokens = .ok () := by
  rw [checkSqlWords_eq_ok_iff] at passes ⊢
  intro token member named reserved
  exact passes token member named (relaxes.sqlWords _ reserved)

theorem all_pass (passes : (Gate.ofRules rules).Passes query tokens) :
    (Gate.ofRules wider).Passes query tokens := by
  constructor
  case bounds => exact checkSize_of_le relaxes.maxLength passes.bounds
  case patterns => exact Detector.check_of_fewer relaxes.searched relaxes.patterns passes.patterns
  case nesting =>
    obtain ⟨report, nested⟩ := passes.nesting
    exact ⟨report, Nesting.check_of_deeper nested relaxes.maxNesting⟩
  case lexed => exact (tokenizeFrom_congr relaxes.keywords 0 0 query).trans passes.lexed
  case fields => exact relaxes.fields_pass passes.fields
  case functions => exact relaxes.functions_pass passes.functions
  case sqlWords => exact relaxes.sqlWords_pass passes.sqlWords

end Relaxes

/-- The sample rules with more room in each of them, and a source that is no pattern. -/
def roomyRules : Rules where
  maxLength := 100
  maxNesting := 3
  fields := .ofList [ascii "key", ascii "status", ascii "summary"]
  functions := .ofList [ascii "now", ascii "membersof"]
  keywords := .ofList [ascii "by", ascii "order", ascii "in", ascii "and"]
  sqlWords := .ofList [ascii "drop"]
  patterns := [ascii ";", ascii "("]
  customFields := ⟨5, 19⟩

end QueryGate.Jql
