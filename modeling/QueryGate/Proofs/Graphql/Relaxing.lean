import QueryGate.Proofs.Graphql.Faults
import QueryGate.Proofs.Graphql.Invocation
import QueryGate.Proofs.Nesting.Check
import QueryGate.Proofs.Pattern.Sources

/-! # Rules that ask less

Rules ask less when each of their limits is as wide, each of their whitelists as long, and each of
their lists of what is forbidden as short. Every check then lets through what it let through before,
down to the last value among the variables. The patterns are the exception to be minded: without a
single valid one, nothing passes.
-/

namespace QueryGate.Graphql

/-- The wider rules ask nothing that the others do not ask. -/
structure Relaxes (rules wider : Rules) : Prop where
  maxLength : rules.maxLength ≤ wider.maxLength
  maxDepth : rules.maxDepth ≤ wider.maxDepth
  maxVariables : rules.maxVariables ≤ wider.maxVariables
  maxTextLength : rules.maxTextLength ≤ wider.maxTextLength
  maxListLength : rules.maxListLength ≤ wider.maxListLength
  maxMapSize : rules.maxMapSize ≤ wider.maxMapSize
  maxVariableDepth : rules.maxVariableDepth ≤ wider.maxVariableDepth
  fields : ∀ name ∈ rules.fields, name ∈ wider.fields
  queries : ∀ name ∈ rules.queries, name ∈ wider.queries
  mutations : ∀ name ∈ rules.mutations, name ∈ wider.mutations
  keywords : ∀ name ∈ rules.keywords, name ∈ wider.keywords
  suspicious : ∀ needle ∈ wider.suspicious, needle ∈ rules.suspicious
  /-- A source that is no pattern counts for nothing, so one at least has to be a pattern. -/
  searched : ∃ source ∈ wider.patterns, (Pattern.ofSource? source).isSome = true
  patterns : ∀ source ∈ wider.patterns, (Pattern.ofSource? source).isSome = true →
    source ∈ rules.patterns

namespace Relaxes

variable {rules wider : Rules} {document : Text} {tokens : List Token} {header : Header}
  {given : Option Variables} (relaxes : Relaxes rules wider)

include relaxes

/-! ## Names -/

theorem operations (kind : OperationKind) {name : Text} (listed : name ∈ rules.operations kind) :
    name ∈ wider.operations kind := by
  cases kind with
  | query => exact relaxes.queries name listed
  | mutation => exact relaxes.mutations name listed

/-- A shorter list of suspicious words leaves more names that look like types. -/
theorem allowsType {name : Text} (allowed : rules.allowsType name = true) :
    wider.allowsType name = true := by
  rw [Rules.allowsType, Bool.and_eq_true, Bool.not_eq_true', List.any_eq_false] at allowed ⊢
  exact ⟨allowed.1, fun needle listed => allowed.2 needle (relaxes.suspicious needle listed)⟩

theorem allowsName {kind : OperationKind} {place : Place} {name : Text}
    (allowed : rules.allowsName kind place name = true) : wider.allowsName kind place name = true := by
  simp only [Rules.allowsName, Bool.or_eq_true, Bool.and_eq_true, NameSet.contains_iff_mem]
    at allowed ⊢
  rcases allowed with ((field | keyword) | ⟨placed, listed⟩) | type
  · exact Or.inl (Or.inl (Or.inl (relaxes.fields name field)))
  · exact Or.inl (Or.inl (Or.inr (relaxes.keywords name keyword)))
  · exact Or.inl (Or.inr ⟨placed, relaxes.operations kind listed⟩)
  · exact Or.inr (relaxes.allowsType type)

/-! ## Values -/

theorem undetected {t : Text} (clear : ((Gate.ofRules rules).detector.inspect t).isDetected = false) :
    ((Gate.ofRules wider).detector.inspect t).isDetected = false :=
  Detector.undetected_of_fewer relaxes.searched relaxes.patterns clear

theorem sound {node : Node} (sound : node.Sound rules (Gate.ofRules rules).detector) :
    node.Sound wider (Gate.ofRules wider).detector := by
  constructor
  case depth => exact sound.depth.trans relaxes.maxVariableDepth
  case text => exact fun bytes value => (sound.text bytes value).trans relaxes.maxTextLength
  case harmless => exact fun bytes value => relaxes.undetected (sound.harmless bytes value)
  case list => exact fun items value => (sound.list items value).trans relaxes.maxListLength
  case map => exact fun entries value => (sound.map entries value).trans relaxes.maxMapSize

/-! ## Each check -/

theorem names_pass {kind : OperationKind} (passes : checkNames rules kind tokens = .ok ()) :
    checkNames wider kind tokens = .ok () := by
  rw [checkNames_eq_ok_iff] at passes ⊢
  exact fun entry placed named => relaxes.allowsName (passes entry placed named)

theorem variables_pass (passes : (Gate.ofRules rules).PassesVariables given) :
    (Gate.ofRules wider).PassesVariables given := by
  intro values present
  obtain ⟨few, sound⟩ := checkVariables_eq_ok_iff.mp (passes values present)
  refine checkVariables_eq_ok_iff.mpr ⟨few.trans relaxes.maxVariables, fun entry member => ?_⟩
  obtain ⟨named, inside⟩ := sound entry member
  exact ⟨named, fun node visited => relaxes.sound (inside node visited)⟩

theorem all_pass (passes : (Gate.ofRules rules).Passes document tokens header) :
    (Gate.ofRules wider).Passes document tokens header := by
  constructor
  case bounds => exact checkSize_of_le relaxes.maxLength passes.bounds
  case patterns => exact Detector.check_of_fewer relaxes.searched relaxes.patterns passes.patterns
  case lexed => exact passes.lexed
  case operation => exact passes.operation
  case nesting =>
    obtain ⟨report, nested⟩ := passes.nesting
    exact ⟨report, Nesting.check_of_deeper nested relaxes.maxDepth⟩
  case names => exact relaxes.names_pass passes.names

theorem judge_passes {accepted : Text}
    (judged : (Gate.ofRules rules).judge document given = .ok accepted) :
    (Gate.ofRules wider).judge document given = .ok accepted := by
  obtain ⟨⟨tokens, header, passes⟩, checked, same⟩ := judge_eq_ok_iff.mp judged
  exact judge_eq_ok_iff.mpr
    ⟨⟨tokens, header, relaxes.all_pass passes⟩, relaxes.variables_pass checked, same⟩

end Relaxes

/-- The sample rules with suspicious words and a second pattern. -/
def strictRules : Rules :=
  { Rules.sample with
    maxVariableDepth := 2
    suspicious := [ascii "hack", ascii "script"]
    patterns := [ascii "<script", ascii "__schema"] }

/-- The strict rules with more room in most of them, and a source that is no pattern. -/
def roomyRules : Rules :=
  { Rules.sample with
    maxDepth := 11
    maxVariableDepth := 3
    mutations := .ofList [ascii "createTest", ascii "updateTest"]
    fields := .ofList [ascii "total", ascii "jql", ascii "key"]
    suspicious := [ascii "script"]
    patterns := [ascii "__schema", ascii "("] }

/-- A query with a type that is not on any list. -/
def typedQuery : Text :=
  ascii "query ($keys: [TestKey]) \x7b getTests(key: $keys) \x7b total \x7d \x7d"

def listedKeys : Variables := [(ascii "keys", .list [.text (ascii "QA-1"), .null])]

end QueryGate.Graphql
