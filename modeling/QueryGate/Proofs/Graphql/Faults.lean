import QueryGate.Proofs.Bytes
import QueryGate.Proofs.Graphql.Values
import QueryGate.Proofs.Steps

/-! # The first fault among the variables

The names of the variables and all values in them are visited in one order: each name just before
its value, and each value before its parts. The check refuses the variables for the first of the
visited that is at fault, and for nothing else once there are few enough of them.
-/

namespace QueryGate.Graphql

/-! ## A visited value -/

namespace Node

section Notions

variable (rules : Rules) (detector : Detector)

/-- The ways in which a visited value exceeds a limit. -/
inductive Exceeds (node : Node) : Excess → Prop where
  | depth (deep : rules.maxVariableDepth < node.depth) : Exceeds node .depth
  | text {bytes} (value : node.value = .text bytes) (long : rules.maxTextLength < bytes.length) :
      Exceeds node .text
  | list {items} (value : node.value = .list items) (long : rules.maxListLength < items.length) :
      Exceeds node .list
  | map {entries} (value : node.value = .map entries) (large : rules.maxMapSize < entries.length) :
      Exceeds node .map

/-- A visited value keeps every limit and is no dangerous text. The keys of a map are not asked
about. -/
structure Sound (node : Node) : Prop where
  depth : node.depth ≤ rules.maxVariableDepth
  text : ∀ bytes, node.value = .text bytes → bytes.length ≤ rules.maxTextLength
  harmless : ∀ bytes, node.value = .text bytes → (detector.inspect bytes).isDetected = false
  list : ∀ items, node.value = .list items → items.length ≤ rules.maxListLength
  map : ∀ entries, node.value = .map entries → entries.length ≤ rules.maxMapSize

/-- What is reported of a visited value: the depth before the size, and both before what a text
contains. -/
inductive Fault (node : Node) : Rejection → Prop where
  | depth (deep : node.Exceeds rules .depth) : Fault node (.oversized node.path .depth)
  | size {excess} (shallow : ¬ node.Exceeds rules .depth) (exceeds : node.Exceeds rules excess) :
      Fault node (.oversized node.path excess)
  | dangerous {bytes} (bounded : ∀ excess, ¬ node.Exceeds rules excess)
      (value : node.value = .text bytes) (detected : (detector.inspect bytes).isDetected = true) :
      Fault node (.dangerousValue node.path)

end Notions

variable {rules : Rules} {detector : Detector} {node : Node} {rejection : Rejection}

theorem exceeds_depth_iff : node.Exceeds rules .depth ↔ rules.maxVariableDepth < node.depth :=
  ⟨fun | .depth deep => deep, .depth⟩

theorem fault?_of_deep (deep : rules.maxVariableDepth < node.depth) :
    node.fault? rules detector = some (.oversized node.path .depth) := if_pos deep

theorem fault?_of_shallow (shallow : ¬ rules.maxVariableDepth < node.depth) :
    node.fault? rules detector =
      match node.value with
      | .text bytes =>
        if rules.maxTextLength < bytes.length then some (.oversized node.path .text)
        else if (detector.inspect bytes).isDetected then some (.dangerousValue node.path)
        else none
      | .list items =>
        if rules.maxListLength < items.length then some (.oversized node.path .list) else none
      | .map entries =>
        if rules.maxMapSize < entries.length then some (.oversized node.path .map) else none
      | .null | .bool _ | .int _ | .float _ => none := by
  rw [fault?, faultOf.eq_def]
  exact if_neg shallow

theorem fault?_eq_none_iff : node.fault? rules detector = none ↔ node.Sound rules detector := by
  by_cases deep : rules.maxVariableDepth < node.depth
  · rw [fault?_of_deep deep]
    exact iff_of_false (by simp) fun sound => Nat.not_lt.mpr sound.depth deep
  · rw [fault?_of_shallow deep]
    constructor
    · intro faultless
      constructor
      case depth => exact Nat.not_lt.mp deep
      all_goals
        intro parts value
        simp only [value] at faultless
        grind
    · intro sound
      cases value : node.value with
      | null | bool | int | float => rfl
      | text bytes =>
          simp [Nat.not_lt.mpr (sound.text bytes value), sound.harmless bytes value]
      | list items => simp [sound.list items value]
      | map entries => simp [sound.map entries value]

theorem fault?_eq_some_iff :
    node.fault? rules detector = some rejection ↔ node.Fault rules detector rejection := by
  by_cases deep : rules.maxVariableDepth < node.depth
  · rw [fault?_of_deep deep]
    constructor
    · intro reported
      obtain rfl := Option.some.inj reported
      exact .depth (.depth deep)
    · intro fault
      cases fault with
      | depth => rfl
      | size shallow => exact absurd (.depth deep) shallow
      | dangerous bounded => exact absurd (.depth deep) (bounded .depth)
  · rw [fault?_of_shallow deep]
    have shallow : ¬ node.Exceeds rules .depth := fun exceeds => deep (exceeds_depth_iff.mp exceeds)
    constructor
    · intro reported
      cases value : node.value with
      | null | bool | int | float => simp [value] at reported
      | text bytes =>
          simp only [value] at reported
          split at reported
          · next long =>
              obtain rfl := Option.some.inj reported
              exact .size shallow (.text value long)
          split at reported
          · next short detected =>
              obtain rfl := Option.some.inj reported
              refine .dangerous (fun excess exceeds => ?_) value detected
              cases exceeds with
              | depth exceeds => exact deep exceeds
              | text other long => grind
              | list other | map other => cases value.symm.trans other
          · cases reported
      | list items =>
          simp only [value] at reported
          split at reported
          · next long =>
              obtain rfl := Option.some.inj reported
              exact .size shallow (.list value long)
          · cases reported
      | map entries =>
          simp only [value] at reported
          split at reported
          · next large =>
              obtain rfl := Option.some.inj reported
              exact .size shallow (.map value large)
          · cases reported
    · intro fault
      cases fault with
      | depth exceeds => exact absurd exceeds shallow
      | size _ exceeds =>
          cases exceeds with
          | depth exceeds => exact absurd exceeds deep
          | text value long => simp [value, long]
          | list value long => simp [value, long]
          | map value large => simp [value, large]
      | dangerous bounded value detected =>
          have short : ¬ rules.maxTextLength < _ := fun long => bounded .text (.text value long)
          simp [value, detected, short]

theorem Fault.describes (fault : node.Fault rules detector rejection) :
    rejection.context = node.path ∧
      ((∃ excess, node.Exceeds rules excess) ∧ rejection.code = .variableTooLarge ∨
        (∀ excess, ¬ node.Exceeds rules excess) ∧ rejection.code = .dangerousPattern) := by
  cases fault with
  | depth deep => exact ⟨rfl, Or.inl ⟨⟨_, deep⟩, rfl⟩⟩
  | size _ exceeds => exact ⟨rfl, Or.inl ⟨⟨_, exceeds⟩, rfl⟩⟩
  | dangerous bounded => exact ⟨rfl, Or.inr ⟨bounded, rfl⟩⟩

end Node

/-! ## The visit -/

/-- What is visited among the variables. -/
inductive Visited where
  | name (title : Text)
  | value (node : Node)

/-- Everything among the variables in the order of the visit. -/
def visits (given : Variables) : List Visited :=
  given.flatMap fun (name, value) => .name name :: (nodes name 1 value).map .value

namespace Visited

variable (rules : Rules) (detector : Detector)

def Sound : Visited → Prop
  | .name title => title.IsIdentifier
  | .value visited => visited.Sound rules detector

/-- What is reported of the visited. -/
inductive Fault : Visited → Rejection → Prop where
  | name {title : Text} (malformed : ¬ title.IsIdentifier) :
      Fault (.name title) (.badVariableName title)
  | value {node rejection} (fault : node.Fault rules detector rejection) :
      Fault (.value node) rejection

def fault? : Visited → Option Rejection
  | .name title => if title.isName then none else some (.badVariableName title)
  | .value visited => visited.fault? rules detector

end Visited

section Visit

variable {rules : Rules} {detector : Detector} {visited : Visited} {rejection : Rejection}
  {given : Variables}

theorem Visited.fault?_eq_none_iff :
    visited.fault? rules detector = none ↔ visited.Sound rules detector := by
  cases visited with
  | name title => simp [Visited.fault?, Visited.Sound, Text.isName_iff]
  | value node => exact Node.fault?_eq_none_iff

theorem Visited.fault?_eq_some_iff :
    visited.fault? rules detector = some rejection ↔ visited.Fault rules detector rejection := by
  cases visited with
  | name title =>
      rw [Visited.fault?]
      constructor
      · intro reported
        split at reported
        · cases reported
        next misnamed =>
          obtain rfl := Option.some.inj reported
          exact .name fun named => misnamed (Text.isName_iff.mpr named)
      · rintro (malformed | _)
        exact if_neg fun named => malformed (Text.isName_iff.mp named)
  | value node =>
      constructor
      · exact fun reported => .value (Node.fault?_eq_some_iff.mp reported)
      · rintro (_ | ⟨fault⟩)
        exact Node.fault?_eq_some_iff.mpr fault

theorem visits_cons (name : Text) (value : Value) (others : Variables) :
    visits ((name, value) :: others) =
      .name name :: ((nodes name 1 value).map .value ++ visits others) := rfl

/-- The check of names and values in turn is a search for a fault in the visit. -/
theorem checkEach_eq (rules : Rules) (detector : Detector) (given : Variables) :
    checkEach rules detector given =
      verdict ((visits given).findSome? (Visited.fault? rules detector)) := by
  induction given with
  | nil => rfl
  | cons entry others ih =>
      obtain ⟨name, value⟩ := entry
      have values : ((nodes name 1 value).map Visited.value).findSome?
          (Visited.fault? rules detector) =
            (nodes name 1 value).findSome? (Node.fault? rules detector) := List.findSome?_map
      rw [checkEach, visits_cons, List.findSome?_cons, List.findSome?_append, values, Visited.fault?]
      cases name.isName with
      | false => rfl
      | true =>
          rw [checkValue_eq, ih]
          cases (nodes name 1 value).findSome? (Node.fault? rules detector) with
          | some rejection => rfl
          | none => rfl

theorem mem_visits : visited ∈ visits given ↔
    ∃ entry ∈ given, visited = .name entry.1 ∨
      ∃ node ∈ nodes entry.1 1 entry.2, visited = .value node := by
  simp only [visits, List.mem_flatMap, List.mem_cons, List.mem_map, eq_comm]

/-- The report is that of the first of the visited that is at fault. -/
def FirstFault (rules : Rules) (detector : Detector) (all : List Visited) (rejection : Rejection) :
    Prop :=
  ∃ before culprit after, all = before ++ culprit :: after ∧
    (∀ earlier ∈ before, earlier.Sound rules detector) ∧ culprit.Fault rules detector rejection

theorem checkEach_eq_ok_iff_sound : checkEach rules detector given = .ok () ↔
    ∀ entry ∈ given, entry.1.IsIdentifier ∧
      ∀ node ∈ nodes entry.1 1 entry.2, node.Sound rules detector := by
  rw [checkEach_eq, verdict_eq_ok_iff, List.findSome?_eq_none_iff]
  simp only [Visited.fault?_eq_none_iff, mem_visits]
  constructor
  · intro sound entry member
    refine ⟨sound (.name entry.1) ⟨entry, member, Or.inl rfl⟩, fun node visited => ?_⟩
    exact sound (.value node) ⟨entry, member, Or.inr ⟨node, visited, rfl⟩⟩
  · rintro sound visited ⟨entry, member, rfl | ⟨node, inside, rfl⟩⟩
    · exact (sound entry member).1
    · exact (sound entry member).2 node inside

theorem checkEach_eq_error_iff : checkEach rules detector given = .error rejection ↔
    FirstFault rules detector (visits given) rejection := by
  rw [checkEach_eq, verdict_eq_error_iff, List.findSome?_eq_some_iff]
  simp only [Visited.fault?_eq_none_iff, Visited.fault?_eq_some_iff, FirstFault]
  constructor
  · rintro ⟨before, culprit, after, split, fault, sound⟩
    exact ⟨before, culprit, after, split, sound, fault⟩
  · rintro ⟨before, culprit, after, split, sound, fault⟩
    exact ⟨before, culprit, after, split, fault, sound⟩

theorem checkVariables_eq_ok_iff : checkVariables rules detector given = .ok () ↔
    given.length ≤ rules.maxVariables ∧
      ∀ entry ∈ given, entry.1.IsIdentifier ∧
        ∀ node ∈ nodes entry.1 1 entry.2, node.Sound rules detector := by
  rw [checkVariables]
  by_cases many : given.length > rules.maxVariables
  · rw [if_pos many]
    exact iff_of_false (by simp) fun accepted => Nat.not_lt.mpr accepted.1 many
  · rw [if_neg many, checkEach_eq_ok_iff_sound]
    exact (and_iff_right (Nat.not_lt.mp many)).symm

theorem checkVariables_eq_error_iff : checkVariables rules detector given = .error rejection ↔
    rules.maxVariables < given.length ∧
        rejection = .tooManyVariables rules.maxVariables given.length ∨
      given.length ≤ rules.maxVariables ∧ FirstFault rules detector (visits given) rejection := by
  rw [checkVariables]
  by_cases many : given.length > rules.maxVariables
  · rw [if_pos many, Except.error.injEq, eq_comm]
    simp [Nat.not_le.mpr many, many]
  · rw [if_neg many, checkEach_eq_error_iff]
    simp [Nat.not_lt.mp many, many]

end Visit

/-- The check accepts few enough variables with names of the right shape and sound values at every
depth. It refuses too many of them first, and otherwise reports the first fault in the order of the
visit. The code of the report tells what is wrong, and its context where. -/
theorem checkVariables_reports_first_fault (rules : Rules) (detector : Detector)
    (given : Variables) :
    (checkVariables rules detector given = .ok () ↔
      given.length ≤ rules.maxVariables ∧
        ∀ entry ∈ given, entry.1.IsIdentifier ∧
          ∀ node ∈ nodes entry.1 1 entry.2, node.Sound rules detector) ∧
    (∀ rejection, checkVariables rules detector given = .error rejection ↔
      rules.maxVariables < given.length ∧
          rejection = .tooManyVariables rules.maxVariables given.length ∨
        given.length ≤ rules.maxVariables ∧ FirstFault rules detector (visits given) rejection) ∧
    (∀ title rejection, (Visited.name title).Fault rules detector rejection →
      rejection.code = .invalidVariableName) ∧
    ∀ node rejection, (Visited.value node).Fault rules detector rejection →
      rejection.context = node.path ∧
        ((∃ excess, node.Exceeds rules excess) ∧ rejection.code = .variableTooLarge ∨
          (∀ excess, ¬ node.Exceeds rules excess) ∧ rejection.code = .dangerousPattern) := by
  refine ⟨checkVariables_eq_ok_iff, fun rejection => checkVariables_eq_error_iff, ?_, ?_⟩
  · intro title rejection fault
    cases fault with
    | name => rfl
  · intro node rejection fault
    cases fault with
    | value fault => exact fault.describes

/-- Variables with a script in a list in a map, and a second variable that is misnamed. -/
def scriptedVariables : Variables :=
  [(ascii "filter", .map [(ascii "any", .list [.null, .text (ascii "<script>")])]),
   (ascii "2nd", .null)]

theorem checkVariables_reports_first_fault_script :
    checkVariables .builtin (.ofSources [ascii "<script"]) scriptedVariables =
        .error (.dangerousValue (ascii "filter.any[1]")) ∧
      FirstFault .builtin (.ofSources [ascii "<script"]) (visits scriptedVariables)
        (.dangerousValue (ascii "filter.any[1]")) := by
  have refused : checkVariables .builtin (.ofSources [ascii "<script"]) scriptedVariables =
      .error (.dangerousValue (ascii "filter.any[1]")) := by decide +kernel
  have reports := (checkVariables_reports_first_fault .builtin (.ofSources [ascii "<script"])
    scriptedVariables).2.1
  rcases (reports _).mp refused with ⟨-, other⟩ | ⟨-, first⟩
  · cases other
  · exact ⟨refused, first⟩

end QueryGate.Graphql
