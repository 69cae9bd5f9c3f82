import QueryGate.Graphql.Variables

/-! # Every value among the variables

The check of a value visits everything in it, each value before its parts, and stops at the first
fault. With the values listed in the order of the visit, the check is a search for a fault in the
list, and no part of a value is missing there.
-/

namespace QueryGate.Graphql

/-- A value, the path to it, and how many values stand around it, itself included. -/
structure Node where
  path : Text
  depth : Nat
  value : Value

mutual

/-- What is visited in a value at a path and a depth, in order. -/
def nodes (path : Text) (depth : Nat) (value : Value) : List Node :=
  ⟨path, depth, value⟩ ::
    match value with
    | .list items => itemNodes path (depth + 1) 0 items
    | .map entries => entryNodes path (depth + 1) entries
    | .null | .bool _ | .int _ | .float _ | .text _ => []
termination_by structural value

/-- What is visited in the elements of the list at `path`, from the one with the given index on. -/
def itemNodes (path : Text) (depth index : Nat) (items : List Value) : List Node :=
  match items with
  | [] => []
  | item :: items =>
    nodes (elementPath path index) depth item ++ itemNodes path depth (index + 1) items
termination_by structural items

/-- What is visited in the entries of the map at `path`. -/
def entryNodes (path : Text) (depth : Nat) (entries : List (Text × Value)) : List Node :=
  match entries with
  | [] => []
  | (key, value) :: entries =>
    nodes (path ++ Byte.dot :: key) depth value ++ entryNodes path depth entries
termination_by structural entries

end

/-- A value is the other value or stands in it, at any depth. -/
inductive Value.Within : Value → Value → Prop where
  | here {value} : Within value value
  | item {part item items} (member : item ∈ items) (within : Within part item) :
      Within part (.list items)
  | entry {part key value entries} (member : (key, value) ∈ entries) (within : Within part value) :
      Within part (.map entries)

section Nodes

variable {path : Text} {depth index : Nat} {part : Value}

theorem mem_itemNodes {item : Value} {items : List Value} (member : item ∈ items) :
    ∃ other, ∀ node ∈ nodes other depth item, node ∈ itemNodes path depth index items := by
  induction items generalizing index with
  | nil => cases member
  | cons head items ih =>
      rw [itemNodes]
      cases member with
      | head => exact ⟨elementPath path index, fun node => List.mem_append_left _⟩
      | tail _ later =>
          obtain ⟨other, found⟩ := @ih (index + 1) later
          exact ⟨other, fun node visited => List.mem_append_right _ (found node visited)⟩

theorem mem_entryNodes {key : Text} {value : Value} {entries : List (Text × Value)}
    (member : (key, value) ∈ entries) :
    ∃ other, ∀ node ∈ nodes other depth value, node ∈ entryNodes path depth entries := by
  induction entries with
  | nil => cases member
  | cons head entries ih =>
      obtain ⟨name, first⟩ := head
      rw [entryNodes]
      cases member with
      | head => exact ⟨path ++ Byte.dot :: key, fun node => List.mem_append_left _⟩
      | tail _ later =>
          obtain ⟨other, found⟩ := ih later
          exact ⟨other, fun node visited => List.mem_append_right _ (found node visited)⟩

theorem Value.Within.exists_node {value : Value} (within : part.Within value) (path : Text)
    (depth : Nat) : ∃ node ∈ nodes path depth value, node.value = part := by
  induction within generalizing path depth with
  | here =>
      rw [nodes.eq_def]
      exact ⟨_, List.mem_cons_self, rfl⟩
  | item member _ ih =>
      rw [nodes]
      obtain ⟨other, found⟩ := @mem_itemNodes path (depth + 1) 0 _ _ member
      obtain ⟨node, visited, same⟩ := ih other (depth + 1)
      exact ⟨node, List.mem_cons_of_mem _ (found node visited), same⟩
  | entry member _ ih =>
      rw [nodes]
      obtain ⟨other, found⟩ := @mem_entryNodes path (depth + 1) _ _ _ member
      obtain ⟨node, visited, same⟩ := ih other (depth + 1)
      exact ⟨node, List.mem_cons_of_mem _ (found node visited), same⟩

end Nodes

/-! ## The check as a search -/

/-- What a visited value does wrong by itself. -/
def Node.fault? (rules : Rules) (detector : Detector) (node : Node) : Option Rejection :=
  faultOf rules detector node.path node.depth node.value

/-- The verdict of a search for a fault. -/
def verdict (fault : Option Rejection) : Except Rejection Unit :=
  match fault with
  | some rejection => .error rejection
  | none => .ok ()

theorem verdict_eq_ok_iff {fault : Option Rejection} : verdict fault = .ok () ↔ fault = none := by
  cases fault <;> simp [verdict]

theorem verdict_eq_error_iff {fault : Option Rejection} {rejection : Rejection} :
    verdict fault = .error rejection ↔ fault = some rejection := by
  cases fault <;> simp [verdict]

section Search

variable (rules : Rules) (detector : Detector)

mutual

/-- The check of a value reports the first fault that is met in the visit. -/
theorem checkValue_eq (path : Text) (depth : Nat) (value : Value) :
    checkValue rules detector path depth value =
      verdict ((nodes path depth value).findSome? (Node.fault? rules detector)) := by
  rw [checkValue.eq_def, nodes.eq_def, List.findSome?_cons, Node.fault?]
  cases fault : faultOf rules detector path depth value with
  | some rejection => rfl
  | none =>
      cases value with
      | list items => exact checkItems_eq path (depth + 1) 0 items
      | map entries => exact checkEntries_eq path (depth + 1) entries
      | null | bool | int | float | text => rfl
termination_by structural value

theorem checkItems_eq (path : Text) (depth index : Nat) (items : List Value) :
    checkItems rules detector path depth index items =
      verdict ((itemNodes path depth index items).findSome? (Node.fault? rules detector)) := by
  cases items with
  | nil => rfl
  | cons item items =>
      rw [checkItems, itemNodes, List.findSome?_append, checkValue_eq, checkItems_eq]
      cases (nodes (elementPath path index) depth item).findSome? (Node.fault? rules detector) with
      | some rejection => rfl
      | none => rfl
termination_by structural items

theorem checkEntries_eq (path : Text) (depth : Nat) (entries : List (Text × Value)) :
    checkEntries rules detector path depth entries =
      verdict ((entryNodes path depth entries).findSome? (Node.fault? rules detector)) := by
  cases entries with
  | nil => rfl
  | cons entry entries =>
      obtain ⟨key, value⟩ := entry
      rw [checkEntries, entryNodes, List.findSome?_append, checkValue_eq, checkEntries_eq]
      cases (nodes (path ++ Byte.dot :: key) depth value).findSome? (Node.fault? rules detector) with
      | some rejection => rfl
      | none => rfl
termination_by structural entries

end

variable {rules : Rules} {detector : Detector} {path : Text} {depth : Nat} {value : Value}

theorem fault_of_checkValue {rejection : Rejection}
    (refused : checkValue rules detector path depth value = .error rejection) :
    ∃ node ∈ nodes path depth value, node.fault? rules detector = some rejection := by
  rw [checkValue_eq, verdict_eq_error_iff] at refused
  exact List.exists_of_findSome?_eq_some refused

theorem faultless_of_checkValue (passes : checkValue rules detector path depth value = .ok ()) :
    ∀ node ∈ nodes path depth value, node.fault? rules detector = none := by
  rw [checkValue_eq, verdict_eq_ok_iff] at passes
  exact List.findSome?_eq_none_iff.mp passes

theorem undetected_of_faultless {node : Node} {bytes : Text} (text : node.value = .text bytes)
    (faultless : node.fault? rules detector = none) :
    (detector.inspect bytes).isDetected = false := by
  rw [Node.fault?, text, faultOf] at faultless
  cases detected : (detector.inspect bytes).isDetected with
  | false => rfl
  | true => grind

theorem undetected_of_checkValue (passes : checkValue rules detector path depth value = .ok ())
    {bytes : Text} (within : (Value.text bytes).Within value) :
    (detector.inspect bytes).isDetected = false := by
  obtain ⟨node, visited, text⟩ := within.exists_node path depth
  exact undetected_of_faultless text (faultless_of_checkValue passes node visited)

/-! ## All variables -/

variable {given : Variables}

theorem checkEach_eq_ok_iff :
    checkEach rules detector given = .ok () ↔
      ∀ entry ∈ given, Text.isName entry.1 = true ∧
        checkValue rules detector entry.1 1 entry.2 = .ok () := by
  induction given with
  | nil => simp [checkEach]
  | cons entry others ih =>
      obtain ⟨name, value⟩ := entry
      rw [checkEach, List.forall_mem_cons, ← ih]
      cases named : Text.isName name with
      | false => simp
      | true =>
          cases checked : checkValue rules detector name 1 value with
          | error rejection => simp
          | ok => simp

theorem undetected_of_checkVariables (passes : checkVariables rules detector given = .ok ())
    {entry : Text × Value} (member : entry ∈ given) {bytes : Text}
    (within : (Value.text bytes).Within entry.2) : (detector.inspect bytes).isDetected = false := by
  rw [checkVariables] at passes
  split at passes
  · cases passes
  · exact undetected_of_checkValue (checkEach_eq_ok_iff.mp passes entry member).2 within

/-! ## Codes -/

theorem code_of_fault {node : Node} {rejection : Rejection}
    (fault : node.fault? rules detector = some rejection) :
    rejection.code ∈ [.variableTooLarge, .dangerousPattern] := by
  unfold Node.fault? faultOf at fault
  grind [Rejection.code]

theorem code_of_checkEach {rejection : Rejection}
    (refused : checkEach rules detector given = .error rejection) :
    rejection.code ∈ [.invalidVariableName, .variableTooLarge, .dangerousPattern] := by
  induction given with
  | nil => cases refused
  | cons entry others ih =>
      obtain ⟨name, value⟩ := entry
      rw [checkEach] at refused
      split at refused
      · cases refused
        simp [Rejection.code]
      cases checked : checkValue rules detector name 1 value with
      | error fault =>
          rw [checked] at refused
          cases refused
          obtain ⟨node, -, found⟩ := fault_of_checkValue checked
          exact List.mem_cons_of_mem _ (code_of_fault found)
      | ok =>
          rw [checked] at refused
          exact ih refused

theorem code_of_checkVariables {rejection : Rejection}
    (refused : checkVariables rules detector given = .error rejection) :
    rejection.code ∈
      [.tooManyVariables, .invalidVariableName, .variableTooLarge, .dangerousPattern] := by
  rw [checkVariables] at refused
  split at refused
  · cases refused
    simp [Rejection.code]
  · exact List.mem_cons_of_mem _ (code_of_checkEach refused)

end Search

end QueryGate.Graphql
