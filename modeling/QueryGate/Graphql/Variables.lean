import QueryGate.Graphql.Rules
import QueryGate.Graphql.Value
import QueryGate.Pattern.Detector
import QueryGate.Rejection

/-! # Checking variables

Variables have to be few, well named, and small in every dimension, and no text among them may
contain a dangerous pattern. Values are visited depth first, each before its parts, and the
first that offends decides.
-/

namespace QueryGate.Graphql

/-- What a single value does wrong, its parts left aside. `depth` counts it and the values
around it. -/
def faultOf (rules : Rules) (detector : Detector) (path : Text) (depth : Nat) (value : Value) :
    Option Rejection :=
  if depth > rules.maxVariableDepth then some (.oversized path .depth)
  else
    match value with
    | .text bytes =>
      if bytes.length > rules.maxTextLength then some (.oversized path .text)
      else if (detector.inspect bytes).isDetected then some (.dangerousValue path)
      else none
    | .list items =>
      if items.length > rules.maxListLength then some (.oversized path .list) else none
    | .map entries =>
      if entries.length > rules.maxMapSize then some (.oversized path .map) else none
    | .null | .bool _ | .int _ | .float _ => none

mutual

def checkValue (rules : Rules) (detector : Detector) (path : Text) (depth : Nat)
    (value : Value) : Except Rejection Unit :=
  match faultOf rules detector path depth value with
  | some rejection => .error rejection
  | none =>
    match value with
    | .list items => checkItems rules detector path (depth + 1) 0 items
    | .map entries => checkEntries rules detector path (depth + 1) entries
    | .null | .bool _ | .int _ | .float _ | .text _ => .ok ()
termination_by structural value

/-- Checks the elements of the list at `path`, from the one with the given index on. -/
def checkItems (rules : Rules) (detector : Detector) (path : Text) (depth index : Nat)
    (items : List Value) : Except Rejection Unit :=
  match items with
  | [] => .ok ()
  | item :: items =>
    match checkValue rules detector (elementPath path index) depth item with
    | .error rejection => .error rejection
    | .ok () => checkItems rules detector path depth (index + 1) items
termination_by structural items

def checkEntries (rules : Rules) (detector : Detector) (path : Text) (depth : Nat)
    (entries : List (Text × Value)) : Except Rejection Unit :=
  match entries with
  | [] => .ok ()
  | (key, value) :: entries =>
    match checkValue rules detector (path ++ Byte.dot :: key) depth value with
    | .error rejection => .error rejection
    | .ok () => checkEntries rules detector path depth entries
termination_by structural entries

end

/-- Checks the name and the value of each variable in turn. -/
def checkEach (rules : Rules) (detector : Detector) : Variables → Except Rejection Unit
  | [] => .ok ()
  | (name, value) :: others =>
    if Text.isName name = false then .error (.badVariableName name)
    else
      match checkValue rules detector name 1 value with
      | .error rejection => .error rejection
      | .ok () => checkEach rules detector others

def checkVariables (rules : Rules) (detector : Detector) (given : Variables) :
    Except Rejection Unit :=
  if given.length > rules.maxVariables then
    .error (.tooManyVariables rules.maxVariables given.length)
  else checkEach rules detector given

end QueryGate.Graphql
