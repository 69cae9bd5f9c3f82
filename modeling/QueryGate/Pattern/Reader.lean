import QueryGate.Pattern.Symbol

/-! # Reading a pattern

Symbols are read as a tree with a stack of open parentheses. A repetition needs something to
repeat: a byte set, a backreference, a group or an earlier repetition stands in front of it,
never an assertion or a lookahead. A backreference names a group that is already closed.
-/

namespace QueryGate.Pattern

inductive Role where
  | capture (group : Nat)
  | plain
  | lookahead (negated : Bool)
  deriving Repr, DecidableEq

/-- What has been read since a parenthesis opened. -/
structure Frame where
  role : Role
  /-- The alternatives before the last bar. -/
  earlier : Option Tree := none
  /-- The parts of the current alternative, the last one first. -/
  parts : List Tree := []
  /-- Whether the last part may be repeated. -/
  repeatable : Bool := false
  deriving Repr

namespace Frame

def sequence (frame : Frame) : Tree := frame.parts.foldl (fun tail part => .seq part tail) .empty

/-- Everything read so far: the alternatives, the first one innermost. -/
def content (frame : Frame) : Tree :=
  match frame.earlier with
  | none => frame.sequence
  | some earlier => .alt earlier frame.sequence

def push (frame : Frame) (part : Tree) (repeatable : Bool) : Frame :=
  { frame with parts := part :: frame.parts, repeatable }

def bar (frame : Frame) : Frame :=
  { frame with earlier := some frame.content, parts := [], repeatable := false }

/-- The frame after its closing parenthesis, as a part of the frame around it. -/
def closeInto (frame around : Frame) : Frame :=
  match frame.role with
  | .capture group => around.push (.capture group frame.content) true
  | .plain => around.push (.seq .empty frame.content) true
  | .lookahead negated => around.push (.lookahead negated frame.content) false

end Frame

/-- Reads the remaining symbols, given the innermost frame, those around it, and how many groups
have been opened. The result is the whole tree and the number of its groups. -/
def readSymbols (frame : Frame) (around : List Frame) (groups : Nat) :
    List Symbol → Option (Tree × Nat)
  | [] => if around.isEmpty then some (frame.content, groups) else none
  | .bytes set :: rest => readSymbols (frame.push (.bytes set) true) around groups rest
  | .assert assertion :: rest => readSymbols (frame.push (.assert assertion) false) around groups rest
  | .backreference group :: rest =>
    if groups < group ∨ (frame :: around).any (·.role == .capture group) then none
    else readSymbols (frame.push (.backreference group) true) around groups rest
  | .opening .capturing :: rest =>
    readSymbols { role := .capture (groups + 1) } (frame :: around) (groups + 1) rest
  | .opening .plain :: rest => readSymbols { role := .plain } (frame :: around) groups rest
  | .opening (.lookahead negated) :: rest =>
    readSymbols { role := .lookahead negated } (frame :: around) groups rest
  | .closing :: rest =>
    match around with
    | [] => none
    | outer :: around => readSymbols (frame.closeInto outer) around groups rest
  | .bar :: rest => readSymbols frame.bar around groups rest
  | .repetition quantifier greedy :: rest =>
    match frame.repeatable, frame.parts with
    | true, part :: parts =>
      readSymbols { frame with parts := .repeated part quantifier greedy :: parts } around groups rest
    | _, _ => none

end QueryGate.Pattern

namespace QueryGate

structure Pattern where
  /-- The pattern as it was written. -/
  source : Text
  groups : Nat
  tree : Pattern.Tree
  deriving Repr, DecidableEq

namespace Pattern

/-- Reads a pattern's source; `none` if it is malformed or its automaton would be too large.
The automaton has three states besides those of the tree. -/
def ofSource? (source : Text) : Option Pattern := do
  let (tree, groups) ← readSymbols { role := .plain } [] 0 (← symbols? source)
  if tree.states + 3 ≤ Tree.stateLimit then some ⟨source, groups, tree⟩ else none

end Pattern

end QueryGate
