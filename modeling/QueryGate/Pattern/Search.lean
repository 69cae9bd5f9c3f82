import QueryGate.Pattern.Reader

/-! # Searching for a pattern

A depth-first search with backtracking, in continuation style: matching a tree from a cursor
hands every cursor it can reach to what has to follow, in order of preference, until that
succeeds.

Groups work as follows. A backreference to a group that captured nothing so far fails. What a
repeated group captured in an earlier round stays until it captures anew. A lookahead is
settled by its first success, and what it captured there stays captured even when the search
backtracks past it.

Assertions see the byte before the cursor unless the cursor stands where the scan of the tree
began, be it the whole pattern or a lookahead, and the search has not moved past the start of
the text. Where a scan begins at the very end of the text there is no word boundary.
-/

namespace QueryGate.Pattern

/-- The bytes each group captured, the first group first. -/
abbrev Captures := List (Option Text)

/-- A position in the text, with what was captured on the way. -/
structure Cursor where
  position : Nat
  /-- The byte before the position, if assertions may see one. -/
  previous : Option UInt8
  rest : Text
  captures : Captures
  deriving Repr, DecidableEq

namespace Cursor

/-- The cursor after the next byte `b`, which `rest` follows. -/
def past (cursor : Cursor) (b : UInt8) (rest : Text) : Cursor :=
  { cursor with position := cursor.position + 1, previous := some b, rest }

/-- The cursor after `word`, if the text goes on with it in any case. -/
def pastWord? (cursor : Cursor) : Text → Option Cursor
  | [] => some cursor
  | a :: word =>
    match cursor.rest with
    | b :: rest => if Byte.lower a = Byte.lower b then (cursor.past b rest).pastWord? word else none
    | [] => none

def captured (cursor : Cursor) (group : Nat) : Option Text := (cursor.captures[group - 1]?).join

def capture (cursor : Cursor) (group : Nat) (bytes : Option Text) : Cursor :=
  { cursor with captures := cursor.captures.set (group - 1) bytes }

end Cursor

/-- Where a search ended: at a cursor, or nowhere, with the captures that backtracking leaves
behind. -/
abbrev Outcome := Except Captures Cursor

/-- Finds a way to match something from a cursor such that what follows succeeds. -/
abbrev Matcher := (Cursor → Outcome) → Cursor → Outcome

def fail (cursor : Cursor) : Outcome := .error cursor.captures

/-- Tries something else, from the same cursor, if the first attempt fails. -/
def orElse (attempt : Outcome) (cursor : Cursor) (other : Cursor → Outcome) : Outcome :=
  match attempt with
  | .ok reached => .ok reached
  | .error captures => other { cursor with captures }

/-- The circumstances of a scan. -/
structure Scope where
  origin : Nat
  /-- Whether assertions see the byte before the origin. -/
  sighted : Bool
  /-- A bound for the number of rounds of a loop. -/
  rounds : Nat
  deriving Repr, DecidableEq

def Assertion.holds (scope : Scope) (cursor : Cursor) : Assertion → Bool
  | .start => cursor.previous.isNone
  | .finish => cursor.rest.isEmpty
  | .wordBoundary => boundary
  | .noWordBoundary => !boundary
where
  boundary : Bool :=
    if cursor.position = scope.origin ∧ cursor.rest.isEmpty then false
    else cursor.previous.any Byte.isWord != cursor.rest.head?.any Byte.isWord

def times (occurrence : Matcher) : Nat → Matcher
  | 0, next, cursor => next cursor
  | n + 1, next, cursor => occurrence (times occurrence n next) cursor

def upTo (occurrence : Matcher) (greedy : Bool) : Nat → Matcher
  | 0, next, cursor => next cursor
  | n + 1, next, cursor =>
    let more := occurrence (upTo occurrence greedy n next)
    if greedy then orElse (more cursor) cursor next
    else orElse (next cursor) cursor more

/-- Any number of occurrences. From one position at most two of them in a row may consume
nothing; `idle` counts those, and `rounds` bounds all. -/
def loop (occurrence : Matcher) (greedy : Bool) (next : Cursor → Outcome) :
    (rounds idle : Nat) → Cursor → Outcome
  | 0, _, cursor => next cursor
  | rounds + 1, idle, cursor =>
    let more (cursor : Cursor) : Outcome :=
      if idle < 2 then
        occurrence (fun reached =>
          loop occurrence greedy next rounds
            (if reached.position = cursor.position then idle + 1 else 0) reached) cursor
      else fail cursor
    if greedy then orElse (more cursor) cursor next
    else orElse (next cursor) cursor more

def repeatWithin (occurrence : Matcher) (quantifier : Quantifier) (greedy : Bool)
    (rounds : Nat) : Matcher := fun next =>
  times occurrence quantifier.least <|
    match quantifier.most with
    | none => loop occurrence greedy next rounds 0
    | some most => upTo occurrence greedy (most - quantifier.least) next

namespace Tree

def matcher : Tree → Scope → Matcher
  | .empty, _, next, cursor => next cursor
  | .bytes set, _, next, cursor =>
    match cursor.rest with
    | b :: rest => if set.contains b then next (cursor.past b rest) else fail cursor
    | [] => fail cursor
  | .assert assertion, scope, next, cursor =>
    if assertion.holds scope cursor then next cursor else fail cursor
  | .backreference group, _, next, cursor =>
    match cursor.captured group with
    | none => fail cursor
    | some word =>
      match cursor.pastWord? word with
      | some reached => next reached
      | none => fail cursor
  | .seq first second, scope, next, cursor =>
    first.matcher scope (second.matcher scope next) cursor
  | .alt first second, scope, next, cursor =>
    orElse (first.matcher scope next cursor) cursor (second.matcher scope next)
  | .capture group body, scope, next, cursor =>
    body.matcher scope (fun reached =>
      let bytes := cursor.rest.take (reached.position - cursor.position)
      match next (reached.capture group (some bytes)) with
      | .ok final => .ok final
      | .error captures => .error (captures.set (group - 1) (reached.captured group))) cursor
  | .lookahead negated body, scope, next, cursor =>
    let start := { cursor with previous := if scope.sighted then cursor.previous else none }
    match body.matcher { scope with origin := cursor.position } .ok start with
    | .ok ahead =>
      let informed := { cursor with captures := ahead.captures }
      if negated then fail informed else next informed
    | .error _ => if negated then next cursor else fail cursor
  | .repeated body quantifier greedy, scope, next, cursor =>
    repeatWithin (body.matcher scope) quantifier greedy scope.rounds next cursor

end Tree

/-- Whether the pattern matches a beginning of `rest`, which stands at `position` of a text
with `size` bytes. -/
def matchesAt (pattern : Pattern) (size position : Nat) (previous : Option UInt8) (rest : Text) :
    Bool :=
  let scope : Scope := ⟨position, position ≠ 0, 3 * size + 3⟩
  let cursor : Cursor := ⟨position, previous, rest, List.replicate pattern.groups none⟩
  (pattern.tree.matcher scope .ok cursor).isOk

def occursFrom (pattern : Pattern) (size position : Nat) (previous : Option UInt8) : Text → Bool
  | [] => pattern.matchesAt size position previous []
  | b :: rest =>
    pattern.matchesAt size position previous (b :: rest) ||
      pattern.occursFrom size (position + 1) (some b) rest

def occursIn (pattern : Pattern) (t : Text) : Bool := pattern.occursFrom t.length 0 none t

end QueryGate.Pattern
