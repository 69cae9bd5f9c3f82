import QueryGate.Proofs.Lines
import QueryGate.Proofs.Pattern.Margins

/-! # Patterns and line ends

A pattern whose sets of bytes have both line ends or neither cannot tell which of the two stands at the
end of a line.
-/

namespace QueryGate.Pattern

namespace ByteClass

/-- The set has both line ends or neither. -/
def isLineBlind (set : ByteClass) : Bool :=
  set.contains Byte.carriageReturn == set.contains Byte.lineFeed

theorem contains_unifyLine {set : ByteClass} (blind : set.isLineBlind = true) (b : UInt8) :
    set.contains (Byte.unifyLine b) = set.contains b := Byte.blind_unifyLine (eq_of_beq blind) b

end ByteClass

/-- Every set of bytes in the tree has both line ends or neither. -/
def Tree.isLineBlind : Tree → Bool
  | .bytes set => set.isLineBlind
  | .empty | .assert _ | .backreference _ => true
  | .seq first second | .alt first second => first.isLineBlind && second.isLineBlind
  | .capture _ body | .lookahead _ body | .repeated body _ _ => body.isLineBlind

/-- Two cursors stand at one place of texts that differ in their line ends at most. -/
structure Alike (one other : Cursor) : Prop where
  position : one.position = other.position
  previous : one.previous.map Byte.unifyLine = other.previous.map Byte.unifyLine
  rest : one.rest.SameLines other.rest

namespace Alike

variable {one other : Cursor}

theorem symm (alike : Alike one other) : Alike other one :=
  ⟨alike.position.symm, alike.previous.symm, alike.rest.symm⟩

theorem holds_eq (alike : Alike one other) (scope : Scope) (assertion : Assertion) :
    assertion.holds scope one = assertion.holds scope other := by
  have begins : one.previous.isNone = other.previous.isNone := by
    have same := congrArg Option.isNone alike.previous
    rwa [Option.isNone_map, Option.isNone_map] at same
  have ends : one.rest.isEmpty = other.rest.isEmpty := by
    have same := congrArg List.isEmpty alike.rest
    rwa [Text.unifyLines, Text.unifyLines, List.isEmpty_map, List.isEmpty_map] at same
  have wordBefore : one.previous.any Byte.isWord = other.previous.any Byte.isWord := by
    have same := congrArg (Option.any Byte.isWord) alike.previous
    rwa [Byte.any_isWord_unifyLine, Byte.any_isWord_unifyLine] at same
  have wordAfter : one.rest.head?.any Byte.isWord = other.rest.head?.any Byte.isWord := by
    have same := congrArg (fun t => t.head?.any Byte.isWord) alike.rest
    simp only [Text.unifyLines, List.head?_map] at same
    rwa [Byte.any_isWord_unifyLine, Byte.any_isWord_unifyLine] at same
  have boundary : Assertion.holds.boundary scope one = Assertion.holds.boundary scope other := by
    simp only [Assertion.holds.boundary, alike.position, ends, wordBefore, wordAfter]
  cases assertion with
  | start => exact begins
  | finish => exact ends
  | wordBoundary => exact boundary
  | noWordBoundary => exact congrArg not boundary

end Alike

theorem Tree.Spans.alike {tree : Tree} {scope : Scope} {start finish near : Cursor}
    (spans : tree.Spans scope start finish) (blind : tree.isLineBlind = true)
    (alike : Alike start near) : ∃ far, tree.Spans scope near far ∧ Alike finish far := by
  induction tree generalizing scope start finish near with
  | empty =>
      obtain rfl := spans
      exact ⟨near, rfl, alike⟩
  | bytes set =>
      obtain ⟨b, rest, split, listed, rfl⟩ := spans
      have ahead := alike.rest
      rw [split] at ahead
      cases there : near.rest with
      | nil =>
          rw [there] at ahead
          cases ahead.length_eq
      | cons c more =>
          rw [there] at ahead
          obtain ⟨sameByte, sameRest⟩ := List.cons.inj ahead
          refine ⟨near.past c more, ⟨c, more, there, ?_, rfl⟩, ?_, congrArg some sameByte, sameRest⟩
          · rw [← ByteClass.contains_unifyLine blind, ← sameByte, ByteClass.contains_unifyLine blind]
            exact listed
          · exact congrArg (· + 1) alike.position
  | assert assertion =>
      obtain ⟨rfl, holds⟩ := spans
      exact ⟨near, ⟨rfl, (alike.holds_eq scope assertion).symm.trans holds⟩, alike⟩
  | backreference => exact spans.elim
  | seq _ _ first second =>
      rw [isLineBlind, Bool.and_eq_true] at blind
      obtain ⟨middle, one, other⟩ := spans
      obtain ⟨between, one, close⟩ := first one blind.1 alike
      obtain ⟨far, other, away⟩ := second other blind.2 close
      exact ⟨far, ⟨between, one, other⟩, away⟩
  | alt _ _ first second =>
      rw [isLineBlind, Bool.and_eq_true] at blind
      cases spans with
      | inl one =>
          obtain ⟨far, one, away⟩ := first one blind.1 alike
          exact ⟨far, Or.inl one, away⟩
      | inr other =>
          obtain ⟨far, other, away⟩ := second other blind.2 alike
          exact ⟨far, Or.inr other, away⟩
  | capture _ _ ih => exact ih spans blind alike
  | lookahead negated body ih =>
      obtain ⟨rfl, settled⟩ := spans
      refine ⟨near, ⟨rfl, settled.trans (not_congr ?_)⟩, alike⟩
      have ahead : Alike { finish with previous := if scope.sighted then finish.previous else none }
          { near with previous := if scope.sighted then near.previous else none } := by
        refine ⟨alike.position, ?_, alike.rest⟩
        cases scope.sighted with
        | true => exact alike.previous
        | false => rfl
      have origins : ({ scope with origin := finish.position } : Scope) =
          { scope with origin := near.position } := by rw [alike.position]
      rw [origins]
      constructor
      · rintro ⟨reached, spans⟩
        obtain ⟨far, spans, -⟩ := ih spans blind ahead
        exact ⟨far, spans⟩
      · rintro ⟨reached, spans⟩
        obtain ⟨far, spans, -⟩ := ih spans blind ahead.symm
        exact ⟨far, spans⟩
  | repeated body quantifier greedy ih =>
      obtain ⟨n, admitted, path⟩ := spans
      obtain ⟨far, path, away⟩ := path.lift (fun one close => ih one blind close) alike
      exact ⟨far, ⟨n, admitted, path⟩, away⟩

theorem Tree.Occurs.alike {tree : Tree} {s t : Text} (occurs : tree.Occurs s)
    (blind : tree.isLineBlind = true) (same : s.SameLines t) : tree.Occurs t := by
  obtain ⟨before, after, rfl, finish, spans⟩ := occurs
  obtain ⟨front, back, rfl, first, second⟩ := same.exists_append
  have alike : Alike (.between before after) (.between front back) := by
    refine ⟨first.length_eq, ?_, second⟩
    have last := congrArg List.getLast? first
    rwa [Text.unifyLines, Text.unifyLines, List.getLast?_map, List.getLast?_map] at last
  have scopes : Scope.between before after = Scope.between front back := by
    simp only [Scope.between, List.length_append, first.length_eq, second.length_eq]
  obtain ⟨far, spans, -⟩ := spans.alike blind alike
  exact ⟨front, back, rfl, far, scopes ▸ spans⟩

end QueryGate.Pattern

namespace QueryGate.Detector

/-- Every pattern of the detector is blind to line ends and has no backreference. -/
def IsLineBlind (detector : Detector) : Prop :=
  ∀ pattern ∈ detector.patterns, pattern.tree.isFree = true ∧ pattern.tree.isLineBlind = true

instance (detector : Detector) : Decidable detector.IsLineBlind :=
  inferInstanceAs (Decidable (∀ pattern ∈ detector.patterns, _ ∧ _))

theorem isDetected_of_sameLines {detector : Detector} (blind : detector.IsLineBlind) {s t : Text}
    (same : s.SameLines t) (detected : (detector.inspect s).isDetected = true) :
    (detector.inspect t).isDetected = true := by
  rw [inspect_isDetected_iff] at detected ⊢
  cases detected with
  | inl closed => exact Or.inl closed
  | inr found =>
      obtain ⟨pattern, member, occurs⟩ := found
      obtain ⟨free, stays⟩ := blind pattern member
      refine Or.inr ⟨pattern, member, ?_⟩
      rw [Pattern.occursIn_iff free] at occurs ⊢
      exact occurs.alike stays same

theorem isDetected_eq_of_sameLines {detector : Detector} (blind : detector.IsLineBlind) {s t : Text}
    (same : s.SameLines t) : (detector.inspect s).isDetected = (detector.inspect t).isDetected := by
  rw [Bool.eq_iff_iff]
  exact ⟨isDetected_of_sameLines blind same, isDetected_of_sameLines blind same.symm⟩

end QueryGate.Detector
