import QueryGate.Pattern.Detector
import QueryGate.Proofs.Bytes
import QueryGate.Proofs.Margins
import QueryGate.Proofs.Pattern.Meaning

/-! # Patterns in a text with margins

A pattern that is found in a text is found in it with whitespace around it as well, as long as the
pattern looks beyond what it consumes only through word boundaries and through lookaheads that
whitespace cannot satisfy. Whitespace belongs to no word, so to a word boundary it is like the end
of the text.
-/

namespace QueryGate.Pattern

namespace ByteClass

/-- No whitespace is in the set. -/
def isVisible (set : ByteClass) : Bool :=
  decide (∀ b, Byte.isBlank b = true → set.contains b = false)

theorem not_contains_of_isVisible {set : ByteClass} (visible : set.isVisible = true) {b : UInt8}
    (white : Byte.isBlank b = true) : set.contains b = false := by
  unfold isVisible at visible
  exact of_decide_eq_true visible b white

end ByteClass

namespace Tree

/-- The tree consumes no whitespace and looks at nothing that it does not consume. -/
def isSolid : Tree → Bool
  | .empty => true
  | .bytes set => set.isVisible
  | .seq first second | .alt first second => first.isSolid && second.isSolid
  | .capture _ body => body.isSolid
  | .assert _ | .backreference _ | .lookahead _ _ | .repeated _ _ _ => false

/-- The tree looks beyond what it consumes only through word boundaries and solid lookaheads. -/
def isSteady : Tree → Bool
  | .empty | .bytes _ => true
  | .assert assertion => assertion == .wordBoundary
  | .backreference _ => false
  | .seq first second | .alt first second => first.isSteady && second.isSteady
  | .capture _ body | .repeated body _ _ => body.isSteady
  | .lookahead _ body => body.isSolid

end Tree

variable {tree : Tree} {margin : Text} {scope wider : Scope} {inner outer finish : Cursor}

/-! ## Lookaheads -/

/-- What is ahead of one cursor is ahead of the other, and then the margin. -/
def SameAhead (margin : Text) (inner outer : Cursor) : Prop := outer.rest = inner.rest ++ margin

theorem Tree.Spans.ahead_of_inner (spans : tree.Spans scope inner finish)
    (solid : tree.isSolid = true) (same : SameAhead margin inner outer) :
    ∃ reached, tree.Spans wider outer reached ∧ SameAhead margin finish reached := by
  induction tree generalizing inner outer finish with
  | empty =>
      obtain rfl := spans
      exact ⟨outer, rfl, same⟩
  | bytes set =>
      obtain ⟨b, rest, split, listed, rfl⟩ := spans
      have ahead : outer.rest = b :: (rest ++ margin) := by rw [same, split, List.cons_append]
      exact ⟨_, ⟨b, _, ahead, listed, rfl⟩, rfl⟩
  | seq _ _ first second =>
      rw [isSolid, Bool.and_eq_true] at solid
      obtain ⟨middle, one, other⟩ := spans
      obtain ⟨between, one, near⟩ := first one solid.1 same
      obtain ⟨reached, other, far⟩ := second other solid.2 near
      exact ⟨reached, ⟨between, one, other⟩, far⟩
  | alt _ _ first second =>
      rw [isSolid, Bool.and_eq_true] at solid
      cases spans with
      | inl one =>
          obtain ⟨reached, one, far⟩ := first one solid.1 same
          exact ⟨reached, Or.inl one, far⟩
      | inr other =>
          obtain ⟨reached, other, far⟩ := second other solid.2 same
          exact ⟨reached, Or.inr other, far⟩
  | capture _ _ ih => exact ih spans solid same
  | assert | backreference | lookahead | repeated => cases solid

theorem Tree.Spans.ahead_of_outer (spans : tree.Spans wider outer finish)
    (solid : tree.isSolid = true) (blank : margin.Blank) (same : SameAhead margin inner outer) :
    ∃ reached, tree.Spans scope inner reached ∧ SameAhead margin reached finish := by
  induction tree generalizing inner outer finish with
  | empty =>
      obtain rfl := spans
      exact ⟨inner, rfl, same⟩
  | bytes set =>
      obtain ⟨b, rest, split, listed, rfl⟩ := spans
      have ahead : inner.rest ++ margin = b :: rest := same.symm.trans split
      cases within : inner.rest with
      | nil =>
          rw [within, List.nil_append] at ahead
          have white : Byte.isBlank b = true := blank b (by simp [ahead])
          have unlisted := ByteClass.not_contains_of_isVisible solid white
          rw [listed] at unlisted
          cases unlisted
      | cons c more =>
          rw [within, List.cons_append] at ahead
          obtain ⟨rfl, rfl⟩ := List.cons.inj ahead
          exact ⟨_, ⟨c, more, within, listed, rfl⟩, rfl⟩
  | seq _ _ first second =>
      rw [isSolid, Bool.and_eq_true] at solid
      obtain ⟨middle, one, other⟩ := spans
      obtain ⟨between, one, near⟩ := first one solid.1 same
      obtain ⟨reached, other, far⟩ := second other solid.2 near
      exact ⟨reached, ⟨between, one, other⟩, far⟩
  | alt _ _ first second =>
      rw [isSolid, Bool.and_eq_true] at solid
      cases spans with
      | inl one =>
          obtain ⟨reached, one, far⟩ := first one solid.1 same
          exact ⟨reached, Or.inl one, far⟩
      | inr other =>
          obtain ⟨reached, other, far⟩ := second other solid.2 same
          exact ⟨reached, Or.inr other, far⟩
  | capture _ _ ih => exact ih spans solid same
  | assert | backreference | lookahead | repeated => cases solid

theorem Tree.ahead_iff (solid : tree.isSolid = true) (blank : margin.Blank)
    (same : SameAhead margin inner outer) :
    (∃ ahead, tree.Spans scope inner ahead) ↔ ∃ ahead, tree.Spans wider outer ahead := by
  constructor
  · rintro ⟨ahead, spans⟩
    obtain ⟨reached, spans, -⟩ := spans.ahead_of_inner solid same
    exact ⟨reached, spans⟩
  · rintro ⟨ahead, spans⟩
    obtain ⟨reached, spans, -⟩ := spans.ahead_of_outer solid blank same
    exact ⟨reached, spans⟩

/-! ## From a text to the same text with margins -/

/-- One cursor stands in a text as the other one does in it with margins: `shift` bytes of
whitespace stand in front and `margin` behind. -/
structure Widened (shift : Nat) (margin : Text) (inner outer : Cursor) : Prop where
  position : outer.position = inner.position + shift
  rest : outer.rest = inner.rest ++ margin
  previous : outer.previous = inner.previous ∨
    inner.previous = none ∧ ∀ b ∈ outer.previous, Byte.isBlank b = true

variable {shift : Nat} (blank : margin.Blank)

include blank

/-- To a word boundary, whitespace is like the end of the text. -/
theorem Widened.wordBoundary (widened : Widened shift margin inner outer)
    (origins : wider.origin = scope.origin + shift)
    (holds : Assertion.wordBoundary.holds scope inner = true) :
    Assertion.wordBoundary.holds wider outer = true := by
  have before : outer.previous.any Byte.isWord = inner.previous.any Byte.isWord := by
    cases widened.previous with
    | inl same => rw [same]
    | inr edge =>
        rw [edge.1]
        cases seen : outer.previous with
        | none => rfl
        | some b => exact Byte.not_isWord_of_isBlank (edge.2 b seen)
  have after : outer.rest.head?.any Byte.isWord = inner.rest.head?.any Byte.isWord := by
    rw [widened.rest]
    cases inner.rest with
    | cons b rest => rfl
    | nil =>
        cases margin with
        | nil => rfl
        | cons b rest => exact Byte.not_isWord_of_isBlank (blank b List.mem_cons_self)
  simp only [Assertion.holds, Assertion.holds.boundary] at holds ⊢
  by_cases origin : inner.position = scope.origin ∧ inner.rest.isEmpty = true
  · rw [if_pos origin] at holds
    cases holds
  · rw [if_neg origin] at holds
    rw [if_neg, before, after]
    · exact holds
    · rintro ⟨place, empty⟩
      refine origin ⟨?_, ?_⟩
      · have moved := widened.position
        omega
      · rw [widened.rest] at empty
        exact List.isEmpty_iff.mpr (List.append_eq_nil_iff.mp (List.isEmpty_iff.mp empty)).1

theorem Tree.Spans.widen (steady : tree.isSteady = true)
    (spans : tree.Spans scope inner finish) (widened : Widened shift margin inner outer)
    (origins : wider.origin = scope.origin + shift) :
    ∃ reached, tree.Spans wider outer reached ∧ Widened shift margin finish reached := by
  induction tree generalizing scope wider inner outer finish with
  | empty =>
      obtain rfl := spans
      exact ⟨outer, rfl, widened⟩
  | bytes set =>
      obtain ⟨b, rest, split, listed, rfl⟩ := spans
      have ahead : outer.rest = b :: (rest ++ margin) := by
        rw [widened.rest, split, List.cons_append]
      refine ⟨_, ⟨b, _, ahead, listed, rfl⟩, ?_, rfl, Or.inl rfl⟩
      have moved := widened.position
      simp only [Cursor.past]
      omega
  | assert assertion =>
      obtain ⟨rfl, holds⟩ := spans
      obtain rfl : assertion = .wordBoundary := by simpa [isSteady] using steady
      exact ⟨outer, ⟨rfl, widened.wordBoundary blank origins holds⟩, widened⟩
  | backreference => cases steady
  | seq _ _ first second =>
      rw [isSteady, Bool.and_eq_true] at steady
      obtain ⟨middle, one, other⟩ := spans
      obtain ⟨between, one, near⟩ := first steady.1 one widened origins
      obtain ⟨reached, other, far⟩ := second steady.2 other near origins
      exact ⟨reached, ⟨between, one, other⟩, far⟩
  | alt _ _ first second =>
      rw [isSteady, Bool.and_eq_true] at steady
      cases spans with
      | inl one =>
          obtain ⟨reached, one, far⟩ := first steady.1 one widened origins
          exact ⟨reached, Or.inl one, far⟩
      | inr other =>
          obtain ⟨reached, other, far⟩ := second steady.2 other widened origins
          exact ⟨reached, Or.inr other, far⟩
  | capture _ _ ih => exact ih steady spans widened origins
  | lookahead negated body =>
      obtain ⟨rfl, settled⟩ := spans
      exact ⟨outer, ⟨rfl, settled.trans (not_congr (ahead_iff steady blank widened.rest))⟩, widened⟩
  | repeated body quantifier greedy ih =>
      obtain ⟨n, admitted, path⟩ := spans
      obtain ⟨reached, path, far⟩ := path.lift (fun one near => ih steady one near origins) widened
      exact ⟨reached, ⟨n, admitted, path⟩, far⟩

omit blank

/-- A steady tree that leads somewhere from a place of the text does so with whitespace around the
text as well. -/
theorem Tree.Occurs.widen {lead core trail : Text} (front : lead.Blank) (back : trail.Blank)
    (steady : tree.isSteady = true) (occurs : tree.Occurs core) :
    tree.Occurs (lead ++ (core ++ trail)) := by
  obtain ⟨before, after, rfl, finish, spans⟩ := occurs
  have widened : Widened lead.length trail (.between before after)
      (.between (lead ++ before) (after ++ trail)) := by
    constructor
    case position => exact List.length_append.trans (Nat.add_comm _ _)
    case rest => rfl
    case previous =>
      cases before using List.reverseRecOn with
      | nil =>
          refine Or.inr ⟨rfl, fun b last => front b ?_⟩
          exact List.mem_of_getLast? (by simpa [Cursor.between] using last)
      | append_singleton before b => exact Or.inl (by simp [Cursor.between])
  have origins : (Scope.between (lead ++ before) (after ++ trail)).origin =
      (Scope.between before after).origin + lead.length :=
    List.length_append.trans (Nat.add_comm _ _)
  obtain ⟨reached, spans, -⟩ := spans.widen back steady widened origins
  exact ⟨lead ++ before, after ++ trail, by simp, reached, spans⟩

end QueryGate.Pattern

namespace QueryGate.Detector

/-- Every pattern of the detector is steady and has no backreference. -/
def IsSteady (detector : Detector) : Prop :=
  ∀ pattern ∈ detector.patterns, pattern.tree.isFree = true ∧ pattern.tree.isSteady = true

instance (detector : Detector) : Decidable detector.IsSteady :=
  inferInstanceAs (Decidable (∀ pattern ∈ detector.patterns, _ ∧ _))

theorem inspect_isDetected_iff (detector : Detector) (t : Text) :
    (detector.inspect t).isDetected = true ↔
      detector.failsClosed = true ∨ ∃ pattern ∈ detector.patterns, pattern.occursIn t = true := by
  unfold inspect
  cases closed : detector.failsClosed with
  | true => simp [Detection.isDetected]
  | false =>
      cases found : detector.patterns.find? (·.occursIn t) with
      | none => simpa [Detection.isDetected] using found
      | some pattern =>
          have member := List.mem_of_find?_eq_some found
          have occurs := List.find?_some found
          simp only [Bool.false_eq_true, if_false, Detection.isDetected, true_iff, false_or]
          exact ⟨pattern, member, occurs⟩

theorem isDetected_of_isCore {detector : Detector} (steady : detector.IsSteady) {core t : Text}
    (isCore : core.IsCore t) (detected : (detector.inspect core).isDetected = true) :
    (detector.inspect t).isDetected = true := by
  obtain ⟨lead, trail, front, back, rfl⟩ := isCore.between
  rw [inspect_isDetected_iff] at detected ⊢
  cases detected with
  | inl closed => exact Or.inl closed
  | inr found =>
      obtain ⟨pattern, member, occurs⟩ := found
      obtain ⟨free, stays⟩ := steady pattern member
      refine Or.inr ⟨pattern, member, ?_⟩
      rw [Pattern.occursIn_iff free] at occurs ⊢
      exact occurs.widen front back stays

end QueryGate.Detector
