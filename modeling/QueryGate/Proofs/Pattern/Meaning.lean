import Mathlib.Logic.Relation
import QueryGate.Pattern.Search

/-! # What a pattern matches

The search runs on continuations, hands captures along and bounds its loops. Where a tree has no
backreferences the captures decide nothing, and what it matches can be said without the search:
from which cursors it leads to which. The search succeeds exactly if the tree leads to a cursor from
which what follows succeeds, so a pattern is found in a text exactly if it leads somewhere from some
place of the text.
-/

namespace QueryGate.Pattern

variable {α β : Type}

/-- A relation `n` times in a row. -/
def Repeats (step : α → α → Prop) : Nat → α → α → Prop
  | 0, start, finish => finish = start
  | n + 1, start, finish => ∃ middle, step start middle ∧ Repeats step n middle finish

theorem repeats_add {step : α → α → Prop} {m n : Nat} {start finish : α} :
    Repeats step (m + n) start finish ↔
      ∃ middle, Repeats step m start middle ∧ Repeats step n middle finish := by
  induction m generalizing start with
  | zero => simp [Repeats]
  | succ m ih =>
      simp only [Nat.succ_add, Repeats, ih]
      constructor
      · rintro ⟨first, one, middle, more, rest⟩
        exact ⟨middle, ⟨first, one, more⟩, rest⟩
      · rintro ⟨middle, ⟨first, one, more⟩, rest⟩
        exact ⟨first, one, middle, more, rest⟩

theorem Repeats.lift {step : α → α → Prop} {other : β → β → Prop} {related : α → β → Prop}
    (lifts : ∀ {start finish near}, step start finish → related start near →
      ∃ far, other near far ∧ related finish far)
    {n : Nat} {start finish : α} {near : β} (path : Repeats step n start finish)
    (relates : related start near) : ∃ far, Repeats other n near far ∧ related finish far := by
  induction n generalizing start near with
  | zero =>
      obtain rfl := path
      exact ⟨near, rfl, relates⟩
  | succ n ih =>
      obtain ⟨middle, one, rest⟩ := path
      obtain ⟨between, one, relates⟩ := lifts one relates
      obtain ⟨far, rest, relates⟩ := ih rest relates
      exact ⟨far, ⟨between, one, rest⟩, relates⟩

theorem reflTransGen_iff_repeats {step : α → α → Prop} {start finish : α} :
    Relation.ReflTransGen step start finish ↔ ∃ n, Repeats step n start finish := by
  constructor
  · intro path
    induction path using Relation.ReflTransGen.head_induction_on with
    | refl => exact ⟨0, rfl⟩
    | head one _ ih =>
        obtain ⟨n, rest⟩ := ih
        exact ⟨n + 1, _, one, rest⟩
  · rintro ⟨n, path⟩
    induction n generalizing start with
    | zero =>
        obtain rfl := path
        exact .refl
    | succ n ih =>
        obtain ⟨middle, one, rest⟩ := path
        exact .head one (ih rest)

/-- How often a quantifier lets something stand in a row. -/
def Quantifier.Admits (quantifier : Quantifier) (n : Nat) : Prop :=
  quantifier.least ≤ n ∧ ∀ most ∈ quantifier.most, n ≤ max quantifier.least most

namespace Tree

/-- The tree has no backreference. -/
def isFree : Tree → Bool
  | .empty | .bytes _ | .assert _ => true
  | .backreference _ => false
  | .seq first second | .alt first second => first.isFree && second.isFree
  | .capture _ body | .lookahead _ body | .repeated body _ _ => body.isFree

/-- The tree leads from one cursor to another. Captures are left alone, so this says nothing about
backreferences. -/
def Spans : Tree → Scope → Cursor → Cursor → Prop
  | .empty, _, start, finish => finish = start
  | .bytes set, _, start, finish =>
    ∃ b rest, start.rest = b :: rest ∧ set.contains b = true ∧ finish = start.past b rest
  | .assert assertion, scope, start, finish =>
    finish = start ∧ assertion.holds scope start = true
  | .backreference _, _, _, _ => False
  | .seq first second, scope, start, finish =>
    ∃ middle, first.Spans scope start middle ∧ second.Spans scope middle finish
  | .alt first second, scope, start, finish =>
    first.Spans scope start finish ∨ second.Spans scope start finish
  | .capture _ body, scope, start, finish => body.Spans scope start finish
  | .lookahead negated body, scope, start, finish =>
    finish = start ∧
      (negated = true ↔
        ¬ ∃ ahead, body.Spans { scope with origin := start.position }
          { start with previous := if scope.sighted then start.previous else none } ahead)
  | .repeated body quantifier _, scope, start, finish =>
    ∃ n, quantifier.Admits n ∧ Repeats (body.Spans scope) n start finish

end Tree

/-! ## Going forward -/

/-- One cursor is another one or stands behind it. -/
def Advances (start finish : Cursor) : Prop :=
  finish = start ∨ start.position < finish.position ∧ finish.rest.length < start.rest.length

theorem Advances.trans {start middle finish : Cursor} (one : Advances start middle)
    (other : Advances middle finish) : Advances start finish := by
  unfold Advances at *
  rcases one with rfl | one
  · exact other
  · rcases other with rfl | other
    · exact Or.inr one
    · exact Or.inr ⟨Nat.lt_trans one.1 other.1, Nat.lt_trans other.2 one.2⟩

theorem advances_of_repeats {step : Cursor → Cursor → Prop}
    (forward : ∀ start finish, step start finish → Advances start finish) {n : Nat}
    {start finish : Cursor} (path : Repeats step n start finish) : Advances start finish := by
  induction n generalizing start with
  | zero => exact Or.inl path
  | succ n ih =>
      obtain ⟨middle, one, rest⟩ := path
      exact (forward start middle one).trans (ih rest)

theorem Tree.Spans.advances {tree : Tree} {scope : Scope} {start finish : Cursor}
    (spans : tree.Spans scope start finish) : Advances start finish := by
  induction tree generalizing scope start finish with
  | empty => exact Or.inl spans
  | bytes set =>
      obtain ⟨b, rest, split, -, rfl⟩ := spans
      refine Or.inr ⟨Nat.lt_succ_self _, ?_⟩
      rw [split]
      exact Nat.lt_succ_self _
  | assert | lookahead => exact Or.inl spans.1
  | backreference => cases spans
  | seq _ _ first second =>
      obtain ⟨middle, one, other⟩ := spans
      exact (first one).trans (second other)
  | alt _ _ first second =>
      cases spans with
      | inl one => exact first one
      | inr other => exact second other
  | capture _ _ ih => exact ih spans
  | repeated _ _ _ ih =>
      obtain ⟨n, -, path⟩ := spans
      exact advances_of_repeats (fun _ _ one => ih one) path

/-! ## The search -/

/-- A cursor without its captures. -/
def Cursor.bare (cursor : Cursor) : Cursor := { cursor with captures := [] }

/-- From every cursor with at most `limit` bytes to go, what follows succeeds exactly if the cursor
meets a goal, whatever it has captured. -/
def Accepts (limit : Nat) (next : Cursor → Outcome) (goal : Cursor → Prop) : Prop :=
  ∀ cursor, cursor.rest.length ≤ limit → ((next cursor).isOk = true ↔ goal cursor.bare)

/-- A matcher that leads from one cursor to another as `step` says. -/
def Follows (limit : Nat) (occurrence : Matcher) (step : Cursor → Cursor → Prop) : Prop :=
  ∀ next goal, Accepts limit next goal →
    Accepts limit (occurrence next) fun start => ∃ finish, step start finish ∧ goal finish

@[simp] theorem isOk_ok (reached : Cursor) : (Except.ok reached : Outcome).isOk = true := rfl

@[simp] theorem isOk_error (captures : Captures) :
    (Except.error captures : Outcome).isOk = false := rfl

theorem orElse_isOk {attempt : Outcome} {cursor : Cursor} {other : Cursor → Outcome} {goal : Prop}
    (decides : ∀ captures, (other { cursor with captures }).isOk = true ↔ goal) :
    (orElse attempt cursor other).isOk = true ↔ attempt.isOk = true ∨ goal := by
  cases attempt with
  | ok reached => simp [orElse]
  | error captures => simpa [orElse] using decides captures

theorem not_isOk_fail (cursor : Cursor) : ¬ (fail cursor).isOk = true := by simp [fail]

namespace Accepts

variable {limit : Nat} {next : Cursor → Outcome} {goal : Cursor → Prop}

theorem congr (accepts : Accepts limit next goal) {other : Cursor → Prop}
    (same : ∀ cursor, goal cursor ↔ other cursor) : Accepts limit next other :=
  fun cursor short => (accepts cursor short).trans (same cursor.bare)

/-- What is accepted does not depend on the captures. -/
theorem recapture (accepts : Accepts limit next goal) {cursor : Cursor}
    (short : cursor.rest.length ≤ limit) (captures : Captures) :
    (next { cursor with captures }).isOk = true ↔ goal cursor.bare :=
  accepts { cursor with captures } short

end Accepts

section Loops

variable {limit : Nat} {occurrence : Matcher} {step : Cursor → Cursor → Prop}
  {next : Cursor → Outcome} {goal : Cursor → Prop}
  (follows : Follows limit occurrence step) (accepts : Accepts limit next goal)

include follows accepts

theorem accepts_times (n : Nat) :
    Accepts limit (times occurrence n next) fun start =>
      ∃ finish, Repeats step n start finish ∧ goal finish := by
  induction n with
  | zero =>
      refine accepts.congr fun cursor => ?_
      simp [Repeats]
  | succ n ih =>
      refine (follows _ _ ih).congr fun cursor => ?_
      simp only [Repeats]
      constructor
      · rintro ⟨middle, one, finish, rest, met⟩
        exact ⟨finish, ⟨middle, one, rest⟩, met⟩
      · rintro ⟨finish, ⟨middle, one, rest⟩, met⟩
        exact ⟨middle, one, finish, rest, met⟩

theorem accepts_upTo (greedy : Bool) (n : Nat) :
    Accepts limit (upTo occurrence greedy n next) fun start =>
      ∃ finish, (∃ k ≤ n, Repeats step k start finish) ∧ goal finish := by
  induction n with
  | zero =>
      refine accepts.congr fun cursor => ?_
      simp [Repeats]
  | succ n ih =>
      intro cursor short
      have more := follows _ _ ih
      have either : (upTo occurrence greedy (n + 1) next cursor).isOk = true ↔
          (∃ middle, step cursor.bare middle ∧
            ∃ finish, (∃ k ≤ n, Repeats step k middle finish) ∧ goal finish) ∨ goal cursor.bare := by
        cases greedy with
        | true => rw [upTo, if_pos rfl, orElse_isOk (accepts.recapture short), more cursor short]
        | false =>
            rw [upTo, if_neg Bool.false_ne_true, orElse_isOk (more.recapture short),
              accepts cursor short, or_comm]
      rw [either]
      constructor
      · rintro (⟨middle, one, finish, ⟨k, few, rest⟩, met⟩ | met)
        · exact ⟨finish, ⟨k + 1, Nat.succ_le_succ few, middle, one, rest⟩, met⟩
        · exact ⟨cursor.bare, ⟨0, Nat.zero_le _, rfl⟩, met⟩
      · rintro ⟨finish, ⟨k, few, path⟩, met⟩
        cases k with
        | zero =>
            obtain rfl := path
            exact Or.inr met
        | succ k =>
            obtain ⟨middle, one, rest⟩ := path
            exact Or.inl ⟨middle, one, finish, ⟨k, Nat.le_of_succ_le_succ few, rest⟩, met⟩

end Loops

/-- What the rounds of a loop come to: the goal is met here, or a further round leads on. As in the
loop, `idle` counts the rounds in a row that consumed nothing. -/
def Rounds (step : Cursor → Cursor → Prop) (goal : Cursor → Prop) : Nat → Nat → Cursor → Prop
  | 0, _, start => goal start
  | rounds + 1, idle, start =>
    goal start ∨ idle < 2 ∧
      ∃ middle, step start middle ∧
        Rounds step goal rounds (if middle.position = start.position then idle + 1 else 0) middle

section Loop

variable {step : Cursor → Cursor → Prop} {goal : Cursor → Prop}

theorem accepts_loop {limit : Nat} {occurrence : Matcher} {next : Cursor → Outcome}
    (follows : Follows limit occurrence step) (accepts : Accepts limit next goal) (greedy : Bool)
    (rounds idle : Nat) :
    Accepts limit (loop occurrence greedy next rounds idle) (Rounds step goal rounds idle) := by
  induction rounds generalizing idle with
  | zero => exact accepts
  | succ rounds ih =>
      intro cursor short
      have onward : Accepts limit
          (fun reached => loop occurrence greedy next rounds
            (if reached.position = cursor.position then idle + 1 else 0) reached)
          (fun middle => Rounds step goal rounds
            (if middle.position = cursor.position then idle + 1 else 0) middle) :=
        fun reached near => ih _ reached near
      have more := follows _ _ onward
      rw [loop]
      by_cases active : idle < 2
      · cases greedy with
        | true =>
            simp only [active, if_true, Rounds, true_and]
            rw [orElse_isOk (accepts.recapture short), more cursor short, or_comm]
            rfl
        | false =>
            simp only [active, if_true, Rounds, true_and, Bool.false_eq_true, if_false]
            rw [orElse_isOk fun captures => ?_, accepts cursor short]
            exact more.recapture short captures
      · cases greedy with
        | true =>
            simp only [active, if_true, if_false, Rounds, false_and, or_false]
            rw [orElse_isOk (accepts.recapture short)]
            simp [not_isOk_fail]
        | false =>
            simp only [active, if_false, Rounds, false_and, Bool.false_eq_true]
            rw [orElse_isOk (fun captures => iff_of_false (not_isOk_fail _) not_false),
              accepts cursor short]

theorem rounds_sound {rounds idle : Nat} {start : Cursor}
    (found : Rounds step goal rounds idle start) :
    ∃ finish, Relation.ReflTransGen step start finish ∧ goal finish := by
  induction rounds generalizing idle start with
  | zero => exact ⟨start, .refl, found⟩
  | succ rounds ih =>
      rcases found with met | ⟨-, middle, one, rest⟩
      · exact ⟨start, .refl, met⟩
      · obtain ⟨finish, path, met⟩ := ih rest
        exact ⟨finish, .head one path, met⟩

/-- A round that consumes nothing leads nowhere new, so it can be left out, and then no more rounds are
needed than bytes remain. -/
theorem rounds_complete (forward : ∀ start finish, step start finish → Advances start finish)
    {rounds idle : Nat} {start finish : Cursor} (enough : start.rest.length < rounds)
    (active : idle < 2) (path : Relation.ReflTransGen step start finish) (met : goal finish) :
    Rounds step goal rounds idle start := by
  induction rounds generalizing idle start with
  | zero => cases enough
  | succ rounds ih =>
      induction path using Relation.ReflTransGen.head_induction_on with
      | refl => exact Or.inl met
      | @head start middle one rest skip =>
          rcases forward start middle one with rfl | ⟨ahead, shorter⟩
          · exact skip enough
          · refine Or.inr ⟨active, middle, one, ?_⟩
            rw [if_neg (Nat.ne_of_gt ahead)]
            exact ih (by omega) Nat.two_pos rest

end Loop

theorem follows_repeatWithin {limit : Nat} {occurrence : Matcher} {step : Cursor → Cursor → Prop}
    (follows : Follows limit occurrence step)
    (forward : ∀ start finish, step start finish → Advances start finish) (quantifier : Quantifier)
    (greedy : Bool) {rounds : Nat} (enough : limit < rounds) :
    Follows limit (repeatWithin occurrence quantifier greedy rounds) fun start finish =>
      ∃ n, quantifier.Admits n ∧ Repeats step n start finish := by
  intro next goal accepts
  unfold repeatWithin Quantifier.Admits
  cases bounded : quantifier.most with
  | none =>
      have looped : Accepts limit (loop occurrence greedy next rounds 0) fun start =>
          ∃ finish, Relation.ReflTransGen step start finish ∧ goal finish := by
        intro cursor short
        rw [accepts_loop follows accepts greedy rounds 0 cursor short]
        constructor
        · exact rounds_sound
        · rintro ⟨finish, path, met⟩
          exact rounds_complete forward (Nat.lt_of_le_of_lt short enough) Nat.two_pos path met
      refine (accepts_times follows looped quantifier.least).congr fun start => ?_
      simp only [reflTransGen_iff_repeats]
      constructor
      · rintro ⟨middle, first, finish, ⟨k, rest⟩, met⟩
        refine ⟨finish, ⟨quantifier.least + k, ⟨Nat.le_add_right _ _, by simp⟩, ?_⟩, met⟩
        exact repeats_add.mpr ⟨middle, first, rest⟩
      · rintro ⟨finish, ⟨n, ⟨least, -⟩, path⟩, met⟩
        obtain ⟨k, rfl⟩ := Nat.exists_eq_add_of_le least
        obtain ⟨middle, first, rest⟩ := repeats_add.mp path
        exact ⟨middle, first, finish, ⟨k, rest⟩, met⟩
  | some most =>
      have optional := accepts_upTo follows accepts greedy (most - quantifier.least)
      refine (accepts_times follows optional quantifier.least).congr fun start => ?_
      constructor
      · rintro ⟨middle, first, finish, ⟨k, few, rest⟩, met⟩
        refine ⟨finish, ⟨quantifier.least + k, ⟨Nat.le_add_right _ _, ?_⟩, ?_⟩, met⟩
        · rintro _ ⟨⟩
          omega
        · exact repeats_add.mpr ⟨middle, first, rest⟩
      · rintro ⟨finish, ⟨n, ⟨least, few⟩, path⟩, met⟩
        have within := few most rfl
        obtain ⟨k, rfl⟩ := Nat.exists_eq_add_of_le least
        obtain ⟨middle, first, rest⟩ := repeats_add.mp path
        exact ⟨middle, first, finish, ⟨k, by omega, rest⟩, met⟩

theorem holds_bare (assertion : Assertion) (scope : Scope) (cursor : Cursor) :
    assertion.holds scope cursor.bare = assertion.holds scope cursor := by
  cases assertion <;> rfl

/-! ## One constructor at a time -/

namespace Tree

variable {limit : Nat} {scope : Scope} {first second body : Tree}

theorem follows_empty (limit : Nat) (scope : Scope) :
    Follows limit (Tree.empty.matcher scope) (Tree.empty.Spans scope) := by
  intro next goal accepts
  refine accepts.congr fun cursor => ?_
  simp [Spans]

theorem follows_bytes (limit : Nat) (scope : Scope) (set : ByteClass) :
    Follows limit ((Tree.bytes set).matcher scope) ((Tree.bytes set).Spans scope) := by
  intro next goal accepts cursor short
  rw [matcher]
  cases ahead : cursor.rest with
  | nil => simp [Spans, not_isOk_fail, Cursor.bare, ahead]
  | cons b rest =>
      have nearer : (cursor.past b rest).rest.length ≤ limit := by
        rw [ahead] at short
        exact Nat.le_of_succ_le short
      have spans_iff : (∃ finish, (Tree.bytes set).Spans scope cursor.bare finish ∧ goal finish) ↔
          set.contains b = true ∧ goal (cursor.past b rest).bare := by
        constructor
        · rintro ⟨_, ⟨c, tail, split, listed, rfl⟩, met⟩
          obtain ⟨rfl, rfl⟩ := List.cons.inj (ahead.symm.trans split)
          exact ⟨listed, met⟩
        · rintro ⟨listed, met⟩
          exact ⟨_, ⟨b, rest, ahead, listed, rfl⟩, met⟩
      dsimp only
      rw [spans_iff]
      cases listed : set.contains b with
      | true => simp [accepts (cursor.past b rest) nearer]
      | false => simp [not_isOk_fail]

theorem follows_assert (limit : Nat) (scope : Scope) (assertion : Assertion) :
    Follows limit ((Tree.assert assertion).matcher scope) ((Tree.assert assertion).Spans scope) := by
  intro next goal accepts cursor short
  rw [matcher]
  cases holds : assertion.holds scope cursor with
  | true => simp [Spans, holds_bare, holds, accepts cursor short]
  | false => simp [Spans, holds_bare, holds, not_isOk_fail]

theorem follows_seq (one : Follows limit (first.matcher scope) (first.Spans scope))
    (other : Follows limit (second.matcher scope) (second.Spans scope)) :
    Follows limit ((first.seq second).matcher scope) ((first.seq second).Spans scope) := by
  intro next goal accepts
  refine (one _ _ (other next goal accepts)).congr fun start => ?_
  constructor
  · rintro ⟨middle, led, finish, on, met⟩
    exact ⟨finish, ⟨middle, led, on⟩, met⟩
  · rintro ⟨finish, ⟨middle, led, on⟩, met⟩
    exact ⟨middle, led, finish, on, met⟩

theorem follows_alt (one : Follows limit (first.matcher scope) (first.Spans scope))
    (other : Follows limit (second.matcher scope) (second.Spans scope)) :
    Follows limit ((first.alt second).matcher scope) ((first.alt second).Spans scope) := by
  intro next goal accepts cursor short
  have alternative := other next goal accepts
  rw [matcher, orElse_isOk (alternative.recapture short), one next goal accepts cursor short]
  simp only [Spans, or_and_right, exists_or]

/-- Captures are undone where what follows fails, and nothing else comes of them. -/
theorem follows_capture (group : Nat) (inner : Follows limit (body.matcher scope) (body.Spans scope)) :
    Follows limit ((body.capture group).matcher scope) ((body.capture group).Spans scope) := by
  intro next goal accepts cursor short
  refine inner _ _ (fun reached near => ?_) cursor short
  let bytes := cursor.rest.take (reached.position - cursor.position)
  have onward : (next (reached.capture group (some bytes))).isOk = true ↔ goal reached.bare :=
    accepts (reached.capture group (some bytes)) near
  dsimp only
  cases result : next (reached.capture group (some bytes)) with
  | ok final => simpa [result] using onward
  | error captures => simpa [result] using onward

theorem follows_lookahead (negated : Bool)
    (inner : ∀ origin, Follows limit (body.matcher { scope with origin })
      (body.Spans { scope with origin })) :
    Follows limit ((body.lookahead negated).matcher scope) ((body.lookahead negated).Spans scope) := by
  intro next goal accepts cursor short
  have found : Accepts limit (.ok : Cursor → Outcome) fun _ => True := fun _ _ => by simp
  let start : Cursor :=
    { cursor with previous := if scope.sighted then cursor.previous else none }
  have ahead := inner cursor.position _ _ found start short
  simp only [and_true] at ahead
  have leads : (body.lookahead negated).Spans scope cursor.bare cursor.bare ↔
      (negated = true ↔ ¬ (body.matcher { scope with origin := cursor.position } .ok
        start).isOk = true) := by
    rw [ahead, Spans]
    exact and_iff_right rfl
  have stays : (∃ finish, (body.lookahead negated).Spans scope cursor.bare finish ∧ goal finish) ↔
      (body.lookahead negated).Spans scope cursor.bare cursor.bare ∧ goal cursor.bare := by
    constructor
    · rintro ⟨finish, spans, met⟩
      obtain rfl := spans.1
      exact ⟨spans, met⟩
    · exact fun both => ⟨_, both⟩
  dsimp only
  rw [stays, leads, matcher]
  cases result : body.matcher { scope with origin := cursor.position } .ok start with
  | ok reached =>
      cases negated with
      | true => simp [not_isOk_fail]
      | false => simpa using accepts.recapture short reached.captures
  | error captures =>
      cases negated with
      | true => simp [accepts cursor short]
      | false => simp [not_isOk_fail]

/-- The search for a tree without backreferences leads where the tree does. -/
theorem follows_matcher {tree : Tree} (free : tree.isFree = true) (enough : limit < scope.rounds) :
    Follows limit (tree.matcher scope) (tree.Spans scope) := by
  induction tree generalizing scope with
  | empty => exact follows_empty limit scope
  | bytes set => exact follows_bytes limit scope set
  | assert assertion => exact follows_assert limit scope assertion
  | backreference => cases free
  | seq _ _ first second =>
      rw [isFree, Bool.and_eq_true] at free
      exact follows_seq (first free.1 enough) (second free.2 enough)
  | alt _ _ first second =>
      rw [isFree, Bool.and_eq_true] at free
      exact follows_alt (first free.1 enough) (second free.2 enough)
  | capture group _ ih => exact follows_capture group (ih free enough)
  | lookahead negated _ ih => exact follows_lookahead negated fun _ => ih free enough
  | repeated _ quantifier greedy ih =>
      exact follows_repeatWithin (ih free enough) (fun _ _ spans => spans.advances) quantifier
        greedy enough

end Tree

/-! ## Whole texts -/

/-- The cursor between two pieces of a text. -/
def Cursor.between (before after : Text) : Cursor := ⟨before.length, before.getLast?, after, []⟩

/-- The circumstances of a scan that begins between two pieces of a text. -/
def Scope.between (before after : Text) : Scope :=
  ⟨before.length, before.length ≠ 0, 3 * (before ++ after).length + 3⟩

/-- The tree leads somewhere from a place of the text. -/
def Tree.Occurs (tree : Tree) (t : Text) : Prop :=
  ∃ before after, t = before ++ after ∧
    ∃ finish, tree.Spans (.between before after) (.between before after) finish

section Texts

variable {pattern : Pattern} (free : pattern.tree.isFree = true)

include free

theorem matchesAt_iff (before after : Text) :
    pattern.matchesAt (before ++ after).length before.length before.getLast? after = true ↔
      ∃ finish, pattern.tree.Spans (.between before after) (.between before after) finish := by
  have found : Accepts (before ++ after).length (.ok : Cursor → Outcome) fun _ => True :=
    fun _ _ => by simp
  have enough : (before ++ after).length < (Scope.between before after).rounds := by
    simp only [Scope.between]
    omega
  have search := Tree.follows_matcher free enough _ _ found
    ⟨before.length, before.getLast?, after, List.replicate pattern.groups none⟩ (by simp)
  simp only [and_true] at search
  exact search

theorem occursFrom_iff (before after : Text) :
    pattern.occursFrom (before ++ after).length before.length before.getLast? after = true ↔
      ∃ middle rest, after = middle ++ rest ∧
        ∃ finish, pattern.tree.Spans (.between (before ++ middle) rest)
          (.between (before ++ middle) rest) finish := by
  induction after generalizing before with
  | nil =>
      rw [occursFrom, matchesAt_iff free]
      constructor
      · exact fun spans => ⟨[], [], rfl, by simpa using spans⟩
      · rintro ⟨middle, rest, split, spans⟩
        obtain ⟨rfl, rfl⟩ := List.append_eq_nil_iff.mp split.symm
        simpa using spans
  | cons b after ih =>
      have later := ih (before ++ [b])
      simp only [List.append_assoc, List.singleton_append, List.length_append, List.length_cons,
        List.length_nil, List.getLast?_concat] at later
      rw [occursFrom, Bool.or_eq_true, matchesAt_iff free]
      simp only [List.length_append, List.length_cons]
      rw [later]
      constructor
      · rintro (here | ⟨middle, rest, rfl, spans⟩)
        · exact ⟨[], b :: after, rfl, by simpa using here⟩
        · exact ⟨b :: middle, rest, rfl, spans⟩
      · rintro ⟨middle, rest, split, spans⟩
        cases middle with
        | nil =>
            obtain rfl := split
            exact Or.inl (by simpa using spans)
        | cons c middle =>
            obtain ⟨rfl, rfl⟩ := List.cons.inj split
            exact Or.inr ⟨middle, rest, rfl, spans⟩

/-- A pattern without backreferences is found in a text exactly if its tree leads somewhere from a
place of the text. -/
theorem occursIn_iff (t : Text) : pattern.occursIn t = true ↔ pattern.tree.Occurs t := by
  have scanned := occursFrom_iff free [] t
  simp only [List.nil_append] at scanned
  exact scanned

end Texts

end QueryGate.Pattern
