import QueryGate.Pattern.ByteClass

/-! # Patterns

The syntax trees of patterns: ECMAScript regular expressions over bytes that ignore case.
Groups are numbered from 1 by their opening parentheses.
-/

namespace QueryGate.Pattern

/-- Conditions on a position that consume nothing. -/
inductive Assertion where
  | start
  | finish
  /-- `\b`: a word byte on one side only. -/
  | wordBoundary
  /-- `\B`: no word boundary. -/
  | noWordBoundary
  deriving Repr, DecidableEq

inductive Quantifier where
  | any
  | some
  | optional
  /-- A brace with one bound, an open one. -/
  | atLeast (least : Nat)
  /-- A brace with two bounds, or with one that stands for both. -/
  | between (least most : Nat)
  deriving Repr, DecidableEq

namespace Quantifier

def least : Quantifier → Nat
  | .any | .optional => 0
  | .some => 1
  | .atLeast least | .between least _ => least

/-- The most occurrences; `none` for no bound. -/
def most : Quantifier → Option Nat
  | .any | .some | .atLeast _ => none
  | .optional => Option.some 1
  | .between _ most => Option.some most

end Quantifier

inductive Tree where
  | empty
  | bytes (set : ByteClass)
  | assert (assertion : Assertion)
  | backreference (group : Nat)
  | seq (first second : Tree)
  /-- One tree or, if that leads nowhere, another. -/
  | alt (first second : Tree)
  /-- A tree whose bytes are captured as a group. -/
  | capture (group : Nat) (body : Tree)
  /-- A tree that has to match ahead, or has not to, without consuming. -/
  | lookahead (negated : Bool) (body : Tree)
  /-- A tree again and again; greedy ones try more occurrences before fewer. -/
  | repeated (body : Tree) (quantifier : Quantifier) (greedy : Bool)
  deriving Repr, DecidableEq

namespace Tree

/-- The number of automaton states that one copy of a tree takes. -/
def copyStates : Tree → Nat
  | .empty | .bytes _ | .assert _ | .backreference _ => 1
  | .seq first second => first.copyStates + second.copyStates
  | .alt first second => first.copyStates + second.copyStates + 2
  | .capture _ body | .lookahead _ body => body.copyStates + 2
  | .repeated body .any _ | .repeated body .some _ => body.copyStates + 1
  | .repeated body .optional _ => body.copyStates + 2
  | .repeated body (.atLeast least) _ => (least + 1) * body.copyStates + 2
  | .repeated body (.between least most) _ =>
    least * body.copyStates + (most - least) * (body.copyStates + 1) + 2

/-- The number of automaton states that building a tree takes. A brace copies its body, and
the body it copies from stays behind. -/
def states : Tree → Nat
  | .empty | .bytes _ | .assert _ | .backreference _ => 1
  | .seq first second => first.states + second.states
  | .alt first second => first.states + second.states + 2
  | .capture _ body | .lookahead _ body => body.states + 2
  | .repeated body .any _ | .repeated body .some _ => body.states + 1
  | .repeated body .optional _ => body.states + 2
  | .repeated body (.atLeast least) _ => body.states + (least + 1) * body.copyStates + 2
  | .repeated body (.between least most) _ =>
    body.states + least * body.copyStates + (most - least) * (body.copyStates + 1) + 2

/-- Patterns that would take more automaton states than this are refused. -/
def stateLimit : Nat := 100000

end Tree

end QueryGate.Pattern
