import QueryGate.Proofs.Graphql.Refusals
import QueryGate.Proofs.Jql.Refusals
import QueryGate.Proofs.Pattern.Detection

/-! # Gates without a pattern

A gate whose sources are all none of a pattern has nothing to search for, and lets nothing through: what is
neither blank nor too long is refused for its patterns, before anything else is looked at.
-/

namespace QueryGate

/-- The codes of the refusals of a gate that fails closed. -/
def closedCodes : List RejectionCode := [.emptyInput, .tooLong, .dangerousPattern]

/-- The input is refused, and with one of the codes. -/
def Refused (codes : List RejectionCode) (judged : Except Rejection Text) : Prop :=
  ∃ rejection, judged = .error rejection ∧ rejection.code ∈ codes

theorem refused_of_checkSize {language : Language} {limit : Nat} {text : Text}
    {judged : Except Rejection Text}
    (judgement : judged =
      (checkSize language limit text).bind fun _ => .error (.dangerous language [])) :
    Refused closedCodes judged := by
  subst judgement
  cases size : checkSize language limit text with
  | error rejection =>
      refine ⟨rejection, rfl, ?_⟩
      exact List.mem_append_left [.dangerousPattern] (code_of_checkSize size)
  | ok => exact ⟨_, rfl, by simp [closedCodes, Rejection.code]⟩

namespace Jql

theorem judge_of_failsClosed {gate : Gate} (closed : gate.detector.failsClosed = true) (query : Text) :
    gate.judge query = (gate.checkBounds query).bind fun _ => .error (.dangerous .jql []) := by
  have detected : gate.checkPatterns query = .error (.dangerous .jql []) :=
    Detector.check_of_failsClosed closed
  cases bounds : gate.checkBounds query with
  | error rejection => exact judge_of_bounds bounds
  | ok => exact judge_of_patterns bounds detected

end Jql

namespace Graphql

variable {gate : Gate} (closed : gate.detector.failsClosed = true)

include closed

theorem judge_of_failsClosed (document : Text) (given : Option Variables) :
    gate.judge document given =
      (gate.checkBounds document).bind fun _ => .error (.dangerous .graphql []) := by
  have detected : gate.checkPatterns document = .error (.dangerous .graphql []) :=
    Detector.check_of_failsClosed closed
  cases bounds : gate.checkBounds document with
  | error rejection => exact judge_of_bounds bounds
  | ok => exact judge_of_patterns bounds detected

theorem judgeFor_of_failsClosed (document expected : Text) (given : Option Variables) :
    gate.judgeFor document expected given =
      (gate.checkBounds document).bind fun _ => .error (.dangerous .graphql []) := by
  rw [Gate.judgeFor, judge_of_failsClosed closed]
  cases gate.checkBounds document <;> rfl

end Graphql

open Detector Pattern

/-- Sources of which the first has no pattern. -/
def halfBroken : List Text := [ascii "(", ascii "b+", ascii "a"]

/-- Sources that all have no pattern. -/
def allBroken : List Text := [ascii "(", ascii "[z-a]"]

end QueryGate
