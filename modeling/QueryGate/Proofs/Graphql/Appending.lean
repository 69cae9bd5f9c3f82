import QueryGate.Proofs.Graphql.Joining
import QueryGate.Proofs.Graphql.Places
import QueryGate.Proofs.Graphql.Refusals

/-! # Documents that go on

A document that is refused for a name is not rescued by what is written on the lines behind it. Its
tokens stay where they are and keep their places, and its operation stays the one that was found, so
the same name is met first.
-/

namespace QueryGate.Graphql

section Tokens

variable {rules : Rules} {kind : OperationKind} {tokens : List Token} {rejection : Rejection}

theorem placedFrom_append (place : Place) (tokens more : List Token) :
    ∃ last, placedFrom place (tokens ++ more) = placedFrom place tokens ++ placedFrom last more := by
  induction tokens generalizing place with
  | nil => exact ⟨place, rfl⟩
  | cons token rest ih =>
      obtain ⟨last, split⟩ := ih (place.after token)
      exact ⟨last, congrArg ((token, place) :: ·) split⟩

/-- The name that is refused first stays the first. -/
theorem checkNames_append (more : List Token)
    (refused : checkNames rules kind tokens = .error rejection) :
    checkNames rules kind (tokens ++ more) = .error rejection := by
  obtain ⟨last, split⟩ := placedFrom_append {} tokens more
  unfold checkNames at refused ⊢
  dsimp only at refused ⊢
  rw [placed, split, List.find?_append]
  split at refused
  · next token place found =>
      rw [placed] at found
      rw [found]
      exact refused
  · cases refused

end Tokens

theorem tokenize_append_line {document s : Text} {tokens all : List Token}
    (read : tokenize document = .ok tokens)
    (whole : tokenize (document ++ Byte.lineFeed :: s) = .ok all) : tokens <+: all := by
  have meets : Meets document (Byte.lineFeed :: s) := by
    constructor
    case apart =>
      intro b first
      obtain rfl := Option.some.inj first
      rfl
    case quotes => intro opening; cases opening
  obtain ⟨k, joined, -⟩ := tokenizeFrom_append meets read
  rw [tokenize, joined, map_eq_ok_iff] at whole
  obtain ⟨more, -, rfl⟩ := whole
  exact List.prefix_append tokens more

/-- A document that is refused for a name stays refused whatever stands on the lines behind it, with
any variables. If it is refused for a name again, then for the same name. -/
theorem judge_refused_document_append {rules : Rules} {document : Text} {given : Option Variables}
    {rejection : Rejection}
    (refused : (Gate.ofRules rules).judge document given = .error rejection)
    (named : rejection.code = .unknownField) (s : Text) (others : Option Variables) :
    ∃ later, (Gate.ofRules rules).judge (document ++ Byte.lineFeed :: s) others = .error later ∧
      (later.code = .unknownField → later = rejection) := by
  obtain ⟨tokens, header, read, operation, names⟩ := names_refused_of_judge refused named
  have remains : ∀ all other, tokenize (document ++ Byte.lineFeed :: s) = .ok all →
      detectOperation all = .ok other → checkNames rules other.kind all = .error rejection := by
    intro all other whole detected
    obtain ⟨more, rfl⟩ := tokenize_append_line read whole
    obtain rfl := detectOperation_append operation detected
    exact checkNames_append more names
  cases judged : (Gate.ofRules rules).judge (document ++ Byte.lineFeed :: s) others with
  | ok accepted =>
      obtain ⟨⟨all, other, passes⟩, -⟩ := judge_eq_ok_iff.mp judged
      cases passes.names.symm.trans (remains all other passes.lexed passes.operation)
  | error later =>
      refine ⟨later, rfl, fun again => ?_⟩
      obtain ⟨all, other, whole, detected, names⟩ := names_refused_of_judge judged again
      exact Except.error.inj (names.symm.trans (remains all other whole detected))

/-- A document that asks for a field which is on no whitelist. -/
def passwordDocument : Text := ascii "\x7b getTests \x7b password \x7d \x7d"

theorem judge_refused_document_append_password :
    (Gate.ofRules .sample).judge passwordDocument none =
        .error (.unknownField (ascii "password")) ∧
      ∃ later, (Gate.ofRules .sample).judge
          (passwordDocument ++ Byte.lineFeed :: ascii "fragment Other on Test \x7b secret \x7d") none =
          .error later ∧
        (later.code = .unknownField → later = .unknownField (ascii "password")) := by
  have refused : (Gate.ofRules .sample).judge passwordDocument none =
      .error (.unknownField (ascii "password")) := by decide
  exact ⟨refused, judge_refused_document_append refused rfl _ none⟩

end QueryGate.Graphql
