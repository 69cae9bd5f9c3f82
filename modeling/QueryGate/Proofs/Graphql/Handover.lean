import QueryGate.Proofs.CommandLine
import QueryGate.Proofs.Graphql.Invocation

/-! # Reading what was handed on

What a gate hands on is read again: for a caller that expects an operation, and for the audit log. The
second reading cannot fail where the first did not, and finds what the first found.
-/

namespace QueryGate.Graphql

open CommandLine (Session judgement)

section Rereading

variable {document : Text} {tokens : List Token} {header : Header}

/-- How an operation is written to the audit log: its kind, and its name if it has one. -/
def Header.shown (header : Header) : Text :=
  if header.name.isEmpty then header.kind.name else header.kind.name ++ Byte.space :: header.name

theorem operationOf_of_header (lexed : tokenize document = .ok tokens)
    (operation : detectOperation tokens = .ok header) :
    Session.operationOf document = header.shown := by
  have read : headerOf document = .ok header := bind_eq_ok_iff.mpr ⟨tokens, lexed, operation⟩
  rw [Session.operationOf, read]
  rfl

end Rereading

/-- An accepted document and what is handed on in its place have the same tokens, further on in the
document by the whitespace it starts with, and the same operation. For a caller, the operation whose kind
chose the list of names chooses the list for the expected name too, and no other fault can come up. A run
that hands the document on shows the operation of the document in its log. -/
theorem judge_handover {rules : Rules} {document accepted : Text} {given : Option Variables}
    (judged : (Gate.ofRules rules).judge document given = .ok accepted) :
    ∃ tokens others header,
      tokenize document = .ok tokens ∧ tokenize accepted = .ok others ∧
      tokens = others.map (Token.shift document.lead.length) ∧
      detectOperation tokens = .ok header ∧ detectOperation others = .ok header ∧
      checkNames rules header.kind tokens = .ok () ∧
      (∀ expected, (Gate.ofRules rules).judgeFor document expected given =
        if others.any (·.isName expected) = true ∧ expected ∈ rules.operations header.kind then
          .ok accepted
        else .error (.operationMissing header.kind expected)) ∧
      Session.operationOf document = header.shown ∧ Session.operationOf accepted = header.shown ∧
      ∀ (session : Session) (expected : Option Text), session.policy.graphql = rules →
        judgement session.policy document given expected = .ok accepted →
          session.runGraphql document given expected =
            session.accept .graphql document (Session.operationOf document) accepted := by
  obtain ⟨⟨tokens, header, passes⟩, -, rfl⟩ := judge_eq_ok_iff.mp judged
  obtain ⟨others, again, shifted, same⟩ := retokenize passes.lexed
  have operation := (same header).mpr passes.operation
  have first := operationOf_of_header passes.lexed passes.operation
  have second := operationOf_of_header again operation
  refine ⟨tokens, others, header, passes.lexed, again, shifted, passes.operation, operation,
    passes.names, fun expected => judgeFor_of_judge judged again operation, first, second, ?_⟩
  rintro session expected rfl verdict
  rw [CommandLine.runGraphql_eq, verdict, first, ← second]

/-- A document whose name and fields are behind whitespace and a comment. -/
def remarkedTests : Text := ascii "\n #a\nquery T\x7bgetTests\x7btotal\x7d\x7d\t"

theorem judge_handover_remarkedTests :
    (Gate.ofRules .sample).judge remarkedTests none = .ok remarkedTests.trim ∧
      ∃ (tokens others : List Token) (header : Header),
        tokenize remarkedTests = .ok tokens ∧ tokenize remarkedTests.trim = .ok others ∧
        tokens = others.map (Token.shift 2) ∧
        (Gate.ofRules .sample).judgeFor remarkedTests (ascii "getUsers") none =
          .error (.operationMissing header.kind (ascii "getUsers")) ∧
        Session.operationOf remarkedTests = ascii "query T" ∧
        Session.operationOf remarkedTests.trim = ascii "query T" := by
  have judged : (Gate.ofRules .sample).judge remarkedTests none = .ok remarkedTests.trim := by decide
  obtain ⟨tokens, others, header, lexed, again, shifted, -, -, -, finish, first, second, -⟩ :=
    judge_handover judged
  have shown : Session.operationOf remarkedTests = ascii "query T" := by decide
  have unmentioned : others.any (·.isName (ascii "getUsers")) = false := by
    obtain rfl : (tokenize remarkedTests.trim).toOption.getD [] = others := by rw [again]; rfl
    decide
  refine ⟨judged, tokens, others, header, lexed, again, shifted, ?_, shown, ?_⟩
  · rw [finish, if_neg fun confirmed => by simp [unmentioned] at confirmed]
  · rw [second, ← first, shown]

end QueryGate.Graphql
