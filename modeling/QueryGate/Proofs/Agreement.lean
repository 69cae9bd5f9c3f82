import QueryGate.Proofs.Graphql.Reading
import QueryGate.Proofs.Jql.Reading

/-! # Two scanners of one text

Every text is scanned twice: a lexer goes forward from token to token and in a literal from escape to
escape, and the check of nesting asks at every quote for the run of backslashes in front of it. Where the
lexer meets no backslash outside literals, and in a document no comment and no block literal, the two come to
the same.
-/

namespace QueryGate

open Nesting

/-- The check of nesting and the lexer of either language agree about the texts that are read plainly:
whether they end in a literal, which bytes stand outside literals, and how deep they are nested. -/
theorem scanners_agree :
    (∀ keywords query, Jql.ReadsPlainly keywords query →
      ScansAgree Jql.quotes [Jql.parentheses] (·.kind == .opening) (·.kind == .closing)
        Jql.outsideLiterals query (Jql.tokenize keywords query)) ∧
      ∀ document, Graphql.ReadsPlainly document →
        ScansAgree Graphql.quotes Graphql.pairs (·.isPunctuator Byte.openBrace)
          (·.isPunctuator Byte.closeBrace) Graphql.outsideLiterals document (Graphql.tokenize document) :=
  ⟨fun _ _ => Jql.scansAgree_of_readsPlainly, fun _ => Graphql.scansAgree_of_readsPlainly⟩

/-- A query with escapes, the other quote and parentheses in its literals. -/
def escapingQuery : Text := ascii "(a = \"(\\\"'\" or (b = '\\\\'))"

/-- A query whose last literal is never closed, since its quote is escaped. -/
def unclosedQuery : Text := ascii "a = \"b\" or (c = '\\'"

/-- A document with an escaped quote and a brace in a literal. -/
def escapingDocument : Text := ascii "\x7ba(b: \"\\\"\x7b\")\x7bc\x7d\x7d"

theorem scanners_agree_escapingQuery :
    (∃ tokens, Jql.tokenize Jql.Rules.builtin.keywords escapingQuery = .ok tokens ∧
      (read Jql.quotes escapingQuery).code = bytesSeen escapingQuery (Jql.outsideLiterals tokens) ∧
      2 = peakOpen (·.kind == .opening) (·.kind == .closing) tokens) ∧
    (¬ ∃ tokens, Jql.tokenize Jql.Rules.builtin.keywords unclosedQuery = .ok tokens) ∧
    ∃ tokens, Graphql.tokenize escapingDocument = .ok tokens ∧
      2 = peakOpen (·.isPunctuator Byte.openBrace) (·.isPunctuator Byte.closeBrace) tokens := by
  have closing := scanners_agree.1 Jql.Rules.builtin.keywords escapingQuery (by decide +kernel)
  have unclosed := scanners_agree.1 Jql.Rules.builtin.keywords unclosedQuery (by decide +kernel)
  have document := scanners_agree.2 escapingDocument
    ⟨by decide +kernel, by decide +kernel, by decide +kernel⟩
  obtain ⟨tokens, lexed⟩ := closing.ends.mp (by decide)
  obtain ⟨others, read⟩ := document.ends.mp (by decide)
  refine ⟨⟨tokens, lexed, closing.code tokens lexed, ?_⟩, fun found => ?_, others, read, ?_⟩
  · exact closing.depth tokens lexed 3 ⟨2, 2⟩ (by decide)
  · exact absurd (unclosed.ends.mpr found) (by decide)
  · exact document.depth others read 10 ⟨2, 2⟩ (by decide)

end QueryGate
