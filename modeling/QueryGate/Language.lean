import QueryGate.Text

/-! # Query languages

The two languages the gate judges, and the two kinds of operation it lets a GraphQL document
carry, with the words that stand for them in messages and log lines.
-/

namespace QueryGate

inductive Language where
  /-- The issue search language: clauses over fields, functions and literals. -/
  | jql
  /-- GraphQL documents. -/
  | graphql
  deriving Repr, DecidableEq

namespace Language

/-- Every language, in the order of their numbers. -/
def all : List Language := [.jql, .graphql]

/-- The word that stands for a language in a log line. -/
def name : Language → Text
  | .jql => ascii "jql"
  | .graphql => ascii "graphql"

/-- The word for a language that may be out of range. -/
def label (language : Option Language) : Text := language.elim (ascii "unknown") name

end Language

namespace Graphql

/-- The kinds of operation a document may carry. -/
inductive OperationKind where
  | query
  | mutation
  deriving Repr, DecidableEq

namespace OperationKind

/-- Every kind, in the order of their numbers. -/
def all : List OperationKind := [.query, .mutation]

/-- The keyword that starts an operation of this kind. -/
def name : OperationKind → Text
  | .query => ascii "query"
  | .mutation => ascii "mutation"

/-- The word for a kind that may be out of range. -/
def label (kind : Option OperationKind) : Text := kind.elim (ascii "unknown") name

end OperationKind

end Graphql

end QueryGate
