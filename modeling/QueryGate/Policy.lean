import QueryGate.Graphql.Rules
import QueryGate.Jql.Rules

/-! # The policy

Everything the gate can be told: the rules for each language, and how the audit log is kept.
-/

namespace QueryGate

structure LogSettings where
  level : Text := ascii "info"
  path : Text := ascii "/tmp/querywall-audit.log"
  deriving Repr, DecidableEq

structure Policy where
  log : LogSettings := {}
  jql : Jql.Rules := .builtin
  graphql : Graphql.Rules := .builtin

/-- The policy without any settings of one's own. -/
def Policy.builtin : Policy := {}

end QueryGate
