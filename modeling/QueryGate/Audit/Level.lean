import QueryGate.Text

/-! # Levels of the audit log

A line is written when its level is at least the lowest level of the log.
-/

namespace QueryGate.Audit

inductive Level where
  | debug
  | info
  | warn
  | error
  deriving Repr, DecidableEq

namespace Level

/-- Every level, in the order of their numbers. -/
def all : List Level := [.debug, .info, .warn, .error]

/-- The number of a level; greater numbers matter more. -/
def rank : Level → Nat
  | .debug => 0
  | .info => 1
  | .warn => 2
  | .error => 3

/-- Whether a log whose lowest level is `least` writes lines of this level. -/
def isWritten (level least : Level) : Bool := least.rank ≤ level.rank

/-- The level of a name, in any case and with whitespace around it. -/
def ofText? (name : Text) : Option Level :=
  let table : List (Text × Level) :=
    [(ascii "debug", .debug), (ascii "trace", .debug), (ascii "info", .info),
     (ascii "warn", .warn), (ascii "warning", .warn), (ascii "error", .error),
     (ascii "critical", .error)]
  table.lookup name.trim.toLower

end Level

end QueryGate.Audit
