import QueryGate.Audit.Instant
import QueryGate.Audit.Json
import QueryGate.Audit.Level
import QueryGate.Rejection

/-! # The audit log

Every verdict leaves a line: a JSON object with a fixed sequence of keys. A line shows only the
beginning of the query, because a query may hold what should not be kept.
-/

namespace QueryGate.Audit

/-- The most bytes of a query that a line shows. -/
def previewLength : Nat := 128

/-- A byte that continues a character of several bytes. -/
def isContinuation (b : UInt8) : Bool := b &&& 0xC0 == 0x80

/-- Where to cut a query: at `cut`, or earlier if a character would be divided there. -/
def cutBefore (query : Text) : (cut : Nat) → Nat
  | 0 => 0
  | cut + 1 => if query[cut + 1]?.any isContinuation then cutBefore query cut else cut + 1

/-- The beginning of a query that a line shows: all of a short one, and of a long one at most
`previewLength` bytes that end between two characters. -/
def preview (query : Text) : Text :=
  if query.length ≤ previewLength then query else query.take (cutBefore query previewLength)

/-- A query that was let through. The language may be out of range. -/
structure Acceptance where
  language : Option Language
  /-- The kind and name of a document's operation, and nothing for an issue search. -/
  operation : Text
  query : Text
  time : Instant
  /-- How long the judgement took. -/
  microseconds : Int
  deriving Repr, DecidableEq

/-- A query that was refused. The language and the code may be out of range. -/
structure Refusal where
  language : Option Language
  code : Option RejectionCode
  reason : Text
  context : Text
  query : Text
  time : Instant
  deriving Repr, DecidableEq

def Acceptance.line (entry : Acceptance) : Text :=
  Json.renderObject [
    ("event", .word (ascii "query_accepted")),
    ("language", .word (Language.label entry.language)),
    ("operation", .string entry.operation),
    ("query_length", .number entry.query.length),
    ("query_preview", .string (preview entry.query)),
    ("timestamp", .word entry.time.text),
    ("duration_us", .number entry.microseconds)]

def Refusal.line (entry : Refusal) : Text :=
  Json.renderObject [
    ("event", .word (ascii "query_rejected")),
    ("language", .word (Language.label entry.language)),
    ("error_code", .word (RejectionCode.label entry.code)),
    ("reason", .string entry.reason),
    ("context", .string entry.context),
    ("query_length", .number entry.query.length),
    ("query_preview", .string (preview entry.query)),
    ("timestamp", .word entry.time.text)]

/-- The refusal of a query for a known cause. -/
def Refusal.ofRejection (language : Language) (rejection : Rejection) (query : Text)
    (time : Instant) : Refusal where
  language := some language
  code := some rejection.code
  reason := rejection.message
  context := rejection.context
  query := query
  time := time

/-- What can be reported to the log. -/
inductive Entry where
  | accepted (entry : Acceptance)
  | rejected (entry : Refusal)
  /-- A message that is written as it is. -/
  | note (level : Level) (message : Text)
  /-- A request to write what is pending; nothing ever is. -/
  | flush
  deriving Repr, DecidableEq

/-- The lines that an entry leaves in a log whose lowest level is `least`. -/
def Entry.lines (least : Level) : Entry → List Text
  | .accepted entry => if Level.info.isWritten least then [entry.line] else []
  | .rejected entry => if Level.warn.isWritten least then [entry.line] else []
  | .note level message => if level.isWritten least then [message] else []
  | .flush => []

end QueryGate.Audit
