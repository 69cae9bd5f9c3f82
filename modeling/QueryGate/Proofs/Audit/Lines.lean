import QueryGate.Audit.Log
import QueryGate.Proofs.Audit.Rendering

/-! # Lines of the audit log

A line of the log is one object with a fixed sequence of keys. Its strings are the fields of its entry, and
the entry decides nothing else about it: no byte of a field ends the line or adds a member to it.
-/

namespace QueryGate.Audit

open Json

/-! ## Words that need no escape -/

theorem plain_languageLabel (language : Option Language) : Plain (Language.label language) := by
  apply plain_of_all
  rcases language with _ | language
  · cbv
  · cases language <;> cbv

theorem plain_codeLabel (code : Option RejectionCode) : Plain (RejectionCode.label code) := by
  apply plain_of_all
  rcases code with _ | code
  · cbv
  · cases code <;> cbv

theorem plain_padded {width : Nat} {t : Text} (plain : Plain t) : Plain (padded width t) := by
  refine plain_append.mpr ⟨fun b member => ?_, plain⟩
  rw [List.eq_of_mem_replicate member]
  rfl

theorem plain_instant (time : Instant) : Plain time.text := by
  have marks : isPlain Byte.minus = true ∧ isPlain Byte.colon = true ∧ isPlain Byte.dot = true ∧
      Plain (ascii "T") ∧ Plain (ascii "Z") :=
    ⟨rfl, rfl, rfl, plain_of_all (by cbv), plain_of_all (by cbv)⟩
  simp [Instant.text, marks, plain_padded, plain_decimal, plain_signedDecimal]

/-! ## Entries -/

/-- What the line of an accepted query says. -/
def Acceptance.record (entry : Acceptance) : Value :=
  .object [
    (ascii "event", .string (ascii "query_accepted")),
    (ascii "language", .string (Language.label entry.language)),
    (ascii "operation", .string entry.operation),
    (ascii "query_length", .number entry.query.length),
    (ascii "query_preview", .string (preview entry.query)),
    (ascii "timestamp", .string entry.time.text),
    (ascii "duration_us", .number entry.microseconds)]

/-- What the line of a refused query says. -/
def Refusal.record (entry : Refusal) : Value :=
  .object [
    (ascii "event", .string (ascii "query_rejected")),
    (ascii "language", .string (Language.label entry.language)),
    (ascii "error_code", .string (RejectionCode.label entry.code)),
    (ascii "reason", .string entry.reason),
    (ascii "context", .string entry.context),
    (ascii "query_length", .number entry.query.length),
    (ascii "query_preview", .string (preview entry.query)),
    (ascii "timestamp", .string entry.time.text)]

theorem preview_prefix (query : Text) : preview query <+: query := by
  unfold preview
  split
  · exact List.prefix_rfl
  · exact List.take_prefix _ _

theorem acceptance_line (entry : Acceptance) :
    Visible entry.line ∧ ∀ value, Denotes entry.line value ↔ value = entry.record := by
  have event : Plain (ascii "query_accepted") := plain_of_all (by cbv)
  refine renderObject_read (fitFields ?keys ?values)
  case keys =>
    simp only [List.map_cons, List.map_nil]
    cbv
  case values =>
    simp [Scalar.IsFit, event, plain_languageLabel, plain_instant]

theorem refusal_line (entry : Refusal) :
    Visible entry.line ∧ ∀ value, Denotes entry.line value ↔ value = entry.record := by
  have event : Plain (ascii "query_rejected") := plain_of_all (by cbv)
  refine renderObject_read (fitFields ?keys ?values)
  case keys =>
    simp only [List.map_cons, List.map_nil]
    cbv
  case values =>
    simp [Scalar.IsFit, event, plain_languageLabel, plain_codeLabel, plain_instant]

/-- Lines cannot be forged. Whatever bytes the fields of an entry have, its line has no control byte and is
read as one object only: the record of the entry, with its keys in their order, each string the field that
it was written from, the query by its length and by a beginning of it. The inside of a string is read as
the text that it was written from, and ends where that text ends. -/
theorem lines_unforgeable :
    (∀ entry : Acceptance, (∀ b ∈ entry.line, Byte.isControl b = false) ∧
      ∀ value, Denotes entry.line value ↔ value = entry.record) ∧
    (∀ entry : Refusal, (∀ b ∈ entry.line, Byte.isControl b = false) ∧
      ∀ value, Denotes entry.line value ↔ value = entry.record) ∧
    (∀ query, preview query <+: query) ∧
    ∀ text rest shown after, Inside (escape text ++ Byte.doubleQuote :: rest) shown after ↔
      shown = text ∧ after = rest := by
  refine ⟨acceptance_line, refusal_line, preview_prefix, fun text rest shown after => ?_⟩
  constructor
  · exact fun inside => inside.unique (inside_escape text rest)
  · rintro ⟨rfl, rfl⟩
    exact inside_escape shown after

end QueryGate.Audit
