import QueryGate.Proofs.Audit.Lines

/-! # What a line shows under a key

The line of a query is read as one object, and a string in it is found by its key: as it is written between
its quotes, and as the text that it stands for.
-/

namespace QueryGate.Audit

open Json

/-- What stands in an object under a key. -/
def Json.Value.member? : Value → Text → Option Value
  | .object members, key => members.lookup key
  | _, _ => none

/-- A line that the log has of a query at a time. -/
inductive Records : Text → Instant → Text → Prop where
  | accepted (entry : Acceptance) : Records entry.query entry.time entry.line
  | rejected (entry : Refusal) : Records entry.query entry.time entry.line

/-- Under the key the line has a string, written as `inside` between its quotes and read as `text`. -/
structure Shows (line key inside text : Text) : Prop where
  written : ∃ first last, line =
    first ++ (Byte.doubleQuote :: key ++ [Byte.doubleQuote, Byte.colon] ++
      (Byte.doubleQuote :: inside ++ [Byte.doubleQuote]) ++ last)
  reads : ∃ value, Denotes line value
  shown : ∀ value, Denotes line value → value.member? key = some (.string text)

theorem Shows.text_unique {line key inside inside' text text' : Text} (one : Shows line key inside text)
    (other : Shows line key inside' text') : text = text' := by
  obtain ⟨value, denotes⟩ := one.reads
  have same := (one.shown value denotes).symm.trans (other.shown value denotes)
  exact Value.string.inj (Option.some.inj same)

theorem exists_renderObject {fields : List (String × Scalar)} (field : String × Scalar)
    (member : field ∈ fields) : ∃ first last, renderObject fields = first ++ (renderField field ++ last) := by
  have inside : ∃ first last,
      [Byte.comma].intercalate (fields.map renderField) = first ++ (renderField field ++ last) := by
    induction fields with
    | nil => cases member
    | cons head rest ih =>
        cases rest with
        | nil =>
            obtain rfl := List.mem_singleton.mp member
            exact ⟨[], [], by simp⟩
        | cons next rest =>
            rw [List.map_cons, List.map_cons, List.intercalate_cons_cons, ← List.map_cons]
            rcases List.mem_cons.mp member with rfl | later
            · exact ⟨[], _, by rw [List.nil_append, List.append_assoc]⟩
            · obtain ⟨first, last, split⟩ := ih later
              exact ⟨renderField head ++ [Byte.comma] ++ first, last, by rw [split, List.append_assoc _ first]⟩
  obtain ⟨first, last, split⟩ := inside
  exact ⟨Byte.openBrace :: first, last ++ [Byte.closeBrace], by simp [renderObject, split]⟩

section Shown

variable {query line : Text} {time : Instant}

theorem shows_of_record {key inside text : Text} {record : Value}
    (written : ∃ first last, line =
      first ++ (Byte.doubleQuote :: key ++ [Byte.doubleQuote, Byte.colon] ++
        (Byte.doubleQuote :: inside ++ [Byte.doubleQuote]) ++ last))
    (reads : ∀ value, Denotes line value ↔ value = record)
    (found : record.member? key = some (.string text)) : Shows line key inside text := by
  refine ⟨written, ⟨record, (reads record).mpr rfl⟩, fun value denotes => ?_⟩
  rw [(reads value).mp denotes, found]

theorem shows_preview (recorded : Records query time line) :
    Shows line (ascii "query_preview") (escape (preview query)) (preview query) := by
  cases recorded with
  | accepted entry =>
      exact shows_of_record
        (exists_renderObject ("query_preview", .string (preview entry.query)) (by simp))
        (acceptance_line entry).2 rfl
  | rejected entry =>
      exact shows_of_record
        (exists_renderObject ("query_preview", .string (preview entry.query)) (by simp))
        (refusal_line entry).2 rfl

theorem shows_timestamp (recorded : Records query time line) :
    Shows line (ascii "timestamp") time.text time.text := by
  cases recorded with
  | accepted entry =>
      exact shows_of_record (exists_renderObject ("timestamp", .word entry.time.text) (by simp))
        (acceptance_line entry).2 rfl
  | rejected entry =>
      exact shows_of_record (exists_renderObject ("timestamp", .word entry.time.text) (by simp))
        (refusal_line entry).2 rfl

end Shown

end QueryGate.Audit
