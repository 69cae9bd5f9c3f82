import QueryGate.Proofs.Jql.Comparing
import QueryGate.Proofs.Policy.Meaning

/-! # Fields that a rules document lists

Names of fields are put in lower case when a document is read, and again when a query is judged. So a
listed field may be written in any letter case on both sides, and a name that is listed in no letter
case is no field.
-/

namespace QueryGate.Policy

open Jql (Gate comparison)

variable {entries : Entries}

/-- The name stands in one of the two lists of fields. -/
def ListsField (entries : Entries) (name : Text) : Prop :=
  ∃ key ∈ ["allowed_fields", "extra_fields"], ∃ texts, ListsTexts entries key texts ∧ name ∈ texts

theorem mem_fields_iff {rules : Jql.Rules} (follows : rules.Follows entries) {name : Text} :
    name ∈ rules.fields ↔
      (∃ listed, ListsField entries listed ∧ listed.toLower = name) ∨
        (Document.child? entries (ascii "allowed_fields") = none ∧ name ∈ Jql.Rules.builtin.fields) := by
  rw [follows.fields name]
  simp only [List.mem_map]
  constructor
  · rintro (⟨texts, lists, listed, member, same⟩ | kept | ⟨texts, lists, listed, member, same⟩)
    · exact .inl ⟨listed, ⟨"allowed_fields", by simp, texts, lists, member⟩, same⟩
    · exact .inr kept
    · exact .inl ⟨listed, ⟨"extra_fields", by simp, texts, lists, member⟩, same⟩
  · rintro (⟨listed, ⟨key, among, texts, lists, member⟩, same⟩ | kept)
    · rcases List.mem_pair.mp among with rfl | rfl
      · exact .inl ⟨texts, lists, listed, member, same⟩
      · exact .inr (.inr ⟨texts, lists, listed, member, same⟩)
    · exact .inr (.inl kept)

/-- Two fields instead of the built-in ones, and one pattern. -/
def storySections : Entries := [
  (.scalar false (ascii "jql"), .map [
    (.scalar false (ascii "allowed_fields"), .sequence [
      .scalar false (ascii "Sprint"), .scalar true (ascii "Story_Points")]),
    (.scalar false (ascii "dangerous_patterns"), .sequence [.scalar true (ascii ";")])])]

def storyPolicy : Policy := (ofDocument (.map storySections)).toOption.getD .builtin

end QueryGate.Policy
