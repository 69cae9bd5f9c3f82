import QueryGate.Policy.Load
import QueryGate.Proofs.Bytes
import QueryGate.Proofs.Steps

/-! # What a rules document leaves sound

The gates rely on more than the types of their rules say: names of issue searches are in lower case,
there is a pattern to search for, and a range has its ends in order. The built-in policy is sound in
this sense, no section can make it unsound, and the tables that no key names stay as they are.
-/

namespace QueryGate

/-- What a gate for issue searches relies on. -/
structure Jql.Rules.Sound (rules : Jql.Rules) : Prop where
  fields : ∀ name ∈ rules.fields, name.toLower = name
  functions : ∀ name ∈ rules.functions, name.toLower = name
  patterns : rules.patterns ≠ []
  customFields : rules.customFields.least ≤ rules.customFields.greatest
  keywords : rules.keywords = Jql.Rules.builtin.keywords
  sqlWords : rules.sqlWords = Jql.Rules.builtin.sqlWords

/-- What a gate for documents relies on. -/
structure Graphql.Rules.Sound (rules : Graphql.Rules) : Prop where
  patterns : rules.patterns ≠ []
  keywords : rules.keywords = Graphql.Rules.builtin.keywords
  suspicious : rules.suspicious = Graphql.Rules.builtin.suspicious

theorem Jql.Rules.sound_builtin : Jql.Rules.builtin.Sound := by
  constructor
  case fields =>
    simp only [builtin, NameSet.forall_mem_ofList]
    decide +kernel
  case functions =>
    simp only [builtin, NameSet.forall_mem_ofList]
    decide +kernel
  case patterns => exact List.cons_ne_nil _ _
  case customFields => decide
  case keywords => rfl
  case sqlWords => rfl

theorem Graphql.Rules.sound_builtin : Graphql.Rules.builtin.Sound := by
  constructor
  case patterns => exact List.cons_ne_nil _ _
  case keywords => rfl
  case suspicious => rfl

namespace Policy

variable {entries root : Entries}

/-! ## One key -/

theorem readNames_forall {p : Text → Prop} {normalize : Text → Text} {allowed extra : String}
    {builtin names : NameSet} (normalized : ∀ name, p (normalize name))
    (held : ∀ name ∈ builtin, p name)
    (read : readNames normalize entries allowed extra builtin = .ok names) :
    ∀ name ∈ names, p name := by
  obtain ⟨replaced, -, added, -, finish⟩ : ∃ replaced, _ ∧ ∃ added, _ ∧ _ := by
    simpa only [readNames, bind_eq_ok_iff] using read
  obtain rfl := Except.ok.inj finish
  have every : ∀ texts : List Text, ∀ name ∈ texts.map normalize, p name := by
    intro texts
    exact List.forall_mem_map.mpr fun name _ => normalized name
  intro name member
  rcases NameSet.mem_insertAll.mp member with extra | base
  · exact every _ name extra
  · cases replaced with
    | none => exact held name base
    | some texts => exact every texts name (NameSet.mem_ofList.mp base)

theorem readPatterns_ne_nil {builtin patterns : List Text} (held : builtin ≠ [])
    (read : readPatterns entries builtin = .ok patterns) : patterns ≠ [] := by
  obtain ⟨found, -, finish⟩ := bind_eq_ok_iff.mp read
  match found with
  | none =>
      obtain rfl := Except.ok.inj finish
      exact held
  | some [] => cases finish
  | some (first :: others) =>
      obtain rfl := Except.ok.inj finish
      exact List.cons_ne_nil first others

/-- An end that is left out keeps its built-in value, and the ends are compared thereafter. -/
theorem readRange_ordered {builtin range : Jql.FieldRange}
    (held : builtin.least ≤ builtin.greatest) (read : readRange entries builtin = .ok range) :
    range.least ≤ range.greatest := by
  unfold readRange at read
  split at read
  · obtain rfl := Except.ok.inj read
    exact held
  split at read
  · cases read
  obtain ⟨least, -, finish⟩ := bind_eq_ok_iff.mp read
  obtain ⟨greatest, -, finish⟩ := bind_eq_ok_iff.mp finish
  split at finish
  · cases finish
  next ordered =>
    obtain rfl := Except.ok.inj finish
    exact Nat.not_lt.mp ordered

/-! ## One section -/

theorem readJql_sound {builtin rules : Jql.Rules} (sound : builtin.Sound)
    (read : readJql builtin entries = .ok rules) : rules.Sound := by
  simp only [readJql, bind_eq_ok_iff] at read
  obtain ⟨_, -, _, -, fields, readFields, functions, readFunctions, customFields, readCustom,
    patterns, readSources, finish⟩ := read
  obtain rfl := Except.ok.inj finish
  constructor
  case fields => exact readNames_forall Text.toLower_toLower sound.fields readFields
  case functions => exact readNames_forall Text.toLower_toLower sound.functions readFunctions
  case patterns => exact readPatterns_ne_nil sound.patterns readSources
  case customFields => exact readRange_ordered sound.customFields readCustom
  case keywords => exact sound.keywords
  case sqlWords => exact sound.sqlWords

theorem readGraphql_sound {builtin rules : Graphql.Rules} (sound : builtin.Sound)
    (read : readGraphql builtin entries = .ok rules) : rules.Sound := by
  simp only [readGraphql, bind_eq_ok_iff] at read
  obtain ⟨_, -, _, -, _, -, _, -, _, -, _, -, _, -, _, -, _, -, _, -, patterns, readSources,
    finish⟩ := read
  obtain rfl := Except.ok.inj finish
  constructor
  case patterns => exact readPatterns_ne_nil sound.patterns readSources
  case keywords => exact sound.keywords
  case suspicious => exact sound.suspicious

/-- What holds of the built-in values, and of what the section's reader makes of them, holds whether
the section is there or not. -/
theorem readSection_preserves {α : Type} {holds : α → Prop} {part : PolicySection} {builtin found : α}
    {read : α → Entries → Except PolicyFault α} (held : holds builtin)
    (preserves : ∀ {entries result}, read builtin entries = .ok result → holds result)
    (done : readSection part builtin read root = .ok found) : holds found := by
  unfold readSection at done
  split at done
  · exact Except.ok.inj done ▸ held
  · exact Except.ok.inj done ▸ held
  · split at done
    · cases done
    · exact preserves (mapError_eq_ok_iff.mp done)

/-! ## The document -/

/-- Whatever a rules document says, a policy that is read from it is sound. -/
theorem ofDocument_sound {document : Document} {policy : Policy}
    (read : ofDocument document = .ok policy) : policy.jql.Sound ∧ policy.graphql.Sound := by
  unfold ofDocument at read
  split at read
  · cases read
  simp only [bind_eq_ok_iff] at read
  obtain ⟨log, -, jql, readRules, graphql, readOthers, finish⟩ := read
  obtain rfl := Except.ok.inj finish
  constructor
  · exact readSection_preserves Jql.Rules.sound_builtin
      (readJql_sound Jql.Rules.sound_builtin) readRules
  · exact readSection_preserves Graphql.Rules.sound_builtin
      (readGraphql_sound Graphql.Rules.sound_builtin) readOthers

/-- One end of the range, a field that is not in lower case, and a section that is null. -/
def partialRules : Document :=
  .map [
    (.scalar false (ascii "jql"), .map [
      (.scalar true (ascii "allowed_fields"), .sequence [.scalar false (ascii "Sprint")]),
      (.scalar false (ascii "custom_field_range"), .map [
        (.scalar false (ascii "min"), .scalar false (ascii "20000"))])]),
    (.scalar false (ascii "graphql"), .null)]

theorem ofDocument_sound_partialRules :
    ∃ policy, ofDocument partialRules = .ok policy ∧ policy.jql.Sound ∧ policy.graphql.Sound := by
  have read : (ofDocument partialRules).isOk = true := by decide +kernel
  obtain ⟨policy, found⟩ := exists_of_isOk read
  exact ⟨policy, found, ofDocument_sound found⟩

end Policy

end QueryGate
