import QueryGate.Proofs.Policy.Keys

/-! # What a rules document says

A document whose sections are in form is read as a policy, and no other is. The policy has under each
key what the document sets there, and the built-in value where the document is silent. A document that
is not in form is refused for the first section that is not.
-/

namespace QueryGate

/-! ## Sections -/

open Policy (Entries Admits IsNumber IsTexts IsPatterns IsRange SetsNumber SetsNames SetsPatterns SetsRange
  SetsText)

/-- Every key that is read in the section for issue searches has a value of its form. -/
structure Jql.Rules.InForm (entries : Entries) : Prop where
  numbers : ∀ key ∈ ["max_length", "max_nesting_depth"], Admits entries key (IsNumber 64)
  names : ∀ key ∈ ["allowed_fields", "extra_fields", "allowed_functions", "extra_functions"],
    Admits entries key IsTexts
  range : Admits entries "custom_field_range" (IsRange builtin.customFields)
  patterns : Admits entries "dangerous_patterns" IsPatterns

/-- Every key that is read in the section for documents has a value of its form. -/
structure Graphql.Rules.InForm (entries : Entries) : Prop where
  numbers : ∀ key ∈ ["max_length", "max_depth", "max_variables", "max_string_length",
    "max_list_length", "max_object_keys", "max_variable_depth"], Admits entries key (IsNumber 64)
  names : ∀ key ∈ ["allowed_fields", "extra_fields", "allowed_queries", "extra_queries",
    "allowed_mutations", "extra_mutations"], Admits entries key IsTexts
  patterns : Admits entries "dangerous_patterns" IsPatterns

/-- The log settings are the built-in ones but for what the entries set. -/
structure LogSettings.Follows (entries : Entries) (settings : LogSettings) : Prop where
  level : SetsText entries "log_level" Policy.builtin.log.level settings.level
  path : SetsText entries "audit_log_path" Policy.builtin.log.path settings.path

/-- The rules for issue searches are the built-in ones but for what the entries set. -/
structure Jql.Rules.Follows (entries : Entries) (rules : Jql.Rules) : Prop where
  maxLength : SetsNumber 64 entries "max_length" builtin.maxLength rules.maxLength
  maxNesting : SetsNumber 64 entries "max_nesting_depth" builtin.maxNesting rules.maxNesting
  fields : SetsNames Text.toLower entries "allowed_fields" "extra_fields" builtin.fields rules.fields
  functions : SetsNames Text.toLower entries "allowed_functions" "extra_functions" builtin.functions
    rules.functions
  customFields : SetsRange entries builtin.customFields rules.customFields
  patterns : SetsPatterns entries builtin.patterns rules.patterns
  keywords : rules.keywords = builtin.keywords
  sqlWords : rules.sqlWords = builtin.sqlWords

/-- The rules for documents are the built-in ones but for what the entries set. -/
structure Graphql.Rules.Follows (entries : Entries) (rules : Graphql.Rules) : Prop where
  maxLength : SetsNumber 64 entries "max_length" builtin.maxLength rules.maxLength
  maxDepth : SetsNumber 64 entries "max_depth" builtin.maxDepth rules.maxDepth
  maxVariables : SetsNumber 64 entries "max_variables" builtin.maxVariables rules.maxVariables
  maxTextLength : SetsNumber 64 entries "max_string_length" builtin.maxTextLength rules.maxTextLength
  maxListLength : SetsNumber 64 entries "max_list_length" builtin.maxListLength rules.maxListLength
  maxMapSize : SetsNumber 64 entries "max_object_keys" builtin.maxMapSize rules.maxMapSize
  maxVariableDepth : SetsNumber 64 entries "max_variable_depth" builtin.maxVariableDepth
    rules.maxVariableDepth
  fields : SetsNames id entries "allowed_fields" "extra_fields" builtin.fields rules.fields
  queries : SetsNames id entries "allowed_queries" "extra_queries" builtin.queries rules.queries
  mutations : SetsNames id entries "allowed_mutations" "extra_mutations" builtin.mutations rules.mutations
  patterns : SetsPatterns entries builtin.patterns rules.patterns
  keywords : rules.keywords = builtin.keywords
  suspicious : rules.suspicious = builtin.suspicious

namespace Policy

variable {entries root : Entries}

theorem exists_readJql_iff :
    (∃ rules, readJql .builtin entries = .ok rules) ↔ Jql.Rules.InForm entries := by
  simp only [readJql, readSize, exists_bind_eq_ok_iff, exists_pure_eq_ok, and_true, exists_and_right,
    readNumber_eq_ok_iff, exists_setsNumber_iff, exists_readNames_iff, exists_readRange_iff,
    exists_readPatterns_iff]
  constructor
  · intro each
    constructor <;> simp [each]
  · rintro ⟨numbers, names, range, patterns⟩
    simp only [List.forall_mem_cons] at numbers names
    simp_all

theorem exists_readGraphql_iff :
    (∃ rules, readGraphql .builtin entries = .ok rules) ↔ Graphql.Rules.InForm entries := by
  simp only [readGraphql, readSize, exists_bind_eq_ok_iff, exists_pure_eq_ok, and_true, exists_and_right,
    readNumber_eq_ok_iff, exists_setsNumber_iff, exists_readNames_iff, exists_readPatterns_iff]
  constructor
  · intro each
    constructor <;> simp [each]
  · rintro ⟨numbers, names, patterns⟩
    simp only [List.forall_mem_cons] at numbers names
    simp_all

theorem readJql_nil (builtin : Jql.Rules) : readJql builtin [] = .ok builtin := rfl

theorem readGraphql_nil (builtin : Graphql.Rules) : readGraphql builtin [] = .ok builtin := rfl

theorem follows_of_readLog {settings : LogSettings} (read : readLog builtin.log entries = .ok settings) :
    settings.Follows entries := by
  obtain rfl := Except.ok.inj read
  exact ⟨setsText_readText, setsText_readText⟩

theorem follows_of_readJql {rules : Jql.Rules} (read : readJql .builtin entries = .ok rules) :
    rules.Follows entries := by
  simp only [readJql, readSize, bind_eq_ok_iff, readNumber_eq_ok_iff] at read
  obtain ⟨_, maxLength, _, maxNesting, _, fields, _, functions, _, customFields, _, patterns,
    finish⟩ := read
  obtain rfl := Except.ok.inj finish
  constructor
  case maxLength => exact maxLength
  case maxNesting => exact maxNesting
  case fields => exact setsNames_of_readNames fields
  case functions => exact setsNames_of_readNames functions
  case customFields => exact setsRange_of_readRange customFields
  case patterns => exact setsPatterns_of_readPatterns patterns
  case keywords => rfl
  case sqlWords => rfl

theorem follows_of_readGraphql {rules : Graphql.Rules} (read : readGraphql .builtin entries = .ok rules) :
    rules.Follows entries := by
  simp only [readGraphql, readSize, bind_eq_ok_iff, readNumber_eq_ok_iff] at read
  obtain ⟨_, maxLength, _, maxDepth, _, maxVariables, _, maxTextLength, _, maxListLength, _, maxMapSize, _,
    maxVariableDepth, _, fields, _, queries, _, mutations, _, patterns, finish⟩ := read
  obtain rfl := Except.ok.inj finish
  constructor
  case fields => exact setsNames_of_readNames fields
  case queries => exact setsNames_of_readNames queries
  case mutations => exact setsNames_of_readNames mutations
  case patterns => exact setsPatterns_of_readPatterns patterns
  case keywords => rfl
  case suspicious => rfl
  all_goals assumption

end Policy

/-! ## The document -/

/-- The entries of a section: those of its map, and none for an absent or null section. -/
def PolicySection.entries (part : PolicySection) (root : Entries) : Entries :=
  match Document.child? root part.name with
  | some (.map entries) => entries
  | _ => []

/-- The keys of a section have values of their forms; log settings may have any value. -/
def PolicySection.KeysInForm : PolicySection → Entries → Prop
  | .global => fun _ => True
  | .jql => Jql.Rules.InForm
  | .graphql => Graphql.Rules.InForm

/-- The section is absent, null, or a map whose keys have values of their forms. -/
def PolicySection.InForm (part : PolicySection) (root : Entries) : Prop :=
  Document.child? root part.name = none ∨ Document.child? root part.name = some .null ∨
    ∃ entries, Document.child? root part.name = some (.map entries) ∧ part.KeysInForm entries

/-- The policy is the built-in one but for what the sections set. -/
structure Policy.Follows (root : Entries) (policy : Policy) : Prop where
  log : policy.log.Follows (PolicySection.global.entries root)
  jql : policy.jql.Follows (PolicySection.jql.entries root)
  graphql : policy.graphql.Follows (PolicySection.graphql.entries root)

namespace Policy

section Sections

variable {α : Type} {part : PolicySection} {builtin : α} {read : α → Entries → Except PolicyFault α}

/-- An absent or null section is read like an empty one, as long as the empty one keeps every value. -/
theorem readSection_eq_ok {found : α} (keeps : read builtin [] = .ok builtin)
    (done : readSection part builtin read root = .ok found) :
    read builtin (part.entries root) = .ok found := by
  unfold readSection at done
  unfold PolicySection.entries
  cases present : Document.child? root part.name with
  | none => simpa [present, keeps] using done
  | some node =>
      cases node with
      | null => simpa [present, keeps] using done
      | map entries => simpa [present, Document.entries?, mapError_eq_ok_iff] using done
      | _ => simp [present, Document.entries?] at done

theorem exists_readSection_iff
    (inForm : ∀ entries, (∃ found, read builtin entries = .ok found) ↔ part.KeysInForm entries) :
    (∃ found, readSection part builtin read root = .ok found) ↔ part.InForm root := by
  unfold readSection PolicySection.InForm
  cases present : Document.child? root part.name with
  | none => simp
  | some node =>
      cases node with
      | null => simp
      | map entries => simp [Document.entries?, mapError_eq_ok_iff, inForm]
      | _ => simp [Document.entries?]

theorem of_readSection_eq_error {error : PolicyError}
    (inForm : ∀ entries, (∃ found, read builtin entries = .ok found) ↔ part.KeysInForm entries)
    (done : readSection part builtin read root = .error error) :
    ¬ part.InForm root ∧ ∃ fault, error = .inSection part fault := by
  constructor
  · rw [← exists_readSection_iff inForm]
    rintro ⟨found, read⟩
    cases done.symm.trans read
  · unfold readSection at done
    split at done
    · cases done
    · cases done
    · split at done
      · exact ⟨_, (Except.error.inj done).symm⟩
      · next entries _ =>
        cases refused : read builtin entries with
        | ok found =>
            rw [refused] at done
            cases done
        | error fault =>
            rw [refused] at done
            exact ⟨fault, (Except.error.inj done).symm⟩

end Sections

theorem exists_readLog_iff :
    (∃ settings, readLog builtin.log entries = .ok settings) ↔ PolicySection.global.KeysInForm entries :=
  ⟨fun _ => trivial, fun _ => ⟨_, rfl⟩⟩

theorem ofDocument_map_eq_ok_iff {policy : Policy} :
    ofDocument (.map root) = .ok policy ↔
      readSection .global builtin.log readLog root = .ok policy.log ∧
        readSection .jql builtin.jql readJql root = .ok policy.jql ∧
        readSection .graphql builtin.graphql readGraphql root = .ok policy.graphql := by
  simp only [ofDocument, Document.entries?, bind_eq_ok_iff]
  constructor
  · rintro ⟨log, readLog, jql, readJql, graphql, readGraphql, finish⟩
    obtain rfl := Except.ok.inj finish
    exact ⟨readLog, readJql, readGraphql⟩
  · rintro ⟨readLog, readJql, readGraphql⟩
    exact ⟨_, readLog, _, readJql, _, readGraphql, rfl⟩

theorem exists_map_of_ofDocument {document : Document} {policy : Policy}
    (read : ofDocument document = .ok policy) : ∃ root, document = .map root := by
  cases document with
  | map root => exact ⟨root, rfl⟩
  | _ => cases read

theorem exists_ofDocument_map_iff :
    (∃ policy, ofDocument (.map root) = .ok policy) ↔ ∀ part : PolicySection, part.InForm root := by
  have sections : (∃ policy, ofDocument (.map root) = .ok policy) ↔
      PolicySection.global.InForm root ∧ PolicySection.jql.InForm root ∧
        PolicySection.graphql.InForm root := by
    rw [← exists_readSection_iff fun _ => exists_readLog_iff,
      ← exists_readSection_iff fun _ => exists_readJql_iff,
      ← exists_readSection_iff fun _ => exists_readGraphql_iff]
    simp only [ofDocument_map_eq_ok_iff]
    constructor
    · rintro ⟨policy, log, jql, graphql⟩
      exact ⟨⟨_, log⟩, ⟨_, jql⟩, ⟨_, graphql⟩⟩
    · rintro ⟨⟨log, readLog⟩, ⟨jql, readJql⟩, ⟨graphql, readGraphql⟩⟩
      exact ⟨⟨log, jql, graphql⟩, readLog, readJql, readGraphql⟩
  rw [sections]
  constructor
  · rintro ⟨log, jql, graphql⟩ part
    cases part <;> assumption
  · exact fun each => ⟨each .global, each .jql, each .graphql⟩

theorem follows_of_ofDocument_map {policy : Policy} (read : ofDocument (.map root) = .ok policy) :
    policy.Follows root := by
  obtain ⟨log, jql, graphql⟩ := ofDocument_map_eq_ok_iff.mp read
  constructor
  case log => exact follows_of_readLog (readSection_eq_ok rfl log)
  case jql => exact follows_of_readJql (readSection_eq_ok (readJql_nil _) jql)
  case graphql => exact follows_of_readGraphql (readSection_eq_ok (readGraphql_nil _) graphql)

/-- The first section that is not in form decides, in the order of the sections. -/
theorem ofDocument_map_eq_error {error : PolicyError} (refused : ofDocument (.map root) = .error error) :
    ∃ before part after fault, [PolicySection.global, .jql, .graphql] = before ++ part :: after ∧
      (∀ earlier ∈ before, earlier.InForm root) ∧ ¬ part.InForm root ∧
        error = .inSection part fault := by
  simp only [ofDocument, Document.entries?, bind_eq_error_iff] at refused
  rcases refused with
    log | ⟨settings, readSettings, jql | ⟨rules, readRules, graphql | ⟨_, _, finish⟩⟩⟩
  · obtain ⟨unformed, fault, rfl⟩ := of_readSection_eq_error (fun _ => exists_readLog_iff) log
    exact ⟨[], .global, _, fault, rfl, by simp, unformed, rfl⟩
  · obtain ⟨unformed, fault, rfl⟩ := of_readSection_eq_error (fun _ => exists_readJql_iff) jql
    have formed : PolicySection.global.InForm root :=
      (exists_readSection_iff fun _ => exists_readLog_iff).mp ⟨settings, readSettings⟩
    exact ⟨[.global], .jql, _, fault, rfl, by simpa using formed, unformed, rfl⟩
  · obtain ⟨unformed, fault, rfl⟩ := of_readSection_eq_error (fun _ => exists_readGraphql_iff) graphql
    have formed : PolicySection.global.InForm root :=
      (exists_readSection_iff fun _ => exists_readLog_iff).mp ⟨settings, readSettings⟩
    have formedRules : PolicySection.jql.InForm root :=
      (exists_readSection_iff fun _ => exists_readJql_iff).mp ⟨rules, readRules⟩
    exact ⟨[.global, .jql], .graphql, _, fault, rfl, by simpa using ⟨formed, formedRules⟩, unformed,
      rfl⟩
  · cases finish

theorem message_inSection (part : PolicySection) (fault : PolicyFault) :
    ∃ lead ∈ List.map ascii ["policy_loader: invalid '", "policy_loader: error parsing '"],
      (PolicyError.inSection part fault).message =
        lead ++ part.name ++ ascii "' section: " ++ fault.message := by
  by_cases number : fault = .badNumber
  · exact ⟨ascii "policy_loader: error parsing '", by simp, by simp [PolicyError.message, number]⟩
  · exact ⟨ascii "policy_loader: invalid '", by simp, by simp [PolicyError.message, number]⟩

/-- A document is read as a policy just if it is a map whose sections are in form, and the policy then is
the built-in one but for what the document sets. The explanation of a refusal names the first section
that is not in form. -/
theorem ofDocument_exact (document : Document) :
    ((∃ policy, ofDocument document = .ok policy) ↔
      ∃ root, document = .map root ∧ ∀ part : PolicySection, part.InForm root) ∧
    (∀ policy, ofDocument document = .ok policy →
      ∃ root, document = .map root ∧ policy.Follows root) ∧
    (∀ root error, document = .map root → ofDocument document = .error error →
      ∃ before part after, [PolicySection.global, .jql, .graphql] = before ++ part :: after ∧
        (∀ earlier ∈ before, earlier.InForm root) ∧ ¬ part.InForm root ∧
        ∃ lead ∈ List.map ascii ["policy_loader: invalid '", "policy_loader: error parsing '"],
          ∃ reason, error.message = lead ++ part.name ++ ascii "' section: " ++ reason) := by
  refine ⟨?_, ?_, ?_⟩
  · constructor
    · rintro ⟨policy, read⟩
      obtain ⟨root, rfl⟩ := exists_map_of_ofDocument read
      exact ⟨root, rfl, exists_ofDocument_map_iff.mp ⟨policy, read⟩⟩
    · rintro ⟨root, rfl, formed⟩
      exact exists_ofDocument_map_iff.mpr formed
  · intro policy read
    obtain ⟨root, rfl⟩ := exists_map_of_ofDocument read
    exact ⟨root, rfl, follows_of_ofDocument_map read⟩
  · rintro root error rfl refused
    obtain ⟨before, part, after, fault, order, formed, unformed, rfl⟩ := ofDocument_map_eq_error refused
    obtain ⟨lead, among, said⟩ := message_inSection part fault
    exact ⟨before, part, after, order, formed, unformed, lead, among, fault.message, said⟩

/-- A name beside the built-in ones, one end of the range, and a section that is null. -/
def sprintSections : Entries := [
  (.scalar false (ascii "graphql"), .null),
  (.scalar false (ascii "jql"), .map [
    (.scalar true (ascii "extra_fields"), .sequence [.scalar false (ascii "Sprint")]),
    (.scalar false (ascii "custom_field_range"), .map [
      (.scalar false (ascii "max"), .scalar false (ascii "0x7530"))])])]

theorem ofDocument_exact_sprintSections :
    ∃ policy, ofDocument (.map sprintSections) = .ok policy ∧ policy.Follows sprintSections ∧
      ascii "sprint" ∈ policy.jql.fields := by
  have read : (ofDocument (.map sprintSections)).isOk = true := by decide +kernel
  obtain ⟨policy, found⟩ := exists_of_isOk read
  obtain ⟨root, same, follows⟩ := (ofDocument_exact (.map sprintSections)).2.1 policy found
  obtain rfl := Document.map.inj same
  have lists : ListsTexts (PolicySection.jql.entries sprintSections) "extra_fields" [ascii "Sprint"] :=
    ⟨[.scalar false (ascii "Sprint")], rfl, rfl⟩
  have listed : ascii "sprint" ∈ policy.jql.fields :=
    (follows.jql.fields _).mpr (.inr (.inr ⟨_, lists, by decide⟩))
  exact ⟨policy, found, follows, listed⟩

end Policy

end QueryGate
