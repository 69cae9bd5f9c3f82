import QueryGate.Proofs.Graphql.Places
import QueryGate.Proofs.Graphql.Values
import QueryGate.Proofs.Pattern.Sources
import QueryGate.Proofs.Pattern.Words

/-! # Introspection

Two of the built-in patterns keep a client from asking for the schema. They report exactly the texts
that mention `__schema`, or `__type` without `name` behind it, in any case of letters. Every text that
comes with an accepted document is searched for them, and of the names with an underscore in front
only `__typename` is on a whitelist.
-/

namespace QueryGate.Graphql

/-- The text mentions the schema, in any case of letters. -/
inductive Introspects (t : Text) : Prop where
  | schema {before after} (split : t.toLower = before ++ (ascii "__schema" ++ after)) : Introspects t
  /-- What begins as `__typename` does is no mention of it. -/
  | type {before after} (split : t.toLower = before ++ (ascii "__type" ++ after))
      (unnamed : ¬ ascii "name" <+: after) : Introspects t

/-- The sources of the patterns against introspection. -/
def introspectionSources : List Text := [ascii "__schema", ascii "__type(?!name)"]

/-! ## The patterns -/

section Patterns

open Pattern Tree

def schemaTree : Tree := word (ascii "__schema") .empty

def typeTree : Tree :=
  word (ascii "__type") (.seq (.lookahead true (word (ascii "name") .empty)) .empty)

theorem ofSource?_schema :
    Pattern.ofSource? (ascii "__schema") = some ⟨ascii "__schema", 0, schemaTree⟩ := by
  decide +kernel

theorem ofSource?_type :
    Pattern.ofSource? (ascii "__type(?!name)") = some ⟨ascii "__type(?!name)", 0, typeTree⟩ := by
  decide +kernel

theorem schemaTree_occurs_iff {t : Text} :
    schemaTree.Occurs t ↔ ∃ before after, t.toLower = before ++ (ascii "__schema" ++ after) := by
  have lowered : (ascii "__schema").toLower = ascii "__schema" := by decide
  refine (looksFor_empty.word (ascii "__schema")).occurs_iff.trans ?_
  rw [lowered]
  constructor
  · rintro ⟨before, _, split, after, rfl, -⟩
    exact ⟨before, after, split⟩
  · rintro ⟨before, after, split⟩
    exact ⟨before, _, split, after, rfl, trivial⟩

theorem typeTree_occurs_iff {t : Text} :
    typeTree.Occurs t ↔ ∃ before after,
      t.toLower = before ++ (ascii "__type" ++ after) ∧ ¬ ascii "name" <+: after := by
  have lowered : (ascii "__type").toLower = ascii "__type" ∧
      (ascii "name").toLower = ascii "name" := by decide
  have looks := (looksFor_empty.unless (looksFor_empty.word (ascii "name"))).word (ascii "__type")
  refine looks.occurs_iff.trans ?_
  rw [lowered.1, lowered.2]
  constructor
  · rintro ⟨before, _, split, after, rfl, absent, -⟩
    refine ⟨before, after, split, fun follows => ?_⟩
    obtain ⟨more, named⟩ := follows
    exact absent ⟨more, named.symm, trivial⟩
  · rintro ⟨before, after, split, unnamed⟩
    refine ⟨before, _, split, after, rfl, fun follows => ?_, trivial⟩
    obtain ⟨more, named, -⟩ := follows
    exact unnamed ⟨more, named.symm⟩

theorem isDetected_iff_introspects {t : Text} :
    ((Detector.ofSources introspectionSources).inspect t).isDetected = true ↔ Introspects t := by
  rw [Detector.isDetected_ofSources_iff]
  simp only [introspectionSources, List.mem_cons, List.not_mem_nil, or_false, forall_eq_or_imp,
    forall_eq, exists_eq_or_imp, exists_eq_left, ofSource?_schema, ofSource?_type, reduceCtorEq,
    Option.some.injEq, exists_eq_left', false_and, false_or]
  rw [Pattern.occursIn_iff (by decide), Pattern.occursIn_iff (by decide), schemaTree_occurs_iff,
    typeTree_occurs_iff]
  constructor
  · rintro (⟨before, after, split⟩ | ⟨before, after, split, unnamed⟩)
    · exact .schema split
    · exact .type split unnamed
  · rintro (@⟨before, after, split⟩ | @⟨before, after, split, unnamed⟩)
    · exact Or.inl ⟨before, after, split⟩
    · exact Or.inr ⟨before, after, split, unnamed⟩

end Patterns

/-! ## Accepted documents -/

theorem not_introspects_of_undetected {t : Text}
    (undetected : ((Gate.ofRules .builtin).detector.inspect t).isDetected = false) :
    ¬ Introspects t := by
  intro introspects
  have searched : ∃ source ∈ introspectionSources, (Pattern.ofSource? source).isSome = true :=
    ⟨ascii "__schema", List.mem_cons_self, by rw [ofSource?_schema]; rfl⟩
  have within : ∀ source ∈ introspectionSources, (Pattern.ofSource? source).isSome = true →
      source ∈ Rules.builtin.patterns := by
    intro source listed _
    revert source
    decide
  have detected := Detector.isDetected_of_fewer searched within
    (isDetected_iff_introspects.mpr introspects)
  cases detected.symm.trans undetected

theorem typename_of_underscore {kind : OperationKind} {name : Text}
    (allowed : Rules.builtin.AllowsAnywhere name ∨ name ∈ Rules.builtin.operations kind)
    (starts : name.head? = some Byte.underscore) : name = ascii "__typename" := by
  have fields : ∀ name ∈ Rules.builtin.fields,
      name.head? = some Byte.underscore → name = ascii "__typename" := by
    simp only [Rules.builtin, NameSet.forall_mem_ofList]
    decide +kernel
  have keywords : ∀ name ∈ Rules.builtin.keywords, name.head? ≠ some Byte.underscore := by
    simp only [Rules.builtin, NameSet.forall_mem_ofList]
    decide +kernel
  have operations : ∀ name ∈ Rules.builtin.operations kind, name.head? ≠ some Byte.underscore := by
    cases kind <;>
      simp only [Rules.operations, Rules.builtin, NameSet.forall_mem_ofList] <;> decide +kernel
  rcases allowed with (field | keyword | type) | operation
  · exact fields name field starts
  · exact absurd starts (keywords name keyword)
  · rw [Rules.allowsType, starts] at type
    cases type
  · exact absurd starts (operations name operation)

/-- The built-in rules block introspection. The two patterns against it report exactly the texts that
mention the schema, and `__typename` is none. In an accepted document, and in every text at any depth
of its variables, the schema is not mentioned, and no name but `__typename` begins with an
underscore. -/
theorem introspection_blocked :
    introspectionSources ⊆ Rules.builtin.patterns ∧
      (∀ t, ((Detector.ofSources introspectionSources).inspect t).isDetected = true ↔
        Introspects t) ∧
      ¬ Introspects (ascii "__typename") ∧
      ∀ {document accepted : Text} {given : Option Variables},
        (Gate.ofRules .builtin).judge document given = .ok accepted →
          ¬ Introspects document ∧
          (∀ values ∈ given, ∀ entry ∈ values, ∀ bytes, (Value.text bytes).Within entry.2 →
            ¬ Introspects bytes) ∧
          ∃ tokens, tokenize document = .ok tokens ∧
            ∀ token ∈ tokens, token.kind = .name → token.text.head? = some Byte.underscore →
              token.text = ascii "__typename" := by
  refine ⟨by decide, fun t => isDetected_iff_introspects, ?_, ?_⟩
  · rw [← isDetected_iff_introspects]
    decide +kernel
  intro document accepted given judged
  obtain ⟨⟨tokens, header, passes⟩, checked, -⟩ := judge_eq_ok_iff.mp judged
  refine ⟨?_, ?_, tokens, passes.lexed, ?_⟩
  · exact not_introspects_of_undetected (Detector.check_eq_ok_iff.mp passes.patterns)
  · intro values present entry member bytes within
    apply not_introspects_of_undetected
    exact undetected_of_checkVariables (checked values present) member within
  · intro token member named starts
    obtain ⟨first, last, rfl⟩ := List.append_of_mem member
    have allowed := allowed_of_checkNames passes.names named
    exact typename_of_underscore (allowed.imp_right And.left) starts

/-- A query that asks for the names of types. -/
def typenameDocument : Text :=
  ascii "query \x7b getTests(jql: $filter) \x7b results \x7b __typename \x7d \x7d \x7d"

/-- Variables with a text inside a list inside a map. -/
def nestedVariables : Variables :=
  [(ascii "filter", .map [(ascii "any", .list [.null, .text (ascii "of __typeName")])])]

theorem introspection_blocked_typename :
    (Gate.ofRules .builtin).judge typenameDocument (some nestedVariables) = .ok typenameDocument.trim ∧
      ¬ Introspects typenameDocument ∧ ¬ Introspects (ascii "of __typeName") := by
  have judged : (Gate.ofRules .builtin).judge typenameDocument (some nestedVariables) =
      .ok typenameDocument.trim := by decide +kernel
  have within : (Value.text (ascii "of __typeName")).Within
      (.map [(ascii "any", .list [.null, .text (ascii "of __typeName")])]) :=
    .entry List.mem_cons_self (.item (List.mem_cons_of_mem _ List.mem_cons_self) .here)
  obtain ⟨silent, texts, -⟩ := introspection_blocked.2.2.2 judged
  exact ⟨judged, silent, texts nestedVariables rfl _ List.mem_cons_self _ within⟩

end QueryGate.Graphql
