import QueryGate.Proofs.Graphql.Gate
import QueryGate.Proofs.Graphql.Outline

/-! # Where a name stands

The check of names goes through the tokens with two counters and a flag. What it knows in front of
a token is said here of the tokens before, without the counters' run: how many parentheses are
open, how many braces outside parentheses are, and whether a keyword came last. Where no operation
may stand anywhere else, an accepted document names the operations of one kind only, and only where
operations are named.
-/

namespace QueryGate.Graphql

/-! ## Open delimiters -/

/-- How many delimiters of a pair are open behind the tokens. A closing one without an open one
counts for nothing. -/
def openBehind (opening closing : UInt8) (tokens : List Token) : Nat :=
  tokens.foldl
    (fun depth token =>
      if token.isPunctuator opening then depth + 1
      else if token.isPunctuator closing then depth - 1
      else depth)
    0

/-- How many parentheses are open behind the tokens. -/
def openParens (tokens : List Token) : Nat := openBehind Byte.openParen Byte.closeParen tokens

/-- The tokens in front of which no parenthesis is open. -/
def outsideParens (tokens : List Token) : List Token :=
  ((List.range tokens.length).filter fun i => openParens (tokens.take i) == 0).filterMap (tokens[·]?)

/-- How many braces are open behind the tokens, those inside parentheses left out. -/
def selectionDepth (tokens : List Token) : Nat :=
  openBehind Byte.openBrace Byte.closeBrace (outsideParens tokens)

/-- Whether the last of the tokens is a keyword that an operation's own name may follow. -/
def endsInKeyword (tokens : List Token) : Bool :=
  tokens.getLast?.any fun token => token.isName (ascii "query") || token.isName (ascii "mutation")

section Open

variable {opening closing : UInt8} {tokens : List Token} {token : Token}

theorem openBehind_concat :
    openBehind opening closing (tokens ++ [token]) =
      if token.isPunctuator opening then openBehind opening closing tokens + 1
      else if token.isPunctuator closing then openBehind opening closing tokens - 1
      else openBehind opening closing tokens := by
  simp [openBehind]

theorem outsideParens_concat :
    outsideParens (tokens ++ [token]) =
      outsideParens tokens ++ if openParens tokens = 0 then [token] else [] := by
  unfold outsideParens
  have before : ∀ i ∈ List.range tokens.length,
      (openParens ((tokens ++ [token]).take i) == 0) = (openParens (tokens.take i) == 0) := by
    intro i member
    rw [List.take_append_of_le_length (List.mem_range.mp member).le]
  have same : ∀ i ∈ (List.range tokens.length).filter fun i => openParens (tokens.take i) == 0,
      (tokens ++ [token])[i]? = tokens[i]? := by
    intro i member
    exact List.getElem?_append_left (List.mem_range.mp (List.mem_filter.mp member).1)
  rw [List.length_append, List.length_singleton, List.range_succ, List.filter_append,
    List.filter_congr before, List.filterMap_append, List.filterMap_congr same]
  congr 1
  by_cases outside : openParens tokens = 0 <;> simp [outside]

end Open

/-! ## Places -/

/-- What the check of names knows behind the tokens. -/
def placeBehind (tokens : List Token) : Place := tokens.foldl Place.after {}

theorem Token.isPunctuator_eq_false {token : Token} {a b : UInt8} (punctuator : token.isPunctuator a = true)
    (other : a ≠ b) : token.isPunctuator b = false := by
  simp only [Token.isPunctuator, Bool.and_eq_true, beq_iff_eq] at punctuator
  simp [Token.isPunctuator, punctuator.2, other]

theorem openParens_concat (tokens : List Token) (token : Token) :
    openParens (tokens ++ [token]) =
      if token.isPunctuator Byte.openParen then openParens tokens + 1
      else if token.isPunctuator Byte.closeParen then openParens tokens - 1
      else openParens tokens := openBehind_concat

/-- Parentheses do not count towards the depth of the selection, nor does anything inside them. -/
theorem selectionDepth_concat (tokens : List Token) (token : Token) :
    selectionDepth (tokens ++ [token]) =
      if openParens tokens ≠ 0 then selectionDepth tokens
      else if token.isPunctuator Byte.openBrace then selectionDepth tokens + 1
      else if token.isPunctuator Byte.closeBrace then selectionDepth tokens - 1
      else selectionDepth tokens := by
  unfold selectionDepth
  rw [outsideParens_concat]
  by_cases outside : openParens tokens = 0
  · rw [if_pos outside, if_neg (not_not.mpr outside), openBehind_concat]
  · rw [if_neg outside, if_pos outside, List.append_nil]

theorem placeBehind_eq (tokens : List Token) :
    placeBehind tokens = ⟨selectionDepth tokens, openParens tokens, endsInKeyword tokens⟩ := by
  induction tokens using List.reverseRecOn with
  | nil => rfl
  | append_singleton tokens token ih =>
      have step : placeBehind (tokens ++ [token]) = (placeBehind tokens).after token := by
        simp [placeBehind]
      have keyword : endsInKeyword (tokens ++ [token]) =
          (token.isName (ascii "query") || token.isName (ascii "mutation")) := by
        simp [endsInKeyword]
      rw [step, ih, Place.after, openParens_concat, selectionDepth_concat, keyword]
      cases opens : token.isPunctuator Byte.openParen with
      | true =>
          simp [token.isPunctuator_eq_false opens (by decide : Byte.openParen ≠ Byte.openBrace),
            token.isPunctuator_eq_false opens (by decide : Byte.openParen ≠ Byte.closeBrace)]
      | false =>
          cases closes : token.isPunctuator Byte.closeParen with
          | true =>
              simp [token.isPunctuator_eq_false closes (by decide : Byte.closeParen ≠ Byte.openBrace),
                token.isPunctuator_eq_false closes (by decide : Byte.closeParen ≠ Byte.closeBrace)]
          | false =>
              by_cases outside : openParens tokens = 0
              · cases token.isPunctuator Byte.openBrace with
                | true => simp [outside]
                | false => cases token.isPunctuator Byte.closeBrace <;> simp [outside]
              · simp [outside]

theorem mem_placed_iff {tokens : List Token} {token : Token} {place : Place} :
    (token, place) ∈ placed tokens ↔
      ∃ first last, tokens = first ++ token :: last ∧ place = placeBehind first := by
  suffices ∀ start, (token, place) ∈ placedFrom start tokens ↔
      ∃ first last, tokens = first ++ token :: last ∧ place = first.foldl Place.after start from
    this {}
  induction tokens with
  | nil => simp [placedFrom]
  | cons head rest ih =>
      intro start
      rw [placedFrom, List.mem_cons, ih]
      constructor
      · rintro (same | ⟨first, last, rfl, rfl⟩)
        · obtain ⟨rfl, rfl⟩ := Prod.mk.inj same
          exact ⟨[], rest, rfl, rfl⟩
        · exact ⟨head :: first, last, rfl, rfl⟩
      · rintro ⟨first, last, split, rfl⟩
        cases first with
        | nil =>
            obtain ⟨rfl, rfl⟩ := List.cons.inj split
            exact Or.inl rfl
        | cons _ first =>
            obtain ⟨rfl, rfl⟩ := List.cons.inj split
            exact Or.inr ⟨first, last, rfl, rfl⟩

/-- A selection is at its top level behind the tokens. -/
structure AtTopLevel (first : List Token) : Prop where
  outside : openParens first = 0
  depth : selectionDepth first = 1

/-- An operation's own name may follow the tokens. -/
structure AtHeader (first : List Token) : Prop where
  outside : openParens first = 0
  depth : selectionDepth first = 0
  keyword : endsInKeyword first = true

theorem isTopLevel_iff {first : List Token} :
    (placeBehind first).isTopLevel = true ↔ AtTopLevel first := by
  simp only [placeBehind_eq, Place.isTopLevel, Bool.and_eq_true, beq_iff_eq]
  exact ⟨fun ⟨depth, outside⟩ => ⟨outside, depth⟩, fun place => ⟨place.depth, place.outside⟩⟩

theorem isHeader_iff {first : List Token} : (placeBehind first).isHeader = true ↔ AtHeader first := by
  simp only [placeBehind_eq, Place.isHeader, Bool.and_eq_true, beq_iff_eq]
  exact ⟨fun ⟨⟨depth, outside⟩, keyword⟩ => ⟨outside, depth, keyword⟩,
    fun place => ⟨⟨place.depth, place.outside⟩, place.keyword⟩⟩

/-! ## Names of operations -/

/-- A name that may stand anywhere: a field, a keyword or what looks like a type. -/
def Rules.AllowsAnywhere (rules : Rules) (name : Text) : Prop :=
  name ∈ rules.fields ∨ name ∈ rules.keywords ∨ rules.allowsType name = true

variable {rules : Rules} {kind : OperationKind} {tokens first last : List Token} {token : Token}

theorem allowed_of_checkNames (checked : checkNames rules kind (first ++ token :: last) = .ok ())
    (named : token.kind = .name) :
    rules.AllowsAnywhere token.text ∨
      token.text ∈ rules.operations kind ∧ (AtTopLevel first ∨ AtHeader first) := by
  have placed : (token, placeBehind first) ∈ placed (first ++ token :: last) :=
    mem_placed_iff.mpr ⟨first, last, rfl, rfl⟩
  have allowed := checkNames_eq_ok_iff.mp checked _ placed named
  simp only [Rules.allowsName, Bool.or_eq_true, Bool.and_eq_true, isTopLevel_iff, isHeader_iff,
    NameSet.contains_iff_mem] at allowed
  rcases allowed with ((field | keyword) | ⟨place, listed⟩) | type
  · exact Or.inl (Or.inl field)
  · exact Or.inl (Or.inr (Or.inl keyword))
  · exact Or.inr ⟨listed, place.symm⟩
  · exact Or.inl (Or.inr (Or.inr type))

/-- No name of an operation may stand anywhere else, or names an operation of another kind. -/
structure OperationsApart (rules : Rules) : Prop where
  uncapitalised : ∀ kind, ∀ name ∈ rules.operations kind, name.head?.any Byte.isUpper = false
  unlisted : ∀ kind, ∀ name ∈ rules.operations kind, name ∉ rules.fields ∧ name ∉ rules.keywords
  disjoint : ∀ kind other, kind ≠ other → ∀ name ∈ rules.operations kind,
    name ∉ rules.operations other

theorem OperationsApart.not_allowsAnywhere (apart : OperationsApart rules) {name : Text}
    (listed : name ∈ rules.operations kind) : ¬ rules.AllowsAnywhere name := by
  rintro (field | keyword | type)
  · exact (apart.unlisted kind name listed).1 field
  · exact (apart.unlisted kind name listed).2 keyword
  · rw [Rules.allowsType, apart.uncapitalised kind name listed] at type
    cases type

theorem operationsApart_builtin : OperationsApart .builtin := by
  have every : ∀ kind, kind ∈ OperationKind.all := by
    intro kind
    cases kind <;> decide
  -- One statement, so that the sets are built once.
  have apart : ∀ kind ∈ OperationKind.all, ∀ name ∈ Rules.builtin.operations kind,
      name.head?.any Byte.isUpper = false ∧
      (name ∉ Rules.builtin.fields ∧ name ∉ Rules.builtin.keywords) ∧
      ∀ other ∈ OperationKind.all, kind ≠ other → name ∉ Rules.builtin.operations other := by
    decide +kernel
  constructor
  case uncapitalised => exact fun kind name listed => (apart kind (every kind) name listed).1
  case unlisted => exact fun kind name listed => (apart kind (every kind) name listed).2.1
  case disjoint =>
    intro kind other distinct name listed
    exact (apart kind (every kind) name listed).2.2 other (every other) distinct

/-- With the built-in rules, and wherever no name of an operation may stand anywhere else, an accepted
document names no operation of the other kind, and those of its own kind only at the top level of a
selection or as the operation's own name. -/
theorem operations_named_apart :
    OperationsApart .builtin ∧
      ∀ {rules : Rules} {document accepted : Text} {given : Option Variables},
        OperationsApart rules → (Gate.ofRules rules).judge document given = .ok accepted →
          ∃ tokens header, tokenize document = .ok tokens ∧ detectOperation tokens = .ok header ∧
            ∀ first token last, tokens = first ++ token :: last → token.kind = .name →
              (∀ other, other ≠ header.kind → token.text ∉ rules.operations other) ∧
              (token.text ∈ rules.operations header.kind → AtTopLevel first ∨ AtHeader first) := by
  refine ⟨operationsApart_builtin, fun {rules document accepted given} apart judged => ?_⟩
  obtain ⟨⟨tokens, header, passes⟩, -⟩ := judge_eq_ok_iff.mp judged
  refine ⟨tokens, header, passes.lexed, passes.operation, ?_⟩
  rintro first token last rfl named
  rcases allowed_of_checkNames passes.names named with anywhere | ⟨listed, place⟩
  · exact ⟨fun other _ listed => apart.not_allowsAnywhere listed anywhere,
      fun listed => absurd anywhere (apart.not_allowsAnywhere listed)⟩
  · exact ⟨fun other distinct => apart.disjoint header.kind other distinct.symm _ listed,
      fun _ => place⟩

/-- Rules with one operation of each kind. -/
def Rules.sample : Rules where
  queries := .ofList [ascii "getTests"]
  mutations := .ofList [ascii "updateTest"]
  fields := .ofList [ascii "key", ascii "total"]
  keywords := .ofList [ascii "query", ascii "mutation"]
  patterns := [ascii "__schema"]

/-- A mutation that has the name of the operation it invokes. -/
def namedMutation : Text := ascii "mutation updateTest \x7b updateTest \x7b key \x7d \x7d"

theorem operations_named_apart_namedMutation :
    ∃ tokens header, tokenize namedMutation = .ok tokens ∧ detectOperation tokens = .ok header ∧
      ∀ first token last, tokens = first ++ token :: last → token.kind = .name →
        (∀ other, other ≠ header.kind → token.text ∉ Rules.sample.operations other) ∧
        (token.text ∈ Rules.sample.operations header.kind → AtTopLevel first ∨ AtHeader first) := by
  have apart : OperationsApart .sample := by
    constructor
    case uncapitalised => rintro (_ | _) <;> decide
    case unlisted => rintro (_ | _) <;> decide
    case disjoint => rintro (_ | _) (_ | _) <;> decide
  have judged : (Gate.ofRules .sample).judge namedMutation none = .ok namedMutation.trim := by
    decide
  exact operations_named_apart.2 apart judged

end QueryGate.Graphql
