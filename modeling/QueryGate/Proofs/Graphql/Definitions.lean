import QueryGate.Graphql.Operation
import QueryGate.Proofs.Graphql.Places

/-! # The definitions of a document

The walk that finds the operation knows a stage and a counter. Here is what it reads: fragments, one
operation, and fragments again, each with its block at the end. A block takes every brace in it for
its own, inside parentheses or not; what leads up to it may have braces inside parentheses.
-/

namespace QueryGate.Graphql

/-- How many braces are open behind the tokens, those inside parentheses too. -/
def openBraces (tokens : List Token) : Nat := openBehind Byte.openBrace Byte.closeBrace tokens

/-- A brace is open behind every beginning of the tokens but the whole. -/
def StaysOpen (tokens : List Token) : Prop :=
  ∀ first, first <+: tokens → first ≠ [] → first ≠ tokens → openBraces first ≠ 0

/-- No brace opens outside parentheses. -/
def Unopened (tokens : List Token) : Prop :=
  ∀ first token, first ++ [token] <+: tokens → token.isPunctuator Byte.openBrace = true →
    openParens first ≠ 0

/-- What leads up to a block. -/
structure IsLead (lead : List Token) : Prop where
  unopened : Unopened lead
  outside : openParens lead = 0

/-- A block goes through the brace that closes its first one, or to the end of the document. -/
structure IsBlock (block rest : List Token) : Prop where
  opens : block.head?.any (·.isPunctuator Byte.openBrace) = true
  stays : StaysOpen block
  ends : openBraces block = 0 ∨ rest = []

/-- The tokens are fragments when they are followed by the rest. -/
inductive AreFragments : List Token → List Token → Prop where
  | none {rest} : AreFragments [] rest
  | more {keyword lead block others rest} (starts : keyword.isName (ascii "fragment") = true)
      (leads : IsLead (keyword :: lead)) (blocked : IsBlock block (others ++ rest))
      (after : AreFragments others rest) : AreFragments (keyword :: (lead ++ (block ++ others))) rest

/-- What leads up to the block of an operation with the header. -/
inductive Announces : List Token → Header → Prop where
  | bare : Announces [] ⟨.query, []⟩
  | keyword {keyword lead} {kind : OperationKind} (starts : keyword.isName kind.name = true)
      (leads : IsLead (keyword :: lead)) : Announces (keyword :: lead) ⟨kind, nameAfter lead⟩

/-- The tokens of a document, divided into fragments, the operation and fragments. -/
structure Layout (tokens : List Token) (header : Header) where
  before : List Token
  lead : List Token
  block : List Token
  after : List Token
  whole : tokens = before ++ (lead ++ (block ++ after))
  front : AreFragments before (lead ++ (block ++ after))
  announces : Announces lead header
  blocked : IsBlock block after
  back : AreFragments after []

section Walks

variable {tokens front inner lead rest : List Token} {token opening : Token}
  {definition : Definition} {found : Option Header} {outer : Nat}

theorem openBraces_concat (tokens : List Token) (token : Token) :
    openBraces (tokens ++ [token]) =
      if token.isPunctuator Byte.openBrace then openBraces tokens + 1
      else if token.isPunctuator Byte.closeBrace then openBraces tokens - 1
      else openBraces tokens := openBehind_concat

theorem StaysOpen.concat (stays : StaysOpen tokens) (opened : openBraces tokens ≠ 0) :
    StaysOpen (tokens ++ [token]) := by
  intro first starts nonempty proper
  rcases List.prefix_concat_iff.mp starts with whole | earlier
  · exact absurd whole proper
  · by_cases whole : first = tokens
    · exact whole ▸ opened
    · exact stays first earlier nonempty whole

theorem Unopened.concat (unopened : Unopened tokens)
    (inside : token.isPunctuator Byte.openBrace = true → openParens tokens ≠ 0) :
    Unopened (tokens ++ [token]) := by
  intro first last starts opens
  rcases List.prefix_concat_iff.mp starts with whole | earlier
  · obtain ⟨rfl, same⟩ := List.append_inj' whole rfl
    obtain rfl := List.singleton_inj.mp same
    exact inside opens
  · exact unopened first last earlier opens

/-- Whether a block stays open is seen token by token. -/
theorem staysOpen_iff :
    StaysOpen tokens ↔ ∀ i < tokens.length, i ≠ 0 → openBraces (tokens.take i) ≠ 0 := by
  constructor
  · intro stays i inside later
    have length : (tokens.take i).length = i := List.length_take_of_le (Nat.le_of_lt inside)
    refine stays (tokens.take i) (List.take_prefix i tokens) ?_ ?_
    · rintro empty
      rw [empty] at length
      exact later length.symm
    · rintro whole
      rw [whole] at length
      exact Nat.ne_of_gt inside length
  · rintro seen first ⟨rest, rfl⟩ nonempty proper
    have more : rest ≠ [] := fun empty => proper (by rw [empty, List.append_nil])
    have := seen first.length (by simpa using List.length_pos_of_ne_nil more) (by simpa using nonempty)
    rwa [List.take_left] at this

theorem unopened_iff :
    Unopened tokens ↔ ∀ i < tokens.length, tokens[i]?.any (·.isPunctuator Byte.openBrace) = true →
      openParens (tokens.take i) ≠ 0 := by
  constructor
  · intro unopened i inside opens
    rw [List.getElem?_eq_getElem inside, Option.any_some] at opens
    refine unopened (tokens.take i) tokens[i] ?_ opens
    rw [List.take_append_getElem inside]
    exact List.take_prefix _ _
  · rintro seen first token ⟨rest, rfl⟩ opens
    simpa using seen first.length (by simp) (by simpa using opens)

/-! ## Over a block and what leads up to it -/

theorem exists_block (opened : openBraces front ≠ 0) (stays : StaysOpen front) (tokens : List Token) :
    ∃ inner rest, tokens = inner ++ rest ∧ StaysOpen (front ++ inner) ∧
      (openBraces (front ++ inner) = 0 ∨ rest = []) := by
  induction tokens generalizing front with
  | nil => exact ⟨[], [], rfl, by rwa [List.append_nil], Or.inr rfl⟩
  | cons token rest ih =>
      have longer : StaysOpen (front ++ [token]) := stays.concat opened
      by_cases closed : openBraces (front ++ [token]) = 0
      · exact ⟨[token], rest, rfl, longer, Or.inl closed⟩
      · obtain ⟨inner, others, rfl, stays, ends⟩ := ih closed longer
        rw [List.append_assoc] at stays ends
        exact ⟨token :: inner, others, rfl, stays, ends⟩

theorem exists_opening (unopened : Unopened front) (tokens : List Token) :
    (∃ lead opening rest, tokens = lead ++ opening :: rest ∧ IsLead (front ++ lead) ∧
        opening.isPunctuator Byte.openBrace = true) ∨
      Unopened (front ++ tokens) := by
  induction tokens generalizing front with
  | nil => exact Or.inr (by rwa [List.append_nil])
  | cons token rest ih =>
      by_cases enters : token.isPunctuator Byte.openBrace = true ∧ openParens front = 0
      · refine Or.inl ⟨[], token, rest, rfl, ?_, enters.1⟩
        rw [List.append_nil]
        exact ⟨unopened, enters.2⟩
      · have longer : Unopened (front ++ [token]) :=
          unopened.concat fun opens outside => enters ⟨opens, outside⟩
        rcases ih longer with ⟨lead, opening, others, rfl, leads, opens⟩ | never
        · rw [List.append_assoc] at leads
          exact Or.inl ⟨token :: lead, opening, others, rfl, leads, opens⟩
        · rw [List.append_assoc] at never
          exact Or.inr never

/-- Over the rest of a block the walk gets to where the block ends. -/
theorem walk_block (depth : openBraces front = outer + 1) (stays : StaysOpen (front ++ inner))
    (ends : openBraces (front ++ inner) = 0 ∨ rest = []) :
    walk (.block outer) found (inner ++ rest) = walk .between found rest := by
  induction inner generalizing front outer with
  | nil =>
      rw [List.append_nil, depth] at ends
      rcases ends with zero | rfl
      · cases zero
      · rfl
  | cons token inner ih =>
      rw [List.append_cons] at stays ends
      have counted := openBraces_concat front token
      rw [List.cons_append]
      simp only [walk]
      split
      · next opens =>
          rw [if_pos opens, depth] at counted
          exact ih counted stays ends
      · next other =>
          rw [if_neg other] at counted
          split
          · next closes =>
              rw [if_pos closes, depth, Nat.add_sub_cancel] at counted
              cases outer with
              | succ outer => exact ih counted stays ends
              | zero =>
                  -- The block ends here, so nothing of it can follow.
                  cases inner with
                  | nil => rfl
                  | cons later inner =>
                      refine absurd counted (stays _ (List.prefix_append ..) (by simp) ?_)
                      simp
          · next plain =>
              rw [if_neg plain, depth] at counted
              exact ih counted stays ends

/-- While no brace opens outside parentheses, the walk only counts parentheses. -/
theorem walk_unopened (unopened : Unopened (front ++ lead)) :
    walk (.heading definition (openParens front)) found (lead ++ rest) =
      walk (.heading definition (openParens (front ++ lead))) found rest := by
  induction lead generalizing front with
  | nil => rw [List.append_nil, List.nil_append]
  | cons token lead ih =>
      have inside : token.isPunctuator Byte.openBrace = true → openParens front ≠ 0 :=
        unopened front token (by simp)
      rw [List.append_cons] at unopened ⊢
      rw [List.cons_append, ← ih unopened, openParens_concat, walk]
      split
      · rfl
      · split
        · rfl
        · rw [if_neg fun enters => inside enters.1 enters.2]

theorem walk_lead (leads : IsLead (front ++ lead))
    (opens : opening.isPunctuator Byte.openBrace = true) :
    walk (.heading definition (openParens front)) found (lead ++ opening :: rest) =
      walk (.block 0) (definition.found found) rest := by
  have unparen := opening.isPunctuator_eq_false opens (by decide : Byte.openBrace ≠ Byte.openParen)
  have unclosed := opening.isPunctuator_eq_false opens (by decide : Byte.openBrace ≠ Byte.closeParen)
  rw [walk_unopened leads.unopened, leads.outside]
  simp [walk, unparen, unclosed, opens]

end Walks

/-! ## Over a definition -/

section Definitions

variable {lead block inner rest : List Token} {token opening keyword : Token} {word : Text}
  {definition : Definition} {found : Option Header} {header : Header}

theorem Token.isPunctuator_of_isName (named : token.isName word = true) (b : UInt8) :
    token.isPunctuator b = false := by
  simp only [Token.isName, Bool.and_eq_true, beq_iff_eq] at named
  simp [Token.isPunctuator, named.1]

theorem Token.isName_eq_false {other : Text} (named : token.isName word = true)
    (unlike : word ≠ other) : token.isName other = false := by
  simp only [Token.isName, Bool.and_eq_true, beq_iff_eq] at named
  simp [Token.isName, named.2, unlike]

theorem openParens_keyword (named : token.isName word = true) : openParens [token] = 0 := by
  simp [openParens, openBehind, token.isPunctuator_of_isName named]

theorem unopened_keyword (named : token.isName word = true) : Unopened [token] := by
  have nothing : Unopened [] := fun first last starts => by simp at starts
  refine nothing.concat fun opens => ?_
  rw [token.isPunctuator_of_isName named] at opens
  cases opens

theorem openBraces_opening (opens : token.isPunctuator Byte.openBrace = true) :
    openBraces [token] = 1 := by
  simp [openBraces, openBehind, opens]

theorem staysOpen_singleton (token : Token) : StaysOpen [token] := by
  intro first starts nonempty proper
  cases first with
  | nil => exact absurd rfl nonempty
  | cons other first =>
      obtain ⟨rfl, nothing⟩ := List.cons_prefix_cons.mp starts
      exact absurd (by rw [List.prefix_nil.mp nothing]) proper

theorem exists_block_of_opening (opens : opening.isPunctuator Byte.openBrace = true)
    (tokens : List Token) : ∃ inner rest, tokens = inner ++ rest ∧ IsBlock (opening :: inner) rest := by
  have opened : openBraces [opening] ≠ 0 := by
    rw [openBraces_opening opens]
    exact Nat.one_ne_zero
  obtain ⟨inner, rest, rfl, stays, ends⟩ := exists_block opened (staysOpen_singleton opening) tokens
  exact ⟨inner, rest, rfl, by simpa using opens, stays, ends⟩

/-- Behind a keyword a block is led up to, or no brace opens outside parentheses. -/
theorem exists_definition (named : keyword.isName word = true) (tokens : List Token) :
    (∃ lead block rest, tokens = lead ++ (block ++ rest) ∧ IsLead (keyword :: lead) ∧
        IsBlock block rest) ∨
      Unopened (keyword :: tokens) := by
  rcases exists_opening (unopened_keyword named) tokens with
    ⟨lead, opening, rest, rfl, leads, opens⟩ | never
  · obtain ⟨inner, rest, rfl, blocked⟩ := exists_block_of_opening opens rest
    exact Or.inl ⟨lead, opening :: inner, rest, rfl, leads, blocked⟩
  · exact Or.inr never

theorem IsBlock.exists_opening (blocked : IsBlock block rest) :
    ∃ opening inner, block = opening :: inner ∧
      opening.isPunctuator Byte.openBrace = true := by
  have opens := blocked.opens
  cases block with
  | nil => cases opens
  | cons opening inner => exact ⟨opening, inner, rfl, by simpa using opens⟩

theorem IsBlock.walk_inner (blocked : IsBlock (opening :: inner) rest) :
    walk (.block 0) found (inner ++ rest) = walk .between found rest := by
  have opens : opening.isPunctuator Byte.openBrace = true := by simpa using blocked.opens
  exact walk_block (openBraces_opening opens) blocked.stays blocked.ends

theorem walk_definition (named : keyword.isName word = true) (leads : IsLead (keyword :: lead))
    (blocked : IsBlock block rest) :
    walk (.heading definition 0) found (lead ++ (block ++ rest)) =
      walk .between (definition.found found) rest := by
  obtain ⟨opening, inner, rfl, opens⟩ := blocked.exists_opening
  have entered := @walk_lead [keyword] lead (inner ++ rest) opening definition found leads opens
  rw [openParens_keyword named] at entered
  rw [List.cons_append, entered, blocked.walk_inner]

theorem walk_headless (named : keyword.isName word = true) (unopened : Unopened (keyword :: rest)) :
    walk (.heading definition 0) found rest = .error definition.missingSelection := by
  have counted := @walk_unopened [keyword] rest [] definition found unopened
  rw [openParens_keyword named, List.append_nil] at counted
  rw [counted, walk]

theorem nameAfter_lead (blocked : IsBlock block rest) :
    nameAfter (lead ++ (block ++ rest)) = nameAfter lead := by
  cases lead with
  | cons => rfl
  | nil =>
      obtain ⟨opening, inner, rfl, opens⟩ := blocked.exists_opening
      simp only [Token.isPunctuator, Bool.and_eq_true, beq_iff_eq] at opens
      simp [nameAfter, opens.1]

/-! ## Over a document -/

theorem walk_fragment (named : keyword.isName (ascii "fragment") = true) :
    walk .between found (keyword :: rest) = walk (.heading .fragment 0) found rest := by
  have unlike := keyword.isName_eq_false named (by decide : _ ≠ ascii "subscription")
  simp [walk, keyword.isPunctuator_of_isName named, unlike, named]

theorem walk_keyword {kind : OperationKind} (named : keyword.isName kind.name = true) :
    walk .between none (keyword :: rest) =
      walk (.heading (.operation ⟨kind, nameAfter rest⟩ keyword.text) 0) none rest := by
  have words : ∀ kind : OperationKind, kind.name ≠ ascii "subscription" ∧
      kind.name ≠ ascii "fragment" := by
    rintro (_ | _) <;> decide
  have plain := keyword.isPunctuator_of_isName named Byte.openBrace
  have supported := keyword.isName_eq_false named (words kind).1
  have operates := keyword.isName_eq_false named (words kind).2
  cases kind with
  | mutation =>
      have mutates : keyword.isName (ascii "mutation") = true := named
      simp [walk, plain, supported, operates, mutates]
  | query =>
      have queries : keyword.isName (ascii "query") = true := named
      have unlike := keyword.isName_eq_false queries (by decide : _ ≠ ascii "mutation")
      simp [walk, plain, supported, operates, queries, unlike]

theorem walk_fragments {fragments : List Token} (are : AreFragments fragments rest) :
    walk .between found (fragments ++ rest) = walk .between found rest := by
  induction are with
  | none => rfl
  | more starts leads blocked _ ih =>
      rw [List.cons_append, List.append_assoc, List.append_assoc, walk_fragment starts,
        walk_definition starts leads blocked]
      exact ih

theorem Announces.walk_operation {after : List Token} (announces : Announces lead header)
    (blocked : IsBlock block after) :
    walk .between none (lead ++ (block ++ after)) = walk .between (some header) after := by
  cases announces with
  | bare =>
      obtain ⟨opening, inner, rfl, opens⟩ := blocked.exists_opening
      rw [← blocked.walk_inner]
      simp [walk, opens]
  | keyword starts leads =>
      rw [List.cons_append, walk_keyword starts, walk_definition starts leads blocked,
        nameAfter_lead blocked]
      rfl

end Definitions

end QueryGate.Graphql
