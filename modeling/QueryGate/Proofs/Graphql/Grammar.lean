import QueryGate.Proofs.Graphql.Definitions

/-! # Which documents have an operation

The walk passes definition after definition until it ends: at the end of the tokens, or in front of what
starts no definition that may stand there. A document has an operation just if it is a row of fragments
with one operation among them, and every other document is refused for what stands where the walk ends.
-/

namespace QueryGate.Graphql

/-- Definitions lead from a place in front of some tokens to a place further on. Each place comes with the
operation in front of it, and there is only one. -/
inductive Passes : Option Header → List Token → Option Header → List Token → Prop where
  | here {found tokens} : Passes found tokens found tokens
  | fragment {found reached keyword lead block rest left}
      (starts : keyword.isName (ascii "fragment") = true) (leads : IsLead (keyword :: lead))
      (blocked : IsBlock block rest) (more : Passes found rest reached left) :
      Passes found (keyword :: (lead ++ (block ++ rest))) reached left
  | operation {reached lead block rest left header} (announces : Announces lead header)
      (blocked : IsBlock block rest) (more : Passes (some header) rest reached left) :
      Passes none (lead ++ (block ++ rest)) reached left

/-- Whether a token starts an operation: a brace, or `query` or `mutation`. -/
def Token.startsOperation (token : Token) : Bool :=
  token.isPunctuator Byte.openBrace || token.isName (ascii "query") || token.isName (ascii "mutation")

/-- Why the walk ends in front of the tokens, given the operation found before. -/
inductive Halts : Option Header → List Token → Except Rejection Header → Prop where
  | done {header} : Halts (some header) [] (.ok header)
  | missing : Halts none [] (.error .noOperation)
  | subscription {found token rest} (named : token.isName (ascii "subscription") = true) :
      Halts found (token :: rest) (.error .subscription)
  | secondBlock {header token rest} (opens : token.isPunctuator Byte.openBrace = true) :
      Halts (some header) (token :: rest) (.error (.secondOperation []))
  | secondKeyword {header token rest} {kind : OperationKind} (named : token.isName kind.name = true) :
      Halts (some header) (token :: rest) (.error (.secondOperation kind.name))
  | headlessFragment {found token rest} (named : token.isName (ascii "fragment") = true)
      (unopened : Unopened (token :: rest)) :
      Halts found (token :: rest) (.error .fragmentWithoutSelection)
  | headlessOperation {token rest} {kind : OperationKind} (named : token.isName kind.name = true)
      (unopened : Unopened (token :: rest)) :
      Halts none (token :: rest) (.error (.operationWithoutSelection kind.name))
  | stray {found token rest} (starts : token.startsOperation = false)
      (nameless : token.isName (ascii "fragment") = false)
      (supported : token.isName (ascii "subscription") = false) :
      Halts found (token :: rest) (.error (.strayToken token.text))

/-- In front of the tokens stands what is not supported: a subscription, or a second operation. -/
def Unsupported (found : Option Header) (tokens : List Token) : Prop :=
  tokens.head?.any (·.isName (ascii "subscription")) = true ∨
    found.isSome = true ∧ tokens.head?.any Token.startsOperation = true

section Walk

variable {tokens left : List Token} {found reached : Option Header} {outcome : Except Rejection Header}
  {rejection : Rejection} {header : Header} {token : Token}

theorem Token.text_of_isName {word : Text} (named : token.isName word = true) : token.text = word := by
  simp only [Token.isName, Bool.and_eq_true, beq_iff_eq] at named
  exact named.2

theorem Token.startsOperation_iff :
    token.startsOperation = true ↔
      token.isPunctuator Byte.openBrace = true ∨ ∃ kind : OperationKind, token.isName kind.name = true := by
  have keywords : (∃ kind : OperationKind, token.isName kind.name = true) ↔
      token.isName (ascii "query") = true ∨ token.isName (ascii "mutation") = true := by
    constructor
    · rintro ⟨kind, named⟩
      cases kind with
      | query => exact Or.inl named
      | mutation => exact Or.inr named
    · exact fun named => named.elim (⟨.query, ·⟩) (⟨.mutation, ·⟩)
  rw [keywords, Token.startsOperation, Bool.or_eq_true, Bool.or_eq_true, or_assoc]

/-- Over definitions the walk only remembers the operation. -/
theorem walk_of_passes (passes : Passes found tokens reached left) :
    walk .between found tokens = walk .between reached left := by
  induction passes with
  | here => rfl
  | fragment starts leads blocked _ ih =>
      rw [walk_fragment starts, walk_definition starts leads blocked]
      exact ih
  | operation announces blocked _ ih => rw [announces.walk_operation blocked, ih]

theorem walk_of_halts (halts : Halts found tokens outcome) : walk .between found tokens = outcome := by
  have words : ∀ kind : OperationKind, kind.name ≠ ascii "subscription" ∧
      kind.name ≠ ascii "fragment" := by
    rintro (_ | _) <;> decide
  cases halts with
  | done => rfl
  | missing => rfl
  | @subscription _ token _ named => simp [walk, token.isPunctuator_of_isName named, named]
  | secondBlock opens => simp [walk, opens]
  | @secondKeyword _ token _ kind named =>
      have supported := token.isName_eq_false named (words kind).1
      have operates := token.isName_eq_false named (words kind).2
      have keyword : token.isName (ascii "query") = true ∨ token.isName (ascii "mutation") = true := by
        cases kind with
        | query => exact Or.inl named
        | mutation => exact Or.inr named
      simp [walk, token.isPunctuator_of_isName named, supported, operates, keyword,
        Token.text_of_isName named]
  | headlessFragment named unopened =>
      rw [walk_fragment named, walk_headless named unopened]
      rfl
  | headlessOperation named unopened =>
      rw [walk_keyword named, walk_headless named unopened, Token.text_of_isName named]
      rfl
  | stray starts nameless supported =>
      simp only [Token.startsOperation, Bool.or_eq_false_iff] at starts
      simp [walk, starts, nameless, supported]

theorem exists_definition_or_halts (found : Option Header) (tokens : List Token) :
    (∃ outcome, Halts found tokens outcome) ∨
      ∃ later rest, rest.length < tokens.length ∧
        ∀ {reached left}, Passes later rest reached left → Passes found tokens reached left := by
  cases tokens with
  | nil =>
      cases found with
      | none => exact Or.inl ⟨_, .missing⟩
      | some header => exact Or.inl ⟨_, .done⟩
  | cons token rest =>
      have shorter : ∀ (lead block others : List Token),
          others.length < (token :: (lead ++ (block ++ others))).length := by
        intro lead block others
        simp only [List.length_cons, List.length_append]
        omega
      cases starts : token.startsOperation with
      | true =>
          rcases Token.startsOperation_iff.mp starts with opens | ⟨kind, named⟩
          · cases found with
            | some header => exact Or.inl ⟨_, .secondBlock opens⟩
            | none =>
                obtain ⟨inner, others, rfl, blocked⟩ := exists_block_of_opening opens rest
                exact Or.inr ⟨_, others, shorter [] inner others, .operation .bare blocked⟩
          · cases found with
            | some header => exact Or.inl ⟨_, .secondKeyword named⟩
            | none =>
                rcases exists_definition named rest with
                  ⟨lead, block, others, rfl, leads, blocked⟩ | never
                · exact Or.inr ⟨_, others, shorter lead block others,
                    .operation (.keyword named leads) blocked⟩
                · exact Or.inl ⟨_, .headlessOperation named never⟩
      | false =>
          cases named : token.isName (ascii "fragment") with
          | true =>
              rcases exists_definition named rest with
                ⟨lead, block, others, rfl, leads, blocked⟩ | never
              · exact Or.inr ⟨found, others, shorter lead block others, .fragment named leads blocked⟩
              · exact Or.inl ⟨_, .headlessFragment named never⟩
          | false =>
              cases supported : token.isName (ascii "subscription") with
              | true => exact Or.inl ⟨_, .subscription supported⟩
              | false => exact Or.inl ⟨_, .stray starts named supported⟩

/-- The walk comes to an end in front of some place of every document. -/
theorem exists_halts (found : Option Header) (tokens : List Token) :
    ∃ reached left outcome, Passes found tokens reached left ∧ Halts reached left outcome := by
  induction size : tokens.length using Nat.strongRecOn generalizing found tokens with
  | ind size ih =>
      subst size
      rcases exists_definition_or_halts found tokens with ⟨outcome, halts⟩ | ⟨later, rest, shorter, more⟩
      · exact ⟨found, tokens, outcome, .here, halts⟩
      · obtain ⟨reached, left, outcome, passes, halts⟩ := ih rest.length shorter later rest rfl
        exact ⟨reached, left, outcome, more passes, halts⟩

theorem detectOperation_eq_iff :
    detectOperation tokens = outcome ↔
      ∃ found left, Passes none tokens found left ∧ Halts found left outcome := by
  have ends : ∀ {found left outcome}, Passes none tokens found left → Halts found left outcome →
      detectOperation tokens = outcome :=
    fun passes halts => (walk_of_passes passes).trans (walk_of_halts halts)
  constructor
  · rintro rfl
    obtain ⟨found, left, outcome, passes, halts⟩ := exists_halts none tokens
    rw [ends passes halts]
    exact ⟨found, left, passes, halts⟩
  · rintro ⟨found, left, passes, halts⟩
    exact ends passes halts

/-! ## Documents with an operation -/

theorem Passes.areFragments (passes : Passes found tokens reached left) {known : Header}
    (after : found = some known) :
    reached = some known ∧ ∃ fragments, tokens = fragments ++ left ∧ AreFragments fragments left := by
  induction passes with
  | here => exact ⟨after, [], rfl, .none⟩
  | @fragment _ _ keyword lead block _ left starts leads blocked _ ih =>
      obtain ⟨same, fragments, rfl, are⟩ := ih after
      exact ⟨same, keyword :: (lead ++ (block ++ fragments)), by simp, .more starts leads blocked are⟩
  | operation => cases after

theorem Passes.layout (passes : Passes found tokens reached left) (before : found = none)
    (after : reached = some header) (ends : left = []) : Nonempty (Layout tokens header) := by
  induction passes with
  | here =>
      rw [before] at after
      cases after
  | @fragment _ _ keyword lead block rest _ starts leads blocked _ ih =>
      obtain ⟨layout⟩ := ih before after ends
      have front : AreFragments (keyword :: (lead ++ (block ++ layout.before)))
          (layout.lead ++ (layout.block ++ layout.after)) :=
        .more starts leads (layout.whole ▸ blocked) layout.front
      refine ⟨_, layout.lead, layout.block, layout.after, ?_, front, layout.announces,
        layout.blocked, layout.back⟩
      simp [← layout.whole]
  | @operation _ lead block rest left known announces blocked more _ =>
      obtain ⟨same, fragments, rfl, are⟩ := more.areFragments rfl
      obtain rfl := Option.some.inj (after.symm.trans same)
      subst ends
      rw [List.append_nil] at blocked ⊢
      exact ⟨[], lead, block, fragments, rfl, .none, announces, blocked, are⟩

theorem exists_layout (read : detectOperation tokens = .ok header) :
    Nonempty (Layout tokens header) := by
  obtain ⟨found, left, passes, halts⟩ := detectOperation_eq_iff.mp read
  cases halts with
  | done => exact passes.layout rfl rfl rfl

theorem detectOperation_eq_ok_iff :
    detectOperation tokens = .ok header ↔ Nonempty (Layout tokens header) := by
  refine ⟨exists_layout, fun ⟨layout⟩ => ?_⟩
  have behind : walk .between (some header) (layout.after ++ []) = .ok header :=
    walk_fragments layout.back
  rw [List.append_nil] at behind
  rw [detectOperation, layout.whole, walk_fragments layout.front,
    layout.announces.walk_operation layout.blocked, behind]

/-! ## Documents without an operation -/

theorem Halts.code_eq (halts : Halts found tokens (.error rejection)) :
    rejection.code = .unsupportedOperation ∧ Unsupported found tokens ∨
      rejection.code = .unknownOperation ∧ ¬ Unsupported found tokens := by
  have unlike : ∀ {token : Token} {word : Text}, token.isName word = true →
      word ≠ ascii "subscription" → ¬ token.isName (ascii "subscription") = true := by
    intro token word named other
    simp [token.isName_eq_false named other]
  cases halts with
  | missing => exact Or.inr ⟨rfl, by simp [Unsupported]⟩
  | subscription named => exact Or.inl ⟨rfl, Or.inl named⟩
  | secondBlock opens =>
      exact Or.inl ⟨rfl, Or.inr ⟨rfl, Token.startsOperation_iff.mpr (Or.inl opens)⟩⟩
  | secondKeyword named =>
      exact Or.inl ⟨rfl, Or.inr ⟨rfl, Token.startsOperation_iff.mpr (Or.inr ⟨_, named⟩)⟩⟩
  | @headlessFragment _ token _ named =>
      have starts : token.startsOperation = false := by
        simp [Token.startsOperation, token.isPunctuator_of_isName named,
          token.isName_eq_false named (by decide : _ ≠ ascii "query"),
          token.isName_eq_false named (by decide : _ ≠ ascii "mutation")]
      exact Or.inr ⟨rfl, by simpa [Unsupported, starts] using unlike named (by decide)⟩
  | @headlessOperation token _ kind named =>
      have other : kind.name ≠ ascii "subscription" := by
        cases kind <;> decide
      exact Or.inr ⟨rfl, by simpa [Unsupported] using unlike named other⟩
  | stray starts _ supported => exact Or.inr ⟨rfl, by simp [Unsupported, starts, supported]⟩

/-- The operation of a document is found just if the document is a row of fragments with one operation
among them. Every walk over definitions ends, and where it does stands the reason: no further token when
an operation was passed, and otherwise what is not supported or what starts no definition. -/
theorem detectOperation_exact (tokens : List Token) :
    (∀ header, detectOperation tokens = .ok header ↔ Nonempty (Layout tokens header)) ∧
      (∃ found left, Passes none tokens found left ∧ Halts found left (detectOperation tokens)) ∧
      ∀ found left outcome, Passes none tokens found left → Halts found left outcome →
        detectOperation tokens = outcome ∧
          ∀ rejection, outcome = .error rejection →
            (Unsupported found left → rejection.code = .unsupportedOperation) ∧
            (¬ Unsupported found left → rejection.code = .unknownOperation) := by
  refine ⟨fun header => detectOperation_eq_ok_iff, detectOperation_eq_iff.mp rfl, ?_⟩
  intro found left outcome passes halts
  refine ⟨detectOperation_eq_iff.mpr ⟨found, left, passes, halts⟩, ?_⟩
  rintro rejection rfl
  rcases halts.code_eq with ⟨code, unsupported⟩ | ⟨code, supported⟩
  · exact ⟨fun _ => code, fun other => absurd unsupported other⟩
  · exact ⟨fun other => absurd other supported, fun _ => code⟩

/-- A document with an operation, whose arguments have braces in them, and the beginning of a second one. -/
def twiceAsked : Text := ascii "query Tests($a:In=\x7bb:1\x7d)\x7btotal\x7d\x7btotal\x7d"

/-- The tokens of the document from number `start` to in front of number `stop`. -/
def twiceAskedTokens (start stop : Nat) : List Token :=
  (((tokenize twiceAsked).toOption.getD []).take stop).drop start

theorem detectOperation_exact_twiceAsked :
    Passes none (twiceAskedTokens 0 19) (some ⟨.query, ascii "Tests"⟩) (twiceAskedTokens 16 19) ∧
      Halts (some ⟨.query, ascii "Tests"⟩) (twiceAskedTokens 16 19) (.error (.secondOperation [])) ∧
      Unsupported (some ⟨.query, ascii "Tests"⟩) (twiceAskedTokens 16 19) ∧
      detectOperation (twiceAskedTokens 0 19) = .error (.secondOperation []) ∧
      (Rejection.secondOperation []).code = .unsupportedOperation := by
  have announces : Announces (twiceAskedTokens 0 13) ⟨.query, ascii "Tests"⟩ :=
    .keyword (by decide) ⟨unopened_iff.mpr (by decide), by decide⟩
  have blocked : IsBlock (twiceAskedTokens 13 16) (twiceAskedTokens 16 19) :=
    ⟨by decide, staysOpen_iff.mpr (by decide), by decide⟩
  have passes : Passes none (twiceAskedTokens 0 19) (some ⟨.query, ascii "Tests"⟩)
      (twiceAskedTokens 16 19) := .operation announces blocked .here
  have halts : Halts (some ⟨.query, ascii "Tests"⟩) (twiceAskedTokens 16 19)
      (.error (.secondOperation [])) := .secondBlock (by decide)
  have second : Unsupported (some ⟨.query, ascii "Tests"⟩) (twiceAskedTokens 16 19) :=
    Or.inr ⟨rfl, by decide⟩
  obtain ⟨detected, codes⟩ := (detectOperation_exact (twiceAskedTokens 0 19)).2.2 _ _ _ passes halts
  exact ⟨passes, halts, second, detected, (codes _ rfl).1 second⟩

end Walk

end QueryGate.Graphql
