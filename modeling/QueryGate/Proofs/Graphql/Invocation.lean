import QueryGate.Proofs.Graphql.Grammar
import QueryGate.Proofs.Graphql.Margins

/-! # The operation a caller expects

A caller may name the operation it expects. The name has to be on the list for the document's kind and to
occur in the document, and it may occur as little more than a mention: what is true of every mention is
said here, by the division of the document into definitions.
-/

namespace QueryGate.Graphql

variable {gate : Gate} {rules : Rules} {document expected accepted : Text}
  {given : Option Variables} {tokens others first last : List Token} {token : Token} {header : Header}

/-! ## Judging for a caller -/

/-- The tokens of what a gate hands on are those of the document, further on, and it finds the same
operation in them. -/
theorem retokenize (lexed : tokenize document = .ok tokens) :
    ∃ others, tokenize document.trim = .ok others ∧
      tokens = others.map (Token.shift document.lead.length) ∧
      ∀ header, detectOperation others = .ok header ↔ detectOperation tokens = .ok header := by
  obtain ⟨trail, back, whole⟩ := document.exists_trail
  rw [whole] at lexed
  obtain ⟨others, again, rfl⟩ := tokenize_of_margins document.blank_lead back lexed
  refine ⟨others, again, rfl, fun header => ?_⟩
  rw [← detectOperation_outlines, ← outlines_shift document.lead.length, detectOperation_outlines]

theorem any_isName_shift (k : Nat) (tokens : List Token) (name : Text) :
    (tokens.map (Token.shift k)).any (·.isName name) = tokens.any (·.isName name) := by
  rw [List.any_map]
  rfl

theorem judgeFor_of_judge (judged : gate.judge document given = .ok accepted)
    (again : tokenize accepted = .ok others) (operation : detectOperation others = .ok header) :
    gate.judgeFor document expected given =
      if others.any (·.isName expected) = true ∧ expected ∈ gate.rules.operations header.kind then
        .ok accepted
      else .error (.operationMissing header.kind expected) := by
  have confirmed : (others.any (·.isName expected) &&
        (gate.rules.operations header.kind).contains expected) = true ↔
      others.any (·.isName expected) = true ∧ expected ∈ gate.rules.operations header.kind := by
    rw [Bool.and_eq_true, NameSet.contains_iff_mem]
  simp only [Gate.judgeFor, judged, again, operation, bind, Except.bind, confirmed]
  rfl

theorem judgeFor_eq_ok_iff :
    gate.judgeFor document expected given = .ok accepted ↔
      gate.judge document given = .ok accepted ∧
        ∃ tokens header, tokenize document = .ok tokens ∧ detectOperation tokens = .ok header ∧
          tokens.any (·.isName expected) = true ∧ expected ∈ gate.rules.operations header.kind := by
  constructor
  · intro accepts
    obtain ⟨handed, judged, -⟩ := bind_eq_ok_iff.mp accepts
    obtain ⟨⟨tokens, header, passes⟩, -, rfl⟩ := judge_eq_ok_iff.mp judged
    obtain ⟨others, again, rfl, same⟩ := retokenize passes.lexed
    rw [judgeFor_of_judge judged again ((same header).mpr passes.operation)] at accepts
    split at accepts
    · next confirmed =>
        obtain rfl := Except.ok.inj accepts
        rw [← any_isName_shift document.lead.length] at confirmed
        exact ⟨judged, _, header, passes.lexed, passes.operation, confirmed⟩
    · cases accepts
  · rintro ⟨judged, tokens, header, lexed, operation, confirmed⟩
    obtain ⟨others, again, rfl, same⟩ := retokenize lexed
    obtain ⟨-, -, rfl⟩ := judge_eq_ok_iff.mp judged
    rw [any_isName_shift] at confirmed
    rw [judgeFor_of_judge judged again ((same header).mpr operation), if_pos confirmed]

/-! ## Mentions -/

/-- Token number `i` stands in the block of the operation. -/
def Layout.InBlock (layout : Layout tokens header) (i : Nat) : Prop :=
  layout.before.length + layout.lead.length ≤ i ∧
    i < layout.before.length + layout.lead.length + layout.block.length

/-- What stands behind an alias. -/
def startsWithColon (last : List Token) : Bool := last.head?.any (·.isPunctuator Byte.colon)

/-- The name between the two parts of the document is a field that the operation itself selects. -/
structure Layout.Selects (layout : Layout tokens header) (first last : List Token) : Prop where
  inBlock : layout.InBlock first.length
  atTop : AtTopLevel first
  unaliased : startsWithColon last = false

/-- How an accepted document may mention a name that the caller expects. -/
inductive Layout.Mentions (layout : Layout tokens header) (rules : Rules) (name : Text)
    (first last : List Token) : Prop where
  | selected (selects : layout.Selects first last)
  /-- The operation has the name as its own. -/
  | title (place : AtHeader first)
  | alias (atTop : AtTopLevel first) (colon : startsWithColon last = true)
  /-- The name stands in a fragment, or in front of the operation's block. -/
  | outside (atTop : AtTopLevel first) (beyond : ¬ layout.InBlock first.length)
  | anywhere (allowed : rules.AllowsAnywhere name)

theorem Layout.mentions_of_checkNames (layout : Layout tokens header)
    (checked : checkNames rules header.kind tokens = .ok ())
    (split : tokens = first ++ token :: last) (named : token.isName expected = true) :
    layout.Mentions rules expected first last := by
  simp only [Token.isName, Bool.and_eq_true, beq_iff_eq] at named
  obtain ⟨named, rfl⟩ := named
  rw [split] at checked
  rcases allowed_of_checkNames checked named with anywhere | ⟨-, atTop | place⟩
  · exact .anywhere anywhere
  · by_cases inBlock : layout.InBlock first.length
    · cases colon : startsWithColon last with
      | true => exact .alias atTop colon
      | false => exact .selected ⟨inBlock, atTop, colon⟩
    · exact .outside atTop inBlock
  · exact .title place

/-- A document accepted for a caller mentions the expected name, which is on the list for the document's
kind. Each mention is a field that the operation itself selects, unless it is the operation's own name
or an alias, stands outside the operation's block, or is a name that may stand anywhere. -/
theorem expected_mentioned_of_judgeFor
    (judged : (Gate.ofRules rules).judgeFor document expected given = .ok accepted) :
    ∃ tokens header, tokenize document = .ok tokens ∧ detectOperation tokens = .ok header ∧
      expected ∈ rules.operations header.kind ∧ (∃ token ∈ tokens, token.isName expected = true) ∧
      Nonempty (Layout tokens header) ∧
      ∀ layout : Layout tokens header, ∀ first token last,
        tokens = first ++ token :: last → token.isName expected = true →
          layout.Mentions rules expected first last := by
  obtain ⟨accepts, tokens, header, lexed, operation, mentioned, listed⟩ :=
    judgeFor_eq_ok_iff.mp judged
  obtain ⟨⟨others, other, passes⟩, -⟩ := judge_eq_ok_iff.mp accepts
  obtain rfl := Except.ok.inj (lexed.symm.trans passes.lexed)
  obtain rfl := Except.ok.inj (operation.symm.trans passes.operation)
  refine ⟨tokens, header, lexed, operation, listed, List.any_eq_true.mp mentioned,
    exists_layout operation, ?_⟩
  intro layout first token last split named
  exact layout.mentions_of_checkNames passes.names split named

/-- A document that invokes the operation it mentions. -/
def invokedTests : Text := ascii "\x7bgetTests\x7btotal\x7d\x7d"

theorem expected_mentioned_of_judgeFor_invokedTests :
    (Gate.ofRules .sample).judgeFor invokedTests (ascii "getTests") none = .ok invokedTests ∧
      ∃ tokens header, tokenize invokedTests = .ok tokens ∧ detectOperation tokens = .ok header ∧
        ascii "getTests" ∈ Rules.sample.operations header.kind ∧
        (∃ token ∈ tokens, token.isName (ascii "getTests") = true) ∧
        Nonempty (Layout tokens header) ∧
        ∀ layout : Layout tokens header, ∀ first token last,
          tokens = first ++ token :: last → token.isName (ascii "getTests") = true →
            layout.Mentions .sample (ascii "getTests") first last := by
  have judged : (Gate.ofRules .sample).judgeFor invokedTests (ascii "getTests") none =
      .ok invokedTests := by decide
  exact ⟨judged, expected_mentioned_of_judgeFor judged⟩

/-! ## Mentions that select nothing -/

theorem AreFragments.eq_nil {fragments rest : List Token} (are : AreFragments fragments rest)
    (opens : (fragments ++ rest).head?.any (·.isPunctuator Byte.openBrace) = true) :
    fragments = [] := by
  cases are with
  | none => rfl
  | more starts =>
      simp [Token.isPunctuator_of_isName starts] at opens

theorem Announces.eq_nil {lead rest : List Token} (announces : Announces lead header)
    (opens : (lead ++ rest).head?.any (·.isPunctuator Byte.openBrace) = true) : lead = [] := by
  cases announces with
  | bare => rfl
  | keyword starts =>
      simp [Token.isPunctuator_of_isName starts] at opens

theorem Layout.lt_of_inBlock (layout : Layout tokens header) {i n : Nat}
    (opens : tokens.head?.any (·.isPunctuator Byte.openBrace) = true)
    (closed : openBraces (tokens.take n) = 0) (nonempty : n ≠ 0) (inBlock : layout.InBlock i) :
    i < n := by
  obtain ⟨before, lead, block, after, rfl, front, announces, blocked, back⟩ := layout
  obtain rfl := front.eq_nil opens
  rw [List.nil_append] at opens closed
  obtain rfl := announces.eq_nil opens
  rw [List.nil_append] at closed
  have within : i < block.length := by simpa using inBlock.2
  by_contra beyond
  rw [List.take_append_of_le_length (by omega)] at closed
  refine blocked.stays (block.take n) (List.take_prefix n block) ?_ ?_ closed
  · rw [ne_eq, List.take_eq_nil_iff, not_or]
    exact ⟨nonempty, List.ne_nil_of_length_pos (by omega)⟩
  · exact fun whole => by
      have lengths := congrArg List.length whole
      rw [List.length_take] at lengths
      omega

theorem mention_eq {i : Nat} (only : ∀ j < tokens.length, tokens[j]?.any (·.isName expected) = true → j = i)
    (split : tokens = first ++ token :: last) (named : token.isName expected = true) :
    first = tokens.take i ∧ last = tokens.drop (i + 1) := by
  subst split
  obtain rfl := only first.length (by simp) (by simp [named])
  simp

/-- However the document divides into definitions, its operation selects no field of this name. -/
def NeverSelects (document name : Text) : Prop :=
  ∀ tokens header, tokenize document = .ok tokens → ∀ layout : Layout tokens header,
    ∀ first token last, tokens = first ++ token :: last → token.isName name = true →
      ¬ layout.Selects first last

/-- The operation selects another field under the name. -/
def aliasedTests : Text := ascii "\x7bgetTests:total\x7d"

/-- The operation has the name as its own. -/
def titledTests : Text := ascii "query getTests\x7btotal\x7d"

/-- A fragment that the operation does not use has the name. -/
def fragmentTests : Text := ascii "\x7btotal\x7dfragment F on T\x7bgetTests\x7d"

theorem neverSelects_aliasedTests : NeverSelects aliasedTests (ascii "getTests") := by
  intro tokens header lexed layout first token last split named selects
  obtain rfl : (tokenize aliasedTests).toOption.getD [] = tokens := by rw [lexed]; rfl
  obtain ⟨-, rfl⟩ := mention_eq (i := 1) (by decide) split named
  exact absurd selects.unaliased (by decide)

theorem neverSelects_titledTests : NeverSelects titledTests (ascii "getTests") := by
  intro tokens header lexed layout first token last split named selects
  obtain rfl : (tokenize titledTests).toOption.getD [] = tokens := by rw [lexed]; rfl
  obtain ⟨rfl, -⟩ := mention_eq (i := 1) (by decide) split named
  exact absurd selects.atTop.depth (by decide)

theorem neverSelects_fragmentTests : NeverSelects fragmentTests (ascii "getTests") := by
  intro tokens header lexed layout first token last split named selects
  obtain rfl : (tokenize fragmentTests).toOption.getD [] = tokens := by rw [lexed]; rfl
  obtain ⟨rfl, -⟩ := mention_eq (i := 8) (by decide) split named
  have early := layout.lt_of_inBlock (n := 3) (by decide) (by decide) (by decide)
    selects.inBlock
  exact absurd early (by decide)

/-- Documents are accepted for a caller that do not select what the caller expects. -/
theorem expected_unselected :
    ((Gate.ofRules .builtin).judgeFor aliasedTests (ascii "getTests") none = .ok aliasedTests ∧
        NeverSelects aliasedTests (ascii "getTests")) ∧
      ((Gate.ofRules .builtin).judgeFor titledTests (ascii "getTests") none = .ok titledTests ∧
        NeverSelects titledTests (ascii "getTests")) ∧
      (Gate.ofRules .builtin).judgeFor fragmentTests (ascii "getTests") none = .ok fragmentTests ∧
        NeverSelects fragmentTests (ascii "getTests") := by
  have judged : ∀ document ∈ [aliasedTests, titledTests, fragmentTests],
      (Gate.ofRules .builtin).judgeFor document (ascii "getTests") none = .ok document := by
    decide +kernel
  have aliased := judged aliasedTests (by simp)
  have titled := judged titledTests (by simp)
  have fragment := judged fragmentTests (by simp)
  exact ⟨⟨aliased, neverSelects_aliasedTests⟩, ⟨titled, neverSelects_titledTests⟩,
    fragment, neverSelects_fragmentTests⟩

end QueryGate.Graphql
