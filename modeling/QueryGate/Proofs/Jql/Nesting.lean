import QueryGate.Proofs.Jql.Gate
import QueryGate.Proofs.Jql.Lexing
import QueryGate.Proofs.Nesting.Drift

/-! # Parentheses among the tokens of a query

The check of nesting reads bytes and the other checks read tokens. Both have to know where a
literal starts: the check of nesting asks how many backslashes stand in front of a quote, and the
tokens know no backslash outside literals. So the two agree on a query exactly as long as no
literal opens with a quote that backslashes escape, and what the check of nesting guarantees of
the bytes it guarantees of the tokens wherever the two agree on the parentheses.
-/

namespace QueryGate.Jql

/-- The quotes that open a literal. -/
def quotes : Text := [Byte.doubleQuote, Byte.singleQuote]

theorem mem_quotes_iff {b : UInt8} :
    b ∈ quotes ↔ b = Byte.doubleQuote ∨ b = Byte.singleQuote := by
  simp [quotes]

theorem not_mem_quotes_of_isBlank {b : UInt8} (blank : Byte.isBlank b = true) : b ∉ quotes := by
  intro listed
  rcases mem_quotes_iff.mp listed with rfl | rfl <;> cases blank

theorem Lexeme.not_mem_quotes {keywords : NameSet} {c : UInt8} {rest : Text} {kind : TokenKind} {n : Nat}
    (lexeme : Lexeme keywords c rest kind n) (unquoted : kind ≠ .string) :
    ∀ b ∈ c :: rest.take n, b ∉ quotes := by
  intro b member listed
  have outer : Lexeme.isInner b = false := by
    rcases mem_quotes_iff.mp listed with rfl | rfl <;> rfl
  rcases lexeme.inner_or_single unquoted with inner | ⟨rfl, -, double, single⟩
  · exact absurd (inner b member) (by simp [outer])
  · obtain rfl : b = c := by simpa using member
    exact (mem_quotes_iff.mp listed).elim double single

/-- Byte number `i` of the query lies in a literal. -/
def InLiteral (tokens : List Token) (i : Nat) : Prop :=
  ∃ token ∈ tokens, token.kind = .string ∧ token.Covers i

instance (token : Token) (i : Nat) : Decidable (token.Covers i) :=
  inferInstanceAs (Decidable (_ ∧ _))

instance (tokens : List Token) (i : Nat) : Decidable (InLiteral tokens i) :=
  inferInstanceAs (Decidable (∃ token ∈ tokens, _ ∧ _))

/-- Whether the tokens have byte number `i` outside literals. -/
def outsideLiterals (tokens : List Token) (i : Nat) : Bool := !decide (InLiteral tokens i)

/-- No literal of the query opens with an escaped quote. -/
def OpensUnescaped (query : Text) (tokens : List Token) : Prop :=
  ∀ token ∈ tokens, token.kind = .string →
    Nesting.escapedAfter (query.take token.offset) = false

/-- Whether a byte is a parenthesis. -/
def isParenthesis (b : UInt8) : Bool := b == Byte.openParen || b == Byte.closeParen

theorem isParenthesis_iff {b : UInt8} :
    isParenthesis b = true ↔ b = Byte.openParen ∨ b = Byte.closeParen := by
  simp [isParenthesis]

/-- The parenthesis that a token of a kind is. -/
def TokenKind.parenthesis? : TokenKind → Option UInt8
  | .opening => some Byte.openParen
  | .closing => some Byte.closeParen
  | _ => none

/-- The parenthesis that a token is, with its place. -/
def Token.mark? (token : Token) : Option (Nat × UInt8) :=
  token.kind.parenthesis?.map (token.offset, ·)

theorem inLiteral_cons {token : Token} {tokens : List Token} {i : Nat}
    (elsewhere : token.kind = .string → ¬ token.Covers i) :
    InLiteral (token :: tokens) i ↔ InLiteral tokens i := by
  constructor
  · rintro ⟨other, member, literal, covers⟩
    rcases List.mem_cons.mp member with rfl | later
    · exact absurd covers (elsewhere literal)
    · exact ⟨other, later, literal, covers⟩
  · rintro ⟨other, member, described⟩
    exact ⟨other, List.mem_cons_of_mem _ member, described⟩

theorem opensUnescaped_cons {query : Text} {token : Token} {tokens : List Token}
    (unescaped : token.kind = .string →
      Nesting.escapedAfter (query.take token.offset) = false) :
    OpensUnescaped query (token :: tokens) ↔ OpensUnescaped query tokens := by
  unfold OpensUnescaped
  rw [List.forall_mem_cons]
  exact and_iff_right unescaped

theorem Lexed.not_inLiteral {keywords : NameSet} {offset : Nat} {t : Text} {tokens : List Token}
    (lexed : Lexed keywords offset t tokens) {i : Nat} (before : i < offset) :
    ¬ InLiteral tokens i := by
  rintro ⟨token, member, -, starts, -⟩
  have later := lexed.offset_le token member
  omega

instance (query : Text) (tokens : List Token) : Decidable (OpensUnescaped query tokens) :=
  inferInstanceAs (Decidable (∀ token ∈ tokens, _ → _))

/-! ## Where the two readings agree -/

open Nesting Cursor

/-- Past the beginning `before` of a query, the division of the rest, started outside regions, takes
for code what lies outside literals. -/
def Agrees (before rest : Text) (tokens : List Token) : Prop :=
  ∀ i < rest.length,
    takes quotes ⟨none, escapedAfter before⟩ rest i = true ↔ ¬ InLiteral tokens (before.length + i)

section Pieces

variable {before piece rest : Text} {tokens : List Token}

theorem agrees_plain (plain : ∀ b ∈ piece, b ∉ quotes)
    (visible : ∀ i < piece.length, ¬ InLiteral tokens (before.length + i)) :
    Agrees before (piece ++ rest) tokens ↔ Agrees (before ++ piece) rest tokens := by
  unfold Agrees
  rw [takes_plain_append_iff plain, and_iff_right visible]
  simp only [List.length_append, Nat.add_assoc]

theorem agrees_literal {quote : UInt8} {n : Nat} (opening : quote ∈ quotes)
    (closes : Quoted.span? quote rest = some n) (unescaped : escapedAfter before = false)
    (held : ∀ i ≤ n, InLiteral tokens (before.length + i)) :
    Agrees before (quote :: rest) tokens ↔
      Agrees (before ++ quote :: rest.take n) (rest.drop n) tokens := by
  have unescaping : quote ≠ Byte.backslash := by
    rintro rfl
    exact absurd opening (by decide)
  have visible : quote ≠ 0 := by
    rintro rfl
    exact absurd opening (by decide)
  obtain ⟨ends, hidden⟩ := past_quoted unescaping closes opening visible
  have after : escapedAfter (before ++ quote :: rest.take n) = false := by
    rw [escapedAfter_append, unescaped, ← past_escaped quotes ⟨none, false⟩, ends]
  have whole : quote :: rest = (quote :: rest.take n) ++ rest.drop n := by simp
  have within : ∀ i < (quote :: rest.take n).length,
      takes quotes ⟨none, false⟩ (quote :: rest.take n) i = true ↔
        ¬ InLiteral tokens (before.length + i) := by
    intro i inside
    have short : i ≤ n := by simp at inside; omega
    rw [hidden i short]
    simp [held i short]
  unfold Agrees
  rw [unescaped, after, whole, takes_append_iff, ends, and_iff_right within]
  simp only [List.length_append, Nat.add_assoc]

theorem not_agrees_escaped {quote : UInt8} (escaped : escapedAfter before = true)
    (held : InLiteral tokens before.length) : ¬ Agrees before (quote :: rest) tokens := by
  intro agrees
  have first := agrees 0 (by simp)
  rw [takes_zero, escaped] at first
  exact first.mp (by simp [keeps]) held

theorem agrees_cons (token : Token) (ends : token.offset + token.text.length ≤ before.length) :
    Agrees before rest (token :: tokens) ↔ Agrees before rest tokens := by
  unfold Agrees
  refine forall₂_congr fun i _ => ?_
  rw [inLiteral_cons fun _ covers => ?_]
  have inside := covers.2
  omega

end Pieces

/-- The division of a text into code and quoted regions agrees with its tokens about every byte
exactly if no literal opens with an escaped quote. -/
theorem Lexed.agrees_iff {keywords : NameSet} {offset : Nat} {t : Text} {tokens : List Token}
    (lexed : Lexed keywords offset t tokens) {before : Text} (placed : before.length = offset) :
    Agrees before t tokens ↔ OpensUnescaped (before ++ t) tokens := by
  induction lexed generalizing before with
  | done => simp [Agrees, OpensUnescaped]
  | @blank offset c rest tokens blank more ih =>
      have unquoted := not_mem_quotes_of_isBlank blank
      have rest_iff := @ih (before ++ [c]) (by simp [placed])
      rw [List.append_assoc, List.singleton_append] at rest_iff
      rw [← rest_iff, ← agrees_plain (by simpa using unquoted), List.singleton_append]
      intro i inside
      exact more.not_inLiteral (by simp only [List.length_singleton] at inside; omega)
  | @token offset c rest kind n tokens visible lexeme more ih =>
      have size : (c :: rest.take n).length = n + 1 := by simp [lexeme.length_le]
      have whole : (c :: rest.take n) ++ rest.drop n = c :: rest := by simp
      have rest_iff := @ih (before ++ (c :: rest.take n)) (by simp [placed, size]; omega)
      rw [List.append_assoc, whole,
        ← agrees_cons ⟨kind, c :: rest.take n, offset⟩ (by simp [placed])] at rest_iff
      by_cases literal : kind = .string
      · obtain ⟨quoted, closes⟩ := lexeme.closes_of_string literal
        have held : ∀ i ≤ n, InLiteral (⟨kind, c :: rest.take n, offset⟩ :: tokens)
            (before.length + i) := by
          intro i inside
          refine ⟨_, List.mem_cons_self, literal, ?_, ?_⟩ <;> simp only [size, placed] <;> omega
        cases escaped : escapedAfter before with
        | false =>
            rw [agrees_literal (by simpa [quotes] using quoted) closes escaped held, rest_iff,
              opensUnescaped_cons fun _ => by simp [← placed, escaped]]
        | true =>
            refine iff_of_false (not_agrees_escaped escaped (held 0 (Nat.zero_le n))) ?_
            intro unescaped
            have first := unescaped _ List.mem_cons_self literal
            simp [← placed, escaped] at first
      · rw [← whole, agrees_plain, rest_iff, whole,
          opensUnescaped_cons fun literally => absurd literally literal]
        · exact lexeme.not_mem_quotes literal
        · rintro i inside ⟨other, member, literally, covers⟩
          rcases List.mem_cons.mp member with rfl | later
          · exact literal literally
          · have after := more.offset_le other later
            have starts := covers.1
            omega

theorem agreesOn_iff_opensUnescaped {keywords : NameSet} {query : Text} {tokens : List Token}
    (lexed : Lexed keywords 0 query tokens) :
    AgreesOn (fun _ => true) quotes query (outsideLiterals tokens) ↔
      OpensUnescaped query tokens := by
  rw [← List.nil_append query, ← lexed.agrees_iff rfl, List.nil_append]
  constructor
  · intro agrees i inside
    have same := agrees i _ (List.getElem?_eq_getElem inside) rfl
    simp only [isCode, outsideLiterals] at same
    simp [escapedAfter, same]
  · intro agrees i b found _
    have same := agrees i (List.getElem?_eq_some_iff.mp found).1
    rw [Bool.eq_iff_iff]
    simpa [isCode, outsideLiterals, escapedAfter] using same

/-! ## Parentheses -/

theorem Lexeme.single_of_parenthesis {keywords : NameSet} {c : UInt8} {rest : Text}
    {kind : TokenKind} {n : Nat} {b : UInt8} (lexeme : Lexeme keywords c rest kind n)
    (parenthesis : kind.parenthesis? = some b) : n = 0 ∧ kind = singleKind c := by
  cases lexeme with
  | single => exact ⟨rfl, rfl⟩
  | string | customField | keyword | identifier | number | comparison => cases parenthesis

namespace Lexed

variable {keywords : NameSet} {query : Text} {tokens : List Token}
  (lexed : Lexed keywords 0 query tokens)

include lexed

theorem marks_sorted :
    (tokens.filterMap Token.mark?).Pairwise fun first second => first.1 < second.1 :=
  pairwise_marks lexed.offsets_increase

theorem mem_marks_iff (i : Nat) (b : UInt8) :
    (i, b) ∈ tokens.filterMap Token.mark? ↔
      byteSeen query (outsideLiterals tokens) i = some b ∧ isParenthesis b = true := by
  have kinds : ∀ c, (singleKind c).parenthesis? = if isParenthesis c then some c else none := by
    intro c
    grind [singleKind, TokenKind.parenthesis?, isParenthesis]
  have visible : ∀ c, isParenthesis c = true → Byte.isBlank c = false := by
    intro c parenthesis
    rcases isParenthesis_iff.mp parenthesis with rfl | rfl <;> rfl
  have outer : ∀ c, isParenthesis c = true → Lexeme.isInner c = false := by
    intro c parenthesis
    rcases isParenthesis_iff.mp parenthesis with rfl | rfl <;> rfl
  simp only [List.mem_filterMap, Token.mark?, Option.map_eq_some_iff, Prod.mk.injEq,
    byteSeen_eq_some_iff, outsideLiterals, Bool.not_eq_true', decide_eq_false_iff_not]
  constructor
  · rintro ⟨token, member, c, parenthesis, rfl, rfl⟩
    obtain ⟨k, d, rest, n, placed, starts, -, lexeme, text⟩ := lexed.lexeme_at token member
    obtain ⟨rfl, kind⟩ := lexeme.single_of_parenthesis parenthesis
    rw [kind, kinds, Option.ite_none_right_eq_some] at parenthesis
    obtain ⟨parenthesis, same⟩ := parenthesis
    obtain rfl := Option.some.inj same
    have here : token.Covers token.offset := ⟨Nat.le_refl _, by simp [text]⟩
    have found : query[token.offset]? = some d := by
      rw [placed, Nat.zero_add, ← List.head?_drop, starts, List.head?_cons]
    refine ⟨⟨?_, found⟩, parenthesis⟩
    rintro ⟨other, listed, literal, covers⟩
    obtain rfl := lexed.covers_unique member listed here covers
    exact Lexeme.singleKind_ne_string d (kind.symm.trans literal)
  · rintro ⟨⟨unquoted, found⟩, parenthesis⟩
    rcases lexed.covered found with blank | ⟨token, member, covers⟩
    · exact absurd blank (by simp [visible b parenthesis])
    rw [Nat.zero_add] at covers
    have bare : token.kind ≠ .string := fun literal => unquoted ⟨token, member, literal, covers⟩
    have inside := lexed.mem_text member covers found
    obtain ⟨k, c, rest, n, placed, starts, -, lexeme, text⟩ := lexed.lexeme_at token member
    rw [text] at inside
    rcases lexeme.inner_or_single bare with inner | ⟨rfl, kind, -⟩
    · exact absurd (inner b inside) (by simp [outer b parenthesis])
    · obtain rfl : b = c := by simpa using inside
      refine ⟨token, member, b, ?_, ?_, rfl⟩
      · rw [kind, kinds, if_pos parenthesis]
      · have size : token.text.length = 1 := by simp [text]
        have ends := covers.2
        have begins := covers.1
        omega

end Lexed

/-- The parentheses among the tokens are balanced, and at most `limit` of them are open at once. -/
structure ParenthesesNest (limit : Nat) (tokens : List Token) : Prop where
  balanced : Balanced (·.kind == .opening) (·.kind == .closing) tokens
  bounded : NestsWithin (·.kind == .opening) (·.kind == .closing) limit tokens

/-- The pair that the nesting of a query is about. -/
def parentheses : Delimiter := ⟨Byte.openParen, Byte.closeParen, true⟩

theorem nesting_ofRules (rules : Rules) :
    (Gate.ofRules rules).nesting = ⟨[parentheses], rules.maxNesting, quotes⟩ := rfl

theorem mark?_any_opening :
    (fun token : Token => token.mark?.any (·.2 == parentheses.opening)) =
      fun token => token.kind == .opening := by
  funext token
  cases kind : token.kind <;> rw [Token.mark?, kind] <;> rfl

theorem mark?_any_closing :
    (fun token : Token => token.mark?.any (·.2 == parentheses.closing)) =
      fun token => token.kind == .closing := by
  funext token
  cases kind : token.kind <;> rw [Token.mark?, kind] <;> rfl

namespace Lexed

variable {keywords : NameSet} {query : Text} {tokens : List Token}
  (lexed : Lexed keywords 0 query tokens) {limit : Nat}

include lexed

theorem nestsWithin_iff :
    NestsWithin (·.kind == .opening) (·.kind == .closing) limit tokens ↔
      NestsWithin (· == parentheses.opening) (· == parentheses.closing) limit
        (bytesSeen query (outsideLiterals tokens)) := by
  rw [← nestsWithin_marks lexed.marks_sorted lexed.mem_marks_iff rfl rfl, mark?_any_opening,
    mark?_any_closing]

theorem parenthesesNest_iff :
    ParenthesesNest limit tokens ↔
      Balanced (· == parentheses.opening) (· == parentheses.closing)
          (bytesSeen query (outsideLiterals tokens)) ∧
        NestsWithin (· == parentheses.opening) (· == parentheses.closing) limit
          (bytesSeen query (outsideLiterals tokens)) := by
  rw [← balanced_marks lexed.marks_sorted lexed.mem_marks_iff rfl rfl, ← lexed.nestsWithin_iff,
    mark?_any_opening, mark?_any_closing]
  exact ⟨fun nest => ⟨nest.balanced, nest.bounded⟩, fun ⟨balanced, bounded⟩ => ⟨balanced, bounded⟩⟩

end Lexed

section Accepted

variable {rules : Rules} {query accepted : Text}

/-- In an accepted query the parentheses among the tokens nest exactly if the drift between the
tokens and the check of nesting settles and stays within the limit. The two agree on every byte
exactly if no literal opens with an escaped quote, and then the parentheses do nest. -/
theorem parentheses_of_judge (judged : (Gate.ofRules rules).judge query = .ok accepted) :
    ∃ tokens, tokenize rules.keywords query = .ok tokens ∧
      (ParenthesesNest rules.maxNesting tokens ↔
        Settles quotes query (outsideLiterals tokens) parentheses ∧
          StaysWithin quotes query (outsideLiterals tokens) parentheses rules.maxNesting) ∧
      (OpensUnescaped query tokens ↔
        AgreesOn (fun _ => true) quotes query (outsideLiterals tokens)) ∧
      (OpensUnescaped query tokens → ParenthesesNest rules.maxNesting tokens) := by
  obtain ⟨⟨tokens, passes⟩, -⟩ := judge_eq_ok_iff.mp judged
  obtain ⟨report, nesting⟩ := passes.nesting
  rw [nesting_ofRules] at nesting
  have lexed := lexed_of_tokenizeFrom passes.lexed
  have listed : parentheses ∈ [parentheses] := List.mem_singleton_self _
  have distinct : parentheses.opening ≠ parentheses.closing := by decide
  have exactly : ParenthesesNest rules.maxNesting tokens ↔
      Settles quotes query (outsideLiterals tokens) parentheses ∧
        StaysWithin quotes query (outsideLiterals tokens) parentheses rules.maxNesting := by
    rw [lexed.parenthesesNest_iff, balanced_iff_settles nesting listed distinct,
      nestsWithin_iff_staysWithin quotes]
  refine ⟨tokens, passes.lexed, exactly, (agreesOn_iff_opensUnescaped lexed).symm, ?_⟩
  intro unescaped
  have agrees := (agreesOn_iff_opensUnescaped lexed).mpr unescaped
  have settles := settles_of_agreesOn nesting listed distinct agrees rfl rfl
  have within := staysWithin_of_agreesOn nesting listed distinct agrees rfl rfl rfl
  exact exactly.mpr ⟨settles, within⟩

end Accepted

/-- A query with a parenthesis and an escaped quote in a literal. -/
def quotedParenthesis : Text := ascii "(status = \"a \\\" (\" or (project = 'b)'))"

theorem parentheses_of_judge_quotedParenthesis :
    ∃ tokens, tokenize Rules.builtin.keywords quotedParenthesis = .ok tokens ∧
      ParenthesesNest 3 tokens := by
  have judged : (Gate.ofRules .builtin).judge quotedParenthesis = .ok quotedParenthesis.trim := by
    decide +kernel
  have checked : (tokenize Rules.builtin.keywords quotedParenthesis).toOption.all
      fun tokens => decide (OpensUnescaped quotedParenthesis tokens) := by
    decide +kernel
  obtain ⟨tokens, lexed, -, -, nests⟩ := parentheses_of_judge judged
  rw [lexed] at checked
  exact ⟨tokens, lexed, nests (of_decide_eq_true checked)⟩

/-- A query with escaped quotes in front of two empty literals. The check of nesting takes what
stands between the literals for quoted. -/
def escapedLiterals : Text := ascii "status = \\\"\" (((( status = 1 )))) \\\"\""

/-- Four parentheses are open at once in an accepted query whose limit is three. -/
theorem escapedLiterals_nests_too_deep :
    (Gate.ofRules .builtin).judge escapedLiterals = .ok escapedLiterals.trim ∧
      ∃ tokens, tokenize Rules.builtin.keywords escapedLiterals = .ok tokens ∧
        ¬ NestsWithin (·.kind == .opening) (·.kind == .closing) Rules.builtin.maxNesting tokens := by
  have deep : (tokenize Rules.builtin.keywords escapedLiterals).toOption.any fun tokens =>
      decide ((tokens.take 8).countP (·.kind == .closing) + Rules.builtin.maxNesting <
        (tokens.take 8).countP (·.kind == .opening)) := by
    decide +kernel
  refine ⟨by decide +kernel, ?_⟩
  cases lexed : tokenize Rules.builtin.keywords escapedLiterals with
  | error rejection => simp [lexed, Except.toOption] at deep
  | ok tokens =>
      rw [lexed] at deep
      refine ⟨tokens, rfl, fun bounded => ?_⟩
      exact Nat.not_le.mpr (of_decide_eq_true deep) (bounded _ (List.take_prefix 8 tokens))

end QueryGate.Jql
