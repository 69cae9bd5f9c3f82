import QueryGate.Proofs.Graphql.Gate
import QueryGate.Proofs.Graphql.Lexing
import QueryGate.Proofs.Nesting.Drift

/-! # Delimiters among the tokens of a document

The check of nesting knows double quotes and backslashes only. A comment with an odd number of
quotes, a block literal and a backslash in front of a literal all move its quoted regions away
from what the lexer sets aside, and then it counts other delimiters than those among the tokens.
-/

namespace QueryGate.Graphql

open Nesting Cursor

/-- The quotes that the check of nesting knows. -/
def quotes : Text := [Byte.doubleQuote]

theorem not_mem_quotes_of_isBlank {b : UInt8} (blank : Byte.isBlank b = true) : b ∉ quotes := by
  intro listed
  obtain rfl := List.mem_singleton.mp listed
  cases blank

theorem Lexeme.not_mem_quotes {c : UInt8} {rest : Text} {kind : TokenKind} {n : Nat}
    (lexeme : Lexeme c rest kind n) (unquoted : kind ≠ .string) :
    ∀ b ∈ c :: rest.take n, b ∉ quotes := by
  intro b member listed
  obtain rfl := List.mem_singleton.mp listed
  rcases lexeme.plain_or_single unquoted with plain | ⟨rfl, -, other⟩
  · exact absurd (plain _ member) (by decide)
  · exact other (List.mem_singleton.mp member).symm

/-- Whether byte number `i` of the document is outside literals and comments. -/
def outsideAsides (asides : List Aside) (i : Nat) : Bool := !decide (InAside asides i)

namespace Token

/-- The delimiter that a token is. -/
def delimiter? (token : Token) : Option UInt8 := delimiters.find? token.isPunctuator

/-- The delimiter that a token is, with its place. -/
def mark? (token : Token) : Option (Nat × UInt8) := token.delimiter?.map (token.offset, ·)

theorem isPunctuator_iff {token : Token} {b : UInt8} :
    token.isPunctuator b = true ↔ token.kind = .punctuator ∧ token.text = [b] := by
  simp [isPunctuator]

theorem delimiter?_eq_some_iff {token : Token} {b : UInt8} :
    token.delimiter? = some b ↔ isDelimiter b = true ∧ token.isPunctuator b = true := by
  have same : ∀ c, token.isPunctuator c = true → token.isPunctuator b = true → c = b := by
    intro c one other
    obtain ⟨-, first⟩ := isPunctuator_iff.mp one
    obtain ⟨-, second⟩ := isPunctuator_iff.mp other
    exact List.singleton_inj.mp (first.symm.trans second)
  rw [isDelimiter, List.contains_iff_mem]
  constructor
  · intro found
    exact ⟨List.mem_of_find?_eq_some found, List.find?_some found⟩
  · rintro ⟨member, punctuator⟩
    cases found : token.delimiter? with
    | none => exact absurd punctuator (List.find?_eq_none.mp found b member)
    | some c => rw [same c (List.find?_some found) punctuator]

theorem mark?_eq_none {token : Token}
    (other : token.kind = .punctuator → ∀ b ∈ token.text, isDelimiter b = false) :
    token.mark? = none := by
  rw [mark?, Option.map_eq_none_iff]
  cases found : token.delimiter? with
  | none => rfl
  | some b =>
      obtain ⟨listed, punctuator⟩ := delimiter?_eq_some_iff.mp found
      obtain ⟨kind, text⟩ := isPunctuator_iff.mp punctuator
      exact absurd listed (by simp [other kind b (by simp [text])])

theorem mark?_single {c : UInt8} (offset : Nat) (listed : isDelimiter c = true) :
    mark? ⟨singleKind c, tokenText (singleKind c) [c], offset⟩ = some (offset, c) := by
  rw [singleKind_of_isDelimiter listed]
  exact Option.map_eq_some_iff.mpr
    ⟨c, delimiter?_eq_some_iff.mpr ⟨listed, isPunctuator_iff.mpr ⟨rfl, rfl⟩⟩, rfl⟩

theorem mark?_any {b : UInt8} (listed : isDelimiter b = true) :
    (fun token : Token => token.mark?.any (·.2 == b)) = fun token => token.isPunctuator b := by
  funext token
  rw [Bool.eq_iff_iff]
  simp only [mark?, Option.any_map, Option.any_eq_true, beq_iff_eq,
    exists_eq_right, delimiter?_eq_some_iff]
  exact and_iff_right listed

end Token

/-! ## The delimiters that are shown -/

/-- The byte at place `i` of the document, in a text that starts at an offset. -/
def Shows (offset : Nat) (t : Text) (i : Nat) (b : UInt8) : Prop :=
  ∃ k, i = offset + k ∧ t[k]? = some b

theorem shows_append {offset i : Nat} {s t : Text} {b : UInt8} :
    Shows offset (s ++ t) i b ↔ Shows offset s i b ∨ Shows (offset + s.length) t i b := by
  constructor
  · rintro ⟨k, rfl, found⟩
    by_cases early : k < s.length
    · rw [List.getElem?_append_left early] at found
      exact Or.inl ⟨k, rfl, found⟩
    · rw [List.getElem?_append_right (by omega)] at found
      exact Or.inr ⟨k - s.length, by omega, found⟩
  · rintro (⟨k, rfl, found⟩ | ⟨k, rfl, found⟩)
    · have early := (List.getElem?_eq_some_iff.mp found).1
      exact ⟨k, rfl, by rwa [List.getElem?_append_left early]⟩
    · refine ⟨s.length + k, by omega, ?_⟩
      rwa [List.getElem?_append_right (Nat.le_add_right _ _), Nat.add_sub_cancel_left]

theorem Shows.bounds {offset i : Nat} {t : Text} {b : UInt8} (shown : Shows offset t i b) :
    offset ≤ i ∧ i < offset + t.length ∧ b ∈ t := by
  obtain ⟨k, rfl, found⟩ := shown
  have inside := (List.getElem?_eq_some_iff.mp found).1
  exact ⟨Nat.le_add_right _ _, Nat.add_lt_add_left inside _, List.mem_of_getElem? found⟩

theorem inAside_cons {aside : Aside} {asides : List Aside} {i : Nat} :
    InAside (aside :: asides) i ↔
      (aside.offset ≤ i ∧ i < aside.offset + aside.text.length) ∨ InAside asides i := by
  simp only [InAside, List.exists_mem_cons_iff]

/-- A delimiter that a text shows and that is not set aside. -/
def Visible (offset : Nat) (t : Text) (asides : List Aside) (i : Nat) (b : UInt8) : Prop :=
  Shows offset t i b ∧ ¬ InAside asides i ∧ isDelimiter b = true

section Pieces

variable {offset i : Nat} {piece rest : Text} {asides : List Aside} {b c : UInt8}

theorem visible_append_plain (plain : ∀ c ∈ piece, isDelimiter c = false) :
    Visible offset (piece ++ rest) asides i b ↔
      Visible (offset + piece.length) rest asides i b := by
  unfold Visible
  rw [shows_append]
  constructor
  · rintro ⟨shown | shown, seen, listed⟩
    · exact absurd listed (by simp [plain b shown.bounds.2.2])
    · exact ⟨shown, seen, listed⟩
  · rintro ⟨shown, described⟩
    exact ⟨Or.inr shown, described⟩

theorem visible_append_aside :
    Visible offset (piece ++ rest) (⟨piece, offset⟩ :: asides) i b ↔
      Visible (offset + piece.length) rest asides i b := by
  unfold Visible
  rw [shows_append, inAside_cons, not_or]
  constructor
  · rintro ⟨shown | shown, ⟨outside, seen⟩, listed⟩
    · obtain ⟨starts, ends, -⟩ := shown.bounds
      exact absurd ⟨starts, ends⟩ outside
    · exact ⟨shown, seen, listed⟩
  · rintro ⟨shown, seen, listed⟩
    refine ⟨Or.inr shown, ⟨?_, seen⟩, listed⟩
    exact fun inside => absurd inside.2 (Nat.not_lt.mpr shown.bounds.1)

theorem visible_cons (seen : ¬ InAside asides offset) :
    Visible offset (c :: rest) asides i b ↔
      (isDelimiter c = true ∧ i = offset ∧ b = c) ∨ Visible (offset + 1) rest asides i b := by
  have whole : c :: rest = [c] ++ rest := rfl
  unfold Visible
  rw [whole, shows_append]
  constructor
  · rintro ⟨shown | shown, described⟩
    · obtain ⟨starts, ends, member⟩ := shown.bounds
      obtain rfl : b = c := by simpa using member
      exact Or.inl ⟨described.2, by simp at ends; omega, rfl⟩
    · exact Or.inr ⟨shown, described⟩
  · rintro (⟨listed, rfl, rfl⟩ | ⟨shown, described⟩)
    · exact ⟨Or.inl ⟨0, rfl, rfl⟩, seen, listed⟩
    · exact ⟨Or.inr shown, described⟩

end Pieces

theorem Lexed.mem_marks_iff {offset : Nat} {t : Text} {tokens : List Token} {asides : List Aside}
    (lexed : Lexed offset t tokens asides) (i : Nat) (b : UInt8) :
    (i, b) ∈ tokens.filterMap Token.mark? ↔ Visible offset t asides i b := by
  induction lexed with
  | @done offset =>
      refine iff_of_false List.not_mem_nil ?_
      rintro ⟨⟨k, -, found⟩, -⟩
      cases found
  | @blank offset c rest tokens asides blank _ ih =>
      rw [ih, ← List.singleton_append,
        visible_append_plain (by simpa using not_isDelimiter_of_isBlank blank)]
      rfl
  | @comment offset rest n tokens asides line more ih =>
      have fits : n ≤ rest.length := line ▸ (List.takeWhile_prefix _).length_le
      have whole : Byte.hash :: rest = (Byte.hash :: rest.take n) ++ rest.drop n := by simp
      rw [ih, whole, visible_append_aside, List.length_cons, List.length_take,
        Nat.min_eq_left fits, Nat.add_comm n, ← Nat.add_assoc]
  | @literal offset c rest n tokens asides lexeme more ih =>
      have whole : c :: rest = (c :: rest.take n) ++ rest.drop n := by simp
      rw [List.filterMap_cons_none (Token.mark?_eq_none (by simp)), ih, whole,
        visible_append_aside, List.length_cons, List.length_take, Nat.min_eq_left lexeme.length_le,
        Nat.add_comm n, ← Nat.add_assoc]
  | @token offset c rest kind n tokens asides lexeme unquoted more ih =>
      rcases lexeme.plain_or_single unquoted with plain | ⟨rfl, rfl, -⟩
      · have bare : ∀ b, isPlain b = true → isDelimiter b = false := by
          intro b plain
          simpa [isDelimiter] using (isPlain_eq_true_iff.mp plain).2
        have whole : c :: rest = (c :: rest.take n) ++ rest.drop n := by simp
        have unmarked : Token.mark? ⟨kind, tokenText kind (c :: rest.take n), offset⟩ = none := by
          refine Token.mark?_eq_none fun punctuator b member => ?_
          rw [show kind = .punctuator from punctuator] at member
          exact bare b (plain b member)
        rw [List.filterMap_cons_none unmarked, ih, whole,
          visible_append_plain fun b member => bare b (plain b member), List.length_cons,
          List.length_take, Nat.min_eq_left lexeme.length_le, Nat.add_comm n, ← Nat.add_assoc]
      · have seen : ¬ InAside asides offset := more.not_inAside (by omega)
        rw [Nat.add_zero, List.drop_zero] at ih
        rw [visible_cons seen, ← ih]
        cases listed : isDelimiter c with
        | true =>
            rw [List.take_zero, List.filterMap_cons_some (Token.mark?_single offset listed)]
            simp
        | false =>
            rw [List.filterMap_cons_none (Token.mark?_eq_none ?_)]
            · simp
            · intro punctuator
              rw [show singleKind c = .punctuator from punctuator]
              simpa [tokenText] using listed

/-! ## Where the two readings agree -/

/-- Divided by itself, a piece of the document leaves no region open and shows no delimiter. -/
def Unobtrusive (before piece : Text) : Prop :=
  (readFrom quotes none (escapedAfter before) piece).closed = true ∧
    ∀ b ∈ (readFrom quotes none (escapedAfter before) piece).code, isDelimiter b = false

/-- No literal and no comment disturbs the division of the document. -/
def Legible (document : Text) (asides : List Aside) : Prop :=
  ∀ aside ∈ asides, Unobtrusive (document.take aside.offset) aside.text

instance (before piece : Text) : Decidable (Unobtrusive before piece) :=
  inferInstanceAs (Decidable (_ ∧ ∀ b ∈ _, _))

instance (document : Text) (asides : List Aside) : Decidable (Legible document asides) :=
  inferInstanceAs (Decidable (∀ aside ∈ asides, _))

/-- Past the beginning `before` of a document, the division of the rest, started outside regions,
takes for code the delimiters outside literals and comments. -/
def Agrees (before rest : Text) (asides : List Aside) : Prop :=
  ∀ k b, rest[k]? = some b → isDelimiter b = true →
    takes quotes ⟨none, escapedAfter before⟩ rest k = outsideAsides asides (before.length + k)

section Agreement

variable {before piece rest : Text} {asides : List Aside}

theorem agrees_append (closed : (past quotes ⟨none, escapedAfter before⟩ piece).region = none)
    (first : Agrees before piece asides) (more : Agrees (before ++ piece) rest asides) :
    Agrees before (piece ++ rest) asides := by
  have after : past quotes ⟨none, escapedAfter before⟩ piece =
      ⟨none, escapedAfter (before ++ piece)⟩ := by
    have escaped := past_escaped quotes ⟨none, escapedAfter before⟩ piece
    rw [← escapedAfter_append] at escaped
    generalize past quotes ⟨none, escapedAfter before⟩ piece = cursor at closed escaped
    obtain ⟨region, next⟩ := cursor
    obtain rfl := closed
    obtain rfl := escaped
    rfl
  intro k b found listed
  by_cases early : k < piece.length
  · rw [List.getElem?_append_left early] at found
    rw [takes_left _ rest early]
    exact first k b found listed
  · obtain ⟨j, rfl⟩ : ∃ j, k = piece.length + j := ⟨k - piece.length, by omega⟩
    rw [List.getElem?_append_right (Nat.le_add_right _ _), Nat.add_sub_cancel_left] at found
    rw [takes_right, after, ← Nat.add_assoc, ← List.length_append]
    exact more j b found listed

theorem agrees_plain (plain : ∀ b ∈ piece, b ∉ quotes)
    (seen : ∀ k < piece.length, ¬ InAside asides (before.length + k))
    (more : Agrees (before ++ piece) rest asides) : Agrees before (piece ++ rest) asides := by
  refine agrees_append (by rw [past_of_plain plain]) (fun k b found _ => ?_) more
  have inside := (List.getElem?_eq_some_iff.mp found).1
  rw [takes_of_plain plain inside]
  simp [outsideAsides, seen k inside]

theorem agrees_aside (unobtrusive : Unobtrusive before piece)
    (more : Agrees (before ++ piece) rest asides) :
    Agrees before (piece ++ rest) (⟨piece, before.length⟩ :: asides) := by
  obtain ⟨closed, clean⟩ := unobtrusive
  have ends := readFrom_closed quotes ⟨none, escapedAfter before⟩ piece
  rw [closed, eq_comm, Option.isNone_iff_eq_none] at ends
  refine agrees_append ends (fun k b found listed => ?_) (fun k b found listed => ?_)
  · have inside := (List.getElem?_eq_some_iff.mp found).1
    have held : InAside (⟨piece, before.length⟩ :: asides) (before.length + k) :=
      inAside_cons.mpr (Or.inl ⟨Nat.le_add_right _ _, Nat.add_lt_add_left inside _⟩)
    have divided := readFrom_code quotes ⟨none, escapedAfter before⟩ piece
    have hidden : takes quotes ⟨none, escapedAfter before⟩ piece k = false := by
      cases taken : takes quotes ⟨none, escapedAfter before⟩ piece k with
      | false => rfl
      | true =>
          have member : b ∈ (readFrom quotes none (escapedAfter before) piece).code := by
            rw [divided]
            refine List.mem_filterMap.mpr ⟨k, ?_, found⟩
            exact List.mem_filter.mpr ⟨List.mem_range.mpr inside, taken⟩
          exact absurd listed (by simp [clean b member])
    rw [hidden]
    simp [outsideAsides, held]
  · rw [more k b found listed]
    have beyond : InAside (⟨piece, before.length⟩ :: asides) ((before ++ piece).length + k) ↔
        InAside asides ((before ++ piece).length + k) := by
      rw [inAside_cons, List.length_append]
      refine or_iff_right fun inside => ?_
      have ends := inside.2
      dsimp only at ends
      omega
    simp only [outsideAsides, beyond]

/-- The first aside of a legible text does not disturb what follows it. -/
theorem agrees_of_legible (legible : Legible (before ++ (piece ++ rest)) (⟨piece, before.length⟩ :: asides))
    (more : Legible ((before ++ piece) ++ rest) asides → Agrees (before ++ piece) rest asides) :
    Agrees before (piece ++ rest) (⟨piece, before.length⟩ :: asides) := by
  obtain ⟨unobtrusive, others⟩ := List.forall_mem_cons.mp legible
  rw [List.take_left] at unobtrusive
  exact agrees_aside unobtrusive (more (by rwa [List.append_assoc]))

end Agreement

theorem Lexed.agrees {offset : Nat} {t : Text} {tokens : List Token} {asides : List Aside}
    (lexed : Lexed offset t tokens asides) {before : Text} (placed : before.length = offset)
    (legible : Legible (before ++ t) asides) : Agrees before t asides := by
  induction lexed generalizing before with
  | done =>
      intro k b found
      cases found
  | @blank offset c rest tokens asides blank more ih =>
      have unquoted := not_mem_quotes_of_isBlank blank
      rw [← List.singleton_append] at legible ⊢
      refine agrees_plain (by simpa using unquoted) (fun k inside => ?_) ?_
      · exact more.not_inAside (by simp only [List.length_singleton] at inside; omega)
      · exact ih (by simp [placed]) (by rwa [List.append_assoc])
  | @comment offset rest n tokens asides line more ih =>
      subst placed
      have fits : n ≤ rest.length := line ▸ (List.takeWhile_prefix _).length_le
      have whole : Byte.hash :: rest = (Byte.hash :: rest.take n) ++ rest.drop n := by simp
      rw [whole] at legible ⊢
      exact agrees_of_legible legible fun others => ih (by simp [fits]; omega) others
  | @literal offset c rest n tokens asides lexeme more ih =>
      subst placed
      have whole : c :: rest = (c :: rest.take n) ++ rest.drop n := by simp
      rw [whole] at legible ⊢
      exact agrees_of_legible legible fun others => ih (by simp [lexeme.length_le]; omega) others
  | @token offset c rest kind n tokens asides lexeme unquoted more ih =>
      have whole : c :: rest = (c :: rest.take n) ++ rest.drop n := by simp
      have size : (c :: rest.take n).length = n + 1 := by simp [lexeme.length_le]
      rw [whole] at legible ⊢
      refine agrees_plain (lexeme.not_mem_quotes unquoted) (fun k inside => ?_)
        (ih ?_ (by rwa [List.append_assoc]))
      · exact more.not_inAside (by omega)
      · rw [List.length_append, size, placed]
        omega

/-! ## Accepted documents -/

/-- The delimiters among the tokens are balanced, and at most `limit` braces are open at once. -/
structure DelimitersNest (limit : Nat) (tokens : List Token) : Prop where
  braces : Balanced (·.isPunctuator Byte.openBrace) (·.isPunctuator Byte.closeBrace) tokens
  bounded : NestsWithin (·.isPunctuator Byte.openBrace) (·.isPunctuator Byte.closeBrace) limit tokens
  parens : Balanced (·.isPunctuator Byte.openParen) (·.isPunctuator Byte.closeParen) tokens
  brackets : Balanced (·.isPunctuator Byte.openBracket) (·.isPunctuator Byte.closeBracket) tokens

def braces : Delimiter := ⟨Byte.openBrace, Byte.closeBrace, true⟩

def parens : Delimiter := ⟨Byte.openParen, Byte.closeParen, false⟩

def brackets : Delimiter := ⟨Byte.openBracket, Byte.closeBracket, false⟩

/-- The pairs that the nesting of a document is about; only braces have a limit. -/
def pairs : List Delimiter := [braces, parens, brackets]

theorem nesting_ofRules (rules : Rules) :
    (Gate.ofRules rules).nesting = ⟨pairs, rules.maxDepth, quotes⟩ := rfl

namespace Lexed

variable {document : Text} {tokens : List Token} {asides : List Aside}
  (lexed : Lexed 0 document tokens asides)

include lexed

theorem marks_sorted :
    (tokens.filterMap Token.mark?).Pairwise fun first second => first.1 < second.1 :=
  pairwise_marks lexed.offsets_increase

theorem mem_marks_iff_byteSeen (i : Nat) (b : UInt8) :
    (i, b) ∈ tokens.filterMap Token.mark? ↔
      byteSeen document (outsideAsides asides) i = some b ∧ isDelimiter b = true := by
  rw [lexed.mem_marks_iff, byteSeen_eq_some_iff]
  unfold Visible Shows outsideAsides
  constructor
  · rintro ⟨⟨k, rfl, found⟩, outside, listed⟩
    rw [Nat.zero_add] at outside ⊢
    exact ⟨⟨by simp [outside], found⟩, listed⟩
  · rintro ⟨⟨outside, found⟩, listed⟩
    exact ⟨⟨i, (Nat.zero_add i).symm, found⟩, by simpa using outside, listed⟩

variable {pair : Delimiter} (opening : isDelimiter pair.opening = true)
  (closing : isDelimiter pair.closing = true)

include opening closing

theorem balanced_iff :
    Balanced (·.isPunctuator pair.opening) (·.isPunctuator pair.closing) tokens ↔
      Balanced (· == pair.opening) (· == pair.closing)
        (bytesSeen document (outsideAsides asides)) := by
  rw [← balanced_marks lexed.marks_sorted lexed.mem_marks_iff_byteSeen opening closing,
    Token.mark?_any opening, Token.mark?_any closing]

theorem nestsWithin_iff {limit : Nat} :
    NestsWithin (·.isPunctuator pair.opening) (·.isPunctuator pair.closing) limit tokens ↔
      NestsWithin (· == pair.opening) (· == pair.closing) limit
        (bytesSeen document (outsideAsides asides)) := by
  rw [← nestsWithin_marks lexed.marks_sorted lexed.mem_marks_iff_byteSeen opening closing,
    Token.mark?_any opening, Token.mark?_any closing]

end Lexed

section Accepted

variable {rules : Rules} {document accepted : Text} {given : Option Variables}

/-- In an accepted document the delimiters among the tokens nest exactly if the drift between the
tokens and the check of nesting settles for each pair and keeps the braces within the limit. In a
legible document there is no drift, and so they nest. -/
theorem delimiters_of_judge (judged : (Gate.ofRules rules).judge document given = .ok accepted) :
    ∃ tokens, tokenize document = .ok tokens ∧
      (DelimitersNest rules.maxDepth tokens ↔
        (∀ pair ∈ pairs, Settles quotes document (outsideAsides (asidesOf document)) pair) ∧
          StaysWithin quotes document (outsideAsides (asidesOf document)) braces rules.maxDepth) ∧
      (Legible document (asidesOf document) → DelimitersNest rules.maxDepth tokens) := by
  obtain ⟨⟨tokens, header, passes⟩, -⟩ := judge_eq_ok_iff.mp judged
  obtain ⟨report, nesting⟩ := passes.nesting
  rw [nesting_ofRules] at nesting
  have lexed := lexed_of_tokenizeFrom passes.lexed
  change Lexed 0 document tokens (asidesOf document) at lexed
  generalize asidesOf document = asides at lexed
  have listed : ∀ pair ∈ pairs, isDelimiter pair.opening = true ∧ isDelimiter pair.closing = true ∧
      pair.opening ≠ pair.closing := by
    decide
  have settles : ∀ pair ∈ pairs,
      (Balanced (·.isPunctuator pair.opening) (·.isPunctuator pair.closing) tokens ↔
        Settles quotes document (outsideAsides asides) pair) := by
    intro pair member
    obtain ⟨opening, closing, distinct⟩ := listed pair member
    rw [lexed.balanced_iff opening closing, balanced_iff_settles nesting member distinct]
  have exactly : DelimitersNest rules.maxDepth tokens ↔
      (∀ pair ∈ pairs, Settles quotes document (outsideAsides asides) pair) ∧
        StaysWithin quotes document (outsideAsides asides) braces rules.maxDepth := by
    rw [← nestsWithin_iff_staysWithin quotes, ← lexed.nestsWithin_iff rfl rfl,
      ← forall₂_congr settles]
    simp only [pairs, List.forall_mem_cons]
    constructor
    · rintro ⟨braces, bounded, parens, brackets⟩
      exact ⟨⟨braces, parens, brackets, by simp⟩, bounded⟩
    · rintro ⟨⟨braces, parens, brackets, -⟩, bounded⟩
      exact ⟨braces, bounded, parens, brackets⟩
  refine ⟨tokens, passes.lexed, exactly, fun legible => exactly.mpr ?_⟩
  have agrees : AgreesOn isDelimiter quotes document (outsideAsides asides) := by
    intro i b found wanted
    have same := @Lexed.agrees _ _ _ _ lexed [] rfl legible i b found wanted
    rwa [List.length_nil, Nat.zero_add] at same
  constructor
  · intro pair member
    obtain ⟨opening, closing, distinct⟩ := listed pair member
    have settled := settles_of_agreesOn nesting member distinct agrees opening closing
    exact settled
  · have member : braces ∈ pairs := List.mem_cons_self
    obtain ⟨opening, closing, distinct⟩ := listed braces member
    have within := staysWithin_of_agreesOn nesting member distinct agrees opening closing rfl
    exact within

end Accepted

/-- A document with a brace in a literal and an apostrophe in a comment. -/
def quotedBrace : Text :=
  ascii "query Q \x7b getTests(jql: \"a \x7b b\") \x7b total \x7d \x7d # it's all"

theorem delimiters_of_judge_quotedBrace :
    ∃ tokens, tokenize quotedBrace = .ok tokens ∧ DelimitersNest 10 tokens := by
  have judged : (Gate.ofRules .builtin).judge quotedBrace none = .ok quotedBrace.trim := by
    decide +kernel
  have legible : Legible quotedBrace (asidesOf quotedBrace) := by decide +kernel
  obtain ⟨tokens, lexed, -, nests⟩ := delimiters_of_judge judged
  exact ⟨tokens, lexed, nests legible⟩

/-- A document between two comments with one double quote each. The check of nesting takes the
whole block for quoted. -/
def commentedQuotes : Text :=
  ascii "# \"\n" ++ (List.replicate 11 (ascii "\x7btotal")).flatten ++
    List.replicate 11 Byte.closeBrace ++ ascii "\n# \""

/-- Eleven braces are open at once in an accepted document whose limit is ten. -/
theorem commentedQuotes_nests_too_deep :
    (Gate.ofRules .builtin).judge commentedQuotes none = .ok commentedQuotes.trim ∧
      ∃ tokens, tokenize commentedQuotes = .ok tokens ∧
        ¬ NestsWithin (·.isPunctuator Byte.openBrace) (·.isPunctuator Byte.closeBrace)
          Rules.builtin.maxDepth tokens := by
  have deep : (tokenize commentedQuotes).toOption.any fun tokens =>
      decide ((tokens.take 22).countP (·.isPunctuator Byte.closeBrace) + Rules.builtin.maxDepth <
        (tokens.take 22).countP (·.isPunctuator Byte.openBrace)) := by
    decide +kernel
  refine ⟨by decide +kernel, ?_⟩
  cases lexed : tokenize commentedQuotes with
  | error rejection => simp [lexed, Except.toOption] at deep
  | ok tokens =>
      rw [lexed] at deep
      refine ⟨tokens, rfl, fun bounded => ?_⟩
      exact Nat.not_le.mpr (of_decide_eq_true deep) (bounded _ (List.take_prefix 22 tokens))

end QueryGate.Graphql
