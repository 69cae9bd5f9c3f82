import QueryGate.Proofs.Jql.Joining
import QueryGate.Proofs.Jql.Reading
import QueryGate.Proofs.Nesting.Division
import QueryGate.Proofs.Slices

/-! # What is left of a query in its tokens

The tokens of a query hold everything in it but whitespace, and each of them is the same token wherever
it stands, as long as nothing follows that it would take. So the texts of the tokens with spaces between
them have the same tokens again. Only a literal that is never closed keeps a query from having tokens.
-/

namespace QueryGate.Jql

open Text

variable {keywords : NameSet} {c : UInt8} {rest s t tail : Text} {kind : TokenKind} {n : Nat}

/-! ## Slices -/

/-- Between the tokens of a query stands whitespace. -/
def IsGap (piece _after : Text) : Prop := ∃ b, Byte.isBlank b = true ∧ piece = [b]

/-- The piece of the query a token was read from. -/
def Token.extent (token : Token) : Slice := ⟨token.text, token.offset⟩

theorem Lexed.cut {offset : Nat} {tokens : List Token} (lexed : Lexed keywords offset t tokens) :
    Cut IsGap offset t (tokens.map Token.extent) := by
  induction lexed with
  | done => exact .done
  | @blank offset c rest tokens blank _ ih =>
      rw [← List.singleton_append]
      exact .gap ⟨c, blank, rfl⟩ ih
  | @token offset c rest kind n tokens _ lexeme _ ih =>
      have size : (c :: rest.take n).length = 1 + n := by
        rw [List.length_cons, List.length_take, Nat.min_eq_left lexeme.length_le, Nat.add_comm]
      have whole : c :: rest = (c :: rest.take n) ++ rest.drop n := by simp
      rw [Nat.add_assoc, ← size] at ih
      rw [whole]
      exact .slice (List.cons_ne_nil _ _) ih

/-! ## A token by itself -/

theorem startsCustomField_mono (begins : s <+: t) (starts : startsCustomField c s = true) :
    startsCustomField c t = true := by
  rw [startsCustomField, List.isPrefixOf_iff_prefix] at starts ⊢
  refine starts.trans (List.IsPrefix.map Byte.lower ?_)
  exact (List.prefix_cons_inj c).mpr (begins.take 2)

theorem startsNumber_mono (begins : s <+: t) (starts : startsNumber c s = true) :
    startsNumber c t = true := by
  obtain ⟨more, rfl⟩ := begins
  rw [startsNumber] at starts ⊢
  cases s with
  | nil => grind
  | cons b s => exact starts

theorem startsNumber_takeWhile (starts : startsNumber c rest = true) :
    startsNumber c (rest.takeWhile isNumberByte) = true := by
  rw [startsNumber] at starts ⊢
  cases rest with
  | nil => exact starts
  | cons b rest =>
      cases taken : isNumberByte b with
      | true => simpa [taken] using starts
      | false =>
          have plain : Byte.isDigit b = false := by
            cases digit : Byte.isDigit b with
            | false => rfl
            | true => simp [isNumberByte, Byte.isAlphanumeric, digit] at taken
          simpa [taken, plain] using starts

theorem customFieldSpan_run {d e : UInt8} (word : ∀ b ∈ s, Byte.isWord b = true)
    (ends : Apart Byte.isWord t) :
    customFieldSpan (d :: e :: (s ++ t)) =
      2 + s.length + (if t.head? = some Byte.closeBracket then 1 else 0) := by
  simp only [customFieldSpan, List.drop_succ_cons, List.drop_zero, ends.takeWhile_run word,
    List.drop_left, beq_iff_eq]

theorem customFieldSpan_take (starts : startsCustomField c rest = true) :
    2 ≤ customFieldSpan rest ∧
      customFieldSpan (rest.take (customFieldSpan rest)) = customFieldSpan rest := by
  obtain ⟨-, d, e, more, rfl, -, -⟩ := startsCustomField_cons starts
  have word : ∀ b ∈ more.takeWhile Byte.isWord, Byte.isWord b = true :=
    fun b member => List.mem_takeWhile_imp member
  have ends : Apart Byte.isWord (more.dropWhile Byte.isWord) := by
    intro b first
    have stops := List.head?_dropWhile_not Byte.isWord more
    rw [Option.mem_def.mp first] at stops
    simpa using stops
  rw [← List.takeWhile_append_dropWhile (p := Byte.isWord) (l := more)]
  generalize more.takeWhile Byte.isWord = run at word ⊢
  generalize more.dropWhile Byte.isWord = tail at ends ⊢
  rw [customFieldSpan_run word ends]
  refine ⟨by omega, ?_⟩
  by_cases closed : tail.head? = some Byte.closeBracket
  · obtain ⟨after, rfl⟩ : ∃ after, tail = Byte.closeBracket :: after := by
      cases tail with
      | nil => cases closed
      | cons b after => exact ⟨after, by rw [Option.some.inj closed]⟩
    have taken : (d :: e :: (run ++ Byte.closeBracket :: after)).take (2 + run.length + 1) =
        d :: e :: (run ++ [Byte.closeBracket]) := by
      rw [show 2 + run.length + 1 = run.length + 1 + 1 + 1 by omega]
      simp [List.take_append]
    rw [if_pos closed, taken]
    exact customFieldSpan_run word (fun b first => ends b (by simpa using first))
  · have taken : (d :: e :: (run ++ tail)).take (2 + run.length + 0) = d :: e :: (run ++ []) := by
      rw [show 2 + run.length + 0 = run.length + 1 + 1 by omega]
      simp
    rw [if_neg closed, taken]
    exact customFieldSpan_run word (fun b first => by cases first)

theorem lexeme?_take (found : lexeme? keywords c rest = some (kind, n)) :
    lexeme? keywords c (rest.take n) = some (kind, n) := by
  have field : ∀ {m}, startsCustomField c rest = false → startsCustomField c (rest.take m) = false := by
    intro m plain
    rw [Bool.eq_false_iff] at plain ⊢
    exact mt (startsCustomField_mono (List.take_prefix m rest)) plain
  have number : ∀ {m}, startsNumber c rest = false → startsNumber c (rest.take m) = false := by
    intro m plain
    rw [Bool.eq_false_iff] at plain ⊢
    exact mt (startsNumber_mono (List.take_prefix m rest)) plain
  -- In the order of the lexer: what was tried before stays refused, because a beginning of a text starts
  -- nothing that the text does not start.
  unfold lexeme? at found ⊢
  by_cases quoted : c = Byte.doubleQuote ∨ c = Byte.singleQuote
  · rw [if_pos quoted] at found ⊢
    obtain ⟨m, closes, same⟩ := Option.map_eq_some_iff.mp found
    obtain ⟨rfl, rfl⟩ := Prod.mk.inj same
    rw [Quoted.span?_take closes]
    rfl
  rw [if_neg quoted] at found ⊢
  cases isField : startsCustomField c rest with
  | true =>
      rw [if_pos isField] at found
      obtain ⟨rfl, rfl⟩ := Prod.mk.inj (Option.some.inj found)
      obtain ⟨long, same⟩ := customFieldSpan_take isField
      have still : startsCustomField c (rest.take (customFieldSpan rest)) = true := by
        rw [startsCustomField, List.take_take, Nat.min_eq_left long]
        exact isField
      rw [if_pos still, same]
  | false =>
      rw [isField, if_neg Bool.false_ne_true] at found
      rw [field isField, if_neg Bool.false_ne_true]
      cases named : Byte.isNameStart c with
      | true =>
          rw [named, if_pos rfl] at found
          obtain ⟨-, rfl⟩ := Prod.mk.inj (Option.some.inj found)
          rw [if_pos rfl, take_length_takeWhile, List.takeWhile_idem]
          exact found
      | false =>
          rw [named, if_neg Bool.false_ne_true] at found
          rw [if_neg Bool.false_ne_true]
          cases numbered : startsNumber c rest with
          | true =>
              rw [numbered, if_pos rfl] at found
              obtain ⟨rfl, rfl⟩ := Prod.mk.inj (Option.some.inj found)
              rw [take_length_takeWhile, startsNumber_takeWhile numbered, if_pos rfl,
                List.takeWhile_idem]
          | false =>
              rw [numbered, if_neg Bool.false_ne_true] at found
              rw [number numbered, if_neg Bool.false_ne_true]
              cases rest with
              | nil =>
                  obtain ⟨rfl, rfl⟩ := Prod.mk.inj (Option.some.inj found)
                  rfl
              | cons d more =>
                  cases long : isLongOperator c d with
                  | true =>
                      simp only [List.head?_cons, Option.any_some, long, if_true] at found
                      obtain ⟨rfl, rfl⟩ := Prod.mk.inj (Option.some.inj found)
                      simp [long]
                  | false =>
                      simp only [List.head?_cons, Option.any_some, long, Bool.false_eq_true,
                        if_false] at found
                      obtain ⟨rfl, rfl⟩ := Prod.mk.inj (Option.some.inj found)
                      rfl

/-- The token without its place. -/
def Token.unplaced (token : Token) : Token := { token with offset := 0 }

/-- The text of the token is the token whatever it stands in. -/
def Token.StandsAlone (keywords : NameSet) (token : Token) : Prop :=
  ∃ c more, token.text = c :: more ∧ Byte.isBlank c = false ∧
    lexeme? keywords c more = some (token.kind, more.length)

section Tokens

variable {offset taken : Nat} {token : Token} {tokens : List Token}

theorem standsAlone_of_tokenizeFrom (read : tokenizeFrom keywords offset taken t = .ok tokens) :
    ∀ token ∈ tokens, token.StandsAlone keywords := by
  induction t generalizing offset taken tokens with
  | nil =>
      obtain rfl := Except.ok.inj read
      simp
  | cons c rest ih =>
      cases taken with
      | succ taken => exact ih read
      | zero =>
          cases blank : Byte.isBlank c with
          | true =>
              rw [tokenizeFrom_of_blank blank] at read
              exact ih read
          | false =>
              cases found : lexeme? keywords c rest with
              | none =>
                  rw [tokenizeFrom_of_open blank found] at read
                  cases read
              | some lexeme =>
                  obtain ⟨kind, n⟩ := lexeme
                  rw [tokenizeFrom_of_lexeme blank found, map_eq_ok_iff] at read
                  obtain ⟨others, later, rfl⟩ := read
                  have size : (rest.take n).length = n :=
                    List.length_take_of_le (lexeme_of_lexeme? found).length_le
                  refine List.forall_mem_cons.mpr ⟨⟨c, rest.take n, rfl, blank, ?_⟩, ih later⟩
                  rw [size]
                  exact lexeme?_take found

theorem Token.StandsAlone.tokenizeFrom_append (alone : token.StandsAlone keywords)
    (apart : Apart Lexeme.isInner tail) (offset : Nat) :
    tokenizeFrom keywords offset 0 (token.text ++ tail) =
      (tokenizeFrom keywords (offset + token.text.length) 0 tail).map ({ token with offset } :: ·) := by
  obtain ⟨c, more, text, visible, found⟩ := alone
  have still : lexeme? keywords c (more ++ tail) = some (token.kind, more.length) := by
    rw [lexeme?_append apart (by simp [found]), found]
  have size : offset + token.text.length = offset + 1 + more.length := by
    rw [text, List.length_cons, Nat.add_assoc, Nat.add_comm 1]
  rw [size, text, List.cons_append, tokenizeFrom_of_lexeme visible still, tokenizeFrom_taken,
    List.drop_left, List.take_left]

theorem apart_behindSpaces (texts : List Text) : Apart Lexeme.isInner (behindSpaces texts) := by
  intro b first
  cases texts with
  | nil => cases first
  | cons text texts =>
      obtain rfl := Option.some.inj first
      rfl

theorem readsAlone_of_standsAlone (alone : ∀ token ∈ tokens, token.StandsAlone keywords) :
    ReadsAlone (fun offset => tokenizeFrom keywords offset 0) Token.text
      (fun offset token => { token with offset }) tokens where
  done _ := rfl
  space _ _ := tokenizeFrom_of_blank rfl
  token token member offset texts :=
    (alone token member).tokenizeFrom_append (apart_behindSpaces texts) offset
  placed _ _ := rfl

end Tokens

/-! ## Queries without tokens -/

/-- Reading a query from its start leads to the bytes `t`, past whitespace and tokens. -/
inductive LeadsTo (keywords : NameSet) (t : Text) : Text → Prop where
  | here : LeadsTo keywords t t
  | blank {c : UInt8} {rest : Text} (blank : Byte.isBlank c = true)
      (more : LeadsTo keywords t rest) : LeadsTo keywords t (c :: rest)
  | token {c : UInt8} {rest : Text} {kind : TokenKind} {n : Nat} (visible : Byte.isBlank c = false)
      (lexeme : lexeme? keywords c rest = some (kind, n)) (more : LeadsTo keywords t (rest.drop n)) :
      LeadsTo keywords t (c :: rest)

theorem lexeme?_eq_none_iff :
    lexeme? keywords c rest = none ↔ c ∈ quotes ∧ Nesting.Hides c [] rest := by
  constructor
  · intro absent
    obtain ⟨quoted, unclosed⟩ := openLiteral_of_lexeme? absent
    exact ⟨quoted, (Nesting.span?_eq_none_iff (quoting_quotes.unescaping c quoted) rfl).mp unclosed⟩
  · rintro ⟨quoted, hidden⟩
    have unclosed := (Nesting.span?_eq_none_iff (quoting_quotes.unescaping c quoted) rfl).mpr hidden
    rw [lexeme?, if_pos (mem_quotes_iff.mp quoted), unclosed]
    rfl

theorem tokenizeFrom_eq_error_iff {offset taken : Nat} {rejection : Rejection} :
    tokenizeFrom keywords offset taken t = .error rejection ↔
      ∃ c rest, rejection = .openLiteral (c :: rest) ∧ LeadsTo keywords (c :: rest) (t.drop taken) ∧
        Byte.isBlank c = false ∧ lexeme? keywords c rest = none := by
  induction t generalizing offset taken with
  | nil =>
      refine iff_of_false (by simp [tokenizeFrom]) ?_
      rintro ⟨c, rest, -, leads, -⟩
      rw [List.drop_nil] at leads
      cases leads
  | cons b t ih =>
      cases taken with
      | succ taken => exact ih
      | zero =>
          rw [List.drop_zero]
          cases blank : Byte.isBlank b with
          | true =>
              rw [tokenizeFrom_of_blank blank, ih, List.drop_zero]
              constructor
              · rintro ⟨c, rest, same, leads, open_⟩
                exact ⟨c, rest, same, .blank blank leads, open_⟩
              · rintro ⟨c, rest, same, leads, visible, absent⟩
                cases leads with
                | here => exact absurd (blank.symm.trans visible) (by decide)
                | blank _ leads => exact ⟨c, rest, same, leads, visible, absent⟩
                | token seen => exact absurd (blank.symm.trans seen) (by decide)
          | false =>
              cases found : lexeme? keywords b t with
              | none =>
                  rw [tokenizeFrom_of_open blank found]
                  constructor
                  · intro same
                    exact ⟨b, t, (Except.error.inj same).symm, .here, blank, found⟩
                  · rintro ⟨c, rest, rfl, leads, -⟩
                    cases leads with
                    | here => rfl
                    | blank seen => exact absurd (seen.symm.trans blank) (by decide)
                    | token _ lexeme => exact absurd (found.symm.trans lexeme) (by simp)
              | some lexeme =>
                  rw [tokenizeFrom_of_lexeme blank found, map_eq_error_iff, ih]
                  constructor
                  · rintro ⟨c, rest, same, leads, open_⟩
                    exact ⟨c, rest, same, .token blank found leads, open_⟩
                  · rintro ⟨c, rest, same, leads, visible, absent⟩
                    cases leads with
                    | here => exact absurd (found.symm.trans absent) (by simp)
                    | blank seen => exact absurd (seen.symm.trans blank) (by decide)
                    | token _ lexeme leads =>
                        obtain ⟨rfl, rfl⟩ := Prod.mk.inj (Option.some.inj (found.symm.trans lexeme))
                        exact ⟨c, rest, same, leads, visible, absent⟩

/-- Of a query its tokens leave out nothing but whitespace, and their texts with spaces between them have
the same tokens again. A query has tokens unless reading it leads to a quote behind which no quote of its
kind stands unescaped. -/
theorem tokens_keep_query (keywords : NameSet) (query : Text) :
    (∀ tokens, tokenize keywords query = .ok tokens →
      Lossless IsGap query (tokens.map Token.extent) ∧
      ∃ others, tokenize keywords (spaced (tokens.map Token.text)) = .ok others ∧
        others.map Token.unplaced = tokens.map Token.unplaced) ∧
    ∀ rejection, tokenize keywords query = .error rejection ↔
      ∃ quote rest, rejection = .openLiteral (quote :: rest) ∧
        LeadsTo keywords (quote :: rest) query ∧ quote ∈ quotes ∧ Nesting.Hides quote [] rest := by
  constructor
  · intro tokens read
    refine ⟨(lexed_of_tokenizeFrom read).cut.lossless, ?_⟩
    exact (readsAlone_of_standsAlone (standsAlone_of_tokenizeFrom read)).spaced_ok
  · intro rejection
    rw [tokenize, tokenizeFrom_eq_error_iff, List.drop_zero]
    constructor
    · rintro ⟨quote, rest, same, leads, -, absent⟩
      exact ⟨quote, rest, same, leads, lexeme?_eq_none_iff.mp absent⟩
    · rintro ⟨quote, rest, same, leads, opens, hidden⟩
      have visible : Byte.isBlank quote = false := by
        rcases mem_quotes_iff.mp opens with rfl | rfl <;> rfl
      exact ⟨quote, rest, same, leads, visible, lexeme?_eq_none_iff.mpr ⟨opens, hidden⟩⟩

/-- Tokens with one space between them: without it the last two would be one custom field. -/
def denseQuery : Text := ascii "cf[10<=-2d'a\\\\'and!~cf ["

/-- A literal whose closing quote is escaped, behind one that is closed. -/
def openQuery : Text := ascii "a = 'b\\\\' or \"c\\\""

theorem tokens_keep_query_denseQuery :
    (∃ tokens, tokenize Rules.builtin.keywords denseQuery = .ok tokens ∧
      Lossless IsGap denseQuery (tokens.map Token.extent) ∧
      ∃ others,
        tokenize Rules.builtin.keywords (ascii "cf[10 <= -2d 'a\\\\' and !~ cf [") = .ok others ∧
          others.map Token.unplaced = tokens.map Token.unplaced) ∧
    ∃ quote rest, LeadsTo Rules.builtin.keywords (quote :: rest) openQuery ∧
      quote :: rest = ascii "\"c\\\"" ∧ Nesting.Hides quote [] rest := by
  constructor
  · have texts : (tokenize Rules.builtin.keywords denseQuery).map
        (fun tokens => spaced (tokens.map Token.text)) =
          .ok (ascii "cf[10 <= -2d 'a\\\\' and !~ cf [") := by decide +kernel
    obtain ⟨tokens, read, texts⟩ := map_eq_ok_iff.mp texts
    obtain ⟨lossless, others, again, same⟩ :=
      (tokens_keep_query Rules.builtin.keywords denseQuery).1 tokens read
    rw [texts] at again
    exact ⟨tokens, read, lossless, others, again, same⟩
  · have refused : tokenize Rules.builtin.keywords openQuery =
        .error (.openLiteral (ascii "\"c\\\"")) := by decide +kernel
    obtain ⟨quote, rest, found, leads, -, hidden⟩ :=
      ((tokens_keep_query Rules.builtin.keywords openQuery).2 _).mp refused
    exact ⟨quote, rest, leads, (Rejection.openLiteral.inj found).symm, hidden⟩

end QueryGate.Jql
