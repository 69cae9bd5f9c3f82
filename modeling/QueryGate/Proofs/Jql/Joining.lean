import QueryGate.Proofs.Jql.Lexing
import QueryGate.Proofs.Joining
import QueryGate.Proofs.Quoted

/-! # Tokens of queries put together

The tokens of two texts put together are the tokens of the first and then those of the second, as
long as the first has tokens and the second does not go on with a byte that its last token would
take.
-/

namespace QueryGate.Jql

open Text

/-- The token `k` bytes further on. -/
def Token.shift (k : Nat) (token : Token) : Token := { token with offset := token.offset + k }

variable {keywords : NameSet} {c : UInt8} {rest s t : Text}

/-! ## One token -/

section Lexemes

variable (apart : Apart Lexeme.isInner t)

include apart

theorem startsCustomField_append :
    startsCustomField c (rest ++ t) = startsCustomField c rest := by
  have lowered : ∀ more : Text, startsCustomField c more =
      (ascii "cf[").isPrefixOf (Byte.lower c :: (Text.toLower more).take 2) := by
    intro more
    rw [startsCustomField, Text.toLower, Text.toLower, List.map_cons, List.map_take]
  rw [lowered, lowered, Text.toLower, List.map_append]
  refine isPrefixOf_take_append (by decide) fun b first among => ?_
  cases t with
  | nil => cases first
  | cons d t =>
      obtain rfl := Option.some.inj first
      have outside := apart d rfl
      rw [Lexeme.isInner, isFieldByte_of_lower among] at outside
      cases outside

theorem customFieldSpan_append (starts : startsCustomField c rest = true) :
    customFieldSpan (rest ++ t) = customFieldSpan rest := by
  obtain ⟨-, d, e, more, rfl, -, -⟩ := startsCustomField_cons starts
  have stops : (more ++ t).takeWhile Byte.isWord = more.takeWhile Byte.isWord :=
    (apart.mono fun _ => Lexeme.isInner_of_isWord).takeWhile_append
  have within := (List.takeWhile_prefix (p := Byte.isWord) (l := more)).length_le
  have closed : ((more ++ t).drop (more.takeWhile Byte.isWord).length).head?.any
        (· == Byte.closeBracket) =
      (more.drop (more.takeWhile Byte.isWord).length).head?.any (· == Byte.closeBracket) := by
    rw [List.drop_append_of_le_length within]
    refine (apart.mono fun b closes => ?_).any_head?_append
    obtain rfl := eq_of_beq closes
    rfl
  have asked : ∀ o : Option UInt8, (o == some Byte.closeBracket) = o.any (· == Byte.closeBracket) := by
    intro o
    cases o <;> rfl
  simp only [customFieldSpan, List.cons_append, List.drop_succ_cons, List.drop_zero, stops, asked,
    closed]

theorem startsNumber_append : startsNumber c (rest ++ t) = startsNumber c rest := by
  have digit : ∀ b, Byte.isDigit b = true → Lexeme.isInner b = true :=
    fun _ digit => Lexeme.isInner_of_isWord (Byte.isWord_of_isDigit digit)
  rw [startsNumber, (apart.mono digit).any_head?_append, startsNumber]

theorem lexeme?_append
    (stays : lexeme? keywords c rest = none →
      ∀ quote, quote = Byte.doubleQuote ∨ quote = Byte.singleQuote → quote ∉ t) :
    lexeme? keywords c (rest ++ t) = lexeme? keywords c rest := by
  have second : ∀ b, isLongOperator c b = true → Lexeme.isInner b = true := by
    intro b long
    simp only [isLongOperator, Bool.or_eq_true, Bool.and_eq_true, beq_iff_eq] at long
    rcases long with ⟨-, rfl | rfl⟩ | ⟨-, rfl⟩ <;> decide
  unfold lexeme? at stays ⊢
  rw [startsCustomField_append apart, startsNumber_append apart,
    (apart.mono fun _ => Lexeme.isInner_of_isWord).takeWhile_append,
    (apart.mono fun _ => Lexeme.isInner_of_isNumberByte).takeWhile_append,
    (apart.mono second).any_head?_append]
  by_cases quoted : c = Byte.doubleQuote ∨ c = Byte.singleQuote
  · rw [if_pos quoted] at stays
    rw [if_pos quoted, if_pos quoted, Quoted.span?_append_eq]
    exact fun closes => stays (by rw [closes]; rfl) c quoted
  rw [if_neg quoted, if_neg quoted]
  cases field : startsCustomField c rest with
  | false => rfl
  | true => rw [if_pos rfl, if_pos rfl, customFieldSpan_append apart field]

end Lexemes

/-! ## All tokens -/

section Tokens

variable {offset taken n : Nat} {kind : TokenKind} {tokens : List Token}

theorem tokenizeFrom_shift (k offset taken : Nat) (t : Text) :
    tokenizeFrom keywords (offset + k) taken t =
      (tokenizeFrom keywords offset taken t).map (List.map (Token.shift k)) := by
  induction t generalizing offset taken with
  | nil => rfl
  | cons c rest ih =>
      have onward : offset + k + 1 = offset + 1 + k := by omega
      cases taken with
      | succ taken => rw [tokenizeFrom, tokenizeFrom, onward, ih]
      | zero =>
          cases blank : Byte.isBlank c with
          | true => rw [tokenizeFrom_of_blank blank, tokenizeFrom_of_blank blank, onward, ih]
          | false =>
              cases found : lexeme? keywords c rest with
              | none => rw [tokenizeFrom_of_open blank found, tokenizeFrom_of_open blank found]; rfl
              | some lexeme =>
                  rw [tokenizeFrom_of_lexeme blank found, tokenizeFrom_of_lexeme blank found,
                    onward, ih, map_map, map_map]
                  rfl

theorem tokenizeFrom_blank_append {lead : Text} (blank : lead.Blank) (offset : Nat) (t : Text) :
    tokenizeFrom keywords offset 0 (lead ++ t) =
      tokenizeFrom keywords (offset + lead.length) 0 t := by
  induction lead generalizing offset with
  | nil => rfl
  | cons b lead ih =>
      rw [List.cons_append, tokenizeFrom_of_blank (blank b List.mem_cons_self), ih blank.tail,
        List.length_cons, Nat.add_assoc, Nat.add_comm 1]

theorem tokenizeFrom_append (apart : Apart Lexeme.isInner t)
    (read : tokenizeFrom keywords offset taken s = .ok tokens) (fits : taken ≤ s.length) :
    tokenizeFrom keywords offset taken (s ++ t) =
      (tokenizeFrom keywords (offset + s.length) 0 t).map (tokens ++ ·) := by
  induction s generalizing offset taken tokens with
  | nil =>
      obtain rfl := Nat.le_zero.mp fits
      obtain rfl := Except.ok.inj read
      exact (congrFun Except.map_id _).symm
  | cons c rest ih =>
      rw [List.length_cons, Nat.add_comm _ 1, ← Nat.add_assoc]
      cases taken with
      | succ taken => exact ih read (Nat.le_of_succ_le_succ fits)
      | zero =>
          cases blank : Byte.isBlank c with
          | true =>
              rw [tokenizeFrom_of_blank blank] at read
              rw [List.cons_append, tokenizeFrom_of_blank blank]
              exact ih read (Nat.zero_le _)
          | false =>
              cases found : lexeme? keywords c rest with
              | none =>
                  rw [tokenizeFrom_of_open blank found] at read
                  cases read
              | some lexeme =>
                  obtain ⟨kind, n⟩ := lexeme
                  have fits := (lexeme_of_lexeme? found).length_le
                  have same : lexeme? keywords c (rest ++ t) = some (kind, n) := by
                    rw [lexeme?_append apart (by simp [found]), found]
                  rw [tokenizeFrom_of_lexeme blank found, map_eq_ok_iff] at read
                  obtain ⟨others, later, rfl⟩ := read
                  rw [List.cons_append, tokenizeFrom_of_lexeme blank same, ih later fits,
                    List.take_append_of_le_length fits, map_map]
                  rfl

theorem tokenizeFrom_append_error {rejection : Rejection} (apart : Apart Lexeme.isInner t)
    (unquoted : ∀ quote, quote = Byte.doubleQuote ∨ quote = Byte.singleQuote → quote ∉ t)
    (stays : tokenizeFrom keywords offset taken s = .error rejection) :
    ∃ other, tokenizeFrom keywords offset taken (s ++ t) = .error other := by
  induction s generalizing offset taken rejection with
  | nil => cases stays
  | cons c rest ih =>
      cases taken with
      | succ taken => exact ih stays
      | zero =>
          cases blank : Byte.isBlank c with
          | true =>
              rw [tokenizeFrom_of_blank blank] at stays
              rw [List.cons_append, tokenizeFrom_of_blank blank]
              exact ih stays
          | false =>
              have same : lexeme? keywords c (rest ++ t) = lexeme? keywords c rest :=
                lexeme?_append apart fun _ => unquoted
              cases found : lexeme? keywords c rest with
              | none => exact ⟨_, tokenizeFrom_of_open blank (same.trans found)⟩
              | some lexeme =>
                  rw [tokenizeFrom_of_lexeme blank found, map_eq_error_iff] at stays
                  obtain ⟨other, remains⟩ := ih stays
                  rw [List.cons_append, tokenizeFrom_of_lexeme blank (same.trans found), remains]
                  exact ⟨other, rfl⟩

end Tokens

section Pieces

variable {tokens first last : List Token}

theorem tokenize_of_isCore {core : Text} (isCore : core.IsCore t)
    (read : tokenize keywords t = .ok tokens) :
    ∃ others k, tokenize keywords core = .ok others ∧ tokens = others.map (Token.shift k) := by
  have visible : ∀ quote, quote = Byte.doubleQuote ∨ quote = Byte.singleQuote →
      Byte.isBlank quote = false := by
    rintro quote (rfl | rfl) <;> rfl
  obtain ⟨lead, trail, front, back, rfl⟩ := isCore.between
  rw [tokenize, tokenizeFrom_blank_append front, tokenizeFrom_shift, map_eq_ok_iff] at read
  obtain ⟨others, read, rfl⟩ := read
  refine ⟨others, lead.length, ?_, rfl⟩
  cases alone : tokenizeFrom keywords 0 0 core with
  | error =>
      obtain ⟨rejection, stays⟩ := tokenizeFrom_append_error (back.apart fun _ => Lexeme.not_isInner_of_isBlank)
        (fun quote opening => back.not_mem (visible quote opening)) alone
      rw [stays] at read
      cases read
  | ok found =>
      have ends : tokenizeFrom keywords (0 + core.length) 0 trail = .ok [] := by
        rw [← List.append_nil trail, tokenizeFrom_blank_append back]
        rfl
      rw [tokenizeFrom_append (back.apart fun _ => Lexeme.not_isInner_of_isBlank) alone (Nat.zero_le _), ends] at read
      rw [← read]
      simp [Except.map, tokenize, alone]

/-- A literal with sealed contents is one token, and the tokens around it do not depend on the
contents. -/
theorem tokenize_literal {before contents after : Text}
    (sealed_ : Quoted.isSealed Byte.doubleQuote contents = true)
    (front : tokenize keywords before = .ok first) (back : tokenize keywords after = .ok last) :
    tokenize keywords (before ++ (Quoted.literal contents ++ after)) =
      .ok (first ++ ⟨.string, Quoted.literal contents, before.length⟩ ::
        last.map (Token.shift (before.length + (Quoted.literal contents).length))) := by
  have unescaping : Byte.doubleQuote ≠ Byte.backslash := by decide
  have apart : Apart Lexeme.isInner (Byte.doubleQuote :: (contents ++ Byte.doubleQuote :: after)) := by
    intro b opening
    obtain rfl := Option.some.inj opening
    decide
  have closes : lexeme? keywords Byte.doubleQuote (contents ++ Byte.doubleQuote :: after) =
      some (.string, contents.length + 1) := by
    rw [lexeme?, if_pos (Or.inl rfl), Quoted.span?_of_isSealed sealed_ unescaping]
    rfl
  have beyond : tokenizeFrom keywords (0 + before.length + 1) (contents.length + 1)
        (contents ++ Byte.doubleQuote :: after) =
      .ok (last.map (Token.shift (before.length + (Quoted.literal contents).length))) := by
    have place : 0 + before.length + 1 + (contents.length + 1) =
        0 + (before.length + (Quoted.literal contents).length) := by
      simp only [Quoted.literal, List.length_cons, List.length_append, List.length_nil]
      omega
    rw [tokenizeFrom_taken, List.drop_length_add_append, place, tokenizeFrom_shift]
    exact map_eq_ok_iff.mpr ⟨last, back, rfl⟩
  rw [Quoted.literal_append, tokenize, tokenizeFrom_append apart front (Nat.zero_le _),
    tokenizeFrom_of_lexeme (by decide) closes, beyond, List.take_length_add_append]
  simp [Except.map, Quoted.literal]

end Pieces

end QueryGate.Jql
