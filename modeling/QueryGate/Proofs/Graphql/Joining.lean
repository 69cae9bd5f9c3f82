import QueryGate.Proofs.Graphql.Lexing
import QueryGate.Proofs.Joining
import QueryGate.Proofs.Quoted

/-! # Tokens of documents put together

As for queries, with two things to mind: quotes on both sides of the seam may make a fence, and a
comment at the end of the first text goes on into the second.
-/

namespace QueryGate.Graphql

open Text

/-- The token `k` bytes further on. -/
def Token.shift (k : Nat) (token : Token) : Token := { token with offset := token.offset + k }

/-- Whether a byte may go on with a token that is no literal. -/
def isJoint (b : UInt8) : Bool :=
  Byte.isWord b || b == Byte.dot || b == Byte.plus || b == Byte.minus

theorem isJoint_of_isWord {b : UInt8} (word : Byte.isWord b = true) : isJoint b = true := by
  simp [isJoint, word]

theorem isJoint_of_isNumeric {b : UInt8} (numeric : isNumeric b = true) : isJoint b = true := by
  simp only [isNumeric, Bool.or_eq_true, beq_iff_eq] at numeric
  rcases numeric with ((digit | rfl) | exponent) | rfl | rfl
  · exact isJoint_of_isWord (Byte.isWord_of_isDigit digit)
  · rfl
  · exact isJoint_of_isWord (Byte.isWord_of_isLower_lower (by rw [exponent]; rfl))
  · rfl
  · rfl

theorem not_isJoint_of_isBlank {b : UInt8} (blank : Byte.isBlank b = true) : isJoint b = false := by
  have wordless := Byte.not_isWord_of_isBlank blank
  grind [isJoint, Byte.isBlank]

theorem joint_of_mem_dots : ∀ b ∈ ascii "...", isJoint b = true := by
  simp [ascii]
  decide

/-- No token of `s` can go on into `t`, comments and literals left aside. -/
structure Meets (s t : Text) : Prop where
  apart : Apart isJoint t
  quotes : t.head? = some Byte.doubleQuote → s.getLast? ≠ some Byte.doubleQuote

variable {c : UInt8} {rest s t : Text}

theorem Meets.tail (meets : Meets (c :: s) t) : Meets s t := by
  refine ⟨meets.apart, fun opening last => meets.quotes opening ?_⟩
  rw [List.getLast?_cons, last, Option.getD_some]

theorem meets_of_isBlank (blank : t.Blank) (s : Text) : Meets s t := by
  refine ⟨blank.apart fun _ => not_isJoint_of_isBlank, fun opening => ?_⟩
  exact absurd (List.mem_of_mem_head? opening) (blank.not_mem (by decide))

/-! ## One token -/

theorem numberSpan_append (apart : Apart isJoint t) :
    numberSpan c (rest ++ t) = numberSpan c rest := by
  induction rest generalizing c with
  | cons b rest ih => simp only [List.cons_append, numberSpan, ih]
  | nil =>
      cases t with
      | nil => rfl
      | cons b t =>
          have outside := apart b rfl
          rw [List.nil_append, numberSpan, numberSpan, if_neg]
          intro continues
          have numeric : isNumeric b = true := by
            dsimp only at continues
            simp only [isNumeric, Bool.or_eq_true, Bool.and_eq_true] at continues ⊢
            exact continues.imp_right And.left
          rw [isJoint_of_isNumeric numeric] at outside
          cases outside

theorem lexeme?_append (meets : Meets (c :: rest) t)
    (stays : lexeme? c rest = none → Byte.doubleQuote ∉ t) :
    lexeme? c (rest ++ t) = lexeme? c rest := by
  have apart := meets.apart
  have fences : Quoted.fence.isPrefixOf (c :: (rest ++ t).take 2) =
      Quoted.fence.isPrefixOf (c :: rest.take 2) := by
    have quote : ∀ b ∈ Quoted.fence, b = Byte.doubleQuote := by simp [Quoted.fence]
    refine isPrefixOf_take_append (by decide) fun b first among => ?_
    obtain rfl := quote b among
    cases ends : (c :: rest).getLast? with
    | none => simp at ends
    | some last =>
        refine ⟨last, rfl, fun inFence => ?_⟩
        obtain rfl := quote last inFence
        exact meets.quotes first ends
  have dots : (ascii "...").isPrefixOf (c :: (rest ++ t).take 2) =
      (ascii "...").isPrefixOf (c :: rest.take 2) := by
    refine isPrefixOf_take_append (by decide) fun b first among => ?_
    have outside := apart b first
    rw [joint_of_mem_dots b among] at outside
    cases outside
  have word : ∀ b, Byte.isWord b = true → isJoint b = true := fun _ => isJoint_of_isWord
  have start : ∀ b, Byte.isNameStart b = true → isJoint b = true :=
    fun b starts => word b (Byte.isWord_of_isNameStart starts)
  have digit : ∀ b, Byte.isDigit b = true → isJoint b = true :=
    fun b digit => word b (Byte.isWord_of_isDigit digit)
  unfold lexeme? startsNumber at stays ⊢
  rw [fences, dots, (apart.mono word).takeWhile_append, (apart.mono start).any_head?_append,
    (apart.mono digit).any_head?_append, numberSpan_append apart]
  cases fenced : Quoted.fence.isPrefixOf (c :: rest.take 2) with
  | true =>
      have long := two_le_of_isPrefixOf rfl fenced
      rw [fenced, if_pos rfl] at stays
      rw [if_pos rfl, if_pos rfl, List.drop_append_of_le_length long, Quoted.throughFence?_append_eq]
      exact fun closes => stays (by rw [closes]; rfl)
  | false =>
      rw [fenced, if_neg Bool.false_ne_true] at stays
      rw [if_neg Bool.false_ne_true, if_neg Bool.false_ne_true]
      by_cases quoted : c = Byte.doubleQuote
      · rw [if_pos quoted] at stays
        rw [if_pos quoted, if_pos quoted, Quoted.span?_append_eq]
        exact fun closes => quoted ▸ stays (by rw [closes]; rfl)
      · rw [if_neg quoted, if_neg quoted]

/-! ## All tokens -/

section Tokens

variable {offset taken n : Nat} {kind : TokenKind} {tokens : List Token}

theorem tokenizeFrom_shift (k offset taken : Nat) (t : Text) :
    tokenizeFrom (offset + k) taken t =
      (tokenizeFrom offset taken t).map (List.map (Token.shift k)) := by
  induction t generalizing offset taken with
  | nil => rfl
  | cons c rest ih =>
      have onward : offset + k + 1 = offset + 1 + k := by omega
      cases taken with
      | succ taken => rw [tokenizeFrom, tokenizeFrom, onward, ih]
      | zero =>
          cases blank : Byte.isBlank c with
          | true => rw [tokenizeFrom_of_blank blank, tokenizeFrom_of_blank blank, onward, ih]
          | false =>
              by_cases comments : c = Byte.hash
              · rw [comments, tokenizeFrom_of_hash, tokenizeFrom_of_hash, onward, ih]
              cases found : lexeme? c rest with
              | none =>
                  rw [tokenizeFrom_of_open blank comments found,
                    tokenizeFrom_of_open blank comments found]
                  rfl
              | some lexeme =>
                  rw [tokenizeFrom_of_lexeme blank comments found,
                    tokenizeFrom_of_lexeme blank comments found, onward, ih, map_map, map_map]
                  rfl

theorem tokenizeFrom_blank_append {lead : Text} (blank : lead.Blank) (offset : Nat) (t : Text) :
    tokenizeFrom offset 0 (lead ++ t) = tokenizeFrom (offset + lead.length) 0 t := by
  induction lead generalizing offset with
  | nil => rfl
  | cons b lead ih =>
      rw [List.cons_append, tokenizeFrom_of_blank (blank b List.mem_cons_self), ih blank.tail,
        List.length_cons, Nat.add_assoc, Nat.add_comm 1]

/-- Whether a comment at the start of a text goes on behind the text or not, it leaves the same
tokens in the text. -/
theorem tokenizeFrom_comment (offset : Nat) (rest t : Text) :
    tokenizeFrom offset ((rest ++ t).takeWhile (· ≠ Byte.lineFeed)).length rest =
      tokenizeFrom offset (rest.takeWhile (· ≠ Byte.lineFeed)).length rest := by
  rw [List.takeWhile_append]
  split
  · next whole =>
      rw [whole, tokenizeFrom_taken, tokenizeFrom_taken offset rest.length, List.drop_length,
        List.drop_of_length_le (by simp)]
      rfl
  · rfl

/-- The tokens of two texts put together are those of the first and then those of the second, where
`k` bytes of the second may belong to a token or a comment of the first. -/
theorem tokenizeFrom_append (meets : Meets s t)
    (read : tokenizeFrom offset taken s = .ok tokens) :
    ∃ k, tokenizeFrom offset taken (s ++ t) =
        (tokenizeFrom (offset + s.length) k t).map (tokens ++ ·) ∧
      (taken ≤ s.length → Byte.hash ∉ s → k = 0) := by
  induction s generalizing offset taken tokens with
  | nil =>
      obtain rfl := Except.ok.inj read
      exact ⟨taken, (congrFun Except.map_id _).symm, fun fits _ => Nat.le_zero.mp fits⟩
  | cons c rest ih =>
      have later : Byte.hash ∉ c :: rest → Byte.hash ∉ rest := mt (List.mem_cons_of_mem c)
      rw [List.length_cons, Nat.add_comm _ 1, ← Nat.add_assoc]
      cases taken with
      | succ taken =>
          obtain ⟨k, joined, ends⟩ := ih meets.tail read
          exact ⟨k, joined, fun fits bare => ends (by omega) (later bare)⟩
      | zero =>
          cases blank : Byte.isBlank c with
          | true =>
              rw [tokenizeFrom_of_blank blank] at read
              obtain ⟨k, joined, ends⟩ := ih meets.tail read
              refine ⟨k, ?_, fun _ bare => ends (Nat.zero_le _) (later bare)⟩
              rw [List.cons_append, tokenizeFrom_of_blank blank, joined]
          | false =>
              by_cases comments : c = Byte.hash
              · subst comments
                rw [tokenizeFrom_of_hash, ← tokenizeFrom_comment _ rest t] at read
                obtain ⟨k, joined, -⟩ := ih meets.tail read
                refine ⟨k, ?_, fun _ bare => absurd List.mem_cons_self bare⟩
                rw [List.cons_append, tokenizeFrom_of_hash, joined]
              cases found : lexeme? c rest with
              | none =>
                  rw [tokenizeFrom_of_open blank comments found] at read
                  cases read
              | some lexeme =>
                  obtain ⟨kind, n⟩ := lexeme
                  have fits := (lexeme_of_lexeme? found).length_le
                  have same : lexeme? c (rest ++ t) = some (kind, n) := by
                    rw [lexeme?_append meets (by simp [found]), found]
                  rw [tokenizeFrom_of_lexeme blank comments found, map_eq_ok_iff] at read
                  obtain ⟨others, read, rfl⟩ := read
                  obtain ⟨k, joined, ends⟩ := ih meets.tail read
                  refine ⟨k, ?_, fun _ bare => ends fits (later bare)⟩
                  rw [List.cons_append, tokenizeFrom_of_lexeme blank comments same, joined,
                    List.take_append_of_le_length fits, map_map]
                  rfl

theorem tokenizeFrom_append_error {rejection : Rejection} (meets : Meets s t)
    (unquoted : Byte.doubleQuote ∉ t)
    (stays : tokenizeFrom offset taken s = .error rejection) :
    ∃ other, tokenizeFrom offset taken (s ++ t) = .error other := by
  induction s generalizing offset taken rejection with
  | nil => cases stays
  | cons c rest ih =>
      cases taken with
      | succ taken => exact ih meets.tail stays
      | zero =>
          cases blank : Byte.isBlank c with
          | true =>
              rw [tokenizeFrom_of_blank blank] at stays
              rw [List.cons_append, tokenizeFrom_of_blank blank]
              exact ih meets.tail stays
          | false =>
              by_cases comments : c = Byte.hash
              · subst comments
                rw [tokenizeFrom_of_hash, ← tokenizeFrom_comment _ rest t] at stays
                rw [List.cons_append, tokenizeFrom_of_hash]
                exact ih meets.tail stays
              have same : lexeme? c (rest ++ t) = lexeme? c rest :=
                lexeme?_append meets fun _ => unquoted
              cases found : lexeme? c rest with
              | none => exact ⟨_, tokenizeFrom_of_open blank comments (same.trans found)⟩
              | some lexeme =>
                  rw [tokenizeFrom_of_lexeme blank comments found, map_eq_error_iff] at stays
                  obtain ⟨other, remains⟩ := ih meets.tail stays
                  rw [List.cons_append,
                    tokenizeFrom_of_lexeme blank comments (same.trans found), remains]
                  exact ⟨other, rfl⟩

end Tokens

section Pieces

variable {tokens first last : List Token}

theorem tokenizeFrom_of_blanks (blank : t.Blank) (offset taken : Nat) :
    tokenizeFrom offset taken t = .ok [] := by
  have rest : Text.Blank (t.drop taken) := fun b member => blank b (List.mem_of_mem_drop member)
  rw [tokenizeFrom_taken, ← List.append_nil (t.drop taken), tokenizeFrom_blank_append rest]
  rfl

theorem tokenize_of_margins {lead core trail : Text} (front : lead.Blank) (back : trail.Blank)
    (read : tokenize (lead ++ (core ++ trail)) = .ok tokens) :
    ∃ others, tokenize core = .ok others ∧ tokens = others.map (Token.shift lead.length) := by
  have meets := meets_of_isBlank back core
  rw [tokenize, tokenizeFrom_blank_append front, tokenizeFrom_shift, map_eq_ok_iff] at read
  obtain ⟨others, read, rfl⟩ := read
  refine ⟨others, ?_, rfl⟩
  cases alone : tokenizeFrom 0 0 core with
  | error =>
      obtain ⟨rejection, stays⟩ := tokenizeFrom_append_error meets (back.not_mem (by decide)) alone
      rw [stays] at read
      cases read
  | ok found =>
      obtain ⟨k, joined, -⟩ := tokenizeFrom_append meets alone
      rw [joined, tokenizeFrom_of_blanks back] at read
      rw [← read]
      simp [Except.map, tokenize, alone]

theorem tokenize_of_isCore {core : Text} (isCore : core.IsCore t) (read : tokenize t = .ok tokens) :
    ∃ others k, tokenize core = .ok others ∧ tokens = others.map (Token.shift k) := by
  obtain ⟨lead, trail, front, back, rfl⟩ := isCore.between
  obtain ⟨others, again, same⟩ := tokenize_of_margins front back read
  exact ⟨others, lead.length, again, same⟩

theorem tokenize_literal {before contents after : Text}
    (sealed_ : Quoted.isSealed Byte.doubleQuote contents = true)
    (uncommented : Byte.hash ∉ before) (apart : before.getLast? ≠ some Byte.doubleQuote)
    (unfenced : after.head? ≠ some Byte.doubleQuote)
    (front : tokenize before = .ok first) (back : tokenize after = .ok last) :
    tokenize (before ++ (Quoted.literal contents ++ after)) =
      .ok (first ++ ⟨.string, Quoted.literal contents, before.length⟩ ::
        last.map (Token.shift (before.length + (Quoted.literal contents).length))) := by
  have unescaping : Byte.doubleQuote ≠ Byte.backslash := by decide
  have meets : Meets before (Byte.doubleQuote :: (contents ++ Byte.doubleQuote :: after)) := by
    refine ⟨fun b opening => ?_, fun _ => apart⟩
    obtain rfl := Option.some.inj opening
    decide
  have closes : lexeme? Byte.doubleQuote (contents ++ Byte.doubleQuote :: after) =
      some (.string, contents.length + 1) := by
    rw [lexeme?, Quoted.fence_of_isSealed sealed_ unfenced, if_neg Bool.false_ne_true, if_pos rfl,
      Quoted.span?_of_isSealed sealed_ unescaping]
    rfl
  have beyond : tokenizeFrom (0 + before.length + 1) (contents.length + 1)
        (contents ++ Byte.doubleQuote :: after) =
      .ok (last.map (Token.shift (before.length + (Quoted.literal contents).length))) := by
    have place : 0 + before.length + 1 + (contents.length + 1) =
        0 + (before.length + (Quoted.literal contents).length) := by
      simp only [Quoted.literal, List.length_cons, List.length_append, List.length_nil]
      omega
    rw [tokenizeFrom_taken, List.drop_length_add_append, place, tokenizeFrom_shift]
    exact map_eq_ok_iff.mpr ⟨last, back, rfl⟩
  obtain ⟨k, joined, ends⟩ := tokenizeFrom_append meets front
  obtain rfl := ends (Nat.zero_le _) uncommented
  rw [Quoted.literal_append, tokenize, joined,
    tokenizeFrom_of_lexeme (by decide) (by decide) closes, beyond, List.take_length_add_append]
  simp [Except.map, Quoted.literal, tokenText]

end Pieces

end QueryGate.Graphql
