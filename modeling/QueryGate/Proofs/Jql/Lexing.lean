import QueryGate.Jql.Token
import QueryGate.Proofs.Bytes
import QueryGate.Proofs.Piece
import QueryGate.Proofs.Steps

/-! # The lexemes of a query

What a token may consist of is said once, by its first byte and what follows, and what a whole
query consists of once, as whitespace and tokens in turn. From these two descriptions follow the
places of the tokens: they lie in order, they do not overlap, and every byte that is not
whitespace lies in one of them.
-/

namespace QueryGate.Jql

/-- What may stand at the first byte `c` of a token and the bytes `rest` after it: the kind of the
token, and how many bytes of `rest` belong to it. -/
inductive Lexeme (keywords : NameSet) (c : UInt8) (rest : Text) : TokenKind → Nat → Prop where
  | string {n} (quoted : c = Byte.doubleQuote ∨ c = Byte.singleQuote)
      (closes : Quoted.span? c rest = some n) : Lexeme keywords c rest .string n
  | customField (starts : startsCustomField c rest = true) :
      Lexeme keywords c rest .customField (customFieldSpan rest)
  | keyword (starts : Byte.isNameStart c = true)
      (listed : keywords.contains (Text.toLower (c :: rest.takeWhile Byte.isWord)) = true) :
      Lexeme keywords c rest .keyword (rest.takeWhile Byte.isWord).length
  | identifier (starts : Byte.isNameStart c = true)
      (unlisted : keywords.contains (Text.toLower (c :: rest.takeWhile Byte.isWord)) = false) :
      Lexeme keywords c rest .identifier (rest.takeWhile Byte.isWord).length
  | number (starts : startsNumber c rest = true) :
      Lexeme keywords c rest .number (rest.takeWhile isNumberByte).length
  | comparison {d more} (follows : rest = d :: more) (long : isLongOperator c d = true) :
      Lexeme keywords c rest .operator 1
  | single (unquoted : ¬ (c = Byte.doubleQuote ∨ c = Byte.singleQuote))
      (unnamed : Byte.isNameStart c = false) (unnumbered : startsNumber c rest = false) :
      Lexeme keywords c rest (singleKind c) 0

theorem lexeme_of_lexeme? {keywords : NameSet} {c : UInt8} {rest : Text} {kind : TokenKind} {n : Nat}
    (found : lexeme? keywords c rest = some (kind, n)) : Lexeme keywords c rest kind n := by
  unfold lexeme? at found
  by_cases quoted : c = Byte.doubleQuote ∨ c = Byte.singleQuote
  · rw [if_pos quoted] at found
    obtain ⟨m, closes, same⟩ := Option.map_eq_some_iff.mp found
    obtain ⟨rfl, rfl⟩ := Prod.mk.inj same
    exact .string quoted closes
  rw [if_neg quoted] at found
  cases field : startsCustomField c rest with
  | true =>
      rw [if_pos field] at found
      obtain ⟨rfl, rfl⟩ := Prod.mk.inj (Option.some.inj found)
      exact .customField field
  | false =>
      rw [if_neg (by simp [field])] at found
      cases named : Byte.isNameStart c with
      | true =>
          rw [if_pos named] at found
          obtain ⟨kinded, rfl⟩ := Prod.mk.inj (Option.some.inj found)
          subst kinded
          cases listed : keywords.contains (Text.toLower (c :: rest.takeWhile Byte.isWord)) with
          | true => exact .keyword named listed
          | false => exact .identifier named listed
      | false =>
          rw [if_neg (by simp [named])] at found
          cases numbered : startsNumber c rest with
          | true =>
              rw [if_pos numbered] at found
              obtain ⟨rfl, rfl⟩ := Prod.mk.inj (Option.some.inj found)
              exact .number numbered
          | false =>
              rw [if_neg (by simp [numbered])] at found
              cases long : rest.head?.any (isLongOperator c) with
              | true =>
                  rw [if_pos long] at found
                  obtain ⟨rfl, rfl⟩ := Prod.mk.inj (Option.some.inj found)
                  cases rest with
                  | nil => simp at long
                  | cons d more => exact .comparison rfl (by simpa using long)
              | false =>
                  rw [if_neg (by simp [long])] at found
                  obtain ⟨rfl, rfl⟩ := Prod.mk.inj (Option.some.inj found)
                  exact .single quoted named numbered

/-- A byte of the name of a custom field, its brackets included. -/
def isFieldByte (b : UInt8) : Bool :=
  Byte.isWord b || b == Byte.openBracket || b == Byte.closeBracket

theorem isFieldByte_of_isWord {b : UInt8} (word : Byte.isWord b = true) : isFieldByte b = true := by
  simp [isFieldByte, word]

theorem isFieldByte_of_lower {b : UInt8} (among : Byte.lower b ∈ ascii "cf[") :
    isFieldByte b = true := by
  have letters : ascii "cf[" = [0x63, 0x66, Byte.openBracket] := by decide
  simp only [letters, List.mem_cons, List.not_mem_nil, or_false] at among
  grind [isFieldByte, Byte.lower, Byte.isWord, Byte.isAlphanumeric, Byte.isLetter, Byte.isUpper,
    Byte.isLower]

theorem startsCustomField_cons {c : UInt8} {rest : Text} (starts : startsCustomField c rest = true) :
    isFieldByte c = true ∧ ∃ d e more, rest = d :: e :: more ∧
      isFieldByte d = true ∧ isFieldByte e = true := by
  have word : ascii "cf[" = [0x63, 0x66, 0x5B] := by decide
  have letter : ∀ a b, a ∈ ascii "cf[" → a = Byte.lower b → isFieldByte b = true :=
    fun a b among same => isFieldByte_of_lower (same ▸ among)
  unfold startsCustomField at starts
  match rest with
  | [] | [_] => simp [word, Text.toLower] at starts
  | d :: e :: more =>
      simp only [word, Text.toLower, List.take_succ_cons, List.take_zero, List.map_cons,
        List.map_nil, List.isPrefixOf_cons_cons, List.isPrefixOf_nil_left, Bool.and_true,
        Bool.and_eq_true, beq_iff_eq] at starts
      exact ⟨letter _ c (by decide) starts.1, d, e, more, rfl, letter _ d (by decide) starts.2.1,
        letter _ e (by decide) starts.2.2⟩

theorem customFieldSpan_bytes {c : UInt8} {rest : Text}
    (starts : startsCustomField c rest = true) :
    customFieldSpan rest ≤ rest.length ∧
      ∀ b ∈ rest.take (customFieldSpan rest), isFieldByte b = true := by
  obtain ⟨-, d, e, more, rfl, second, third⟩ := startsCustomField_cons starts
  have taken : ∀ b ∈ more.takeWhile Byte.isWord, isFieldByte b = true :=
    fun b member => isFieldByte_of_isWord (List.all_eq_true.mp List.all_takeWhile b member)
  have divided := List.takeWhile_append_dropWhile (p := Byte.isWord) (l := more)
  simp only [customFieldSpan, List.drop_succ_cons, List.drop_zero]
  generalize more.takeWhile Byte.isWord = run at taken divided ⊢
  generalize more.dropWhile Byte.isWord = tail at divided
  subst divided
  rw [List.drop_left]
  have closing : ∃ k, (if (tail.head? == some Byte.closeBracket) = true then 1 else 0) = k ∧
      k ≤ tail.length ∧ ∀ b ∈ tail.take k, isFieldByte b = true := by
    cases tail with
    | nil => exact ⟨0, rfl, Nat.le_refl 0, by simp⟩
    | cons f tail =>
        by_cases closed : f = Byte.closeBracket
        · refine ⟨1, by simp [closed], by simp, ?_⟩
          simp [closed, isFieldByte]
        · exact ⟨0, by simp [closed], Nat.zero_le _, by simp⟩
  obtain ⟨k, span, fits, bracket⟩ := closing
  rw [span]
  have bytes : (d :: e :: (run ++ tail)).take (2 + run.length + k) =
      d :: e :: (run ++ tail.take k) := by
    rw [Nat.add_assoc, Nat.add_comm 2, List.take_succ_cons, List.take_succ_cons,
      List.take_length_add_append]
  refine ⟨by simp; omega, fun b member => ?_⟩
  rw [bytes] at member
  simp only [List.mem_cons, List.mem_append] at member
  rcases member with rfl | rfl | inside | inside
  · exact second
  · exact third
  · exact taken b inside
  · exact bracket b inside

namespace Lexeme

variable {keywords : NameSet} {c : UInt8} {rest : Text} {kind : TokenKind} {n : Nat}

theorem length_le (lexeme : Lexeme keywords c rest kind n) : n ≤ rest.length := by
  cases lexeme with
  | string _ closes => exact Quoted.span?_le closes
  | customField starts => exact (customFieldSpan_bytes starts).1
  | keyword | identifier | number => exact (List.takeWhile_prefix _).length_le
  | comparison follows _ => simp [follows]
  | single => exact Nat.zero_le _

/-- A byte that may stand inside a token of several bytes which is no literal. -/
def isInner (b : UInt8) : Bool :=
  isFieldByte b || isNumberByte b || b == Byte.plus || b == Byte.bang || b == Byte.equals ||
    b == Byte.less || b == Byte.greater || b == Byte.tilde

theorem isInner_of_isWord {b : UInt8} (word : Byte.isWord b = true) : isInner b = true := by
  simp [isInner, isFieldByte_of_isWord word]

theorem isInner_of_isNumberByte {b : UInt8} (number : isNumberByte b = true) :
    isInner b = true := by
  simp [isInner, number]

theorem not_isInner_of_isBlank {b : UInt8} (blank : Byte.isBlank b = true) :
    isInner b = false := by
  have wordless := Byte.not_isWord_of_isBlank blank
  grind [isInner, isFieldByte, isNumberByte, Byte.isWord, Byte.isBlank]

theorem inner_takeWhile {p : UInt8 → Bool} (inner : ∀ b, p b = true → isInner b = true) (t : Text) :
    ∀ b ∈ t.take (t.takeWhile p).length, isInner b = true := by
  intro b member
  rw [← List.prefix_iff_eq_take.mp (List.takeWhile_prefix p)] at member
  exact inner b (List.all_eq_true.mp List.all_takeWhile b member)

/-- Outside literals a token of a quote or a parenthesis has no other byte. -/
theorem inner_or_single (lexeme : Lexeme keywords c rest kind n) (unquoted : kind ≠ .string) :
    (∀ b ∈ c :: rest.take n, isInner b = true) ∨
      n = 0 ∧ kind = singleKind c ∧ c ≠ Byte.doubleQuote ∧ c ≠ Byte.singleQuote := by
  have field : ∀ b, isFieldByte b = true → isInner b = true := by
    intro b named
    simp [isInner, named]
  cases lexeme with
  | string => exact absurd rfl unquoted
  | customField starts =>
      refine Or.inl (List.forall_mem_cons.mpr ⟨field c (startsCustomField_cons starts).1, ?_⟩)
      exact fun b member => field b ((customFieldSpan_bytes starts).2 b member)
  | keyword starts | identifier starts =>
      exact Or.inl (List.forall_mem_cons.mpr ⟨isInner_of_isWord (Byte.isWord_of_isNameStart starts),
        inner_takeWhile (fun _ => isInner_of_isWord) rest⟩)
  | number starts =>
      refine Or.inl (List.forall_mem_cons.mpr
        ⟨?_, inner_takeWhile (fun _ => isInner_of_isNumberByte) rest⟩)
      simp only [startsNumber, Bool.or_eq_true, Bool.and_eq_true, beq_iff_eq] at starts
      rcases starts with digit | ⟨rfl | rfl, -⟩
      · exact isInner_of_isWord (Byte.isWord_of_isDigit digit)
      · rfl
      · rfl
  | @comparison d more follows long =>
      left
      simp only [isLongOperator, Bool.or_eq_true, Bool.and_eq_true, beq_iff_eq] at long
      rw [follows]
      rcases long with ⟨rfl, rfl | rfl⟩ | ⟨rfl | rfl, rfl⟩ <;> simp [isInner]
  | single bare =>
      exact Or.inr ⟨rfl, rfl, fun double => bare (Or.inl double),
        fun single => bare (Or.inr single)⟩

theorem singleKind_ne_string (c : UInt8) : singleKind c ≠ .string := by
  grind [singleKind]

theorem closes_of_string (lexeme : Lexeme keywords c rest kind n) (literal : kind = .string) :
    (c = Byte.doubleQuote ∨ c = Byte.singleQuote) ∧ Quoted.span? c rest = some n := by
  cases lexeme with
  | string quoted closes => exact ⟨quoted, closes⟩
  | customField | keyword | identifier | number | comparison => simp at literal
  | single => exact absurd literal (singleKind_ne_string c)

end Lexeme

/-! ## Whole queries -/

/-- The tokens of a text that starts at an offset: whitespace stands between them, and each is a
lexeme of what remains. -/
inductive Lexed (keywords : NameSet) : Nat → Text → List Token → Prop where
  | done {offset} : Lexed keywords offset [] []
  | blank {offset c rest tokens} (blank : Byte.isBlank c = true)
      (more : Lexed keywords (offset + 1) rest tokens) : Lexed keywords offset (c :: rest) tokens
  | token {offset c rest kind n tokens} (visible : Byte.isBlank c = false)
      (lexeme : Lexeme keywords c rest kind n)
      (more : Lexed keywords (offset + 1 + n) (rest.drop n) tokens) :
      Lexed keywords offset (c :: rest) (⟨kind, c :: rest.take n, offset⟩ :: tokens)

section Steps

variable {keywords : NameSet} {offset n : Nat} {c : UInt8} {rest : Text} {kind : TokenKind}

theorem tokenizeFrom_of_blank (blank : Byte.isBlank c = true) :
    tokenizeFrom keywords offset 0 (c :: rest) = tokenizeFrom keywords (offset + 1) 0 rest := by
  rw [tokenizeFrom, if_pos blank]

theorem tokenizeFrom_of_lexeme (visible : Byte.isBlank c = false)
    (found : lexeme? keywords c rest = some (kind, n)) :
    tokenizeFrom keywords offset 0 (c :: rest) =
      (tokenizeFrom keywords (offset + 1) n rest).map (⟨kind, c :: rest.take n, offset⟩ :: ·) := by
  rw [tokenizeFrom, visible, if_neg Bool.false_ne_true, found]

theorem tokenizeFrom_of_open (visible : Byte.isBlank c = false)
    (absent : lexeme? keywords c rest = none) :
    tokenizeFrom keywords offset 0 (c :: rest) = .error (.openLiteral (c :: rest)) := by
  rw [tokenizeFrom, visible, if_neg Bool.false_ne_true, absent]

theorem tokenizeFrom_congr {others : NameSet} (same : ∀ name, name ∈ others ↔ name ∈ keywords)
    (offset taken : Nat) (t : Text) :
    tokenizeFrom others offset taken t = tokenizeFrom keywords offset taken t := by
  have listed : ∀ name, others.contains name = keywords.contains name := by
    intro name
    rw [Bool.eq_iff_iff, NameSet.contains_iff_mem, NameSet.contains_iff_mem, same]
  have lexemes : ∀ c rest, lexeme? others c rest = lexeme? keywords c rest := by
    intro c rest
    simp only [lexeme?, listed]
  induction t generalizing offset taken with
  | nil => rfl
  | cons c rest ih => simp only [tokenizeFrom, lexemes, ih]

end Steps

theorem tokenizeFrom_taken (keywords : NameSet) (offset taken : Nat) (t : Text) :
    tokenizeFrom keywords offset taken t =
      tokenizeFrom keywords (offset + taken) 0 (t.drop taken) := by
  induction taken generalizing offset t with
  | zero => rfl
  | succ taken ih =>
      cases t with
      | nil => simp [tokenizeFrom]
      | cons c rest =>
          rw [tokenizeFrom, ih, List.drop_succ_cons]
          congr 1
          omega

/-! ## Readings -/

/-- The pieces in which a text is read whose first `taken` bytes belong to a token before it. -/
def piecesFrom (keywords : NameSet) (taken : Nat) : Text → List Piece
  | [] => []
  | c :: rest =>
    match taken with
    | taken + 1 => piecesFrom keywords taken rest
    | 0 =>
      if Byte.isBlank c then ⟨[c], false⟩ :: piecesFrom keywords 0 rest
      else
        match lexeme? keywords c rest with
        | none => [⟨c :: rest, true⟩]
        | some (kind, n) => ⟨c :: rest.take n, kind == .string⟩ :: piecesFrom keywords n rest

/-- A text is read in pieces, starting at an offset, and comes to tokens unless a literal in it is never
closed. -/
inductive Reads (keywords : NameSet) :
    Nat → Text → List Piece → Except Rejection (List Token) → Prop where
  | done {offset} : Reads keywords offset [] [] (.ok [])
  | blank {offset c rest pieces lexed} (blank : Byte.isBlank c = true)
      (more : Reads keywords (offset + 1) rest pieces lexed) :
      Reads keywords offset (c :: rest) (⟨[c], false⟩ :: pieces) lexed
  | token {offset c rest kind n pieces lexed} (visible : Byte.isBlank c = false)
      (lexeme : Lexeme keywords c rest kind n)
      (more : Reads keywords (offset + 1 + n) (rest.drop n) pieces lexed) :
      Reads keywords offset (c :: rest) (⟨c :: rest.take n, kind == .string⟩ :: pieces)
        (lexed.map (⟨kind, c :: rest.take n, offset⟩ :: ·))
  | openLiteral {offset c rest} (absent : lexeme? keywords c rest = none) :
      Reads keywords offset (c :: rest) [⟨c :: rest, true⟩] (.error (.openLiteral (c :: rest)))

theorem piecesFrom_taken (keywords : NameSet) (taken : Nat) (t : Text) :
    piecesFrom keywords taken t = piecesFrom keywords 0 (t.drop taken) := by
  induction taken generalizing t with
  | zero => rfl
  | succ taken ih =>
      cases t with
      | nil => rfl
      | cons c rest => exact ih rest

theorem reads_tokenizeFrom (keywords : NameSet) (offset : Nat) (t : Text) :
    Reads keywords offset t (piecesFrom keywords 0 t) (tokenizeFrom keywords offset 0 t) := by
  induction size : t.length using Nat.strongRecOn generalizing offset t with
  | ind size ih =>
      subst size
      cases t with
      | nil => exact .done
      | cons c rest =>
          rw [piecesFrom]
          cases blank : Byte.isBlank c with
          | true =>
              rw [tokenizeFrom_of_blank blank, if_pos rfl]
              exact .blank blank (ih rest.length (by simp) _ rest rfl)
          | false =>
              rw [if_neg Bool.false_ne_true]
              cases found : lexeme? keywords c rest with
              | none =>
                  rw [tokenizeFrom_of_open blank found]
                  exact .openLiteral found
              | some lexeme =>
                  rw [tokenizeFrom_of_lexeme blank found, tokenizeFrom_taken]
                  dsimp only
                  rw [piecesFrom_taken]
                  refine .token blank (lexeme_of_lexeme? found) (ih _ ?_ _ _ rfl)
                  simp only [List.length_drop, List.length_cons]
                  omega

namespace Reads

variable {keywords : NameSet} {offset : Nat} {t : Text} {pieces : List Piece}
  {lexed : Except Rejection (List Token)} {tokens : List Token}

theorem whole (reads : Reads keywords offset t pieces lexed) : wholeOf pieces = t := by
  induction reads with
  | done => rfl
  | blank _ _ ih => rw [wholeOf_cons, ih, List.singleton_append]
  | token _ _ _ ih => rw [wholeOf_cons, ih, List.cons_append, List.take_append_drop]
  | openLiteral => rw [wholeOf_cons, wholeOf_nil, List.append_nil]

theorem lexed_of_ok (reads : Reads keywords offset t pieces lexed) (read : lexed = .ok tokens) :
    Lexed keywords offset t tokens := by
  induction reads generalizing tokens with
  | done =>
      obtain rfl := Except.ok.inj read
      exact .done
  | blank blank _ ih => exact .blank blank (ih read)
  | token visible lexeme _ ih =>
      obtain ⟨others, later, rfl⟩ := map_eq_ok_iff.mp read
      exact .token visible lexeme (ih later)
  | openLiteral => cases read

end Reads

theorem lexed_of_tokenizeFrom {keywords : NameSet} {offset : Nat} {t : Text} {tokens : List Token}
    (read : tokenizeFrom keywords offset 0 t = .ok tokens) : Lexed keywords offset t tokens :=
  (reads_tokenizeFrom keywords offset t).lexed_of_ok read

/-! ## The places of the tokens -/

/-- The token holds byte number `i` of the query. -/
def Token.Covers (token : Token) (i : Nat) : Prop :=
  token.offset ≤ i ∧ i < token.offset + token.text.length

namespace Lexed

variable {keywords : NameSet} {offset : Nat} {t : Text} {tokens : List Token}

theorem offset_le (lexed : Lexed keywords offset t tokens) :
    ∀ token ∈ tokens, offset ≤ token.offset := by
  induction lexed with
  | done => simp
  | blank _ _ ih => exact fun token member => Nat.le_of_succ_le (ih token member)
  | token _ _ _ ih =>
      refine List.forall_mem_cons.mpr ⟨Nat.le_refl _, fun token member => ?_⟩
      have later := ih token member
      omega

theorem separated (lexed : Lexed keywords offset t tokens) :
    tokens.Pairwise fun first second => first.offset + first.text.length ≤ second.offset := by
  induction lexed with
  | done => exact .nil
  | blank _ _ ih => exact ih
  | @token offset c rest kind n tokens _ lexeme more ih =>
      refine .cons (fun token member => ?_) ih
      have later := more.offset_le token member
      have fits := lexeme.length_le
      simp only [List.length_cons, List.length_take, Nat.min_eq_left fits]
      omega

theorem lexeme_at (lexed : Lexed keywords offset t tokens) :
    ∀ token ∈ tokens, ∃ k c rest n, token.offset = offset + k ∧ t.drop k = c :: rest ∧
      Byte.isBlank c = false ∧ Lexeme keywords c rest token.kind n ∧
      token.text = c :: rest.take n := by
  induction lexed with
  | done => simp
  | blank _ _ ih =>
      intro token member
      obtain ⟨k, c, rest, n, placed, found, described⟩ := ih token member
      exact ⟨k + 1, c, rest, n, by omega, by simpa using found, described⟩
  | @token offset c rest kind n tokens visible lexeme _ ih =>
      refine List.forall_mem_cons.mpr
        ⟨⟨0, c, rest, n, rfl, rfl, visible, lexeme, rfl⟩, fun token member => ?_⟩
      obtain ⟨k, d, more, m, placed, found, described⟩ := ih token member
      refine ⟨1 + n + k, d, more, m, by omega, ?_, described⟩
      rw [← found, List.drop_drop, Nat.add_assoc, Nat.add_comm 1, List.drop_succ_cons]

theorem covered (lexed : Lexed keywords offset t tokens) {i : Nat} {b : UInt8}
    (found : t[i]? = some b) :
    Byte.isBlank b = true ∨ ∃ token ∈ tokens, token.Covers (offset + i) := by
  induction lexed generalizing i with
  | done => simp at found
  | @blank offset c rest tokens blank _ ih =>
      cases i with
      | zero =>
          obtain rfl := Option.some.inj found
          exact Or.inl blank
      | succ i =>
          rcases ih found with blank | ⟨token, member, covers⟩
          · exact Or.inl blank
          · refine Or.inr ⟨token, member, ?_⟩
            rwa [show offset + (i + 1) = offset + 1 + i by omega]
  | @token offset c rest kind n tokens _ lexeme _ ih =>
      have fits := lexeme.length_le
      by_cases inside : i < n + 1
      · refine Or.inr ⟨_, List.mem_cons_self, Nat.le_add_right _ _, ?_⟩
        simp only [List.length_cons, List.length_take, Nat.min_eq_left fits]
        omega
      · obtain ⟨j, rfl⟩ : ∃ j, i = (n + j) + 1 := ⟨i - (n + 1), by omega⟩
        have beyond : (rest.drop n)[j]? = some b := by simpa using found
        rcases ih beyond with blank | ⟨token, member, covers⟩
        · exact Or.inl blank
        · refine Or.inr ⟨token, List.mem_cons_of_mem _ member, ?_⟩
          rwa [show offset + (n + j + 1) = offset + 1 + n + j by omega]

theorem mem_text (lexed : Lexed keywords 0 t tokens) {token : Token} (member : token ∈ tokens)
    {i : Nat} {b : UInt8} (covers : token.Covers i) (found : t[i]? = some b) :
    b ∈ token.text := by
  obtain ⟨k, c, rest, n, placed, starts, -, lexeme, text⟩ := lexed.lexeme_at token member
  have fits := lexeme.length_le
  obtain ⟨before, inside⟩ := covers
  rw [text, List.length_cons, List.length_take, Nat.min_eq_left fits] at inside
  have place : (t.drop k)[i - k]? = some b := by
    rw [List.getElem?_drop, ← found]
    congr 1
    omega
  rw [text, ← List.take_succ_cons, ← starts]
  refine List.mem_of_getElem? (i := i - k) ?_
  rw [List.getElem?_take, if_pos (by omega), place]

theorem covers_unique (lexed : Lexed keywords offset t tokens) {first second : Token}
    (one : first ∈ tokens) (other : second ∈ tokens) {i : Nat} (covers : first.Covers i)
    (covered : second.Covers i) : first = second := by
  let agree (first second : Token) : Prop := first.Covers i → second.Covers i → first = second
  have apart : ∀ {first second : Token}, first.offset + first.text.length ≤ second.offset →
      first.Covers i → ¬ second.Covers i := by
    intro first second ends covers covered
    have before := covers.2
    have after := covered.1
    omega
  have forward : tokens.Pairwise agree :=
    lexed.separated.imp fun ends covers covered => absurd covered (apart ends covers)
  have backward : tokens.Pairwise (flip agree) :=
    lexed.separated.imp fun ends covers covered => absurd covers (apart ends covered)
  exact List.Pairwise.forall_of_forall_of_flip (fun _ _ _ _ => rfl) forward backward one other
    covers covered

theorem offsets_increase (lexed : Lexed keywords offset t tokens) :
    tokens.Pairwise fun first second => first.offset < second.offset := by
  refine lexed.separated.imp_of_mem fun {first second} member _ ends => ?_
  obtain ⟨_, _, _, _, _, _, _, _, text⟩ := lexed.lexeme_at first member
  simp only [text, List.length_cons] at ends
  omega

end Lexed

end QueryGate.Jql
