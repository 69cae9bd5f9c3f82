import QueryGate.Graphql.Token
import QueryGate.Proofs.Bytes
import QueryGate.Proofs.Piece
import QueryGate.Proofs.Steps

/-! # The lexemes of a document

As for queries, what a token may consist of is said once, and what a whole document consists of
once: whitespace, comments and tokens in turn. A literal and a comment are set aside: nothing in
them is read. What is not set aside shows every delimiter as a token of its own.
-/

namespace QueryGate.Graphql

/-- The delimiters that have to be balanced. -/
def delimiters : Text :=
  [Byte.openBrace, Byte.closeBrace, Byte.openParen, Byte.closeParen, Byte.openBracket,
    Byte.closeBracket]

/-- Whether a byte is a delimiter. -/
def isDelimiter (b : UInt8) : Bool := delimiters.contains b

/-- Whether a byte is neither a delimiter nor a double quote. -/
def isPlain (b : UInt8) : Bool := b != Byte.doubleQuote && !isDelimiter b

/-- A digit, a dot, an exponent mark or a sign. -/
def isNumeric (b : UInt8) : Bool :=
  Byte.isDigit b || b == Byte.dot || Byte.lower b == 0x65 || (b == Byte.plus || b == Byte.minus)

theorem isPlain_eq_true_iff {b : UInt8} :
    isPlain b = true ↔ b ≠ Byte.doubleQuote ∧ b ∉ delimiters := by
  simp [isPlain, isDelimiter]

theorem isPlain_of_class {p : UInt8 → Bool}
    (outside : ∀ b ∈ Byte.doubleQuote :: delimiters, p b = false) {b : UInt8}
    (inside : p b = true) : isPlain b = true := by
  rw [isPlain_eq_true_iff, ← not_or, ← List.mem_cons]
  intro listed
  rw [outside b listed] at inside
  cases inside

theorem isPlain_of_isWord {b : UInt8} (word : Byte.isWord b = true) : isPlain b = true :=
  isPlain_of_class (by simp [delimiters]; decide) word

theorem isPlain_of_isNumeric {b : UInt8} (numeric : isNumeric b = true) : isPlain b = true :=
  isPlain_of_class (by simp [delimiters]; decide) numeric

/-- The kind of a byte that makes a token of its own. -/
def singleKind (c : UInt8) : TokenKind := if c ∈ punctuators then .punctuator else .other

theorem singleKind_of_isDelimiter {c : UInt8} (listed : isDelimiter c = true) :
    singleKind c = .punctuator := by
  have among : ∀ b ∈ delimiters, b ∈ punctuators := by simp [delimiters]; decide
  exact if_pos (among c (by simpa [isDelimiter] using listed))

theorem not_isDelimiter_of_isBlank {b : UInt8} (blank : Byte.isBlank b = true) :
    isDelimiter b = false := by
  grind [isDelimiter, delimiters, Byte.isBlank]

/-- What may stand at the first byte `c` of a token and the bytes `rest` after it: the kind of the
token, and how many bytes of `rest` belong to it. -/
inductive Lexeme (c : UInt8) (rest : Text) : TokenKind → Nat → Prop where
  | block {n} (fenced : Quoted.fence.isPrefixOf (c :: rest.take 2) = true)
      (closes : Quoted.throughFence? (rest.drop 2) = some n) : Lexeme c rest .string (2 + n)
  | literal {n} (quoted : c = Byte.doubleQuote) (closes : Quoted.span? c rest = some n) :
      Lexeme c rest .string n
  | name (starts : Byte.isNameStart c = true) :
      Lexeme c rest .name (rest.takeWhile Byte.isWord).length
  | parameter (sign : c = Byte.dollar) (starts : rest.head?.any Byte.isNameStart = true) :
      Lexeme c rest .variable (rest.takeWhile Byte.isWord).length
  | number (starts : startsNumber c rest = true) : Lexeme c rest .number (numberSpan c rest)
  | spread (dots : (ascii "...").isPrefixOf (c :: rest.take 2) = true) : Lexeme c rest .spread 2
  | single (unquoted : c ≠ Byte.doubleQuote) : Lexeme c rest (singleKind c) 0

theorem lexeme_of_lexeme? {c : UInt8} {rest : Text} {kind : TokenKind} {n : Nat}
    (found : lexeme? c rest = some (kind, n)) : Lexeme c rest kind n := by
  unfold lexeme? at found
  cases fenced : Quoted.fence.isPrefixOf (c :: rest.take 2) with
  | true =>
      rw [if_pos fenced] at found
      obtain ⟨m, closes, same⟩ := Option.map_eq_some_iff.mp found
      obtain ⟨rfl, rfl⟩ := Prod.mk.inj same
      exact .block fenced closes
  | false =>
      rw [if_neg (by simp [fenced])] at found
      by_cases quoted : c = Byte.doubleQuote
      · rw [if_pos quoted] at found
        obtain ⟨m, closes, same⟩ := Option.map_eq_some_iff.mp found
        obtain ⟨rfl, rfl⟩ := Prod.mk.inj same
        exact .literal quoted closes
      rw [if_neg quoted] at found
      split at found
      · next starts =>
          obtain ⟨rfl, rfl⟩ := Prod.mk.inj (Option.some.inj found)
          exact .name starts
      · split at found
        · next sign =>
            obtain ⟨rfl, rfl⟩ := Prod.mk.inj (Option.some.inj found)
            exact .parameter sign.1 sign.2
        · split at found
          · next starts =>
              obtain ⟨rfl, rfl⟩ := Prod.mk.inj (Option.some.inj found)
              exact .number starts
          · split at found
            · next dots =>
                obtain ⟨rfl, rfl⟩ := Prod.mk.inj (Option.some.inj found)
                exact .spread dots
            · obtain ⟨rfl, rfl⟩ := Prod.mk.inj (Option.some.inj found)
              exact .single quoted

theorem throughFence?_le {t : Text} {n : Nat} (closes : Quoted.throughFence? t = some n) :
    n ≤ t.length := by
  induction t generalizing n with
  | nil => cases closes
  | cons c rest ih =>
      rw [Quoted.throughFence?] at closes
      cases fenced : Quoted.fence.isPrefixOf (c :: rest) with
      | true =>
          rw [if_pos fenced] at closes
          obtain rfl := Option.some.inj closes
          exact (List.isPrefixOf_iff_prefix.mp fenced).length_le
      | false =>
          rw [if_neg (by simp [fenced])] at closes
          obtain ⟨m, later, rfl⟩ := Option.map_eq_some_iff.mp closes
          exact Nat.succ_le_succ (ih later)

theorem numberSpan_forall {p : UInt8 → Bool} (last : UInt8) (t : Text)
    (numeric : ∀ b, isNumeric b = true → p b = true) :
    ∀ b ∈ t.take (numberSpan last t), p b = true := by
  induction t generalizing last with
  | nil => simp [numberSpan]
  | cons b rest ih =>
      rw [numberSpan]
      split
      · next continues =>
          rw [Nat.add_comm, List.take_succ_cons]
          refine List.forall_mem_cons.mpr ⟨numeric b ?_, ih b⟩
          simp only [isNumeric, Bool.or_eq_true, Bool.and_eq_true] at continues ⊢
          exact continues.imp_right And.left
      · simp

theorem numberSpan_le (last : UInt8) (t : Text) : numberSpan last t ≤ t.length := by
  induction t generalizing last with
  | nil => simp [numberSpan]
  | cons b rest ih =>
      rw [numberSpan]
      split
      · have fits := ih b
        simp only [List.length_cons]
        omega
      · simp

theorem two_le_of_isPrefixOf {start rest : Text} {c : UInt8} (three : start.length = 3)
    (begins : start.isPrefixOf (c :: rest.take 2) = true) : 2 ≤ rest.length := by
  have short := (List.isPrefixOf_iff_prefix.mp begins).length_le
  simp only [three, List.length_cons, List.length_take] at short
  omega

theorem eq_of_isPrefixOf {start rest : Text} {c : UInt8} (three : start.length = 3)
    (begins : start.isPrefixOf (c :: rest.take 2) = true) : start = c :: rest.take 2 := by
  refine (List.isPrefixOf_iff_prefix.mp begins).eq_of_length_le ?_
  simp only [three, List.length_cons, List.length_take]
  exact Nat.succ_le_succ (Nat.min_le_left 2 _)

namespace Lexeme

variable {c : UInt8} {rest : Text} {kind : TokenKind} {n : Nat}

theorem length_le (lexeme : Lexeme c rest kind n) : n ≤ rest.length := by
  cases lexeme with
  | block fenced closes =>
      have two := two_le_of_isPrefixOf rfl fenced
      have fits := throughFence?_le closes
      rw [List.length_drop] at fits
      omega
  | literal _ closes => exact Quoted.span?_le closes
  | name | parameter => exact (List.takeWhile_prefix _).length_le
  | number => exact numberSpan_le c rest
  | spread dots => exact two_le_of_isPrefixOf rfl dots
  | single => exact Nat.zero_le _

theorem plain_takeWhile (t : Text) :
    ∀ b ∈ t.take (t.takeWhile Byte.isWord).length, isPlain b = true := by
  intro b member
  rw [← List.prefix_iff_eq_take.mp (List.takeWhile_prefix Byte.isWord)] at member
  exact isPlain_of_isWord (List.all_eq_true.mp List.all_takeWhile b member)

/-- Outside literals a token of a delimiter has no other byte. -/
theorem plain_or_single (lexeme : Lexeme c rest kind n) (unquoted : kind ≠ .string) :
    (∀ b ∈ c :: rest.take n, isPlain b = true) ∨
      n = 0 ∧ kind = singleKind c ∧ c ≠ Byte.doubleQuote := by
  cases lexeme with
  | block | literal => exact absurd rfl unquoted
  | name starts =>
      have plain : isPlain c = true := isPlain_of_isWord (Byte.isWord_of_isNameStart starts)
      exact Or.inl (List.forall_mem_cons.mpr ⟨plain, plain_takeWhile rest⟩)
  | parameter sign _ =>
      subst sign
      exact Or.inl (List.forall_mem_cons.mpr ⟨by decide, plain_takeWhile rest⟩)
  | number starts =>
      have numeric : isNumeric c = true := by
        simp only [startsNumber, Bool.or_eq_true, Bool.and_eq_true, beq_iff_eq] at starts
        rcases starts with digit | ⟨rfl, -⟩
        · simp [isNumeric, digit]
        · rfl
      exact Or.inl (List.forall_mem_cons.mpr
        ⟨isPlain_of_isNumeric numeric, numberSpan_forall c rest fun _ => isPlain_of_isNumeric⟩)
  | spread dots =>
      have plain : ∀ b ∈ ascii "...", isPlain b = true := by simp [ascii]; decide
      exact Or.inl (eq_of_isPrefixOf rfl dots ▸ plain)
  | single bare => exact Or.inr ⟨rfl, rfl, bare⟩

end Lexeme

/-! ## Whole documents -/

/-- A literal or a comment, and where it starts. -/
structure Aside where
  text : Text
  offset : Nat
  deriving Repr, DecidableEq

/-- Byte number `i` of the document lies in a literal or a comment. -/
def InAside (asides : List Aside) (i : Nat) : Prop :=
  ∃ aside ∈ asides, aside.offset ≤ i ∧ i < aside.offset + aside.text.length

instance (asides : List Aside) (i : Nat) : Decidable (InAside asides i) :=
  inferInstanceAs (Decidable (∃ aside ∈ asides, _ ∧ _))

/-- The tokens of a text that starts at an offset, and what is set aside in it. -/
inductive Lexed : Nat → Text → List Token → List Aside → Prop where
  | done {offset} : Lexed offset [] [] []
  | blank {offset c rest tokens asides} (blank : Byte.isBlank c = true)
      (more : Lexed (offset + 1) rest tokens asides) : Lexed offset (c :: rest) tokens asides
  | comment {offset rest n tokens asides}
      (line : n = (rest.takeWhile (· ≠ Byte.lineFeed)).length)
      (more : Lexed (offset + 1 + n) (rest.drop n) tokens asides) :
      Lexed offset (Byte.hash :: rest) tokens (⟨Byte.hash :: rest.take n, offset⟩ :: asides)
  | literal {offset c rest n tokens asides} (lexeme : Lexeme c rest .string n)
      (more : Lexed (offset + 1 + n) (rest.drop n) tokens asides) :
      Lexed offset (c :: rest) (⟨.string, c :: rest.take n, offset⟩ :: tokens)
        (⟨c :: rest.take n, offset⟩ :: asides)
  | token {offset c rest kind n tokens asides} (lexeme : Lexeme c rest kind n)
      (unquoted : kind ≠ .string) (more : Lexed (offset + 1 + n) (rest.drop n) tokens asides) :
      Lexed offset (c :: rest) (⟨kind, tokenText kind (c :: rest.take n), offset⟩ :: tokens) asides

/-- What is set aside in a text that starts at an offset and whose first `taken` bytes belong to a
token or a comment before it. -/
def asidesFrom (offset taken : Nat) : Text → List Aside
  | [] => []
  | c :: rest =>
    match taken with
    | taken + 1 => asidesFrom (offset + 1) taken rest
    | 0 =>
      if Byte.isBlank c then asidesFrom (offset + 1) 0 rest
      else if c = Byte.hash then
        let n := (rest.takeWhile (· ≠ Byte.lineFeed)).length
        ⟨c :: rest.take n, offset⟩ :: asidesFrom (offset + 1) n rest
      else
        match lexeme? c rest with
        | none => []
        | some (kind, n) =>
          let later := asidesFrom (offset + 1) n rest
          if kind = .string then ⟨c :: rest.take n, offset⟩ :: later else later

/-- What is set aside in a document. -/
def asidesOf (document : Text) : List Aside := asidesFrom 0 0 document

section Steps

variable {offset n : Nat} {c : UInt8} {rest : Text} {kind : TokenKind}

theorem tokenizeFrom_of_blank (blank : Byte.isBlank c = true) :
    tokenizeFrom offset 0 (c :: rest) = tokenizeFrom (offset + 1) 0 rest := by
  rw [tokenizeFrom, if_pos blank]

theorem tokenizeFrom_of_hash (offset : Nat) (rest : Text) :
    tokenizeFrom offset 0 (Byte.hash :: rest) =
      tokenizeFrom (offset + 1) (rest.takeWhile (· ≠ Byte.lineFeed)).length rest := by
  rw [tokenizeFrom, if_neg (by decide), if_pos rfl]

theorem tokenizeFrom_of_lexeme (visible : Byte.isBlank c = false) (uncommented : c ≠ Byte.hash)
    (found : lexeme? c rest = some (kind, n)) :
    tokenizeFrom offset 0 (c :: rest) = (tokenizeFrom (offset + 1) n rest).map
      (⟨kind, tokenText kind (c :: rest.take n), offset⟩ :: ·) := by
  rw [tokenizeFrom, visible, if_neg Bool.false_ne_true, if_neg uncommented, found]

theorem tokenizeFrom_of_open (visible : Byte.isBlank c = false) (uncommented : c ≠ Byte.hash)
    (absent : lexeme? c rest = none) :
    tokenizeFrom offset 0 (c :: rest) = .error (.openLiteral (c :: rest)) := by
  rw [tokenizeFrom, visible, if_neg Bool.false_ne_true, if_neg uncommented, absent]

end Steps

theorem tokenizeFrom_taken (offset taken : Nat) (t : Text) :
    tokenizeFrom offset taken t = tokenizeFrom (offset + taken) 0 (t.drop taken) := by
  induction taken generalizing offset t with
  | zero => rfl
  | succ taken ih =>
      cases t with
      | nil => simp [tokenizeFrom]
      | cons c rest =>
          rw [tokenizeFrom, ih, List.drop_succ_cons]
          congr 1
          omega

theorem asidesFrom_taken (offset taken : Nat) (t : Text) :
    asidesFrom offset taken t = asidesFrom (offset + taken) 0 (t.drop taken) := by
  induction taken generalizing offset t with
  | zero => rfl
  | succ taken ih =>
      cases t with
      | nil => simp [asidesFrom]
      | cons c rest =>
          rw [asidesFrom, ih, List.drop_succ_cons]
          congr 1
          omega

/-! ## Readings -/

/-- The pieces in which a text is read whose first `taken` bytes belong to a token or a comment before
it. -/
def piecesFrom (taken : Nat) : Text → List Piece
  | [] => []
  | c :: rest =>
    match taken with
    | taken + 1 => piecesFrom taken rest
    | 0 =>
      if Byte.isBlank c then ⟨[c], false⟩ :: piecesFrom 0 rest
      else if c = Byte.hash then
        let n := (rest.takeWhile (· ≠ Byte.lineFeed)).length
        ⟨c :: rest.take n, false⟩ :: piecesFrom n rest
      else
        match lexeme? c rest with
        | none => [⟨c :: rest, true⟩]
        | some (kind, n) => ⟨c :: rest.take n, kind == .string⟩ :: piecesFrom n rest

/-- A text is read in pieces, starting at an offset, and comes to tokens unless a literal in it is never
closed. What is set aside in it is told besides. -/
inductive Reads : Nat → Text → List Piece → List Aside → Except Rejection (List Token) → Prop where
  | done {offset} : Reads offset [] [] [] (.ok [])
  | blank {offset c rest pieces asides lexed} (blank : Byte.isBlank c = true)
      (more : Reads (offset + 1) rest pieces asides lexed) :
      Reads offset (c :: rest) (⟨[c], false⟩ :: pieces) asides lexed
  | comment {offset rest n pieces asides lexed} (line : n = (rest.takeWhile (· ≠ Byte.lineFeed)).length)
      (more : Reads (offset + 1 + n) (rest.drop n) pieces asides lexed) :
      Reads offset (Byte.hash :: rest) (⟨Byte.hash :: rest.take n, false⟩ :: pieces)
        (⟨Byte.hash :: rest.take n, offset⟩ :: asides) lexed
  | literal {offset c rest n pieces asides lexed} (lexeme : Lexeme c rest .string n)
      (more : Reads (offset + 1 + n) (rest.drop n) pieces asides lexed) :
      Reads offset (c :: rest) (⟨c :: rest.take n, true⟩ :: pieces)
        (⟨c :: rest.take n, offset⟩ :: asides) (lexed.map (⟨.string, c :: rest.take n, offset⟩ :: ·))
  | token {offset c rest kind n pieces asides lexed} (lexeme : Lexeme c rest kind n)
      (unquoted : kind ≠ .string) (more : Reads (offset + 1 + n) (rest.drop n) pieces asides lexed) :
      Reads offset (c :: rest) (⟨c :: rest.take n, false⟩ :: pieces) asides
        (lexed.map (⟨kind, tokenText kind (c :: rest.take n), offset⟩ :: ·))
  | openLiteral {offset c rest} (absent : lexeme? c rest = none) :
      Reads offset (c :: rest) [⟨c :: rest, true⟩] [] (.error (.openLiteral (c :: rest)))

theorem piecesFrom_taken (taken : Nat) (t : Text) :
    piecesFrom taken t = piecesFrom 0 (t.drop taken) := by
  induction taken generalizing t with
  | zero => rfl
  | succ taken ih =>
      cases t with
      | nil => rfl
      | cons c rest => exact ih rest

theorem reads_tokenizeFrom (offset : Nat) (t : Text) :
    Reads offset t (piecesFrom 0 t) (asidesFrom offset 0 t) (tokenizeFrom offset 0 t) := by
  induction size : t.length using Nat.strongRecOn generalizing offset t with
  | ind size ih =>
      subst size
      cases t with
      | nil => exact .done
      | cons c rest =>
          have shorter : ∀ n, (rest.drop n).length < (c :: rest).length := by
            intro n
            simp only [List.length_drop, List.length_cons]
            omega
          rw [piecesFrom, asidesFrom]
          cases blank : Byte.isBlank c with
          | true =>
              rw [tokenizeFrom_of_blank blank, if_pos rfl, if_pos rfl]
              exact .blank blank (ih _ (shorter 0) _ rest rfl)
          | false =>
              rw [if_neg Bool.false_ne_true, if_neg Bool.false_ne_true]
              by_cases comments : c = Byte.hash
              · subst comments
                rw [tokenizeFrom_of_hash, tokenizeFrom_taken, if_pos rfl, if_pos rfl]
                dsimp only
                rw [asidesFrom_taken, piecesFrom_taken]
                exact .comment rfl (ih _ (shorter _) _ _ rfl)
              rw [if_neg comments, if_neg comments]
              cases found : lexeme? c rest with
              | none =>
                  rw [tokenizeFrom_of_open blank comments found]
                  exact .openLiteral found
              | some lexeme =>
                  obtain ⟨kind, n⟩ := lexeme
                  rw [tokenizeFrom_of_lexeme blank comments found, tokenizeFrom_taken]
                  dsimp only
                  rw [asidesFrom_taken, piecesFrom_taken]
                  have more := ih _ (shorter n) (offset + 1 + n) _ rfl
                  by_cases literal : kind = .string
                  · subst literal
                    rw [if_pos rfl]
                    exact .literal (lexeme_of_lexeme? found) more
                  · rw [if_neg literal, beq_false_of_ne literal]
                    exact .token (lexeme_of_lexeme? found) literal more

namespace Reads

variable {offset : Nat} {t : Text} {pieces : List Piece} {asides : List Aside}
  {lexed : Except Rejection (List Token)} {tokens : List Token}

theorem whole (reads : Reads offset t pieces asides lexed) : wholeOf pieces = t := by
  induction reads with
  | done => rfl
  | blank _ _ ih => rw [wholeOf_cons, ih, List.singleton_append]
  | comment _ _ ih | literal _ _ ih | token _ _ _ ih =>
      rw [wholeOf_cons, ih, List.cons_append, List.take_append_drop]
  | openLiteral => rw [wholeOf_cons, wholeOf_nil, List.append_nil]

theorem lexed_of_ok (reads : Reads offset t pieces asides lexed) (read : lexed = .ok tokens) :
    Lexed offset t tokens asides := by
  induction reads generalizing tokens with
  | done =>
      obtain rfl := Except.ok.inj read
      exact .done
  | blank blank _ ih => exact .blank blank (ih read)
  | comment line _ ih => exact .comment line (ih read)
  | literal lexeme _ ih =>
      obtain ⟨others, later, rfl⟩ := map_eq_ok_iff.mp read
      exact .literal lexeme (ih later)
  | token lexeme unquoted _ ih =>
      obtain ⟨others, later, rfl⟩ := map_eq_ok_iff.mp read
      exact .token lexeme unquoted (ih later)
  | openLiteral => cases read

end Reads

theorem lexed_of_tokenizeFrom {offset : Nat} {t : Text} {tokens : List Token}
    (read : tokenizeFrom offset 0 t = .ok tokens) :
    Lexed offset t tokens (asidesFrom offset 0 t) :=
  (reads_tokenizeFrom offset t).lexed_of_ok read

/-! ## The places of the tokens -/

namespace Lexed

variable {offset : Nat} {t : Text} {tokens : List Token} {asides : List Aside}

theorem offset_le (lexed : Lexed offset t tokens asides) :
    ∀ token ∈ tokens, offset ≤ token.offset := by
  induction lexed with
  | done => simp
  | blank _ _ ih => exact fun token member => Nat.le_of_succ_le (ih token member)
  | comment _ _ ih =>
      intro token member
      have later := ih token member
      omega
  | literal _ _ ih | token _ _ _ ih =>
      refine List.forall_mem_cons.mpr ⟨Nat.le_refl _, fun token member => ?_⟩
      have later := ih token member
      omega

theorem offsets_increase (lexed : Lexed offset t tokens asides) :
    tokens.Pairwise fun first second => first.offset < second.offset := by
  induction lexed with
  | done => exact .nil
  | blank _ _ ih | comment _ _ ih => exact ih
  | literal _ more ih | token _ _ more ih =>
      refine .cons (fun token member => ?_) ih
      have later := more.offset_le token member
      simp only
      omega

theorem not_inAside (lexed : Lexed offset t tokens asides) {i : Nat} (before : i < offset) :
    ¬ InAside asides i := by
  suffices ∀ aside ∈ asides, offset ≤ aside.offset by
    rintro ⟨aside, member, starts, -⟩
    have later := this aside member
    omega
  clear before
  induction lexed with
  | done => simp
  | blank _ _ ih => exact fun aside member => Nat.le_of_succ_le (ih aside member)
  | comment _ _ ih | literal _ _ ih =>
      refine List.forall_mem_cons.mpr ⟨Nat.le_refl _, fun aside member => ?_⟩
      have later := ih aside member
      omega
  | token _ _ _ ih =>
      intro aside member
      have later := ih aside member
      omega

end Lexed

end QueryGate.Graphql
