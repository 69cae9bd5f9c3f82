import QueryGate.Proofs.Joining
import QueryGate.Proofs.Jql.Gate
import QueryGate.Proofs.Jql.Lexing

/-! # Words outside literals

The checks of functions and of reserved words look at names among the tokens. A word of the query
that lies outside literals and custom fields is such a name as a whole, or it goes on a number behind
a dot, a minus sign or a slash; the words of the second sort are looked at by no check.
-/

namespace QueryGate.Jql

/-! ## What the checks ask of every token -/

section Checks

variable {rules : Rules} {tokens : List Token}

theorem checkFunctions_eq_ok_iff :
    checkFunctions rules tokens = .ok () ↔
      ∀ first token last, tokens = first ++ token :: last → token.kind = .identifier →
        startsArguments last = true → rules.functions.contains token.text.toLower = true := by
  induction tokens with
  | nil => simp [checkFunctions]
  | cons head rest ih =>
      rw [checkFunctions]
      split
      · next offends =>
          obtain ⟨named, called, unlisted⟩ := offends
          refine iff_of_false (by simp) fun allowed => ?_
          have listed := allowed [] head rest rfl named called
          rw [unlisted] at listed
          cases listed
      · next passes =>
          rw [ih]
          constructor
          · intro allowed first token last split named called
            cases first with
            | nil =>
                obtain ⟨rfl, rfl⟩ := List.cons.inj split
                cases listed : rules.functions.contains head.text.toLower with
                | true => rfl
                | false => exact absurd ⟨named, called, listed⟩ passes
            | cons _ first => exact allowed first token last (List.cons.inj split).2 named called
          · intro allowed first token last split
            exact allowed (head :: first) token last (congrArg (head :: ·) split)

theorem checkSqlWords_eq_ok_iff :
    checkSqlWords rules tokens = .ok () ↔
      ∀ token ∈ tokens, token.kind = .identifier → token.text.toLower ∉ rules.sqlWords := by
  induction tokens with
  | nil => simp [checkSqlWords]
  | cons head rest ih =>
      rw [checkSqlWords, List.forall_mem_cons, ← ih]
      simp only [NameSet.contains_iff_mem]
      split
      · next offends => exact iff_of_false (by simp) fun allowed => allowed.1 offends.1 offends.2
      · next passes => exact (and_iff_right fun named listed => passes ⟨named, listed⟩).symm

end Checks

/-! ## The token around a byte -/

/-- The token that the byte `b` between `before` and `more` lies in: it starts behind `lead`, `inner`
is the part of it in front of the byte, and `last` are the tokens behind it. -/
inductive Around (keywords : NameSet) (offset : Nat) (before more : Text) (b : UInt8) :
    List Token → Prop where
  | intro {lead inner c rest kind n first last} (ahead : before = lead ++ inner)
      (whole : c :: rest = inner ++ b :: more) (reaches : inner.length ≤ n)
      (lexeme : Lexeme keywords c rest kind n)
      (later : Lexed keywords (offset + lead.length + 1 + n) (rest.drop n) last) :
      Around keywords offset before more b
        (first ++ ⟨kind, c :: rest.take n, offset + lead.length⟩ :: last)

section Around

variable {keywords : NameSet} {offset : Nat} {t before more piece : Text} {tokens : List Token}
  {b : UInt8}

theorem Around.append_left (around : Around keywords (offset + piece.length) before more b tokens)
    (others : List Token) : Around keywords offset (piece ++ before) more b (others ++ tokens) := by
  obtain ⟨rfl, whole, reaches, lexeme, later⟩ := around
  rename_i lead inner c rest kind n first last
  have place : offset + piece.length + lead.length = offset + (piece ++ lead).length := by
    rw [List.length_append, Nat.add_assoc]
  rw [place] at later ⊢
  rw [← List.append_assoc others]
  exact .intro (List.append_assoc _ _ _).symm whole reaches lexeme later

theorem Lexed.around (lexed : Lexed keywords offset t tokens) (split : t = before ++ b :: more)
    (visible : Byte.isBlank b = false) : Around keywords offset before more b tokens := by
  induction lexed generalizing before with
  | done => simp at split
  | @blank offset c rest tokens blank _ ih =>
      cases before with
      | nil =>
          obtain ⟨rfl, -⟩ := List.cons.inj split
          rw [blank] at visible
          cases visible
      | cons d before =>
          obtain ⟨rfl, within⟩ := List.cons.inj split
          have around := ih within
          exact @Around.append_left keywords offset before more [c] tokens b around []
  | @token offset c rest kind n tokens _ lexeme later ih =>
      by_cases reaches : before.length ≤ n
      · exact @Around.intro keywords offset before more b [] before c rest kind n [] tokens rfl split
          reaches lexeme later
      · have size : (c :: rest.take n).length = 1 + n := by
          simp [lexeme.length_le, Nat.add_comm]
        have whole : (c :: rest.take n) ++ rest.drop n = before ++ b :: more := by
          simpa using split
        obtain ⟨beyond, rfl⟩ : c :: rest.take n <+: before :=
          List.prefix_of_prefix_length_le ⟨_, whole⟩ ⟨_, rfl⟩ (by omega)
        rw [List.append_assoc] at whole
        have around := ih (List.append_cancel_left whole)
        rw [Nat.add_assoc, ← size] at around
        exact around.append_left [_]

end Around

/-! ## Words -/

/-- `word` is a maximal run of word bytes between `before` and `after`, and starts as a name does. -/
structure IsWordRun (before word after : Text) : Prop where
  starts : word.head?.any Byte.isNameStart = true
  wordy : ∀ b ∈ word, Byte.isWord b = true
  front : ∀ b ∈ before.getLast?, Byte.isWord b = false
  back : Text.Apart Byte.isWord after

/-- The word lies outside every literal and every custom field. -/
def LiesOutside (tokens : List Token) (before word : Text) : Prop :=
  ∀ token ∈ tokens, token.kind = .string ∨ token.kind = .customField →
    ∀ i, before.length ≤ i → i < before.length + word.length → ¬ token.Covers i

/-- The word is no reserved word of SQL, and if it is called it may be. -/
structure IsGuarded (rules : Rules) (word after : Text) : Prop where
  unreserved : word.toLower ∉ rules.sqlWords
  callable : (after.dropWhile Byte.isBlank).head? = some Byte.openParen →
    word.toLower ∈ rules.keywords ∨ word.toLower ∈ rules.functions

/-- The word behind `before` goes on a number, behind a dot, a minus sign or a slash. -/
def ContinuesNumber (tokens : List Token) (before : Text) : Prop :=
  (∃ token ∈ tokens, token.kind = .number ∧ token.Covers before.length) ∧
    ∃ b ∈ before.getLast?, b = Byte.dot ∨ b = Byte.minus ∨ b = Byte.slash

section Words

variable {rules : Rules} {keywords : NameSet} {offset n : Nat} {c : UInt8}
  {t before word tail after rest inner : Text} {b : UInt8} {kind : TokenKind} {tokens : List Token}

theorem Lexeme.kind_of_openParen (lexeme : Lexeme keywords Byte.openParen rest kind n) :
    kind = .opening := by
  by_cases literal : kind = .string
  · obtain ⟨quoted, -⟩ := lexeme.closes_of_string literal
    exact absurd quoted (by decide)
  · rcases lexeme.inner_or_single literal with inner | ⟨-, rfl, -⟩
    · exact absurd (inner Byte.openParen List.mem_cons_self) (by decide)
    · rfl

theorem Lexed.startsArguments (lexed : Lexed keywords offset t tokens)
    (opens : (t.dropWhile Byte.isBlank).head? = some Byte.openParen) :
    startsArguments tokens = true := by
  induction lexed with
  | done => cases opens
  | blank blank _ ih =>
      rw [List.dropWhile_cons_of_pos blank] at opens
      exact ih opens
  | token visible lexeme _ _ =>
      rw [List.dropWhile_cons_of_neg (by simp [visible])] at opens
      obtain rfl := Option.some.inj opens
      obtain rfl := lexeme.kind_of_openParen
      rfl

theorem Lexeme.eq_openParen (lexeme : Lexeme keywords c rest kind n) (opens : kind = .opening) :
    c = Byte.openParen := by
  cases lexeme with
  | string | customField | keyword | identifier | number | comparison => cases opens
  | single => grind [singleKind]

theorem Lexed.head?_of_startsArguments (lexed : Lexed keywords offset t tokens)
    (opens : Jql.startsArguments tokens = true) :
    (t.dropWhile Byte.isBlank).head? = some Byte.openParen := by
  induction lexed with
  | done => cases opens
  | blank blank _ ih =>
      rw [List.dropWhile_cons_of_pos blank]
      exact ih opens
  | token visible lexeme _ _ =>
      rw [List.dropWhile_cons_of_neg (by simp [visible])]
      exact congrArg some (lexeme.eq_openParen (eq_of_beq opens))

theorem separates_of_isNumberByte {b : UInt8} (number : isNumberByte b = true)
    (wordless : Byte.isWord b = false) : b = Byte.dot ∨ b = Byte.minus ∨ b = Byte.slash := by
  simp only [Byte.isWord, Bool.or_eq_false_iff] at wordless
  simpa [isNumberByte, wordless.1, or_assoc] using number

namespace IsWordRun

theorem exists_cons (run : IsWordRun before word after) :
    ∃ b tail, word = b :: tail ∧ Byte.isNameStart b = true := by
  have starts := run.starts
  cases word with
  | nil => cases starts
  | cons b tail => exact ⟨b, tail, rfl, starts⟩

variable (run : IsWordRun (before ++ inner) word after)

include run

variable (whole : c :: rest = inner ++ (word ++ after))

include whole

theorem of_name (starts : Byte.isNameStart c = true)
    (reaches : inner.length ≤ (rest.takeWhile Byte.isWord).length) :
    word = c :: rest.takeWhile Byte.isWord ∧
      after = rest.drop (rest.takeWhile Byte.isWord).length := by
  have name : (c :: rest).takeWhile Byte.isWord = c :: rest.takeWhile Byte.isWord :=
    List.takeWhile_cons_of_pos (Byte.isWord_of_isNameStart starts)
  cases inner using List.reverseRecOn with
  | nil =>
      have taken : (word ++ after).takeWhile Byte.isWord = word := run.back.takeWhile_run run.wordy
      rw [List.nil_append] at whole
      have same : word = c :: rest.takeWhile Byte.isWord := by rw [← name, whole, taken]
      refine ⟨same, ?_⟩
      have dropped := congrArg (List.drop word.length) whole
      rw [List.drop_left, same, List.length_cons, List.drop_succ_cons] at dropped
      exact dropped.symm
  | append_singleton inner b _ =>
      have within : inner ++ [b] <+: c :: rest.takeWhile Byte.isWord := by
        refine List.prefix_of_prefix_length_le (whole ▸ List.prefix_append _ _) ?_
          (Nat.le_succ_of_le reaches)
        exact name ▸ List.takeWhile_prefix _
      have inside : b ∈ (c :: rest).takeWhile Byte.isWord := name ▸ within.subset (by simp)
      have outside := run.front b (by simp)
      rw [List.mem_takeWhile_imp inside] at outside
      cases outside

theorem of_number (starts : startsNumber c rest = true)
    (reaches : inner.length ≤ (rest.takeWhile isNumberByte).length) :
    ∃ b ∈ (before ++ inner).getLast?, b = Byte.dot ∨ b = Byte.minus ∨ b = Byte.slash := by
  have front := run.front
  obtain ⟨first, tail, rfl, named⟩ := run.exists_cons
  simp only [startsNumber, Bool.or_eq_true, Bool.and_eq_true, beq_iff_eq] at starts
  cases inner with
  | nil =>
      obtain ⟨rfl, -⟩ := List.cons.inj whole
      rcases starts with isDigit | ⟨rfl | rfl, -⟩
      · rw [Byte.not_isNameStart_of_isDigit isDigit] at named
        cases named
      · cases named
      · cases named
  | cons d inner =>
      obtain ⟨rfl, rfl⟩ := List.cons.inj whole
      cases inner using List.reverseRecOn with
      | nil =>
          have outside := front c (by simp)
          rcases starts with isDigit | ⟨-, isDigit⟩
          · rw [Byte.isWord_of_isDigit isDigit] at outside
            cases outside
          · rw [Byte.not_isNameStart_of_isDigit isDigit] at named
            cases named
      | append_singleton inner b _ =>
          have last : b ∈ (before ++ c :: (inner ++ [b])).getLast? := by
            rw [← List.cons_append, ← List.append_assoc, List.getLast?_concat]
            rfl
          have within : inner ++ [b] <+:
              ((inner ++ [b]) ++ (first :: tail ++ after)).takeWhile isNumberByte := by
            refine List.prefix_of_prefix_length_le (List.prefix_append _ _)
              (List.takeWhile_prefix _) (Nat.le_of_succ_le reaches)
          have inside := List.mem_takeWhile_imp (within.subset (by simp : b ∈ inner ++ [b]))
          exact ⟨b, last, separates_of_isNumberByte inside (front b last)⟩

end IsWordRun

theorem not_isNameStart_of_isLongOperator {c d : UInt8} (long : isLongOperator c d = true) :
    Byte.isNameStart c = false ∧ Byte.isNameStart d = false := by
  simp only [isLongOperator, Bool.or_eq_true, Bool.and_eq_true, beq_iff_eq] at long
  rcases long with ⟨rfl, rfl | rfl⟩ | ⟨rfl | rfl, rfl⟩ <;> decide

/-- A word outside literals and custom fields is a name as a whole, or goes on a number. -/
theorem Around.name_or_continues (around : Around keywords 0 before (tail ++ after) b tokens)
    (run : IsWordRun before (b :: tail) after) (outside : LiesOutside tokens before (b :: tail)) :
    (∃ first kind place last, tokens = first ++ ⟨kind, b :: tail, place⟩ :: last ∧
      (kind = .keyword ∧ Text.toLower (b :: tail) ∈ keywords ∨ kind = .identifier) ∧
      Lexed keywords (place + (b :: tail).length) after last) ∨
    ContinuesNumber tokens before := by
  obtain ⟨rfl, whole, reaches, lexeme, later⟩ := around
  rename_i lead inner c rest kind n first last
  have fits := lexeme.length_le
  have covers : (⟨kind, c :: rest.take n, 0 + lead.length⟩ : Token).Covers (lead ++ inner).length := by
    constructor
    · simp
    · simp only [List.length_append, List.length_cons, List.length_take, Nat.min_eq_left fits]
      omega
  have member : (⟨kind, c :: rest.take n, 0 + lead.length⟩ : Token) ∈
      first ++ ⟨kind, c :: rest.take n, 0 + lead.length⟩ :: last := by simp
  have apart : ¬ (kind = .string ∨ kind = .customField) := by
    intro hidden
    exact outside _ member hidden _ (Nat.le_refl _) (by simp) covers
  have name : Byte.isNameStart c = true → n = (rest.takeWhile Byte.isWord).length →
      c :: rest.take n = b :: tail ∧
        Lexed keywords (0 + lead.length + (b :: tail).length) after last := by
    intro starts taken
    rw [taken] at reaches later ⊢
    obtain ⟨same, beyond⟩ := run.of_name whole starts reaches
    rw [← beyond, Nat.add_assoc, Nat.add_comm 1] at later
    rw [same, ← List.prefix_iff_eq_take.mp (List.takeWhile_prefix _)]
    exact ⟨rfl, later⟩
  have starts : Byte.isNameStart b = true := run.starts
  cases lexeme with
  | string | customField => simp at apart
  | keyword named listed =>
      obtain ⟨text, later⟩ := name named rfl
      rw [List.prefix_iff_eq_take.mp (List.takeWhile_prefix Byte.isWord), text,
        NameSet.contains_iff_mem] at listed
      exact Or.inl ⟨first, .keyword, _, last, by rw [text], Or.inl ⟨rfl, listed⟩, later⟩
  | identifier named =>
      obtain ⟨text, later⟩ := name named rfl
      exact Or.inl ⟨first, .identifier, _, last, by rw [text], Or.inr rfl, later⟩
  | number numbered =>
      exact Or.inr ⟨⟨_, member, rfl, covers⟩, run.of_number whole numbered reaches⟩
  | comparison follows long =>
      subst follows
      obtain ⟨unnamed, unnamed'⟩ := not_isNameStart_of_isLongOperator long
      cases inner with
      | nil =>
          obtain ⟨rfl, -⟩ := List.cons.inj whole
          rw [unnamed] at starts
          cases starts
      | cons _ inner =>
          obtain rfl := List.eq_nil_of_length_eq_zero (Nat.le_zero.mp (Nat.le_of_succ_le_succ reaches))
          obtain ⟨rfl, -⟩ := List.cons.inj (List.cons.inj whole).2
          rw [unnamed'] at starts
          cases starts
  | single _ unnamed =>
      obtain rfl := List.eq_nil_of_length_eq_zero (Nat.le_zero.mp reaches)
      obtain ⟨rfl, -⟩ := List.cons.inj whole
      rw [unnamed] at starts
      cases starts

end Words

/-- Where no keyword is reserved, every word of an accepted query that lies outside literals and
custom fields is guarded, unless it goes on a number. -/
theorem words_guarded_of_judge {rules : Rules} {query accepted : Text}
    (disjoint : ∀ name ∈ rules.keywords, name ∉ rules.sqlWords)
    (judged : (Gate.ofRules rules).judge query = .ok accepted) :
    ∃ tokens, tokenize rules.keywords query = .ok tokens ∧
      ∀ before word after, query = before ++ (word ++ after) → IsWordRun before word after →
        LiesOutside tokens before word →
          IsGuarded rules word after ∨ ContinuesNumber tokens before := by
  obtain ⟨⟨tokens, passes⟩, -⟩ := judge_eq_ok_iff.mp judged
  have functions := checkFunctions_eq_ok_iff.mp passes.functions
  have sqlWords := checkSqlWords_eq_ok_iff.mp passes.sqlWords
  refine ⟨tokens, passes.lexed, fun before word after split run outside => ?_⟩
  obtain ⟨b, tail, rfl, named⟩ := run.exists_cons
  have visible := Byte.not_isBlank_of_isWord (Byte.isWord_of_isNameStart named)
  have around := (lexed_of_tokenizeFrom passes.lexed).around split visible
  rcases around.name_or_continues run outside with
    ⟨first, kind, place, last, rfl, kinds, later⟩ | continues
  · left
    constructor
    case unreserved =>
      rcases kinds with ⟨-, listed⟩ | rfl
      · exact disjoint _ listed
      · exact sqlWords ⟨.identifier, b :: tail, place⟩ (by simp) rfl
    case callable =>
      intro called
      rcases kinds with ⟨-, listed⟩ | rfl
      · exact Or.inl listed
      · have allowed := functions first _ last rfl rfl (later.startsArguments called)
        exact Or.inr (NameSet.contains_iff_mem.mp allowed)
  · exact Or.inr continues

/-- A query with a call, a relative date, and a reserved word in a literal. -/
def datedQuery : Text := ascii "created > now(-7d) or key ~ \"drop\""

/-- A query in which a reserved word goes on a number. -/
def numberedQuery : Text := ascii "key = 1.select"

theorem verdicts_of_words :
    (Gate.ofRules .builtin).judge datedQuery = .ok datedQuery.trim ∧
      (Gate.ofRules .builtin).judge numberedQuery = .ok numberedQuery.trim := by
  decide +kernel

theorem words_guarded_of_judge_datedQuery :
    (∀ name ∈ Rules.builtin.keywords, name ∉ Rules.builtin.sqlWords) ∧
      ∃ tokens, tokenize Rules.builtin.keywords datedQuery = .ok tokens ∧
        ∀ before word after, datedQuery = before ++ (word ++ after) →
          IsWordRun before word after → LiesOutside tokens before word →
            IsGuarded .builtin word after ∨ ContinuesNumber tokens before := by
  have disjoint : ∀ name ∈ Rules.builtin.keywords, name ∉ Rules.builtin.sqlWords := by
    decide +kernel
  exact ⟨disjoint, words_guarded_of_judge disjoint verdicts_of_words.1⟩

/-- The reserved word lies outside literals in an accepted query, and is not guarded. -/
theorem numberedQuery_escapes_guard :
    (Gate.ofRules .builtin).judge numberedQuery = .ok numberedQuery.trim ∧
      ∃ tokens, tokenize Rules.builtin.keywords numberedQuery = .ok tokens ∧
        IsWordRun (ascii "key = 1.") (ascii "select") [] ∧
        numberedQuery = ascii "key = 1." ++ (ascii "select" ++ []) ∧
        LiesOutside tokens (ascii "key = 1.") (ascii "select") ∧
        ¬ IsGuarded .builtin (ascii "select") [] := by
  let tokens : List Token :=
    [⟨.identifier, ascii "key", 0⟩, ⟨.operator, ascii "=", 4⟩, ⟨.number, ascii "1.select", 6⟩]
  have run : IsWordRun (ascii "key = 1.") (ascii "select") [] := by
    constructor
    case starts => decide
    case wordy =>
      simp [ascii]
      decide
    case front =>
      intro b last
      obtain rfl : Byte.dot = b := Option.some.inj last
      rfl
    case back => exact fun b first => by cases first
  have bare : ∀ token ∈ tokens, ¬ (token.kind = .string ∨ token.kind = .customField) := by decide
  have reserved : (ascii "select").toLower ∈ Rules.builtin.sqlWords := by decide
  refine ⟨verdicts_of_words.2, tokens, by decide, run, by decide, ?_, ?_⟩
  · exact fun token member hidden => absurd hidden (bare token member)
  · exact fun guarded => guarded.unreserved reserved

end QueryGate.Jql
