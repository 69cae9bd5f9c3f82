import QueryGate.Proofs.Graphql.Margins
import QueryGate.Proofs.Pattern.Lines

/-! # Line ends in a document

A comment goes on through a carriage return and ends at a line feed, and nothing else in a document
tells the two apart. With line feeds in its place a document keeps all its bytes but shows what stands
behind a carriage return in a comment.
-/

namespace QueryGate.Graphql

open Text

variable {c : UInt8} {rest s t : Text} {kind : TokenKind} {n : Nat}

/-! ## One token -/

theorem fence_unlined : ∀ b ∈ Quoted.fence, b ≠ Byte.lineFeed ∧ b ≠ Byte.carriageReturn := by
  intro b member
  obtain rfl : b = Byte.doubleQuote := by simpa [Quoted.fence] using member
  decide

theorem dots_unlined : ∀ b ∈ ascii "...", b ≠ Byte.lineFeed ∧ b ≠ Byte.carriageReturn := by
  intro b member
  have joint := joint_of_mem_dots b member
  constructor
  · rintro rfl
    cases joint
  · rintro rfl
    cases joint

theorem span?_unifyLines (t : Text) :
    Quoted.span? Byte.doubleQuote t.unifyLines = Quoted.span? Byte.doubleQuote t := by
  fun_induction Quoted.span? Byte.doubleQuote t with
  | case1 => rfl
  | case2 => rfl
  | case3 c rest ih =>
      rw [← ih]
      exact Quoted.span?_escaped _ _
  | case4 rest other => exact Quoted.span?_closing other _
  | case5 c rest plain other ih =>
      have unescaping : Byte.unifyLine c ≠ Byte.backslash :=
        mt (Byte.unifyLine_eq_iff (by decide) (by decide)).mp plain
      have unclosing : Byte.unifyLine c ≠ Byte.doubleQuote :=
        mt (Byte.unifyLine_eq_iff (by decide) (by decide)).mp other
      rw [unifyLines_cons, Quoted.span?_plain unescaping unclosing, ih]

theorem throughFence?_unifyLines (t : Text) :
    Quoted.throughFence? t.unifyLines = Quoted.throughFence? t := by
  induction t with
  | nil => rfl
  | cons c rest ih =>
      rw [unifyLines_cons, Quoted.throughFence?, Quoted.throughFence?, ih, ← unifyLines_cons,
        isPrefixOf_unifyLines fence_unlined]

theorem numberSpan_unifyLines (last : UInt8) (t : Text) :
    numberSpan last t.unifyLines = numberSpan last t := by
  induction t generalizing last with
  | nil => rfl
  | cons b rest ih =>
      rw [unifyLines_cons]
      by_cases ends : b = Byte.carriageReturn
      · have stops : ∀ {d more}, isJoint d = false → numberSpan last (d :: more) = 0 := by
          intro d more outside
          refine @numberSpan_append last [] (d :: more) fun first starts => ?_
          obtain rfl := Option.some.inj starts
          exact outside
        subst ends
        exact (stops (by decide)).trans (stops (by decide)).symm
      · rw [Byte.unifyLine_of_ne ends, numberSpan, numberSpan, ih]

/-- No token but a literal can tell the line ends apart, and a literal ends where it does. -/
theorem lexeme?_unifyLines (c : UInt8) (rest : Text) :
    lexeme? c rest.unifyLines = lexeme? c rest := by
  have begins : ∀ start : Text, (∀ b ∈ start, b ≠ Byte.lineFeed ∧ b ≠ Byte.carriageReturn) →
      start.isPrefixOf (c :: rest.unifyLines.take 2) = start.isPrefixOf (c :: rest.take 2) := by
    intro start unlined
    cases start with
    | nil => simp
    | cons a start =>
        have cut : rest.unifyLines.take 2 = unifyLines (rest.take 2) := List.map_take.symm
        rw [List.isPrefixOf_cons_cons, List.isPrefixOf_cons_cons, cut,
          isPrefixOf_unifyLines fun b member => unlined b (List.mem_cons_of_mem a member)]
  have beyond : rest.unifyLines.drop 2 = unifyLines (rest.drop 2) := List.map_drop.symm
  unfold lexeme? startsNumber
  rw [begins Quoted.fence fence_unlined, begins (ascii "...") dots_unlined, beyond,
    throughFence?_unifyLines, length_takeWhile_unifyLines rfl, any_head?_unifyLines rfl,
    any_head?_unifyLines rfl, numberSpan_unifyLines]
  by_cases quoted : c = Byte.doubleQuote
  · rw [quoted, span?_unifyLines]
  · rw [if_neg quoted, if_neg quoted]

theorem Lexeme.joint_of_mem (lexeme : Lexeme c rest kind n) (bare : kind ≠ .string) :
    ∀ b ∈ rest.take n, isJoint b = true := by
  have name : ∀ b ∈ rest.take (rest.takeWhile Byte.isWord).length, isJoint b = true := by
    rw [← List.prefix_iff_eq_take.mp (List.takeWhile_prefix Byte.isWord)]
    exact fun b member => isJoint_of_isWord (List.mem_takeWhile_imp member)
  cases lexeme with
  | block | literal => exact absurd rfl bare
  | name | parameter => exact name
  | number => exact numberSpan_forall c rest fun _ => isJoint_of_isNumeric
  | spread dots =>
      have whole := eq_of_isPrefixOf rfl dots
      exact fun b member => joint_of_mem_dots b (whole ▸ List.mem_cons_of_mem c member)
  | single => simp

/-! ## Line ends outside literals -/

/-- Byte number `i` of the document lies in a string token. -/
def InString (tokens : List Token) (i : Nat) : Prop :=
  ∃ token ∈ tokens, token.kind = .string ∧ token.offset ≤ i ∧ i < token.offset + token.text.length

instance (tokens : List Token) (i : Nat) : Decidable (InString tokens i) :=
  inferInstanceAs (Decidable (∃ token ∈ tokens, _ ∧ _ ∧ _))

/-- A piece of a document that starts at an offset, with line feeds for the carriage returns outside
the string tokens. -/
def unifyFrom (tokens : List Token) (offset : Nat) : Text → Text
  | [] => []
  | b :: rest =>
    (if InString tokens offset then b else Byte.unifyLine b) :: unifyFrom tokens (offset + 1) rest

/-- The document with line feeds for the carriage returns outside its string tokens. -/
def unifyOutside (tokens : List Token) (document : Text) : Text := unifyFrom tokens 0 document

/-- A comment in which nothing shows with line feeds for its carriage returns. -/
def Aside.IsMute (aside : Aside) : Prop :=
  aside.text.head? = some Byte.hash → tokenize aside.text.unifyLines = .ok []

instance (aside : Aside) : Decidable aside.IsMute :=
  inferInstanceAs (Decidable (_ → _))

section Unify

variable {all tokens : List Token} {offset : Nat}

theorem sameLines_unifyFrom (all : List Token) (offset : Nat) (t : Text) :
    (unifyFrom all offset t).SameLines t := by
  induction t generalizing offset with
  | nil => rfl
  | cons b rest ih =>
      rw [unifyFrom]
      refine List.cons_eq_cons.mpr ⟨?_, ih (offset + 1)⟩
      split
      · rfl
      · exact Byte.unifyLine_unifyLine b

theorem unifyFrom_append (all : List Token) (offset : Nat) (s t : Text) :
    unifyFrom all offset (s ++ t) = unifyFrom all offset s ++ unifyFrom all (offset + s.length) t := by
  induction s generalizing offset with
  | nil => rfl
  | cons b s ih =>
      rw [List.cons_append, unifyFrom, unifyFrom, ih, List.cons_append, List.length_cons,
        Nat.add_assoc, Nat.add_comm 1]

theorem unifyFrom_of_inString (inside : ∀ i, offset ≤ i → i < offset + t.length → InString all i) :
    unifyFrom all offset t = t := by
  induction t generalizing offset with
  | nil => rfl
  | cons b rest ih =>
      rw [List.length_cons] at inside
      rw [unifyFrom, if_pos (inside offset (by omega) (by omega)),
        ih fun i after before => inside i (by omega) (by omega)]

theorem unifyFrom_of_not_mem (inner : Byte.carriageReturn ∉ t) : unifyFrom all offset t = t := by
  induction t generalizing offset with
  | nil => rfl
  | cons b rest ih =>
      rw [List.mem_cons, not_or] at inner
      rw [unifyFrom, ih inner.2, Byte.unifyLine_of_ne (Ne.symm inner.1), ite_self]

theorem unifyFrom_of_outside (outside : ∀ i, offset ≤ i → i < offset + t.length → ¬ InString all i) :
    unifyFrom all offset t = t.unifyLines := by
  induction t generalizing offset with
  | nil => rfl
  | cons b rest ih =>
      rw [List.length_cons] at outside
      rw [unifyFrom, if_neg (outside offset (by omega) (by omega)),
        ih fun i after before => outside i (by omega) (by omega), unifyLines_cons]

theorem tokenizeFrom_of_mute {taken : Nat} (fits : taken ≤ s.length)
    (mute : tokenizeFrom offset taken s = .ok []) (ends : ∀ b ∈ t.head?, b = Byte.lineFeed) :
    tokenizeFrom offset taken (s ++ t) = tokenizeFrom (offset + s.length) 0 t := by
  induction s generalizing offset taken with
  | nil =>
      obtain rfl := Nat.le_zero.mp fits
      rfl
  | cons c rest ih =>
      rw [List.length_cons] at fits
      rw [List.length_cons, Nat.add_comm _ 1, ← Nat.add_assoc, List.cons_append]
      cases taken with
      | succ taken => exact ih (by omega) mute
      | zero =>
          cases blank : Byte.isBlank c with
          | true =>
              rw [tokenizeFrom_of_blank blank] at mute ⊢
              exact ih (Nat.zero_le _) mute
          | false =>
              by_cases comments : c = Byte.hash
              · subst comments
                have apart : Apart (· ≠ Byte.lineFeed) t := fun b first => by simp [ends b first]
                rw [tokenizeFrom_of_hash] at mute ⊢
                rw [apart.takeWhile_append]
                exact ih (List.takeWhile_prefix _).length_le mute
              · cases found : lexeme? c rest with
                | none =>
                    rw [tokenizeFrom_of_open blank comments found] at mute
                    cases mute
                | some lexeme =>
                    rw [tokenizeFrom_of_lexeme blank comments found, map_eq_ok_iff] at mute
                    obtain ⟨others, -, shown⟩ := mute
                    cases shown

theorem unifyFrom_split (all : List Token) (offset : Nat) (fits : n ≤ rest.length) :
    unifyFrom all offset rest =
      unifyFrom all offset (rest.take n) ++ unifyFrom all (offset + n) (rest.drop n) := by
  have pieces := unifyFrom_append all offset (rest.take n) (rest.drop n)
  rwa [List.take_append_drop, List.length_take_of_le fits] at pieces

/-! ## All tokens -/

theorem inString_cons_of_bare {token : Token} {i : Nat} (bare : token.kind ≠ .string) :
    InString (token :: tokens) i ↔ InString tokens i := by
  simp [InString, bare]

theorem inString_cons_of_le {token : Token} {i : Nat}
    (behind : token.offset + token.text.length ≤ i) :
    InString (token :: tokens) i ↔ InString tokens i := by
  simp [InString, Nat.not_lt.mpr behind]

theorem not_inString_of_lt {i : Nat} (ahead : ∀ token ∈ tokens, i < token.offset) :
    ¬ InString tokens i := by
  rintro ⟨token, member, -, starts, -⟩
  have later := ahead token member
  omega

theorem tokenizeFrom_muteComment (line : n = (rest.takeWhile (· ≠ Byte.lineFeed)).length)
    (outside : ∀ i, offset ≤ i → i < offset + 1 + n → ¬ InString all i)
    (mute : tokenize (unifyLines (Byte.hash :: rest.take n)) = .ok []) :
    tokenizeFrom offset 0 (Byte.hash :: unifyFrom all (offset + 1) rest) =
      tokenizeFrom (offset + 1 + n) 0 (unifyFrom all (offset + 1 + n) (rest.drop n)) := by
  have fits : n ≤ rest.length := line ▸ (List.takeWhile_prefix _).length_le
  have size : (rest.take n).length = n := List.length_take_of_le fits
  have comment : unifyFrom all (offset + 1) (rest.take n) = unifyLines (rest.take n) :=
    unifyFrom_of_outside fun i after before => outside i (by omega) (by omega)
  have silent : tokenizeFrom offset 0 (unifyLines (Byte.hash :: rest.take n)) = .ok [] := by
    have moved := tokenizeFrom_shift offset 0 0 (unifyLines (Byte.hash :: rest.take n))
    rw [Nat.zero_add] at moved
    rw [moved, ← tokenize, mute]
    rfl
  have ends : ∀ b ∈ (unifyFrom all (offset + 1 + n) (rest.drop n)).head?, b = Byte.lineFeed := by
    have beyond : rest.drop n = rest.dropWhile (· ≠ Byte.lineFeed) := by
      conv_lhs => rw [← List.takeWhile_append_dropWhile (p := (· ≠ Byte.lineFeed)) (l := rest)]
      exact List.drop_left' line.symm
    have stops := List.head?_dropWhile_not (· ≠ Byte.lineFeed) rest
    rw [← beyond] at stops
    cases following : rest.drop n with
    | nil => simp [unifyFrom]
    | cons b more =>
        rw [following] at stops
        obtain rfl : b = Byte.lineFeed := by simpa using stops
        intro d first
        obtain rfl := Option.some.inj first
        rw [Byte.unifyLine_of_ne (by decide), ite_self]
  rw [unifyFrom_split all (offset + 1) fits, comment, ← List.cons_append]
  rw [unifyLines_cons, Byte.unifyLine_of_ne (by decide)] at silent
  rw [tokenizeFrom_of_mute (Nat.zero_le _) silent ends, List.length_cons, unifyLines, List.length_map, size]
  congr 1
  omega

theorem tokenizeFrom_keptToken (visible : Byte.isBlank c = false) (uncommented : c ≠ Byte.hash)
    (found : lexeme? c rest = some (kind, n))
    (kept : unifyFrom all (offset + 1) (rest.take n) = rest.take n) :
    tokenizeFrom offset 0 (c :: unifyFrom all (offset + 1) rest) =
      (tokenizeFrom (offset + 1 + n) 0 (unifyFrom all (offset + 1 + n) (rest.drop n))).map
        (⟨kind, tokenText kind (c :: rest.take n), offset⟩ :: ·) := by
  have fits := (lexeme_of_lexeme? found).length_le
  have size : (rest.take n).length = n := List.length_take_of_le fits
  have same : lexeme? c (unifyFrom all (offset + 1) rest) = some (kind, n) := by
    rw [← lexeme?_unifyLines, sameLines_unifyFrom, lexeme?_unifyLines, found]
  rw [unifyFrom_split all (offset + 1) fits, kept] at same ⊢
  rw [tokenizeFrom_of_lexeme visible uncommented same, tokenizeFrom_taken, List.take_left' size,
    List.drop_left' size]

theorem kept_of_lexeme {others : List Token} (found : lexeme? c rest = some (kind, n))
    (agree : ∀ i, offset ≤ i → (InString all i ↔
      InString (⟨kind, tokenText kind (c :: rest.take n), offset⟩ :: others) i)) :
    unifyFrom all (offset + 1) (rest.take n) = rest.take n ∧
      ∀ i, offset + 1 + n ≤ i → (InString all i ↔ InString others i) := by
  have lexeme := lexeme_of_lexeme? found
  have size : (rest.take n).length = n := List.length_take_of_le lexeme.length_le
  by_cases literal : kind = .string
  · subst literal
    constructor
    · refine unifyFrom_of_inString fun i after before => (agree i (by omega)).mpr ?_
      refine ⟨_, List.mem_cons_self, rfl, (by omega : offset ≤ i), ?_⟩
      change i < offset + (c :: rest.take n).length
      rw [List.length_cons]
      omega
    · refine fun i behind => (agree i (by omega)).trans (inString_cons_of_le ?_)
      change offset + (c :: rest.take n).length ≤ i
      rw [List.length_cons]
      omega
  · constructor
    · refine unifyFrom_of_not_mem fun member => ?_
      cases lexeme.joint_of_mem literal _ member
    · exact fun i behind => (agree i (by omega)).trans (inString_cons_of_bare literal)

/-- Line feeds for the carriage returns outside the string tokens leave the tokens as they are, if
nothing shows in a comment. -/
theorem tokenizeFrom_unifyFrom (read : tokenizeFrom offset 0 t = .ok tokens)
    (agree : ∀ i, offset ≤ i → (InString all i ↔ InString tokens i))
    (mute : ∀ aside ∈ asidesFrom offset 0 t, aside.IsMute) :
    tokenizeFrom offset 0 (unifyFrom all offset t) = .ok tokens := by
  induction size : t.length using Nat.strongRecOn generalizing offset t tokens with
  | ind size ih =>
      subst size
      cases t with
      | nil => exact read
      | cons c rest =>
          have shorter : ∀ n, (rest.drop n).length < (c :: rest).length := by
            intro n
            simp only [List.length_drop, List.length_cons]
            omega
          rw [asidesFrom] at mute
          rw [unifyFrom]
          cases blank : Byte.isBlank c with
          | true =>
              have stays : Byte.isBlank (if InString all offset then c else Byte.unifyLine c) =
                  true := by
                split <;> simp [blank]
              rw [tokenizeFrom_of_blank blank] at read
              rw [if_pos blank] at mute
              rw [tokenizeFrom_of_blank stays]
              exact ih _ (shorter 0) read (fun i later => agree i (by omega)) mute rfl
          | false =>
              have inner : c ≠ Byte.carriageReturn := by
                rintro rfl
                cases blank
              rw [blank, if_neg Bool.false_ne_true] at mute
              rw [Byte.unifyLine_of_ne inner, ite_self]
              by_cases comments : c = Byte.hash
              · subst comments
                rw [if_pos rfl] at mute
                dsimp only at mute
                rw [asidesFrom_taken, List.forall_mem_cons] at mute
                rw [tokenizeFrom_of_hash, tokenizeFrom_taken] at read
                have ahead := (lexed_of_tokenizeFrom read).offset_le
                rw [tokenizeFrom_muteComment rfl ?_ (mute.1 rfl)]
                · exact ih _ (shorter _) read (fun i later => agree i (by omega)) mute.2 rfl
                · intro i after before
                  rw [agree i after]
                  exact not_inString_of_lt fun token member => before.trans_le (ahead token member)
              · rw [if_neg comments] at mute
                cases found : lexeme? c rest with
                | none =>
                    rw [tokenizeFrom_of_open blank comments found] at read
                    cases read
                | some lexeme =>
                    obtain ⟨kind, n⟩ := lexeme
                    rw [found] at mute
                    dsimp only at mute
                    rw [tokenizeFrom_of_lexeme blank comments found, tokenizeFrom_taken,
                      map_eq_ok_iff] at read
                    obtain ⟨others, later, rfl⟩ := read
                    obtain ⟨kept, agree⟩ := kept_of_lexeme found agree
                    have mute : ∀ aside ∈ asidesFrom (offset + 1 + n) 0 (rest.drop n),
                        aside.IsMute := by
                      rw [asidesFrom_taken] at mute
                      split at mute
                      · exact (List.forall_mem_cons.mp mute).2
                      · exact mute
                    rw [tokenizeFrom_keptToken blank comments found kept,
                      ih _ (shorter n) later agree mute rfl]
                    rfl

end Unify

/-! ## Judging -/

section Judging

variable {gate : Gate} {document accepted : Text} {given : Option Variables}
  {tokens others : List Token} {header other : Header}

theorem check_of_sameLines (same : s.SameLines t) :
    Nesting.check gate.nesting s = Nesting.check gate.nesting t := by
  have keeps : ∀ b, Byte.unifyLine b = b ∨
      gate.nesting.Ignores b ∧ gate.nesting.Ignores (Byte.unifyLine b) := by
    intro b
    by_cases ends : b = Byte.carriageReturn
    · subst ends
      exact Or.inr ⟨ignores_of_isBlank gate _ rfl, ignores_of_isBlank gate _ rfl⟩
    · exact Or.inl (Byte.unifyLine_of_ne ends)
  rw [← Nesting.check_exchange keeps s, ← Nesting.check_exchange keeps t]
  exact congrArg _ same

theorem Gate.Passes.of_sameLines (blind : gate.detector.IsLineBlind)
    (passes : gate.Passes s tokens header) (same : s.SameLines t) (lexed : tokenize t = .ok others)
    (checked : TokensPass gate.rules others other) : gate.Passes t others other := by
  constructor
  case bounds =>
    obtain ⟨visible, short⟩ := checkSize_eq_ok_iff.mp passes.bounds
    exact checkSize_eq_ok_iff.mpr ⟨mt same.trim_eq_nil_iff.mpr visible, same.length_eq ▸ short⟩
  case patterns =>
    refine Detector.check_eq_ok_iff.mpr ?_
    rw [← Detector.isDetected_eq_of_sameLines blind same]
    exact Detector.check_eq_ok_iff.mp passes.patterns
  case lexed => exact lexed
  case operation => exact checked.operation
  case nesting =>
    rw [← check_of_sameLines same]
    exact passes.nesting
  case names => exact checked.names

theorem isLineBlind_builtin : (Gate.ofRules Rules.builtin).detector.IsLineBlind := by
  decide +kernel

/-- A gate with the built-in rules that has accepted a document accepts it with line feeds for the
carriage returns outside its string tokens exactly if the tokens it then has pass, and so whenever
nothing shows in a comment, for then the tokens are the same. -/
theorem judge_unifyOutside
    (judged : (Gate.ofRules .builtin).judge document given = .ok accepted) :
    ∃ tokens, tokenize document = .ok tokens ∧
      ((∃ handed, (Gate.ofRules .builtin).judge (unifyOutside tokens document) given = .ok handed) ↔
        ∃ others header, tokenize (unifyOutside tokens document) = .ok others ∧
          TokensPass .builtin others header) ∧
      ((∀ aside ∈ asidesOf document, aside.IsMute) →
        tokenize (unifyOutside tokens document) = .ok tokens ∧
          ∃ handed, (Gate.ofRules .builtin).judge (unifyOutside tokens document) given =
            .ok handed) := by
  obtain ⟨⟨tokens, header, passes⟩, values, -⟩ := judge_eq_ok_iff.mp judged
  have same : document.SameLines (unifyOutside tokens document) :=
    (sameLines_unifyFrom tokens 0 document).symm
  have accepts : ∀ others other, tokenize (unifyOutside tokens document) = .ok others →
      TokensPass .builtin others other →
        ∃ handed, (Gate.ofRules .builtin).judge (unifyOutside tokens document) given =
          .ok handed := by
    intro others other lexed checked
    exact ⟨_, judge_eq_ok_iff.mpr
      ⟨⟨others, other, passes.of_sameLines isLineBlind_builtin same lexed checked⟩, values, rfl⟩⟩
  refine ⟨tokens, passes.lexed, ⟨?_, ?_⟩, fun mute => ?_⟩
  · rintro ⟨handed, again⟩
    obtain ⟨⟨others, other, unified⟩, -⟩ := judge_eq_ok_iff.mp again
    exact ⟨others, other, unified.lexed, unified.operation, unified.names⟩
  · rintro ⟨others, other, lexed, checked⟩
    exact accepts others other lexed checked
  · have lexed : tokenize (unifyOutside tokens document) = .ok tokens :=
      tokenizeFrom_unifyFrom passes.lexed (fun _ _ => Iff.rfl) mute
    exact ⟨lexed, accepts tokens header lexed ⟨passes.operation, passes.names⟩⟩

/-- A document with a comment whose line ends in both ways. -/
def commentedLine : Text := ascii "\x7btotal#all\r\n\x7d"

/-- A document with a name behind a carriage return in a comment. -/
def hiddenName : Text := ascii "\x7b total #\rpasswordHash\n\x7d"

theorem verdicts_of_comments :
    (Gate.ofRules .builtin).judge commentedLine none = .ok commentedLine ∧
      (Gate.ofRules .builtin).judge hiddenName none = .ok hiddenName ∧
      (Gate.ofRules .builtin).judge
          (unifyOutside ((tokenize hiddenName).toOption.getD []) hiddenName) none =
        .error (.unknownField (ascii "passwordHash")) ∧
      (∀ aside ∈ asidesOf commentedLine, aside.IsMute) ∧ (tokenize hiddenName).isOk = true := by
  decide +kernel

theorem judge_unifyOutside_commentedLine :
    ∃ tokens, tokenize commentedLine = .ok tokens ∧
      tokenize (unifyOutside tokens commentedLine) = .ok tokens ∧
        ∃ handed, (Gate.ofRules .builtin).judge (unifyOutside tokens commentedLine) none =
          .ok handed := by
  obtain ⟨judged, -, -, mute, -⟩ := verdicts_of_comments
  obtain ⟨tokens, lexed, -, unseen⟩ := judge_unifyOutside judged
  exact ⟨tokens, lexed, unseen mute⟩

/-- A name that is hidden in a comment is refused once the carriage return in front of it is a line
feed. -/
theorem judge_unifyOutside_hiddenName :
    (Gate.ofRules .builtin).judge hiddenName none = .ok hiddenName ∧
      ∃ tokens, tokenize hiddenName = .ok tokens ∧
        (Gate.ofRules .builtin).judge (unifyOutside tokens hiddenName) none =
          .error (.unknownField (ascii "passwordHash")) := by
  obtain ⟨-, judged, refused, -, reads⟩ := verdicts_of_comments
  obtain ⟨tokens, lexed⟩ := exists_of_isOk reads
  rw [lexed] at refused
  exact ⟨judged, tokens, lexed, refused⟩

end Judging

end QueryGate.Graphql
