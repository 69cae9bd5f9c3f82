import Mathlib.Data.List.Infix
import QueryGate.Proofs.Graphql.Joining
import QueryGate.Proofs.Slices

/-! # What is left of a document in its tokens

As for queries: the tokens hold everything but whitespace and comments, and the texts of the tokens with
spaces between them have the same tokens again. The dollar sign of a variable belongs to what is put
together, though it is not in the text of the token.
-/

namespace QueryGate.Graphql

open Text

/-- Between the tokens of a document stand whitespace and comments, each up to the end of its line. -/
inductive IsGap : Text → Text → Prop where
  | blank {b after} (blank : Byte.isBlank b = true) : IsGap [b] after
  | comment {line after} (within : ∀ b ∈ line, b ≠ Byte.lineFeed)
      (ends : ∀ b ∈ after.head?, b = Byte.lineFeed) : IsGap (Byte.hash :: line) after

variable {c : UInt8} {rest s t tail : Text} {kind : TokenKind} {n : Nat}

/-! ## Slices -/

/-- The piece of the document a token was read from, and where it starts. -/
def Token.extent (token : Token) : Slice := ⟨token.slice, token.offset⟩

theorem tokenText_slice (token : Token) : tokenText token.kind token.slice = token.text := by
  unfold tokenText Token.slice
  by_cases variable_ : token.kind = .variable
  · rw [if_pos variable_, if_pos variable_, List.tail_cons]
  · rw [if_neg variable_, if_neg variable_]

theorem Lexeme.slice_eq (lexeme : Lexeme c rest kind n) (offset : Nat) :
    (⟨kind, tokenText kind (c :: rest.take n), offset⟩ : Token).slice = c :: rest.take n := by
  cases lexeme with
  | parameter sign _ => rw [sign]; rfl
  | block | literal | name | number | spread => rfl
  | single =>
      unfold singleKind
      split <;> rfl

theorem isGap_comment (rest : Text) :
    IsGap (Byte.hash :: rest.take (rest.takeWhile (· ≠ Byte.lineFeed)).length)
      (rest.drop (rest.takeWhile (· ≠ Byte.lineFeed)).length) := by
  rw [take_length_takeWhile, drop_length_takeWhile]
  refine .comment (fun b member => by simpa using List.mem_takeWhile_imp member) fun b first => ?_
  have stops := List.head?_dropWhile_not (· ≠ Byte.lineFeed) rest
  rw [Option.mem_def.mp first] at stops
  simpa using stops

theorem Lexed.cut {offset : Nat} {tokens : List Token} {asides : List Aside}
    (lexed : Lexed offset t tokens asides) : Cut IsGap offset t (tokens.map Token.extent) := by
  have size : ∀ {c : UInt8} {rest : Text} {n : Nat}, n ≤ rest.length →
      (c :: rest.take n).length = 1 + n := by
    intro c rest n fits
    rw [List.length_cons, List.length_take, Nat.min_eq_left fits, Nat.add_comm]
  have whole : ∀ (c : UInt8) (rest : Text) (n : Nat), c :: rest = (c :: rest.take n) ++ rest.drop n := by
    simp
  induction lexed with
  | done => exact .done
  | @blank offset c rest tokens asides blank _ ih =>
      rw [← List.singleton_append]
      exact .gap (.blank blank) ih
  | @comment offset rest n tokens asides line _ ih =>
      subst line
      rw [Nat.add_assoc, ← @size Byte.hash _ _ (List.takeWhile_prefix _).length_le] at ih
      rw [whole]
      exact .gap (isGap_comment rest) ih
  | @literal offset c rest n tokens asides lexeme _ ih =>
      rw [Nat.add_assoc, ← @size c _ _ lexeme.length_le] at ih
      rw [whole c rest n]
      exact .slice (List.cons_ne_nil _ _) ih
  | @token offset c rest kind n tokens asides lexeme _ _ ih =>
      rw [Nat.add_assoc, ← @size c _ _ lexeme.length_le] at ih
      rw [whole c rest n, List.map_cons, Token.extent, lexeme.slice_eq]
      exact .slice (List.cons_ne_nil _ _) ih

/-! ## A token by itself -/

theorem isPrefixOf_take_mono {start : Text} (begins : s <+: t)
    (starts : start.isPrefixOf (c :: s.take 2) = true) : start.isPrefixOf (c :: t.take 2) = true := by
  rw [List.isPrefixOf_iff_prefix] at starts ⊢
  exact starts.trans ((List.prefix_cons_inj c).mpr (begins.take 2))

theorem any_head?_mono {p : UInt8 → Bool} (begins : s <+: t) (starts : s.head?.any p = true) :
    t.head?.any p = true := by
  obtain ⟨more, rfl⟩ := begins
  cases s with
  | nil => cases starts
  | cons b s => exact starts

theorem startsNumber_mono (begins : s <+: t) (starts : startsNumber c s = true) :
    startsNumber c t = true := by
  rw [startsNumber, Bool.or_eq_true, Bool.and_eq_true] at starts ⊢
  exact starts.imp_right (And.imp_right (any_head?_mono begins))

theorem any_head?_takeWhile {p q : UInt8 → Bool} (within : ∀ b, p b = true → q b = true)
    (starts : t.head?.any p = true) : (t.takeWhile q).head?.any p = true := by
  cases t with
  | nil => cases starts
  | cons b t =>
      rw [List.takeWhile_cons, if_pos (within b starts)]
      exact starts

theorem numberSpan_take (last : UInt8) (t : Text) :
    numberSpan last (t.take (numberSpan last t)) = numberSpan last t := by
  induction t generalizing last with
  | nil => rfl
  | cons b t ih =>
      rw [numberSpan]
      split
      · next continues =>
          rw [Nat.add_comm, List.take_succ_cons, numberSpan, if_pos continues, ih, Nat.add_comm]
      · rfl

theorem startsNumber_take (starts : startsNumber c rest = true) :
    startsNumber c (rest.take (numberSpan c rest)) = true := by
  rw [startsNumber, Bool.or_eq_true, Bool.and_eq_true] at starts ⊢
  refine starts.imp_right (And.imp_right fun digit => ?_)
  cases rest with
  | nil => cases digit
  | cons b rest =>
      have first : Byte.isDigit b = true := digit
      rw [numberSpan, if_pos (by simp [first]), Nat.add_comm, List.take_succ_cons]
      exact digit

theorem lexeme?_take_of_quote (found : lexeme? Byte.doubleQuote rest = some (kind, n)) :
    lexeme? Byte.doubleQuote (rest.take n) = some (kind, n) := by
  unfold lexeme? at found ⊢
  cases fenced : Quoted.fence.isPrefixOf (Byte.doubleQuote :: rest.take 2) with
  | true =>
      rw [fenced, if_pos rfl] at found
      obtain ⟨m, closes, same⟩ := Option.map_eq_some_iff.mp found
      obtain ⟨rfl, rfl⟩ := Prod.mk.inj same
      have still : Quoted.fence.isPrefixOf (Byte.doubleQuote :: (rest.take (2 + m)).take 2) = true := by
        rw [List.take_take, Nat.min_eq_left (Nat.le_add_right 2 m)]
        exact fenced
      rw [if_pos still, List.drop_take, Nat.add_sub_cancel_left, Quoted.throughFence?_take closes]
      rfl
  | false =>
      have unfenced :
          Quoted.fence.isPrefixOf (Byte.doubleQuote :: (rest.take n).take 2) = false := by
        rw [Bool.eq_false_iff] at fenced ⊢
        exact mt (isPrefixOf_take_mono (List.take_prefix n rest)) fenced
      rw [fenced, if_neg Bool.false_ne_true, if_pos rfl] at found
      rw [unfenced, if_neg Bool.false_ne_true, if_pos rfl]
      obtain ⟨m, closes, same⟩ := Option.map_eq_some_iff.mp found
      obtain ⟨rfl, rfl⟩ := Prod.mk.inj same
      rw [Quoted.span?_take closes]
      rfl

theorem lexeme?_take_of_unquoted (unquoted : c ≠ Byte.doubleQuote)
    (found : lexeme? c rest = some (kind, n)) : lexeme? c (rest.take n) = some (kind, n) := by
  have fenceless : ∀ t, Quoted.fence.isPrefixOf (c :: t) = false := by
    intro t
    simp [Quoted.fence, List.isPrefixOf, beq_false_of_ne unquoted.symm]
  unfold lexeme? at found ⊢
  rw [fenceless, if_neg Bool.false_ne_true, if_neg unquoted] at found ⊢
  -- As for queries, what was tried before stays refused for a beginning of the text.
  cases named : Byte.isNameStart c with
  | true =>
      rw [named, if_pos rfl] at found
      obtain ⟨rfl, rfl⟩ := Prod.mk.inj (Option.some.inj found)
      rw [if_pos rfl, take_length_takeWhile, List.takeWhile_idem]
  | false =>
      rw [named, if_neg Bool.false_ne_true] at found
      rw [if_neg Bool.false_ne_true]
      by_cases sign : c = Byte.dollar ∧ rest.head?.any Byte.isNameStart = true
      · rw [if_pos sign] at found
        obtain ⟨rfl, rfl⟩ := Prod.mk.inj (Option.some.inj found)
        have still := any_head?_takeWhile (fun _ => Byte.isWord_of_isNameStart) sign.2
        rw [take_length_takeWhile, if_pos ⟨sign.1, still⟩, List.takeWhile_idem]
      have signless : ¬ (c = Byte.dollar ∧ (rest.take n).head?.any Byte.isNameStart = true) :=
        fun still => sign ⟨still.1, any_head?_mono (List.take_prefix n rest) still.2⟩
      rw [if_neg sign] at found
      rw [if_neg signless]
      cases numbered : startsNumber c rest with
      | true =>
          rw [numbered, if_pos rfl] at found
          obtain ⟨rfl, rfl⟩ := Prod.mk.inj (Option.some.inj found)
          rw [startsNumber_take numbered, if_pos rfl, numberSpan_take]
      | false =>
          have numberless : startsNumber c (rest.take n) = false := by
            rw [Bool.eq_false_iff] at numbered ⊢
            exact mt (startsNumber_mono (List.take_prefix n rest)) numbered
          rw [numbered, if_neg Bool.false_ne_true] at found
          rw [numberless, if_neg Bool.false_ne_true]
          cases dots : (ascii "...").isPrefixOf (c :: rest.take 2) with
          | true =>
              rw [dots, if_pos rfl] at found
              obtain ⟨rfl, rfl⟩ := Prod.mk.inj (Option.some.inj found)
              rw [List.take_take, Nat.min_self, dots]
              rfl
          | false =>
              have dotless : (ascii "...").isPrefixOf (c :: (rest.take n).take 2) = false := by
                rw [Bool.eq_false_iff] at dots ⊢
                exact mt (isPrefixOf_take_mono (List.take_prefix n rest)) dots
              rw [dots, if_neg Bool.false_ne_true] at found
              rw [dotless, if_neg Bool.false_ne_true]
              exact found

/-- The bytes of a token make the same token when nothing follows them. -/
theorem lexeme?_take (found : lexeme? c rest = some (kind, n)) :
    lexeme? c (rest.take n) = some (kind, n) := by
  by_cases quoted : c = Byte.doubleQuote
  · subst quoted
    exact lexeme?_take_of_quote found
  · exact lexeme?_take_of_unquoted quoted found

/-- The token without its place. -/
def Token.unplaced (token : Token) : Token := { token with offset := 0 }

/-- The slice of the token is the token whatever it stands in. -/
def Token.StandsAlone (token : Token) : Prop :=
  ∃ c more, token.slice = c :: more ∧ Byte.isBlank c = false ∧ c ≠ Byte.hash ∧
    lexeme? c more = some (token.kind, more.length)

section Tokens

variable {offset taken : Nat} {token : Token} {tokens : List Token}

theorem standsAlone_of_tokenizeFrom (read : tokenizeFrom offset taken t = .ok tokens) :
    ∀ token ∈ tokens, token.StandsAlone := by
  induction t generalizing offset taken tokens with
  | nil =>
      obtain rfl := Except.ok.inj read
      simp
  | cons c rest ih =>
      cases taken with
      | succ taken => exact ih read
      | zero =>
          cases blank : Byte.isBlank c with
          | true =>
              rw [tokenizeFrom_of_blank blank] at read
              exact ih read
          | false =>
              by_cases comments : c = Byte.hash
              · rw [comments, tokenizeFrom_of_hash] at read
                exact ih read
              cases found : lexeme? c rest with
              | none =>
                  rw [tokenizeFrom_of_open blank comments found] at read
                  cases read
              | some lexeme =>
                  obtain ⟨kind, n⟩ := lexeme
                  rw [tokenizeFrom_of_lexeme blank comments found, map_eq_ok_iff] at read
                  obtain ⟨others, later, rfl⟩ := read
                  have lexeme := lexeme_of_lexeme? found
                  refine List.forall_mem_cons.mpr
                    ⟨⟨c, rest.take n, lexeme.slice_eq offset, blank, comments, ?_⟩, ih later⟩
                  rw [List.length_take_of_le lexeme.length_le]
                  exact lexeme?_take found

theorem Token.StandsAlone.tokenizeFrom_append (alone : token.StandsAlone)
    (meets : Meets token.slice tail) (offset : Nat) :
    tokenizeFrom offset 0 (token.slice ++ tail) =
      (tokenizeFrom (offset + token.slice.length) 0 tail).map ({ token with offset } :: ·) := by
  obtain ⟨c, more, slice, visible, uncommented, found⟩ := alone
  rw [slice] at meets
  have still : lexeme? c (more ++ tail) = some (token.kind, more.length) := by
    rw [lexeme?_append meets (by simp [found]), found]
  have size : offset + token.slice.length = offset + 1 + more.length := by
    rw [slice, List.length_cons, Nat.add_assoc, Nat.add_comm 1]
  have text : tokenText token.kind (c :: more) = token.text := by rw [← slice, tokenText_slice]
  rw [size, slice, List.cons_append, tokenizeFrom_of_lexeme visible uncommented still,
    tokenizeFrom_taken, List.drop_left, List.take_left, text]

theorem meets_behindSpaces (slices : List Text) : Meets s (behindSpaces slices) := by
  cases slices with
  | nil => exact meets_of_isBlank (by simp [Text.Blank, behindSpaces]) s
  | cons slice slices =>
      refine ⟨fun b first => ?_, fun opening => ?_⟩
      · obtain rfl := Option.some.inj first
        rfl
      · exact absurd (Option.some.inj opening) (by decide)

theorem readsAlone_of_standsAlone (alone : ∀ token ∈ tokens, token.StandsAlone) :
    ReadsAlone (fun offset => tokenizeFrom offset 0) Token.slice
      (fun offset token => { token with offset }) tokens where
  done _ := rfl
  space _ _ := tokenizeFrom_of_blank rfl
  token token member offset slices :=
    (alone token member).tokenizeFrom_append (meets_behindSpaces slices) offset
  placed _ _ := rfl

end Tokens

/-- Of a document its tokens leave out nothing but whitespace and comments, and their slices with spaces
between them have the same tokens again. -/
theorem tokens_keep_document (document : Text) (tokens : List Token)
    (read : tokenize document = .ok tokens) :
    Lossless IsGap document (tokens.map Token.extent) ∧
      ∃ others, tokenize (spaced (tokens.map Token.slice)) = .ok others ∧
        others.map Token.unplaced = tokens.map Token.unplaced :=
  ⟨(lexed_of_tokenizeFrom read).cut.lossless,
    (readsAlone_of_standsAlone (standsAlone_of_tokenizeFrom read)).spaced_ok⟩

/-- Tokens with nothing between them but a comment, and quotes in literals of both kinds. -/
def denseDocument : Text :=
  ascii "query Q($n:Int=-1e+5-2)\x7bf(s:\"#\\\"\"t:\"\"\"a\"b\"\"\"\"\"u:$n)# $x \"y\n...F\x7d"

/-- The same tokens with one space between any two. -/
def spacedDocument : Text :=
  ascii "query Q ( $n : Int = -1e+5 -2 ) \x7b f ( s : \"#\\\"\" t : \"\"\"a\"b\"\"\" \"\" u : $n ) ... F \x7d"

theorem tokens_keep_denseDocument :
    ∃ tokens, tokenize denseDocument = .ok tokens ∧
      Lossless IsGap denseDocument (tokens.map Token.extent) ∧
      ∃ others, tokenize spacedDocument = .ok others ∧
        others.map Token.unplaced = tokens.map Token.unplaced := by
  have slices : (tokenize denseDocument).map (fun tokens => spaced (tokens.map Token.slice)) =
      .ok spacedDocument := by decide +kernel
  obtain ⟨tokens, read, slices⟩ := map_eq_ok_iff.mp slices
  obtain ⟨lossless, others, again, same⟩ := tokens_keep_document denseDocument tokens read
  rw [slices] at again
  exact ⟨tokens, read, lossless, others, again, same⟩

end QueryGate.Graphql
