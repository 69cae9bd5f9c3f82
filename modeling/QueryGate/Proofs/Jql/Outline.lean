import QueryGate.Proofs.Jql.Fields
import QueryGate.Proofs.Jql.Joining

/-! # What the checks of tokens look at

Neither the places of the tokens nor the contents of literals matter to whether a query passes the
checks of its fields, functions and reserved words.
-/

namespace QueryGate.Jql

namespace Token

/-- The token without its place, and without its text if it is a literal. -/
def outline (token : Token) : Token :=
  { token with text := if token.kind = .string then [] else token.text, offset := 0 }

variable {token : Token}

@[simp] theorem outline_kind : token.outline.kind = token.kind := rfl

theorem outline_text (named : token.kind ≠ .string) : token.outline.text = token.text :=
  if_neg named

@[simp] theorem outline_isKeyword (word : Text) :
    token.outline.isKeyword word = token.isKeyword word := by
  unfold isKeyword
  by_cases keyword : token.kind = .keyword
  · rw [outline_text (by simp [keyword]), outline_kind]
  · rw [outline_kind, beq_false_of_ne keyword, Bool.false_and, Bool.false_and]

end Token

theorem outlines_shift (k : Nat) (tokens : List Token) :
    (tokens.map (Token.shift k)).map Token.outline = tokens.map Token.outline := by
  rw [List.map_map]
  rfl

section Outlines

variable {tokens : List Token} {i : Nat} {rules : Rules}

@[simp] theorem kindAt_outlines {kind : TokenKind} :
    KindAt (tokens.map Token.outline) i kind ↔ KindAt tokens i kind := by
  rw [KindAt, KindAt, List.getElem?_map]
  cases tokens[i]? <;> simp

@[simp] theorem keywordAt_outlines {word : Text} :
    KeywordAt (tokens.map Token.outline) i word ↔ KeywordAt tokens i word := by
  rw [KeywordAt, KeywordAt, List.getElem?_map]
  cases tokens[i]? <;> simp

theorem isFieldPlace_outlines :
    IsFieldPlace (tokens.map Token.outline) i ↔ IsFieldPlace tokens i := by
  simp only [IsFieldPlace, BeginsCondition, FollowsOrderBy, ContinuesOrderBy, kindAt_outlines,
    keywordAt_outlines]

theorem fieldsAllowedAt_outlines :
    FieldsAllowedAt (tokens.map Token.outline) i rules ↔ FieldsAllowedAt tokens i rules := by
  cases found : tokens[i]? with
  | none =>
      have beyond : tokens.length ≤ i := List.getElem?_eq_none_iff.mp found
      exact iff_of_true (fieldsAllowedAt_of_length_le rules (by simpa using beyond))
        (fieldsAllowedAt_of_length_le rules beyond)
  | some token =>
      have outlined : (tokens.map Token.outline)[i]? = some token.outline := by
        rw [List.getElem?_map, found, Option.map_some]
      rw [fieldsAllowedAt_iff rules outlined, fieldsAllowedAt_iff rules found, isFieldPlace_outlines]
      simp only [kindAt_outlines, Token.outline_kind]
      by_cases literal : token.kind = .string
      · simp [literal]
      · rw [Token.outline_text literal]

theorem checkFields_outlines :
    checkFields rules (tokens.map Token.outline) = .ok () ↔ checkFields rules tokens = .ok () := by
  rw [checkFields_eq_ok_iff, checkFields_eq_ok_iff]
  exact forall_congr' fun i => fieldsAllowedAt_outlines

theorem startsArguments_outlines :
    startsArguments (tokens.map Token.outline) = startsArguments tokens := by
  cases tokens <;> rfl

theorem checkFunctions_outlines :
    checkFunctions rules (tokens.map Token.outline) = checkFunctions rules tokens := by
  induction tokens with
  | nil => rfl
  | cons token rest ih =>
      rw [List.map_cons, checkFunctions, checkFunctions, ih, startsArguments_outlines,
        Token.outline_kind]
      by_cases named : token.kind = .identifier
      · rw [Token.outline_text (by simp [named])]
      · simp [named]

theorem checkSqlWords_outlines :
    checkSqlWords rules (tokens.map Token.outline) = checkSqlWords rules tokens := by
  induction tokens with
  | nil => rfl
  | cons token rest ih =>
      rw [List.map_cons, checkSqlWords, checkSqlWords, ih, Token.outline_kind]
      by_cases named : token.kind = .identifier
      · rw [Token.outline_text (by simp [named])]
      · simp [named]

end Outlines

/-- The tokens pass the checks of fields, functions and reserved words. -/
structure TokensPass (rules : Rules) (tokens : List Token) : Prop where
  fields : checkFields rules tokens = .ok ()
  functions : checkFunctions rules tokens = .ok ()
  sqlWords : checkSqlWords rules tokens = .ok ()

theorem TokensPass.of_outlines {rules : Rules} {tokens others : List Token}
    (passes : TokensPass rules tokens)
    (same : others.map Token.outline = tokens.map Token.outline) : TokensPass rules others := by
  constructor
  case fields => rw [← checkFields_outlines, same, checkFields_outlines, passes.fields]
  case functions => rw [← checkFunctions_outlines, same, checkFunctions_outlines, passes.functions]
  case sqlWords => rw [← checkSqlWords_outlines, same, checkSqlWords_outlines, passes.sqlWords]

end QueryGate.Jql
