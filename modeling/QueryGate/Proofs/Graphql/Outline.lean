import QueryGate.Graphql.Names
import QueryGate.Proofs.Graphql.Joining

/-! # What the walks over tokens look at

Neither the places of the tokens nor the contents of literals matter to which operation is found in a
document and to whether its names pass.
-/

namespace QueryGate.Graphql

namespace Token

/-- The token without its place, and without its text if it is a literal. -/
def outline (token : Token) : Token :=
  { token with text := if token.kind = .string then [] else token.text, offset := 0 }

variable {token : Token}

@[simp] theorem outline_kind : token.outline.kind = token.kind := rfl

theorem outline_text (named : token.kind ≠ .string) : token.outline.text = token.text :=
  if_neg named

theorem outline_is {kind : TokenKind} (named : kind ≠ .string) (text : Text) :
    (token.outline.kind == kind && token.outline.text == text) =
      (token.kind == kind && token.text == text) := by
  by_cases same : token.kind = kind
  · rw [outline_text (same ▸ named), outline_kind]
  · rw [outline_kind, beq_false_of_ne same, Bool.false_and, Bool.false_and]

@[simp] theorem outline_isPunctuator (b : UInt8) :
    token.outline.isPunctuator b = token.isPunctuator b := outline_is (by decide) [b]

@[simp] theorem outline_isName (word : Text) : token.outline.isName word = token.isName word :=
  outline_is (by decide) word

theorem outline_text_of_isName {word : Text} (named : token.isName word = true) :
    token.outline.text = token.text := by
  simp only [isName, Bool.and_eq_true, beq_iff_eq] at named
  exact outline_text (by simp [named.1])

end Token

theorem outlines_shift (k : Nat) (tokens : List Token) :
    (tokens.map (Token.shift k)).map Token.outline = tokens.map Token.outline := by
  rw [List.map_map]
  rfl

section Outlines

variable {tokens : List Token} {rules : Rules} {kind : OperationKind} {header : Header}

theorem nameAfter_outlines : nameAfter (tokens.map Token.outline) = nameAfter tokens := by
  cases tokens with
  | nil => rfl
  | cons token rest =>
      simp only [nameAfter, List.map_cons, List.head?_cons]
      by_cases named : token.kind = .name
      · have outlined : token.outline.kind = .name := named
        rw [if_pos outlined, if_pos named, Token.outline_text (by simp [named])]
      · exact (if_neg named).trans (if_neg named).symm

theorem walk_outlines {stage : Stage} {found : Option Header} :
    walk stage found (tokens.map Token.outline) = .ok header ↔
      walk stage found tokens = .ok header := by
  induction tokens generalizing stage found with
  | nil => rfl
  | cons token rest ih =>
      rw [List.map_cons]
      cases stage with
      | block outer =>
          simp only [walk, Token.outline_isPunctuator]
          split
          · exact ih
          · split
            · cases outer <;> exact ih
            · exact ih
      | heading definition parens =>
          simp only [walk, Token.outline_isPunctuator]
          split
          · exact ih
          · split
            · exact ih
            · split <;> exact ih
      | between =>
          simp only [walk, Token.outline_isPunctuator, Token.outline_isName, nameAfter_outlines]
          split
          · split
            · rfl
            · exact ih
          · split
            · rfl
            · split
              · exact ih
              · split
                · next keyword =>
                    have same : token.outline.text = token.text :=
                      keyword.elim Token.outline_text_of_isName Token.outline_text_of_isName
                    rw [same]
                    split
                    · rfl
                    · exact ih
                · simp

theorem detectOperation_outlines :
    detectOperation (tokens.map Token.outline) = .ok header ↔
      detectOperation tokens = .ok header := walk_outlines

theorem Place.after_outline (place : Place) (token : Token) :
    place.after token.outline = place.after token := by
  simp only [Place.after, Token.outline_isPunctuator, Token.outline_isName]

theorem placedFrom_outlines (place : Place) :
    placedFrom place (tokens.map Token.outline) =
      (placedFrom place tokens).map (Prod.map Token.outline id) := by
  induction tokens generalizing place with
  | nil => rfl
  | cons token rest ih =>
      rw [List.map_cons, placedFrom, placedFrom, Place.after_outline, ih]
      rfl

theorem checkNames_eq_ok_iff :
    checkNames rules kind tokens = .ok () ↔
      ∀ entry ∈ placed tokens, entry.1.kind = .name →
        rules.allowsName kind entry.2 entry.1.text = true := by
  unfold checkNames
  dsimp only
  split
  · next token place found =>
      have member := List.mem_of_find?_eq_some found
      have offends := List.find?_some found
      simp only [Bool.and_eq_true, beq_iff_eq, Bool.not_eq_true'] at offends
      refine iff_of_false (by simp) fun allowed => ?_
      exact Bool.false_ne_true (offends.2.symm.trans (allowed _ member offends.1))
  · next absent =>
      rw [List.find?_eq_none] at absent
      refine iff_of_true rfl fun entry member named => ?_
      simpa [named] using absent entry member

theorem checkNames_outlines :
    checkNames rules kind (tokens.map Token.outline) = .ok () ↔
      checkNames rules kind tokens = .ok () := by
  rw [checkNames_eq_ok_iff, checkNames_eq_ok_iff, placed, placedFrom_outlines, List.forall_mem_map]
  refine forall₂_congr fun entry _ => forall_congr' fun named => ?_
  have name : entry.1.kind = .name := named
  have same : entry.1.outline.text = entry.1.text := Token.outline_text (by simp [name])
  exact iff_of_eq (by rw [← same]; rfl)

end Outlines

/-- The tokens carry one operation, and their names pass. -/
structure TokensPass (rules : Rules) (tokens : List Token) (header : Header) : Prop where
  operation : detectOperation tokens = .ok header
  names : checkNames rules header.kind tokens = .ok ()

theorem TokensPass.of_outlines {rules : Rules} {tokens others : List Token} {header : Header}
    (passes : TokensPass rules tokens header)
    (same : others.map Token.outline = tokens.map Token.outline) :
    TokensPass rules others header := by
  constructor
  case operation =>
    rw [← detectOperation_outlines, same, detectOperation_outlines]
    exact passes.operation
  case names =>
    rw [← checkNames_outlines, same, checkNames_outlines]
    exact passes.names

end QueryGate.Graphql
