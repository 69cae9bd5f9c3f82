import QueryGate.Graphql.Operation
import QueryGate.Proofs.Steps

/-! # The walk over definitions, token by token

One step of the walk depends on where it stands, on the operation found so far, on the token, and in
one case on the token after that. The walk is the run of these steps. Once it has ended well, further
tokens can spoil it but not change the operation.
-/

namespace QueryGate.Graphql

/-- Where the brace that closes the inmost block leads. -/
def Stage.leave (outer : Nat) : Stage :=
  match outer with
  | 0 => .between
  | outer + 1 => .block outer

/-- Where a token leads, and the operation found then; `next` is the token behind it. -/
def Stage.step (stage : Stage) (found : Option Header) (token : Token) (next : Option Token) :
    Except Rejection (Stage × Option Header) :=
  match stage with
  | .block outer =>
    if token.isPunctuator Byte.openBrace then .ok (.block (outer + 1), found)
    else if token.isPunctuator Byte.closeBrace then .ok (.leave outer, found)
    else .ok (stage, found)
  | .heading definition parens =>
    if token.isPunctuator Byte.openParen then .ok (.heading definition (parens + 1), found)
    else if token.isPunctuator Byte.closeParen then .ok (.heading definition (parens - 1), found)
    else if token.isPunctuator Byte.openBrace ∧ parens = 0 then
      .ok (.block 0, definition.found found)
    else .ok (stage, found)
  | .between =>
    if token.isPunctuator Byte.openBrace then
      if found.isSome then .error (.secondOperation [])
      else .ok (.block 0, some { kind := .query })
    else if token.isName (ascii "subscription") then .error .subscription
    else if token.isName (ascii "fragment") then .ok (.heading .fragment 0, found)
    else if token.isName (ascii "query") ∨ token.isName (ascii "mutation") then
      if found.isSome then .error (.secondOperation token.text)
      else
        let kind := if token.isName (ascii "mutation") then .mutation else .query
        .ok (.heading (.operation ⟨kind, nameAfter next.toList⟩ token.text) 0, found)
    else .error (.strayToken token.text)

/-- No operation is announced whose block has not been reached. -/
def Stage.isSettled : Stage → Bool
  | .heading (.operation ..) _ => false
  | .heading .fragment _ | .between | .block _ => true

theorem isSettled_leave (outer : Nat) : (Stage.leave outer).isSettled = true := by
  cases outer <;> rfl

section Steps

variable {stage reached : Stage} {found later : Option Header} {token : Token} {next : Option Token}
  {rejection : Rejection} {known : Header}

theorem code_of_step (refused : stage.step found token next = .error rejection) :
    rejection.code ∈ [.unknownOperation, .unsupportedOperation] := by
  cases stage with
  | block outer => grind [Stage.step]
  | heading definition parens => grind [Stage.step]
  | between => grind [Stage.step, Rejection.code]

/-- What stands behind the token matters only if the token announces an operation. -/
theorem step_lookahead (stepped : stage.step found token next = .ok (reached, later)) :
    (∀ other, stage.step found token other = .ok (reached, later)) ∨ reached.isSettled = false := by
  cases stage with
  | block outer => exact Or.inl fun _ => stepped
  | heading definition parens => exact Or.inl fun _ => stepped
  | between => grind [Stage.step, Stage.isSettled]

theorem step_of_isSettled (settled : stage.isSettled = true)
    (stepped : stage.step (some known) token next = .ok (reached, later)) :
    reached.isSettled = true ∧ later = some known := by
  cases stage with
  | block outer => grind [Stage.step, Stage.isSettled, isSettled_leave]
  | heading definition parens =>
      cases definition with
      | operation => cases settled
      | fragment => grind [Stage.step, Stage.isSettled, Definition.found]
  | between => grind [Stage.step, Stage.isSettled]

end Steps

section Walk

variable {stage : Stage} {found : Option Header} {token : Token} {tokens rest : List Token}
  {rejection : Rejection} {known header : Header}

theorem walk_cons :
    walk stage found (token :: rest) =
      stage.step found token rest.head? >>= fun (reached, later) => walk reached later rest := by
  have lookahead : nameAfter rest.head?.toList = nameAfter rest := by
    cases rest <;> rfl
  cases stage with
  | block outer =>
      rw [walk.eq_def, Stage.step]
      dsimp only
      split
      · rfl
      · split
        · cases outer <;> rfl
        · rfl
  | heading definition parens =>
      rw [walk.eq_def, Stage.step]
      dsimp only
      split
      · rfl
      · split
        · rfl
        · split <;> rfl
  | between =>
      rw [walk.eq_def, Stage.step, lookahead]
      dsimp only
      split
      · split <;> rfl
      · split
        · rfl
        · split
          · rfl
          · split
            · split <;> rfl
            · rfl

theorem code_of_walk (refused : walk stage found tokens = .error rejection) :
    rejection.code ∈ [.unknownOperation, .unsupportedOperation] := by
  induction tokens generalizing stage found with
  | nil =>
      cases stage with
      | heading definition parens =>
          cases refused
          cases definition <;> simp [Definition.missingSelection, Rejection.code]
      | between | block outer =>
          cases found with
          | some header => cases refused
          | none =>
              cases refused
              simp [Rejection.code]
  | cons token rest ih =>
      rw [walk_cons, bind_eq_error_iff] at refused
      rcases refused with refused | ⟨⟨reached, later⟩, -, refused⟩
      · exact code_of_step refused
      · exact ih refused

theorem walk_nil_eq_ok_iff :
    walk stage found [] = .ok header ↔
      (∀ definition parens, stage ≠ .heading definition parens) ∧ found = some header := by
  cases stage with
  | heading definition parens => simp [walk]
  | between | block outer => cases found <;> simp [walk]

theorem isSettled_of_walk_nil (walked : walk stage found [] = .ok header) :
    stage.isSettled = true := by
  cases stage with
  | heading definition parens =>
      obtain ⟨outside, -⟩ := walk_nil_eq_ok_iff.mp walked
      exact absurd rfl (outside definition parens)
  | between | block outer => rfl

theorem walk_of_isSettled (settled : stage.isSettled = true)
    (walked : walk stage (some known) tokens = .ok header) : header = known := by
  induction tokens generalizing stage with
  | nil => exact (Option.some.inj (walk_nil_eq_ok_iff.mp walked).2).symm
  | cons token rest ih =>
      rw [walk_cons, bind_eq_ok_iff] at walked
      obtain ⟨⟨reached, later⟩, stepped, walked⟩ := walked
      obtain ⟨settled, rfl⟩ := step_of_isSettled settled stepped
      exact ih settled walked

/-- A walk that ends well goes on, with further tokens, from where it has ended. -/
theorem walk_append (walked : walk stage found tokens = .ok header) :
    ∃ reached, reached.isSettled = true ∧
      ∀ more, walk stage found (tokens ++ more) = walk reached (some header) more := by
  induction tokens generalizing stage found with
  | nil =>
      obtain ⟨-, rfl⟩ := walk_nil_eq_ok_iff.mp walked
      exact ⟨stage, isSettled_of_walk_nil walked, fun more => rfl⟩
  | cons token rest ih =>
      rw [walk_cons, bind_eq_ok_iff] at walked
      obtain ⟨⟨next, later⟩, stepped, walked⟩ := walked
      obtain ⟨reached, settled, goesOn⟩ := ih walked
      refine ⟨reached, settled, fun more => ?_⟩
      have same : stage.step found token (rest ++ more).head? = .ok (next, later) := by
        cases rest with
        | cons second rest => exact stepped
        | nil =>
            rcases step_lookahead stepped with every | announced
            · exact every _
            · cases (isSettled_of_walk_nil walked).symm.trans announced
      rw [List.cons_append, walk_cons, same]
      exact goesOn more

theorem detectOperation_append {more : List Token} {other : Header}
    (detected : detectOperation tokens = .ok header)
    (again : detectOperation (tokens ++ more) = .ok other) : other = header := by
  obtain ⟨reached, settled, goesOn⟩ := walk_append detected
  rw [detectOperation, goesOn] at again
  exact walk_of_isSettled settled again

end Walk

end QueryGate.Graphql
