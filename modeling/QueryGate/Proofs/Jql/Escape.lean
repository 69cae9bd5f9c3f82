import QueryGate.Proofs.Jql.Gate
import QueryGate.Proofs.Jql.Outline
import QueryGate.Proofs.Nesting.Pieces

/-! # Escaped values

An escaped value stays inside the literal it is put in, whatever the value is: the literal is one
token, and no check but those of the size and of the patterns can tell one value from another.
-/

namespace QueryGate.Jql

theorem readable_escapes :
    Quoted.AreReadable Byte.doubleQuote id (fun b => !Byte.isControl b) escapes := by
  constructor
  case means => rfl
  case keeps => rfl
  case unescaping => rfl
  case unclosing => rfl
  case others => decide +kernel

variable {gate : Gate} {query before after contents other : Text} {tokens first last : List Token}

/-- What a literal contains matters only to the checks of the size and of the patterns. -/
theorem Gate.Passes.exchange (passes : gate.Passes (before ++ (Quoted.literal other ++ after)) tokens)
    (closed : Quoted.isSealed Byte.doubleQuote other = true)
    (sealed_ : Quoted.isSealed Byte.doubleQuote contents = true)
    (front : tokenize gate.rules.keywords before = .ok first)
    (back : tokenize gate.rules.keywords after = .ok last)
    (outside : Nesting.Cursor.past gate.nesting.quotes {} before = {})
    (bounds : gate.checkBounds (before ++ (Quoted.literal contents ++ after)) = .ok ())
    (patterns : gate.checkPatterns (before ++ (Quoted.literal contents ++ after)) = .ok ()) :
    ∃ others, gate.Passes (before ++ (Quoted.literal contents ++ after)) others := by
  obtain rfl := Except.ok.inj (passes.lexed.symm.trans (tokenize_literal closed front back))
  have lexed := tokenize_literal sealed_ front back
  have checked : TokensPass gate.rules
      (first ++ ⟨.string, Quoted.literal contents, before.length⟩ ::
        last.map (Token.shift (before.length + (Quoted.literal contents).length))) :=
    .of_outlines ⟨passes.fields, passes.functions, passes.sqlWords⟩ (map_exchange rfl rfl rfl)
  refine ⟨_, bounds, patterns, ?_, lexed, checked.fields, checked.functions, checked.sqlWords⟩
  rw [Nesting.check_literal sealed_ after closed List.mem_cons_self outside]
  exact passes.nesting

/-- A search of summaries for a text. -/
def summaryQuery (contents : Text) : Text := ascii "summary ~ " ++ Quoted.literal contents

theorem trim_summaryQuery (contents : Text) : (summaryQuery contents).trim = summaryQuery contents := by
  apply Text.trim_eq_self
  · intro b first
    obtain rfl : (0x73 : UInt8) = b := Option.some.inj first
    decide
  · intro b last
    have quote : (summaryQuery contents).getLast? = some Byte.doubleQuote := by
      rw [summaryQuery, Quoted.literal, ← List.cons_append, ← List.append_assoc,
        List.getLast?_concat]
    obtain rfl : Byte.doubleQuote = b := Option.some.inj (quote.symm.trans last)
    decide

theorem judge_summaryQuery_nil :
    (Gate.ofRules Rules.builtin).judge (summaryQuery []) = .ok (summaryQuery []) := by
  decide +kernel

theorem judge_summaryQuery_escape (value : Text) :
    (Gate.ofRules Rules.builtin).judge (summaryQuery (escape value)) =
        .ok (summaryQuery (escape value)) ∨
      ∃ rejection, (Gate.ofRules Rules.builtin).judge (summaryQuery (escape value)) =
        .error rejection ∧ (rejection.code = .tooLong ∨ rejection.code = .dangerousPattern) := by
  have trimmed := trim_summaryQuery (escape value)
  have visible : (summaryQuery (escape value)).trim ≠ [] := by
    rw [trimmed]
    simp [summaryQuery, Quoted.literal]
  cases bounds : (Gate.ofRules Rules.builtin).checkBounds (summaryQuery (escape value)) with
  | error rejection =>
      exact Or.inr ⟨rejection, judge_of_bounds bounds, Or.inl (code_of_checkSize_of_visible visible bounds)⟩
  | ok =>
      cases patterns : (Gate.ofRules Rules.builtin).checkPatterns (summaryQuery (escape value)) with
      | error rejection =>
          exact Or.inr ⟨rejection, judge_of_patterns bounds patterns,
            Or.inr (Detector.code_of_check patterns)⟩
      | ok =>
          obtain ⟨⟨tokens, empty⟩, -⟩ := judge_eq_ok_iff.mp judge_summaryQuery_nil
          obtain ⟨first, front⟩ :
              ∃ first, tokenize Rules.builtin.keywords (ascii "summary ~ ") = .ok first :=
            exists_of_isOk rfl
          rw [summaryQuery, ← List.append_nil (Quoted.literal _)] at bounds patterns empty
          obtain ⟨others, passes⟩ := empty.exchange (by decide) (readable_escapes.isSealed_escape value) front rfl
            rfl bounds patterns
          rw [List.append_nil] at passes
          exact Or.inl (judge_eq_ok_iff.mpr ⟨⟨others, passes⟩, trimmed.symm⟩)

/-- An escaped value between double quotes is one literal wherever it is put, it keeps the value
without its control bytes, and a search for it is refused for its size or its patterns alone. -/
theorem escape_contained_query (value : Text) :
    (∀ keywords before after first last, tokenize keywords before = .ok first →
      tokenize keywords after = .ok last →
        tokenize keywords (before ++ (Quoted.literal (escape value) ++ after)) =
          .ok (first ++ ⟨.string, Quoted.literal (escape value), before.length⟩ ::
            last.map (Token.shift (before.length + (Quoted.literal (escape value)).length)))) ∧
    Quoted.decode id (escape value) = value.filter (fun b => !Byte.isControl b) ∧
    ((Gate.ofRules Rules.builtin).judge (summaryQuery (escape value)) =
        .ok (summaryQuery (escape value)) ∨
      ∃ rejection, (Gate.ofRules Rules.builtin).judge (summaryQuery (escape value)) =
        .error rejection ∧ (rejection.code = .tooLong ∨ rejection.code = .dangerousPattern)) :=
  ⟨fun _ _ _ _ _ front back => tokenize_literal (readable_escapes.isSealed_escape value) front back,
    readable_escapes.decode_escape value, judge_summaryQuery_escape value⟩

/-- A value that tries to close its literal and to go on with a clause of its own. -/
def evasion : Text := ascii "\" or key = \""

theorem escape_contained_query_evasion :
    ∃ first last, tokenize Rules.builtin.keywords (ascii "key = ") = .ok first ∧
      tokenize Rules.builtin.keywords (ascii " and status = 1") = .ok last ∧
      tokenize Rules.builtin.keywords
          (ascii "key = " ++ (Quoted.literal (escape evasion) ++ ascii " and status = 1")) =
        .ok (first ++ ⟨.string, Quoted.literal (escape evasion), (ascii "key = ").length⟩ ::
          last.map (Token.shift ((ascii "key = ").length +
            (Quoted.literal (escape evasion)).length))) := by
  obtain ⟨first, front⟩ : ∃ first, tokenize Rules.builtin.keywords (ascii "key = ") = .ok first :=
    exists_of_isOk (by decide +kernel)
  obtain ⟨last, back⟩ :
      ∃ last, tokenize Rules.builtin.keywords (ascii " and status = 1") = .ok last :=
    exists_of_isOk (by decide +kernel)
  exact ⟨first, last, front, back, (escape_contained_query evasion).1 _ _ _ _ _ front back⟩

end QueryGate.Jql
