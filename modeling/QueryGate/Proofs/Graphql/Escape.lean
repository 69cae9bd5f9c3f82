import QueryGate.Proofs.Graphql.Gate
import QueryGate.Proofs.Graphql.Outline
import QueryGate.Proofs.Nesting.Pieces

/-! # Escaped values in documents

As in queries, an escaped value stays inside its literal. What stands around the literal has more to
see to: no comment may run into it, and no quote next to it may turn it into a block.
-/

namespace QueryGate.Graphql

/-- What a byte behind a backslash stands for. -/
def meaning (b : UInt8) : UInt8 :=
  if ascii "n" = [b] then Byte.lineFeed
  else if ascii "r" = [b] then Byte.carriageReturn
  else if ascii "t" = [b] then Byte.tab
  else b

/-- Whether escaping keeps a byte: of the control bytes it keeps those that have an escape. -/
def isKept (b : UInt8) : Bool :=
  !Byte.isControl b || b == Byte.tab || b == Byte.lineFeed || b == Byte.carriageReturn

theorem readable_escapes : Quoted.AreReadable Byte.doubleQuote meaning isKept escapes := by
  constructor
  case means => rfl
  case keeps => rfl
  case unescaping => rfl
  case unclosing => rfl
  case others => decide +kernel

variable {gate : Gate} {before after contents other : Text} {tokens first last : List Token}
  {header : Header}

/-- What a literal contains matters only to the checks of the size and of the patterns. -/
theorem Gate.Passes.exchange
    (passes : gate.Passes (before ++ (Quoted.literal other ++ after)) tokens header)
    (closed : Quoted.isSealed Byte.doubleQuote other = true)
    (sealed_ : Quoted.isSealed Byte.doubleQuote contents = true)
    (uncommented : Byte.hash ∉ before) (apart : before.getLast? ≠ some Byte.doubleQuote)
    (unfenced : after.head? ≠ some Byte.doubleQuote)
    (front : tokenize before = .ok first) (back : tokenize after = .ok last)
    (outside : Nesting.Cursor.past gate.nesting.quotes {} before = {})
    (bounds : gate.checkBounds (before ++ (Quoted.literal contents ++ after)) = .ok ())
    (patterns : gate.checkPatterns (before ++ (Quoted.literal contents ++ after)) = .ok ()) :
    ∃ others, gate.Passes (before ++ (Quoted.literal contents ++ after)) others header := by
  have found := tokenize_literal closed uncommented apart unfenced front back
  obtain rfl := Except.ok.inj (passes.lexed.symm.trans found)
  have lexed := tokenize_literal sealed_ uncommented apart unfenced front back
  have checked : TokensPass gate.rules
      (first ++ ⟨.string, Quoted.literal contents, before.length⟩ ::
        last.map (Token.shift (before.length + (Quoted.literal contents).length))) header :=
    .of_outlines ⟨passes.operation, passes.names⟩ (map_exchange rfl rfl rfl)
  refine ⟨_, bounds, patterns, lexed, checked.operation, ?_, checked.names⟩
  rw [Nesting.check_literal sealed_ after closed List.mem_cons_self outside]
  exact passes.nesting

/-- What stands in front of the literal in a search for tests. -/
def searchHead : Text := ascii "query \x7b getTests(jql: "

def searchTail : Text := ascii ") \x7b total \x7d \x7d"

/-- A document that searches for tests. -/
def searchDocument (contents : Text) : Text := searchHead ++ (Quoted.literal contents ++ searchTail)

theorem trim_searchDocument (contents : Text) :
    (searchDocument contents).trim = searchDocument contents := by
  apply Text.trim_eq_self
  · intro b first
    obtain rfl : (0x71 : UInt8) = b := Option.some.inj first
    decide
  · intro b last
    have brace : searchTail.getLast? = some Byte.closeBrace := rfl
    rw [searchDocument, ← List.append_assoc, List.getLast?_append, brace] at last
    obtain rfl : Byte.closeBrace = b := Option.some.inj last
    decide

theorem judge_searchDocument_nil :
    (Gate.ofRules Rules.builtin).judge (searchDocument []) none = .ok (searchDocument []) := by
  decide +kernel

theorem judge_searchDocument_escape (value : Text) :
    (Gate.ofRules Rules.builtin).judge (searchDocument (escape value)) none =
        .ok (searchDocument (escape value)) ∨
      ∃ rejection, (Gate.ofRules Rules.builtin).judge (searchDocument (escape value)) none =
        .error rejection ∧ (rejection.code = .tooLong ∨ rejection.code = .dangerousPattern) := by
  have trimmed := trim_searchDocument (escape value)
  have visible : (searchDocument (escape value)).trim ≠ [] := by
    rw [trimmed]
    simp [searchDocument, Quoted.literal]
  cases bounds : (Gate.ofRules Rules.builtin).checkBounds (searchDocument (escape value)) with
  | error rejection =>
      exact Or.inr ⟨rejection, judge_of_bounds bounds, Or.inl (code_of_checkSize_of_visible visible bounds)⟩
  | ok =>
      cases patterns : (Gate.ofRules Rules.builtin).checkPatterns (searchDocument (escape value)) with
      | error rejection =>
          exact Or.inr ⟨rejection, judge_of_patterns bounds patterns,
            Or.inr (Detector.code_of_check patterns)⟩
      | ok =>
          obtain ⟨⟨tokens, header, empty⟩, -⟩ := judge_eq_ok_iff.mp judge_searchDocument_nil
          obtain ⟨first, front⟩ : ∃ first, tokenize searchHead = .ok first := exists_of_isOk rfl
          obtain ⟨last, back⟩ : ∃ last, tokenize searchTail = .ok last := exists_of_isOk rfl
          obtain ⟨others, passes⟩ := empty.exchange (by decide) (readable_escapes.isSealed_escape value)
            (by decide) (by decide) (by decide) front back rfl bounds patterns
          exact Or.inl (judge_eq_ok_iff.mpr ⟨⟨others, header, passes⟩, by simp [Gate.PassesVariables],
            trimmed.symm⟩)

/-- An escaped value between double quotes is one literal wherever it may be put, it stands for the
value without the control bytes that have no escape, and a search for it is refused for its size or
its patterns alone. -/
theorem escape_contained_document (value : Text) :
    (∀ before after first last, tokenize before = .ok first → Byte.hash ∉ before →
      before.getLast? ≠ some Byte.doubleQuote → tokenize after = .ok last →
        after.head? ≠ some Byte.doubleQuote →
          tokenize (before ++ (Quoted.literal (escape value) ++ after)) =
            .ok (first ++ ⟨.string, Quoted.literal (escape value), before.length⟩ ::
              last.map (Token.shift (before.length + (Quoted.literal (escape value)).length)))) ∧
    Quoted.decode meaning (escape value) = value.filter isKept ∧
    ((Gate.ofRules Rules.builtin).judge (searchDocument (escape value)) none =
        .ok (searchDocument (escape value)) ∨
      ∃ rejection, (Gate.ofRules Rules.builtin).judge (searchDocument (escape value)) none =
        .error rejection ∧ (rejection.code = .tooLong ∨ rejection.code = .dangerousPattern)) :=
  ⟨fun _ _ _ _ front uncommented apart back unfenced =>
      tokenize_literal (readable_escapes.isSealed_escape value) uncommented apart unfenced front back,
    readable_escapes.decode_escape value, judge_searchDocument_escape value⟩

/-- A value that tries to close its literal and its field, and to go on in a comment. -/
def evasion : Text := ascii "\") \x7b x \x7d \x7d #\n\\"

theorem escape_contained_document_evasion :
    ∃ first last, tokenize searchHead = .ok first ∧ tokenize searchTail = .ok last ∧
      Byte.hash ∉ searchHead ∧ searchHead.getLast? ≠ some Byte.doubleQuote ∧
      searchTail.head? ≠ some Byte.doubleQuote ∧
      tokenize (searchHead ++ (Quoted.literal (escape evasion) ++ searchTail)) =
        .ok (first ++ ⟨.string, Quoted.literal (escape evasion), searchHead.length⟩ ::
          last.map (Token.shift (searchHead.length + (Quoted.literal (escape evasion)).length))) := by
  obtain ⟨first, front⟩ : ∃ first, tokenize searchHead = .ok first :=
    exists_of_isOk (by decide +kernel)
  obtain ⟨last, back⟩ : ∃ last, tokenize searchTail = .ok last :=
    exists_of_isOk (by decide +kernel)
  have uncommented : Byte.hash ∉ searchHead := by decide +kernel
  have apart : searchHead.getLast? ≠ some Byte.doubleQuote := by decide +kernel
  have unfenced : searchTail.head? ≠ some Byte.doubleQuote := by decide +kernel
  exact ⟨first, last, front, back, uncommented, apart, unfenced,
    (escape_contained_document evasion).1 _ _ _ _ front uncommented apart back unfenced⟩

end QueryGate.Graphql
