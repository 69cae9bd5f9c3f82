import QueryGate.Proofs.Nesting.Check
import QueryGate.Proofs.Nesting.Reading
import QueryGate.Proofs.Quoted

/-! # The check of nesting, piece by piece

A text is divided piece by piece, each from where the piece before it ended. Bytes without a meaning
for the check may be added around a text, and the contents of a literal exchanged for other contents
that keep it closed: the check comes to the same result.
-/

namespace QueryGate.Nesting

open Cursor

/-! ## Appending -/

section Append

variable {quotes : Text}

@[simp] theorem escapesNext_backslash : escapesNext false Byte.backslash = true := rfl

@[simp] theorem escapesNext_escaped (b : UInt8) : escapesNext true b = false := Bool.and_false _

theorem escapesNext_of_ne {escaped : Bool} {b : UInt8} (other : b ≠ Byte.backslash) :
    escapesNext escaped b = false := by
  rw [escapesNext, beq_false_of_ne other, Bool.false_and]

theorem quotesFrom_append (escaped : Bool) (s t : Text) :
    quotesFrom escaped (s ++ t) =
      quotesFrom escaped s + quotesFrom (s.foldl escapesNext escaped) t := by
  induction s generalizing escaped with
  | nil => simp [quotesFrom]
  | cons b s ih => simp only [List.cons_append, quotesFrom, List.foldl_cons, ih, Nat.add_assoc]

theorem readFrom_append (quotes : Text) (cursor : Cursor) (s t : Text) :
    readFrom quotes cursor.region cursor.escaped (s ++ t) =
      let after := cursor.past quotes s
      let rest := readFrom quotes after.region after.escaped t
      { rest with code := (readFrom quotes cursor.region cursor.escaped s).code ++ rest.code } := by
  induction s generalizing cursor with
  | nil => simp [readFrom]
  | cons b s ih =>
      rw [List.cons_append, readFrom_cons, readFrom_cons]
      dsimp only
      rw [ih (cursor.next quotes b)]
      dsimp only [past_cons]
      split <;> rfl

theorem readFrom_of_plain {escaped : Bool} {t : Text} (plain : ∀ b ∈ t, b ∉ quotes) :
    readFrom quotes none escaped t = ⟨t, true⟩ := by
  induction t generalizing escaped with
  | nil => rfl
  | cons b t ih =>
      have rest := @ih (escapesNext escaped b) fun c member => plain c (List.mem_cons_of_mem b member)
      simp [readFrom, plain b List.mem_cons_self, rest]

theorem readFrom_of_not_mem {quote : UInt8} {escaped : Bool} {t : Text} (absent : quote ∉ t) :
    readFrom quotes (some quote) escaped t = ⟨[], false⟩ := by
  induction t generalizing escaped with
  | nil => rfl
  | cons b t ih =>
      have other : ¬ b = quote := by
        rintro rfl
        exact absent List.mem_cons_self
      have rest := @ih (escapesNext escaped b) fun member => absent (List.mem_cons_of_mem b member)
      simp [readFrom, other, rest]

theorem foldl_escapesNext_of_not_mem {t : Text} (absent : Byte.backslash ∉ t) :
    t.foldl escapesNext false = false := by
  induction t with
  | nil => rfl
  | cons b t ih =>
      have other : ¬ b = Byte.backslash := by
        rintro rfl
        exact absent List.mem_cons_self
      rw [List.foldl_cons, escapesNext_of_ne other]
      exact ih fun member => absent (List.mem_cons_of_mem b member)

theorem quotesFrom_of_not_mem {escaped : Bool} {t : Text} (absent : Byte.doubleQuote ∉ t) :
    quotesFrom escaped t = 0 := by
  induction t generalizing escaped with
  | nil => rfl
  | cons b t ih =>
      have other : ¬ b = Byte.doubleQuote := by
        rintro rfl
        exact absent List.mem_cons_self
      have rest := @ih (escapesNext escaped b) fun member => absent (List.mem_cons_of_mem b member)
      simp [quotesFrom, other, rest]

theorem region_mem {cursor : Cursor} (known : ∀ quote ∈ cursor.region, quote ∈ quotes) (t : Text) :
    ∀ quote ∈ (cursor.past quotes t).region, quote ∈ quotes := by
  induction t generalizing cursor with
  | nil => exact known
  | cons b t ih =>
      refine ih ?_
      intro quote opened
      obtain ⟨region, escaped⟩ := cursor
      cases region with
      | none =>
          simp only [next, Option.mem_def, Option.ite_none_right_eq_some] at opened
          obtain ⟨⟨listed, -⟩, same⟩ := opened
          exact eq_of_regionOf same ▸ listed
      | some around =>
          simp only [next, Option.mem_def, Option.ite_none_left_eq_some] at opened
          exact Option.some.inj opened.2 ▸ known around rfl

end Append

/-! ## Bytes that are ignored -/

/-- The byte is neither a quote nor a delimiter nor a backslash. -/
structure Policy.Ignores (policy : Policy) (b : UInt8) : Prop where
  uncounted : b ≠ Byte.doubleQuote
  unescaping : b ≠ Byte.backslash
  unquoted : b ∉ policy.quotes
  undelimiting : ∀ pair ∈ policy.delimiters, b ≠ pair.opening ∧ b ≠ pair.closing

section Ignored

variable {policy : Policy} {t lead trail : Text}

theorem visit_of_ignores {b : UInt8} {code : Text} (ignored : policy.Ignores b) :
    visit b (scan policy.delimiters code).1 (scan policy.delimiters code).2 =
      scan policy.delimiters code := by
  refine visit_of_ne _ fun pair member => ?_
  rw [scan_pairs] at member
  obtain ⟨listed, among, rfl⟩ := List.mem_map.mp member
  exact ignored.undelimiting listed among

theorem scan_append_of_ignores (code : Text) (ignored : ∀ b ∈ t, policy.Ignores b) :
    scan policy.delimiters (code ++ t) = scan policy.delimiters code := by
  induction t using List.reverseRecOn with
  | nil => rw [List.append_nil]
  | append_singleton t b ih =>
      have before := ih fun c member => ignored c (List.mem_append_left [b] member)
      rw [← List.append_assoc, scan_concat, before, visit_of_ignores (ignored b (by simp))]

theorem scan_ignores_append (code : Text) (ignored : ∀ b ∈ t, policy.Ignores b) :
    scan policy.delimiters (t ++ code) = scan policy.delimiters code := by
  have start := scan_append_of_ignores [] ignored
  rw [List.nil_append] at start
  unfold scan at start ⊢
  rw [List.foldl_append, start]
  rfl

variable (front : ∀ b ∈ lead, policy.Ignores b) (back : ∀ b ∈ trail, policy.Ignores b)

include front back

theorem countQuotes_margins : countQuotes (lead ++ (t ++ trail)) = countQuotes t := by
  have unescaping : Byte.backslash ∉ lead := fun member => (front _ member).unescaping rfl
  have fewer : Byte.doubleQuote ∉ lead := fun member => (front _ member).uncounted rfl
  have none_ : Byte.doubleQuote ∉ trail := fun member => (back _ member).uncounted rfl
  unfold countQuotes
  rw [quotesFrom_append, quotesFrom_append, foldl_escapesNext_of_not_mem unescaping,
    quotesFrom_of_not_mem fewer, quotesFrom_of_not_mem none_, Nat.zero_add, Nat.add_zero]

theorem read_margins :
    ∃ lead' trail', (∀ b ∈ lead', policy.Ignores b) ∧ (∀ b ∈ trail', policy.Ignores b) ∧
      read policy.quotes (lead ++ (t ++ trail)) =
        ⟨lead' ++ ((read policy.quotes t).code ++ trail'), (read policy.quotes t).closed⟩ := by
  have unescaping : Byte.backslash ∉ lead := fun member => (front _ member).unescaping rfl
  have plain : ∀ b ∈ lead, b ∉ policy.quotes := fun b member => (front b member).unquoted
  have begun : past policy.quotes {} lead = {} := by
    rw [past_of_plain plain, foldl_escapesNext_of_not_mem unescaping]
  have whole := readFrom_append policy.quotes {} lead (t ++ trail)
  have pieces := readFrom_append policy.quotes {} t trail
  rw [begun, readFrom_of_plain plain] at whole
  dsimp only at whole pieces
  rw [pieces] at whole
  have ends := readFrom_closed policy.quotes {} t
  have opened := @region_mem policy.quotes {} (by simp) t
  generalize past policy.quotes {} t = after at whole ends opened
  obtain ⟨region, escaped⟩ := after
  cases region with
  | none =>
      rw [readFrom_of_plain fun b member => (back b member).unquoted] at whole
      refine ⟨lead, trail, front, back, whole.trans ?_⟩
      rw [read, ends]
      rfl
  | some quote =>
      have absent : quote ∉ trail := fun member => (back quote member).unquoted (opened quote rfl)
      rw [readFrom_of_not_mem absent] at whole
      refine ⟨lead, [], front, by simp, whole.trans ?_⟩
      rw [read, ends]
      rfl

theorem check_margins : check policy (lead ++ (t ++ trail)) = check policy t := by
  obtain ⟨lead', trail', front', back', reading⟩ := read_margins (t := t) front back
  unfold check
  rw [countQuotes_margins front back, reading]
  dsimp only
  rw [scan_ignores_append _ front', scan_append_of_ignores _ back']

omit front back

theorem check_of_isCore {core : Text} (ignored : ∀ b, Byte.isBlank b = true → policy.Ignores b)
    (isCore : core.IsCore t) : check policy core = check policy t := by
  obtain ⟨lead, trail, front, back, rfl⟩ := isCore.between
  exact (check_margins (fun b member => ignored b (front b member))
    fun b member => ignored b (back b member)).symm

end Ignored

/-! ## Bytes exchanged for others -/

section Exchanged

variable {policy : Policy} {f : UInt8 → UInt8}
  (keeps : ∀ b, f b = b ∨ policy.Ignores b ∧ policy.Ignores (f b)) {escaped : Bool}
  {region : Option UInt8}

include keeps

theorem exchange_eq_iff {b c : UInt8} (heeded : ¬ policy.Ignores c) : f b = c ↔ b = c := by
  rcases keeps b with same | ⟨before, after⟩
  · rw [same]
  · exact iff_of_false (fun same => heeded (same ▸ after)) fun same => heeded (same ▸ before)

theorem escapesNext_exchange (b : UInt8) : escapesNext escaped (f b) = escapesNext escaped b := by
  have heeded : ¬ policy.Ignores Byte.backslash := fun ignored => ignored.unescaping rfl
  have same := exchange_eq_iff (b := b) keeps heeded
  simp only [escapesNext, Bool.beq_eq_decide_eq, same]

theorem countQuotes_exchange (t : Text) : countQuotes (t.map f) = countQuotes t := by
  suffices ∀ escaped, quotesFrom escaped (t.map f) = quotesFrom escaped t from this false
  have heeded : ¬ policy.Ignores Byte.doubleQuote := fun ignored => ignored.uncounted rfl
  induction t with
  | nil => exact fun _ => rfl
  | cons b rest ih =>
      intro escaped
      simp only [List.map_cons, quotesFrom, escapesNext_exchange keeps, exchange_eq_iff keeps heeded, ih]

theorem readFrom_exchange (known : ∀ quote ∈ region, quote ∈ policy.quotes) (t : Text) :
    readFrom policy.quotes region escaped (t.map f) =
      { readFrom policy.quotes region escaped t with
        code := (readFrom policy.quotes region escaped t).code.map f } := by
  have heeded : ∀ quote ∈ policy.quotes, ¬ policy.Ignores quote :=
    fun quote listed ignored => ignored.unquoted listed
  induction t generalizing region escaped with
  | nil => rfl
  | cons b rest ih =>
      cases region with
      | some quote =>
          have same := exchange_eq_iff (b := b) keeps (heeded quote (known quote rfl))
          simp only [List.map_cons, readFrom, escapesNext_exchange keeps, same]
          split
          · exact ih (by simp)
          · exact ih known
      | none =>
          have same : f b ∈ policy.quotes ↔ b ∈ policy.quotes := by
            rcases keeps b with same | ⟨before, after⟩
            · rw [same]
            · exact iff_of_false after.unquoted before.unquoted
          simp only [List.map_cons, readFrom, escapesNext_exchange keeps, same]
          split
          · next opens =>
              rw [(exchange_eq_iff keeps (heeded b opens.1)).mpr rfl]
              exact ih fun quote opened => eq_of_regionOf opened ▸ opens.1
          · rw [ih (by simp)]
            rfl

theorem scan_exchange (code : Text) :
    scan policy.delimiters (code.map f) = scan policy.delimiters code := by
  induction code using List.reverseRecOn with
  | nil => rfl
  | append_singleton code b ih =>
      rw [List.map_append, List.map_singleton, scan_concat, scan_concat, ih]
      rcases keeps b with same | ⟨before, after⟩
      · rw [same]
      · rw [visit_of_ignores before, visit_of_ignores after]

theorem check_exchange (t : Text) : check policy (t.map f) = check policy t := by
  have reading : read policy.quotes (t.map f) =
      ⟨(read policy.quotes t).code.map f, (read policy.quotes t).closed⟩ :=
    readFrom_exchange keeps (by simp) t
  unfold check
  rw [countQuotes_exchange keeps, reading]
  dsimp only
  rw [scan_exchange keeps]

end Exchanged

/-! ## Literals -/

section Literal

variable {quotes contents : Text} {quote : UInt8} {n : Nat}

/-- A region that a literal has opened ends with the literal. -/
theorem readFrom_literal {t : Text} (unescaping : quote ≠ Byte.backslash)
    (closes : Quoted.span? quote t = some n) :
    readFrom quotes (some quote) false t = readFrom quotes none false (t.drop n) := by
  fun_induction Quoted.span? quote t generalizing n with
  | case1 => cases closes
  | case2 => cases closes
  | case3 c rest ih =>
      obtain ⟨m, later, rfl⟩ := Option.map_eq_some_iff.mp closes
      simp [readFrom, unescaping.symm, ih later]
  | case4 rest other =>
      obtain rfl := Option.some.inj closes
      simp [readFrom, escapesNext_of_ne other]
  | case5 c rest plain other ih =>
      obtain ⟨m, later, rfl⟩ := Option.map_eq_some_iff.mp closes
      simp [readFrom, escapesNext_of_ne plain, other, ih later]

theorem quotesFrom_literal {t : Text} (closes : Quoted.span? Byte.doubleQuote t = some n) :
    quotesFrom false t = 1 + quotesFrom false (t.drop n) := by
  have unescaping : Byte.backslash ≠ Byte.doubleQuote := by decide
  fun_induction Quoted.span? Byte.doubleQuote t generalizing n with
  | case1 => cases closes
  | case2 => cases closes
  | case3 c rest ih =>
      obtain ⟨m, later, rfl⟩ := Option.map_eq_some_iff.mp closes
      simp [quotesFrom, unescaping, ih later]
  | case4 rest other =>
      obtain rfl := Option.some.inj closes
      simp [quotesFrom, escapesNext_of_ne other]
  | case5 c rest plain other ih =>
      obtain ⟨m, later, rfl⟩ := Option.map_eq_some_iff.mp closes
      simp [quotesFrom, escapesNext_of_ne plain, other, ih later]

section Sealed

variable (sealed_ : Quoted.isSealed Byte.doubleQuote contents = true) (t : Text)

include sealed_

theorem readFrom_sealed (opening : Byte.doubleQuote ∈ quotes) :
    readFrom quotes none false (Byte.doubleQuote :: (contents ++ Byte.doubleQuote :: t)) =
      readFrom quotes none false t := by
  have unescaping : Byte.doubleQuote ≠ Byte.backslash := by decide
  have opened : regionOf Byte.doubleQuote = some Byte.doubleQuote := rfl
  have inside := @readFrom_literal quotes _ _ _ unescaping
    (Quoted.span?_of_isSealed (t := t) sealed_ unescaping)
  rw [List.drop_length_add_append] at inside
  simp [readFrom, opening, opened, escapesNext_of_ne unescaping, inside]

theorem quotesFrom_sealed :
    quotesFrom false (Byte.doubleQuote :: (contents ++ Byte.doubleQuote :: t)) =
      2 + quotesFrom false t := by
  have unescaping : Byte.doubleQuote ≠ Byte.backslash := by decide
  have inside := quotesFrom_literal (Quoted.span?_of_isSealed (t := t) sealed_ unescaping)
  rw [List.drop_length_add_append] at inside
  simp [quotesFrom, escapesNext_of_ne unescaping, inside, ← Nat.add_assoc]

variable {before : Text}

theorem countQuotes_literal (unescaped : before.foldl escapesNext false = false) :
    countQuotes (before ++ Byte.doubleQuote :: (contents ++ Byte.doubleQuote :: t)) =
      countQuotes before + (2 + quotesFrom false t) := by
  unfold countQuotes
  rw [quotesFrom_append, unescaped, quotesFrom_sealed sealed_]

theorem read_literal (opening : Byte.doubleQuote ∈ quotes) (outside : past quotes {} before = {}) :
    read quotes (before ++ Byte.doubleQuote :: (contents ++ Byte.doubleQuote :: t)) =
      { read quotes t with code := (read quotes before).code ++ (read quotes t).code } := by
  have pieces := readFrom_append quotes {} before
    (Byte.doubleQuote :: (contents ++ Byte.doubleQuote :: t))
  rw [outside] at pieces
  dsimp only at pieces
  rw [readFrom_sealed sealed_ t opening] at pieces
  exact pieces

/-- The check does not depend on the contents of a literal, as long as they are sealed. -/
theorem check_literal {policy : Policy} {other : Text}
    (closed : Quoted.isSealed Byte.doubleQuote other = true)
    (opening : Byte.doubleQuote ∈ policy.quotes) (outside : past policy.quotes {} before = {}) :
    check policy (before ++ (Quoted.literal contents ++ t)) =
      check policy (before ++ (Quoted.literal other ++ t)) := by
  have unescaped : before.foldl escapesNext false = false := by
    rw [← past_escaped policy.quotes {} before, outside]
  unfold check
  rw [Quoted.literal_append, Quoted.literal_append, countQuotes_literal sealed_ t unescaped,
    countQuotes_literal closed t unescaped, read_literal sealed_ t opening outside,
    read_literal closed t opening outside]

end Sealed

end Literal

end QueryGate.Nesting
