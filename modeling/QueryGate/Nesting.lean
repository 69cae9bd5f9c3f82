import QueryGate.Rejection

/-! # Quotes and nesting

A check of raw text, before and apart from any tokens: quotes come in pairs, every quoted
region is closed, delimiters outside quoted regions are balanced, and the tracked ones are not
nested too deeply.

A byte is *escaped* when an odd run of backslashes stands directly in front of it, inside a
quoted region or not. An escaped quote neither opens nor closes a region. The bytes outside
quoted regions, the opening and closing quotes left out, are the *code* of the text.

A zero byte opens no region, even where it is among the quotes: it is left out of the code, and
what follows it is not.
-/

namespace QueryGate.Nesting

structure Delimiter where
  opening : UInt8
  closing : UInt8
  /-- Whether open pairs of this kind count towards the depth limit. -/
  tracked : Bool := true
  deriving Repr, DecidableEq

structure Policy where
  /-- The pairs that have to be balanced, in the order in which they are examined. -/
  delimiters : List Delimiter
  /-- The deepest nesting of tracked pairs that is let through. -/
  maxDepth : Nat := 3
  /-- The bytes that open a quoted region, unless they are zero. -/
  quotes : Text := [Byte.doubleQuote]
  deriving Repr

/-- What was observed in a text that passed. -/
structure Report where
  /-- The number of unescaped double quotes. -/
  quoteCount : Nat
  /-- The deepest nesting of tracked pairs. -/
  maxDepth : Nat
  deriving Repr, DecidableEq

/-- Whether the byte after `b` is escaped, given whether `b` itself is. -/
def escapesNext (escaped : Bool) (b : UInt8) : Bool := b == Byte.backslash && !escaped

/-- The number of unescaped double quotes in a text whose first byte is escaped or not. -/
def quotesFrom (escaped : Bool) : Text → Nat
  | [] => 0
  | b :: rest =>
    (if b = Byte.doubleQuote ∧ escaped = false then 1 else 0) +
      quotesFrom (escapesNext escaped b) rest

/-- The number of unescaped double quotes in a text, inside quoted regions and outside. -/
def countQuotes (t : Text) : Nat := quotesFrom false t

/-- A text divided into quoted regions and code. -/
structure Reading where
  /-- The bytes outside quoted regions, in order. -/
  code : Text
  /-- Whether the text ends outside a quoted region. -/
  closed : Bool
  deriving Repr, DecidableEq

/-- The region that a quote opens. -/
def regionOf (quote : UInt8) : Option UInt8 := if quote = 0 then none else some quote

/-- Divides a text, starting inside the region of the quote `region` or, for `none`, outside
of all regions. -/
def readFrom (quotes : Text) (region : Option UInt8) (escaped : Bool) : Text → Reading
  | [] => ⟨[], region.isNone⟩
  | b :: rest =>
    let next := escapesNext escaped b
    match region with
    | some quote =>
      if b = quote ∧ escaped = false then readFrom quotes none next rest
      else readFrom quotes (some quote) next rest
    | none =>
      if b ∈ quotes ∧ escaped = false then readFrom quotes (regionOf b) next rest
      else
        let reading := readFrom quotes none next rest
        { reading with code := b :: reading.code }

/-- Divides a text into quoted regions and code. -/
def read (quotes t : Text) : Reading := readFrom quotes none false t

/-- The depth and the greatest depth so far, after each byte of code; a closing delimiter
without an open one counts for nothing. -/
def deepen (opening closing : UInt8) (depths : Nat × Nat) (b : UInt8) : Nat × Nat :=
  if b = opening then (depths.1 + 1, max depths.2 (depths.1 + 1))
  else if b = closing then (depths.1 - 1, depths.2)
  else depths

/-- The greatest nesting of one pair in a text, balanced or not. -/
def maxNesting (opening closing : UInt8) (quotes t : Text) : Nat :=
  ((read quotes t).code.foldl (deepen opening closing) (0, 0)).2

/-- What the scan of the code has seen besides the depth of each pair. -/
structure Tally where
  /-- How many tracked pairs are open. -/
  tracked : Nat := 0
  /-- The most tracked pairs that were open at once. -/
  peak : Nat := 0
  /-- The first closing delimiter that had no open one. -/
  stray : Option UInt8 := none
  deriving Repr, DecidableEq

/-- What a byte does to the open depth of one pair, and to the tally. -/
def visitPair (b : UInt8) (pair : Delimiter) (depth : Nat) (tally : Tally) : Nat × Tally :=
  if b = pair.opening then
    (depth + 1,
      if pair.tracked then
        { tally with tracked := tally.tracked + 1, peak := max tally.peak (tally.tracked + 1) }
      else tally)
  else if b = pair.closing then
    match depth with
    | 0 => (0, { tally with stray := tally.stray <|> some b })
    | depth + 1 =>
      (depth, if pair.tracked then { tally with tracked := tally.tracked - 1 } else tally)
  else (depth, tally)

/-- What a byte does to every pair in turn; each pair comes with its open depth. -/
def visit (b : UInt8) : List (Delimiter × Nat) → Tally → List (Delimiter × Nat) × Tally
  | [], tally => ([], tally)
  | (pair, depth) :: pairs, tally =>
    let (depth, tally) := visitPair b pair depth tally
    let (pairs, tally) := visit b pairs tally
    ((pair, depth) :: pairs, tally)

/-- The open depths and the tally at the end of the code. -/
def scan (delimiters : List Delimiter) (code : Text) : List (Delimiter × Nat) × Tally :=
  code.foldl (fun (pairs, tally) b => visit b pairs tally) (delimiters.map (·, 0), {})

/-- Checks a text: first the number of its double quotes, then that its quoted regions are
closed, then that no closing delimiter comes too early, then that none is missing, and last
the depth. -/
def check (policy : Policy) (t : Text) : Except Rejection Report :=
  let quoteCount := countQuotes t
  if quoteCount % 2 ≠ 0 then .error (.oddQuotes quoteCount)
  else
    let reading := read policy.quotes t
    if reading.closed = false then .error .openRegion
    else
      let (pairs, tally) := scan policy.delimiters reading.code
      match tally.stray with
      | some closing => .error (.strayClose closing)
      | none =>
        match pairs.find? (fun pair => pair.2 ≠ 0) with
        | some (pair, _) => .error (.missingClose pair.opening pair.closing)
        | none =>
          if tally.peak > policy.maxDepth then .error (.tooDeep policy.maxDepth tally.peak)
          else .ok ⟨quoteCount, tally.peak⟩

end QueryGate.Nesting
