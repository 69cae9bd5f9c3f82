import QueryGate.Pattern.Syntax

/-! # Symbols of a pattern

A pattern's source is divided into symbols before it is read as a tree: an escape, a bracket
expression or a brace is one symbol. A source that cannot be divided is malformed.

A lone closing bracket or brace stands for itself. Inside brackets a hyphen stands for itself
unless two single bytes surround it, and no bracket expression may be left open.
-/

namespace QueryGate.Pattern

/-- The ways a parenthesis may open. -/
inductive GroupKind where
  | capturing
  | plain
  /-- A lookahead, negated or not. -/
  | lookahead (negated : Bool)
  deriving Repr, DecidableEq

inductive Symbol where
  | bytes (set : ByteClass)
  | assert (assertion : Assertion)
  | backreference (group : Nat)
  | opening (kind : GroupKind)
  | closing
  | bar
  | repetition (quantifier : Quantifier) (greedy : Bool)
  deriving Repr, DecidableEq

def number (digits : Text) : Nat := digits.foldl (fun n b => n * 10 + (b.toNat - 0x30)) 0

/-- What an escape stands for. -/
inductive Escape where
  | byte (b : UInt8)
  /-- A named class or what is outside it. -/
  | item (item : ClassItem)
  | backreference (group : Nat)
  | boundary (negated : Bool)
  deriving Repr, DecidableEq

/-- The byte of a hexadecimal escape with `count` digits; of four digits the last two count. -/
def hexEscape? (count : Nat) (rest : Text) : Option (Escape × Nat) :=
  let digits := rest.take count
  if digits.length = count ∧ digits.all Byte.isHexDigit then
    some (.byte (UInt8.ofNat (digits.foldl (fun n b => n * 16 + Byte.hexValue b) 0)), count + 1)
  else none

/-- The escape that a backslash and `source` make, and how many bytes of `source` it takes.
A byte without a meaning of its own stands for itself. -/
def escape? (inBrackets : Bool) : Text → Option (Escape × Nat)
  | [] => none
  | c :: rest =>
    let single (b : UInt8) : Option (Escape × Nat) := some (.byte b, 1)
    let item (i : ClassItem) : Option (Escape × Nat) := some (.item i, 1)
    match Char.ofUInt8 c with
    | '0' => single 0x00
    | 'b' => if inBrackets then single 0x08 else some (.boundary false, 1)
    | 'B' => some (.boundary true, 1)
    | 'f' => single 0x0C
    | 'n' => single 0x0A
    | 'r' => single 0x0D
    | 't' => single 0x09
    | 'v' => single 0x0B
    | 'd' => item (.named .digit)
    | 'D' => item (.outside .digit)
    | 's' => item (.named .space)
    | 'S' => item (.outside .space)
    | 'w' => item (.named .word)
    | 'W' => item (.outside .word)
    | 'c' => rest.head?.map fun b => (.byte b, 2)
    | 'x' => hexEscape? 2 rest
    | 'u' => hexEscape? 4 rest
    | _ =>
      if Byte.isDigit c then
        let more := rest.takeWhile Byte.isDigit
        some (.backreference (number (c :: more)), 1 + more.length)
      else single c

/-- What the last piece of a bracket expression was. -/
inductive BracketState where
  /-- Nothing that a range could start from. -/
  | fresh
  /-- A single byte, which may still turn out to start a range. -/
  | byte (b : UInt8)
  /-- A class, from which no range starts. -/
  | set
  deriving Repr, DecidableEq

/-- The item that is complete once something else follows. -/
def BracketState.pending : BracketState → List ClassItem
  | .byte b => [.byte b]
  | .fresh | .set => []

inductive BracketPiece where
  | byte (b : UInt8)
  | item (item : ClassItem)
  | hyphen
  | finish
  deriving Repr, DecidableEq

/-- The piece at the start of a bracket expression's remaining source, and how many bytes it
takes. Collating symbols and equivalence classes are not part of the dialect. -/
def bracketPiece? : Text → Option (BracketPiece × Nat)
  | [] => none
  | c :: rest =>
    if c = Byte.closeBracket then some (.finish, 1)
    else if c = Byte.minus then some (.hyphen, 1)
    else if c = Byte.backslash then
      match escape? true rest with
      | some (.byte b, n) => some (.byte b, n + 1)
      | some (.item i, n) => some (.item i, n + 1)
      | _ => none
    else if c = Byte.openBracket then
      match rest with
      | [] => none
      | d :: rest =>
        if d = Byte.colon then
          let name := rest.takeWhile (· ≠ Byte.colon)
          if (ascii ":]").isPrefixOf (rest.drop name.length) then
            (ClassName.ofText? name).map fun i => (.item (.named i), name.length + 4)
          else none
        else if d = Byte.dot ∨ d = Byte.equals then none
        else some (.byte c, 1)
    else some (.byte c, 1)

/-- The items of a bracket expression and how many bytes they take, the closing bracket
included. `fuel` bounds the number of pieces. -/
def bracketItems? : (fuel : Nat) → BracketState → Text → Option (List ClassItem × Nat)
  | 0, _, _ => none
  | fuel + 1, state, source => do
    let (piece, n) ← bracketPiece? source
    let rest := source.drop n
    let continued (items : List ClassItem) (state : BracketState) (taken : Nat) (rest : Text) :
        Option (List ClassItem × Nat) :=
      (bracketItems? fuel state rest).map fun (more, m) => (items ++ more, taken + m)
    match piece with
    | .finish => some (state.pending, n)
    | .byte b => continued state.pending (.byte b) n rest
    | .item i => continued (state.pending ++ [i]) .set n rest
    | .hyphen =>
      let (after, m) ← bracketPiece? rest
      match after, state with
      | .finish, _ => some (state.pending ++ [.byte Byte.minus], n + m)
      | _, .set => none
      | _, .fresh => continued [] (.byte Byte.minus) n rest
      | .byte high, .byte low =>
        if signedLe low high then continued [.range low high] .fresh (n + m) (rest.drop m)
        else none
      | .hyphen, .byte low =>
        if signedLe low Byte.minus then
          continued [.range low Byte.minus] .fresh (n + m) (rest.drop m)
        else none
      | .item _, .byte _ => none

/-- The set that a bracket expression stands for, given the source after the opening bracket,
and how many bytes of it the expression takes. A hyphen in front is a single byte. -/
def bracket? (source : Text) : Option (ByteClass × Nat) :=
  let negated := source.head? == some Byte.caret
  let skipped := if negated then 1 else 0
  let body := source.drop skipped
  let (state, lead) : BracketState × Nat :=
    if body.head? = some Byte.minus then (.byte Byte.minus, 1) else (.fresh, 0)
  (bracketItems? (body.length + 1) state (body.drop lead)).map fun (items, n) =>
    (⟨items, negated⟩, skipped + lead + n)

def laziness (rest : Text) : Bool × Nat :=
  if rest.head? = some Byte.question then (false, 1) else (true, 0)

/-- The bounds in a brace, given the source after the opening brace, and how many bytes of it
they take, the closing brace included. -/
def brace? (source : Text) : Option (Quantifier × Nat) :=
  let low := source.takeWhile Byte.isDigit
  if low.isEmpty then none
  else
    match source.drop low.length with
    | c :: rest =>
      if c = Byte.closeBrace then
        some (.between (number low) (number low), low.length + 1)
      else if c = Byte.comma then
        let high := rest.takeWhile Byte.isDigit
        if (rest.drop high.length).head? = some Byte.closeBrace then
          if high.isEmpty then some (.atLeast (number low), low.length + 2)
          else if number high < number low then none
          else some (.between (number low) (number high), low.length + high.length + 2)
        else none
      else none
    | [] => none

/-- The symbol that starts with `c`, and how many bytes of `rest` belong to it. -/
def symbol? (c : UInt8) (rest : Text) : Option (Symbol × Nat) :=
  let repetition (quantifier : Quantifier) (n : Nat) : Option (Symbol × Nat) :=
    let (greedy, m) := laziness (rest.drop n)
    some (.repetition quantifier greedy, n + m)
  if c = Byte.backslash then
    (escape? false rest).map fun (escape, n) =>
      match escape with
      | .byte b => (.bytes (.single b), n)
      | .item item => (.bytes ⟨[item], false⟩, n)
      | .backreference group => (.backreference group, n)
      | .boundary negated => (.assert (if negated then .noWordBoundary else .wordBoundary), n)
  else if c = Byte.caret then some (.assert .start, 0)
  else if c = Byte.dollar then some (.assert .finish, 0)
  else if c = Byte.dot then some (.bytes .dot, 0)
  else if c = Byte.bar then some (.bar, 0)
  else if c = Byte.closeParen then some (.closing, 0)
  else if c = Byte.openParen then
    match rest with
    | d :: e :: _ =>
      if d ≠ Byte.question then some (.opening .capturing, 0)
      else if e = Byte.colon then some (.opening .plain, 2)
      else if e = Byte.equals then some (.opening (.lookahead false), 2)
      else if e = Byte.bang then some (.opening (.lookahead true), 2)
      else none
    | [d] => if d = Byte.question then none else some (.opening .capturing, 0)
    | [] => some (.opening .capturing, 0)
  else if c = Byte.star then repetition .any 0
  else if c = Byte.plus then repetition .some 0
  else if c = Byte.question then repetition .optional 0
  else if c = Byte.openBrace then do
    let (quantifier, n) ← brace? rest
    repetition quantifier n
  else if c = Byte.openBracket then
    (bracket? rest).map fun (set, n) => (.bytes set, n)
  else some (.bytes (.single c), 0)

/-- The symbols of a source whose first `taken` bytes belong to a symbol before it. -/
def symbolsFrom (taken : Nat) : Text → Option (List Symbol)
  | [] => some []
  | c :: rest =>
    match taken with
    | taken + 1 => symbolsFrom taken rest
    | 0 => do
      let (symbol, n) ← symbol? c rest
      return symbol :: (← symbolsFrom n rest)

def symbols? (source : Text) : Option (List Symbol) := symbolsFrom 0 source

end QueryGate.Pattern
