import QueryGate.Text

/-! # Quoted literals

A literal runs from its opening quote to the next equal quote that no backslash escapes.
Reading goes forward: inside a literal a backslash takes the following byte with it, whatever
that byte is. A backslash at the very end of the text takes nothing.
-/

namespace QueryGate.Quoted

/-- How many bytes after an opening `quote` belong to the literal, its closing quote included;
`none` when it is never closed. -/
def span? (quote : UInt8) : Text → Option Nat
  | [] => none
  | c :: rest =>
    if c = Byte.backslash then
      match rest with
      | [] => none
      | _ :: rest => (span? quote rest).map (· + 2)
    else if c = quote then some 1
    else (span? quote rest).map (· + 1)

/-- Three double quotes, which open and close a block literal. -/
def fence : Text := [Byte.doubleQuote, Byte.doubleQuote, Byte.doubleQuote]

/-- How many bytes of the text lead up to the end of its first fence; nothing escapes in a
block literal. -/
def throughFence? : Text → Option Nat
  | [] => none
  | c :: rest =>
    if fence.isPrefixOf (c :: rest) then some 3 else (throughFence? rest).map (· + 1)

/-- How a byte of a value is written between quotes: behind a backslash as the byte that stands for
it, if there is one in `escapes`. Of the other bytes the control bytes are left out. -/
def escapeByte (escapes : List (UInt8 × UInt8)) (b : UInt8) : Text :=
  match escapes.lookup b with
  | some letter => [Byte.backslash, letter]
  | none => if Byte.isControl b then [] else [b]

def escape (escapes : List (UInt8 × UInt8)) (value : Text) : Text :=
  value.flatMap (escapeByte escapes)

theorem span?_le {quote : UInt8} {t : Text} {n : Nat} (closes : span? quote t = some n) :
    n ≤ t.length := by
  fun_induction span? quote t generalizing n with
  | case1 => cases closes
  | case2 => cases closes
  | case3 c rest ih =>
      obtain ⟨m, later, rfl⟩ := Option.map_eq_some_iff.mp closes
      exact Nat.add_le_add_right (ih later) 2
  | case4 rest =>
      obtain rfl := Option.some.inj closes
      exact Nat.succ_le_succ (Nat.zero_le rest.length)
  | case5 c rest _ _ ih =>
      obtain ⟨m, later, rfl⟩ := Option.map_eq_some_iff.mp closes
      exact Nat.succ_le_succ (ih later)

end QueryGate.Quoted
