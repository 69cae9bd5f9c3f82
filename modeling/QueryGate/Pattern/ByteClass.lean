import QueryGate.Text

/-! # Sets of bytes in a pattern

A bracket expression, a dot or a class escape stands for a set of bytes. Case is ignored
throughout: a set that has a letter has it in both cases.

Bytes are ordered as signed numbers where a range is concerned, so those above `0x7F` come
before all others.
-/

namespace QueryGate.Pattern

inductive ClassName where
  | alnum | alpha | blank | cntrl | digit | graph | lower | print | punct | space | upper
  | word | xdigit
  deriving Repr, DecidableEq

namespace ClassName

/-- The class of a name, in any case; some classes have a short name as well. -/
def ofText? (name : Text) : Option ClassName :=
  let table : List (Text × ClassName) :=
    [(ascii "alnum", .alnum), (ascii "alpha", .alpha), (ascii "blank", .blank),
     (ascii "cntrl", .cntrl), (ascii "d", .digit), (ascii "digit", .digit),
     (ascii "graph", .graph), (ascii "lower", .lower), (ascii "print", .print),
     (ascii "punct", .punct), (ascii "s", .space), (ascii "space", .space),
     (ascii "upper", .upper), (ascii "w", .word), (ascii "xdigit", .xdigit)]
  table.lookup name.toLower

/-- The members of a class. As case is ignored, the letters of one case are all letters. -/
def contains : ClassName → UInt8 → Bool
  | .alnum, b => Byte.isAlphanumeric b
  | .alpha, b | .lower, b | .upper, b => Byte.isLetter b
  | .blank, b => b == Byte.space || b == Byte.tab
  | .cntrl, b => Byte.isControl b || b == 0x7F
  | .digit, b => Byte.isDigit b
  | .graph, b => 0x21 ≤ b && b ≤ 0x7E
  | .print, b => 0x20 ≤ b && b ≤ 0x7E
  | .punct, b => 0x21 ≤ b && b ≤ 0x7E && !Byte.isAlphanumeric b
  | .space, b => Byte.isBlank b
  | .word, b => Byte.isWord b
  | .xdigit, b => Byte.isHexDigit b

end ClassName

inductive ClassItem where
  | byte (b : UInt8)
  /-- The bytes from `low` to `high`, each in either case. -/
  | range (low high : UInt8)
  | named (name : ClassName)
  | outside (name : ClassName)
  deriving Repr, DecidableEq

/-- The order of bytes as signed numbers. -/
def signedLe (a b : UInt8) : Bool := a.toInt8 ≤ b.toInt8

namespace ClassItem

def contains : ClassItem → UInt8 → Bool
  | .byte a, b => Byte.lower a == Byte.lower b
  | .range low high, b =>
    let within (x : UInt8) : Bool := signedLe low x && signedLe x high
    within (Byte.lower b) || within (Byte.upper b)
  | .named name, b => name.contains b
  | .outside name, b => !name.contains b

end ClassItem

/-- A set of bytes: those that some item covers or, when negated, all others. -/
structure ByteClass where
  items : List ClassItem
  negated : Bool := false
  deriving Repr, DecidableEq

namespace ByteClass

def contains (s : ByteClass) (b : UInt8) : Bool :=
  s.items.any (·.contains b) != s.negated

def single (b : UInt8) : ByteClass := ⟨[.byte b], false⟩

/-- The dot: every byte that does not end a line. -/
def dot : ByteClass := ⟨[.byte Byte.lineFeed, .byte Byte.carriageReturn], true⟩

end ByteClass

end QueryGate.Pattern
