/-! # Byte text

Queries, documents, rules and log lines are plain byte sequences: nothing here decodes
characters. Every character class is ASCII, so a byte above `0x7F` belongs to none of them
and no case mapping changes it.
-/

namespace QueryGate

/-- A decidable statement about all bytes is decided byte by byte. -/
instance decidableForallByte (p : UInt8 → Prop) [DecidablePred p] : Decidable (∀ b, p b) :=
  decidable_of_iff (∀ n : Fin 256, p (UInt8.ofFin n))
    ⟨fun all b => by simpa using all b.toFin, fun all n => all (UInt8.ofFin n)⟩

/-- A sequence of bytes, in any encoding or none. -/
abbrev Text := List UInt8

/-- The bytes of an ASCII string. -/
def ascii (s : String) : Text := s.toList.map Char.toUInt8

namespace Byte

abbrev lineFeed : UInt8 := 0x0A
abbrev carriageReturn : UInt8 := 0x0D
abbrev tab : UInt8 := 0x09
abbrev space : UInt8 := 0x20
abbrev bang : UInt8 := 0x21
abbrev doubleQuote : UInt8 := 0x22
abbrev hash : UInt8 := 0x23
abbrev dollar : UInt8 := 0x24
abbrev singleQuote : UInt8 := 0x27
abbrev openParen : UInt8 := 0x28
abbrev closeParen : UInt8 := 0x29
abbrev star : UInt8 := 0x2A
abbrev plus : UInt8 := 0x2B
abbrev comma : UInt8 := 0x2C
abbrev minus : UInt8 := 0x2D
abbrev dot : UInt8 := 0x2E
abbrev slash : UInt8 := 0x2F
abbrev zero : UInt8 := 0x30
abbrev colon : UInt8 := 0x3A
abbrev less : UInt8 := 0x3C
abbrev equals : UInt8 := 0x3D
abbrev greater : UInt8 := 0x3E
abbrev question : UInt8 := 0x3F
abbrev openBracket : UInt8 := 0x5B
abbrev backslash : UInt8 := 0x5C
abbrev closeBracket : UInt8 := 0x5D
abbrev caret : UInt8 := 0x5E
abbrev underscore : UInt8 := 0x5F
abbrev openBrace : UInt8 := 0x7B
abbrev bar : UInt8 := 0x7C
abbrev closeBrace : UInt8 := 0x7D
abbrev tilde : UInt8 := 0x7E

/-- Whitespace: space, tab, line feed, vertical tab, form feed and carriage return. -/
def isBlank (b : UInt8) : Bool := b == 0x20 || (0x09 ≤ b && b ≤ 0x0D)

def isDigit (b : UInt8) : Bool := 0x30 ≤ b && b ≤ 0x39

def isUpper (b : UInt8) : Bool := 0x41 ≤ b && b ≤ 0x5A

def isLower (b : UInt8) : Bool := 0x61 ≤ b && b ≤ 0x7A

def isLetter (b : UInt8) : Bool := isUpper b || isLower b

def isAlphanumeric (b : UInt8) : Bool := isLetter b || isDigit b

/-- A byte that may start a name: a letter or an underscore. -/
def isNameStart (b : UInt8) : Bool := isLetter b || b == underscore

/-- A byte that may continue a name: a letter, a digit or an underscore. -/
def isWord (b : UInt8) : Bool := isAlphanumeric b || b == underscore

def isHexDigit (b : UInt8) : Bool :=
  isDigit b || (0x41 ≤ b && b ≤ 0x46) || (0x61 ≤ b && b ≤ 0x66)

def isControl (b : UInt8) : Bool := b < 0x20

/-- The lower-case form of an upper-case letter, and every other byte itself. -/
def lower (b : UInt8) : UInt8 := if isUpper b then b + 0x20 else b

/-- The upper-case form of a lower-case letter, and every other byte itself. -/
def upper (b : UInt8) : UInt8 := if isLower b then b - 0x20 else b

def hexValue (b : UInt8) : Nat :=
  if isDigit b then b.toNat - 0x30 else (lower b).toNat - 0x57

end Byte

namespace Text

/-- The text without its leading and trailing whitespace. -/
def trim (t : Text) : Text :=
  ((t.dropWhile Byte.isBlank).reverse.dropWhile Byte.isBlank).reverse

def toLower (t : Text) : Text := t.map Byte.lower

/-- Whether `needle` stands somewhere in the text; the empty needle stands everywhere. -/
def occursIn (needle : Text) : Text → Bool
  | [] => needle.isEmpty
  | c :: rest => needle.isPrefixOf (c :: rest) || occursIn needle rest

/-- Whether `needle`, taken as it is, stands in the lower-case form of the text. -/
def containsFolded (t needle : Text) : Bool := occursIn needle t.toLower

/-- The text itself up to `limit` bytes, and otherwise its first `limit` bytes and an ellipsis. -/
def abridge (t : Text) (limit : Nat) : Text :=
  if t.length ≤ limit then t else t.take limit ++ ascii "..."

def decimal (n : Nat) : Text := (Nat.toDigits 10 n).map Char.toUInt8

/-- The decimal digits of an integer, with a minus sign in front of a negative one. -/
def signedDecimal (n : Int) : Text :=
  if n < 0 then Byte.minus :: decimal n.natAbs else decimal n.natAbs

/-- Texts in the order of their bytes; a text comes after its own beginnings. -/
def le : Text → Text → Bool
  | [], _ => true
  | _ :: _, [] => false
  | a :: s, b :: t => a < b || (a == b && le s t)

/-- The name shape `[A-Za-z_][A-Za-z0-9_]*`. -/
def isName : Text → Bool
  | [] => false
  | c :: rest => Byte.isNameStart c && rest.all Byte.isWord

end Text

end QueryGate
