import QueryGate.Document
import QueryGate.Document.Binary64

/-! # Scalars as values

How the text of a scalar is read as a truth value or a number. Whole numbers are decimal, octal
after a leading zero, or hexadecimal after `0x`. Whitespace may follow a number and may not
precede it.
-/

namespace QueryGate.Document

/-- Whether a word is written in lower case, in upper case or capitalised. -/
def isPlainlyCased : Text → Bool
  | [] => true
  | c :: rest =>
    (c :: rest).all Byte.isLower || (Byte.isUpper c && (rest.all Byte.isLower || rest.all Byte.isUpper))

def bool? (text : Text) : Option Bool :=
  let word := text.toLower
  if isPlainlyCased text then
    if word ∈ List.map ascii ["y", "yes", "true", "on"] then some true
    else if word ∈ List.map ascii ["n", "no", "false", "off"] then some false
    else none
  else none

/-- Divides a leading sign from what follows; the flag says whether it is a minus. -/
def takeSign : Text → Bool × Text
  | [] => (false, [])
  | c :: rest =>
    if c = Byte.minus then (true, rest) else if c = Byte.plus then (false, rest) else (false, c :: rest)

/-- The number that digits to a base stand for. -/
def digitsValue (base : Nat) (digits : Text) : Nat :=
  digits.foldl (fun n b => n * base + Byte.hexValue b) 0

/-- The number of the digits at the start of a text, to a base whose digits `isDigit` tells;
only whitespace may follow them. -/
def wholeDigits? (base : Nat) (isDigit : UInt8 → Bool) (text : Text) : Option Nat :=
  let digits := text.takeWhile isDigit
  if !digits.isEmpty && (text.drop digits.length).all Byte.isBlank then
    some (digitsValue base digits)
  else none

def isOctalDigit (b : UInt8) : Bool := 0x30 ≤ b && b ≤ 0x37

/-- The number that a text without a sign stands for. -/
def magnitude? (text : Text) : Option Nat :=
  match text with
  | a :: b :: rest =>
    if a = Byte.zero then
      if Byte.lower b = 0x78 then wholeDigits? 16 Byte.isHexDigit rest
      else wholeDigits? 8 isOctalDigit text
    else wholeDigits? 10 Byte.isDigit text
  | _ => wholeDigits? 10 Byte.isDigit text

/-- The signed number of 64 bits that a text stands for. -/
def int64? (text : Text) : Option Int :=
  let (negative, rest) := takeSign text
  match magnitude? rest with
  | some n =>
    if negative then if n ≤ Nat.pow 2 63 then some (-(n : Int)) else none
    else if n < Nat.pow 2 63 then some (n : Int) else none
  | none => none

/-- The unsigned number of `bits` bits that a text stands for; a minus sign is refused even in
front of zero. -/
def unsigned? (bits : Nat) (text : Text) : Option Nat :=
  let (negative, rest) := takeSign text
  match magnitude? rest with
  | some n => if !negative && n < Nat.pow 2 bits then some n else none
  | none => none

/-- The power of ten at the end of a decimal number: nothing, or a mark, a sign and digits. Only
whitespace may follow. -/
def exponent? (text : Text) : Option Int :=
  match text with
  | c :: rest =>
    if Byte.lower c = 0x65 then
      let (negative, digits) := takeSign rest
      (wholeDigits? 10 Byte.isDigit digits).map fun n => if negative then -(n : Int) else n
    else if text.all Byte.isBlank then some 0
    else none
  | [] => some 0

/-- The bits of the floating-point number that a decimal text stands for. -/
def decimalBits? (text : Text) : Option UInt64 :=
  let (negative, rest) := takeSign text
  let whole := rest.takeWhile Byte.isDigit
  let rest := rest.drop whole.length
  let (fraction, rest) : Text × Text :=
    if rest.head? = some Byte.dot then
      let fraction := rest.tail.takeWhile Byte.isDigit
      (fraction, rest.tail.drop fraction.length)
    else ([], rest)
  if (whole ++ fraction).isEmpty then none
  else
    match exponent? rest with
    | some exponent =>
      Binary64.ofDecimal? negative (digitsValue 10 (whole ++ fraction))
        (exponent - fraction.length)
    | none => none

/-- The bits of the floating-point number that a text stands for: a decimal one, an infinity or
not a number. -/
def float? (text : Text) : Option UInt64 :=
  match decimalBits? text with
  | some bits => some bits
  | none =>
    let (negative, rest) := takeSign text
    if rest ∈ List.map ascii [".inf", ".Inf", ".INF"] then
      some (Binary64.withSign negative Binary64.infinityBits)
    else if text ∈ List.map ascii [".nan", ".NaN", ".NAN"] then
      some (Binary64.withSign false Binary64.nanBits)
    else none

end QueryGate.Document
