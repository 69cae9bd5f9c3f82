import QueryGate.Text

/-! # JSON in log lines

A log line is one JSON object. Strings are escaped bytewise: what is not a quote, a backslash or
a control byte is written as it is, valid as text or not.
-/

namespace QueryGate.Audit.Json

def hexDigit (n : Nat) : UInt8 := UInt8.ofNat (if n < 10 then 0x30 + n else 0x57 + n)

/-- The form of a byte inside a string. -/
def escapeByte (b : UInt8) : Text :=
  if b = Byte.doubleQuote then [Byte.backslash, Byte.doubleQuote]
  else if b = Byte.backslash then ascii "\\\\"
  else if b = 0x08 then ascii "\\b"
  else if b = 0x0C then ascii "\\f"
  else if b = Byte.lineFeed then ascii "\\n"
  else if b = Byte.carriageReturn then ascii "\\r"
  else if b = Byte.tab then ascii "\\t"
  else if Byte.isControl b then
    ascii "\\u00" ++ [hexDigit (b.toNat / 16), hexDigit (b.toNat % 16)]
  else [b]

/-- The inside of the string that stands for a text. -/
def escape (t : Text) : Text := t.flatMap escapeByte

inductive Scalar where
  /-- A text that needs no escape. -/
  | word (t : Text)
  | string (t : Text)
  | number (n : Int)
  deriving Repr, DecidableEq

def Scalar.render : Scalar → Text
  | .word t => Byte.doubleQuote :: t ++ [Byte.doubleQuote]
  | .string t => Byte.doubleQuote :: escape t ++ [Byte.doubleQuote]
  | .number n => Text.signedDecimal n

/-- The form of one key and its value. -/
def renderField (field : String × Scalar) : Text :=
  Byte.doubleQuote :: ascii field.1 ++ [Byte.doubleQuote, Byte.colon] ++ field.2.render

/-- The form of an object, its keys in the given order and without spaces. -/
def renderObject (fields : List (String × Scalar)) : Text :=
  Byte.openBrace :: [Byte.comma].intercalate (fields.map renderField) ++ [Byte.closeBrace]

end QueryGate.Audit.Json
