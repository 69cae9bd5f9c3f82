import QueryGate.Text

/-! # Instants

Points of time in the Gregorian calendar without leap seconds, and their text in log lines.
-/

namespace QueryGate.Audit

/-- A point of time: a signed number of nanoseconds since the start of 1970. The number has 64
bits and wraps around, so the years 1677 to 2262 can be told apart. -/
structure Instant where
  nanoseconds : Int64
  deriving Repr, DecidableEq

structure Date where
  year : Int
  month : Nat
  day : Nat
  deriving Repr, DecidableEq

/-- The date of a day, given the number of days since 1970-01-01. Years are taken to start in
March, so that a leap day comes last, and are grouped by the 400 years after which the calendar
repeats. -/
def Date.ofDays (days : Int) : Date :=
  let shifted := days + 719468
  let era := shifted.fdiv 146097
  let dayOfEra := (shifted.fmod 146097).toNat
  let yearOfEra :=
    (dayOfEra - dayOfEra / 1460 + dayOfEra / 36524 - dayOfEra / 146096) / 365
  let dayOfYear := dayOfEra - (365 * yearOfEra + yearOfEra / 4 - yearOfEra / 100)
  let monthFromMarch := (5 * dayOfYear + 2) / 153
  let day := dayOfYear - (153 * monthFromMarch + 2) / 5 + 1
  let month := if monthFromMarch < 10 then monthFromMarch + 3 else monthFromMarch - 9
  let year := (yearOfEra : Int) + era * 400 + (if month ≤ 2 then 1 else 0)
  ⟨year, month, day⟩

/-- A text with zeros in front, up to the given width. -/
def padded (width : Nat) (t : Text) : Text := List.replicate (width - t.length) Byte.zero ++ t

namespace Instant

/-- The instant a number of milliseconds after the start of 1970. -/
def ofMilliseconds (ms : Int) : Instant := ⟨Int64.ofInt (ms * 1000000)⟩

/-- The whole seconds since the start of 1970; before it, the next whole second. -/
def seconds (t : Instant) : Int := t.nanoseconds.toInt.tdiv 1000000000

/-- The milliseconds after the whole second; before 1970 they are negative. -/
def milliseconds (t : Instant) : Int := t.nanoseconds.toInt.tdiv 1000000 - t.seconds * 1000

/-- The text of an instant, in universal time: the date, the time of day to the second, and the
signed milliseconds. -/
def text (t : Instant) : Text :=
  let date := Date.ofDays (t.seconds.fdiv 86400)
  let secondOfDay := (t.seconds.fmod 86400).toNat
  let two (n : Nat) : Text := padded 2 (Text.decimal n)
  padded 4 (Text.signedDecimal date.year) ++ Byte.minus :: two date.month ++
    Byte.minus :: two date.day ++ ascii "T" ++ two (secondOfDay / 3600) ++
    Byte.colon :: two (secondOfDay / 60 % 60) ++ Byte.colon :: two (secondOfDay % 60) ++
    Byte.dot :: padded 3 (Text.signedDecimal t.milliseconds) ++ ascii "Z"

end Instant

end QueryGate.Audit
