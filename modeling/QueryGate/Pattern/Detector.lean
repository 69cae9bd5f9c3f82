import QueryGate.Pattern.Search

/-! # Detecting dangerous text

A detector searches a text for each of its patterns. Sources that are no patterns are left
out. A detector without any pattern fails closed: it reports every text.
-/

namespace QueryGate

/-- What a detector says of a text. -/
inductive Detection where
  | clear
  /-- The pattern with this source is the first in the list that was found. -/
  | found (source : Text)
  /-- There is no pattern to search for. -/
  | failClosed
  deriving Repr, DecidableEq

namespace Detection

def isDetected : Detection → Bool
  | .clear => false
  | .found _ | .failClosed => true

def source : Detection → Text
  | .found source => source
  | .clear | .failClosed => []

def reason : Detection → Text
  | .clear => []
  | .found source => ascii "matched dangerous pattern: " ++ source
  | .failClosed => ascii "no valid patterns loaded"

end Detection

structure Detector where
  patterns : List Pattern
  deriving Repr

namespace Detector

def ofSources (sources : List Text) : Detector := ⟨sources.filterMap Pattern.ofSource?⟩

def size (detector : Detector) : Nat := detector.patterns.length

/-- Whether the detector reports every text for want of patterns. -/
def failsClosed (detector : Detector) : Bool := detector.patterns.isEmpty

def inspect (detector : Detector) (t : Text) : Detection :=
  if detector.failsClosed then .failClosed
  else
    match detector.patterns.find? (·.occursIn t) with
    | some pattern => .found pattern.source
    | none => .clear

end Detector

end QueryGate
