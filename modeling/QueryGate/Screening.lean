import QueryGate.Pattern.Detector
import QueryGate.Rejection

/-! # Screening a text

Before a text of either language is read, it is looked at as a whole: there has to be something to
see in it, it may not be too long, and no pattern may be found in it.
-/

namespace QueryGate

/-- Refuses a text without a visible byte, and one of more than `limit` bytes. -/
def checkSize (language : Language) (limit : Nat) (text : Text) : Except Rejection Unit :=
  if text.trim.isEmpty then .error (.blank language)
  else if text.length > limit then .error (.tooLong language limit text.length)
  else .ok ()

/-- Refuses every text that is reported. -/
def Detector.check (detector : Detector) (language : Language) (text : Text) :
    Except Rejection Unit :=
  let detection := detector.inspect text
  if detection.isDetected then .error (.dangerous language detection.source) else .ok ()

end QueryGate
