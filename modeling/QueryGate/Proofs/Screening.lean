import QueryGate.Proofs.Pattern.Detection
import QueryGate.Proofs.Pattern.Margins
import QueryGate.Proofs.Pattern.Sources
import QueryGate.Screening

/-! # What a screened text has passed

Both languages screen their texts alike, and so what a text has passed, what refuses it, and when
another text or wider rules pass too is told once for both.
-/

namespace QueryGate

variable {language : Language} {limit wider : Nat} {text : Text} {rejection : Rejection}

/-! ## The size -/

theorem checkSize_eq_ok_iff :
    checkSize language limit text = .ok () ↔ text.trim ≠ [] ∧ text.length ≤ limit := by
  unfold checkSize
  by_cases blank : text.trim = []
  · simp [blank]
  · simp [blank]

theorem checkSize_eq_error_iff :
    checkSize language limit text = .error rejection ↔
      text.trim = [] ∧ rejection = .blank language ∨
        text.trim ≠ [] ∧ limit < text.length ∧
          rejection = .tooLong language limit text.length := by
  constructor
  · intro refused
    unfold checkSize at refused
    split at refused
    · next blank => exact Or.inl ⟨List.isEmpty_iff.mp blank, (Except.error.inj refused).symm⟩
    next visible =>
    split at refused
    · next long =>
        exact Or.inr ⟨mt List.isEmpty_iff.mpr visible, long, (Except.error.inj refused).symm⟩
    · cases refused
  · rintro (⟨blank, rfl⟩ | ⟨visible, long, rfl⟩)
    · rw [checkSize, if_pos (List.isEmpty_iff.mpr blank)]
    · rw [checkSize, if_neg (mt List.isEmpty_iff.mp visible), if_pos long]

theorem code_of_checkSize (refused : checkSize language limit text = .error rejection) :
    rejection.code ∈ [.emptyInput, .tooLong] := by
  rcases checkSize_eq_error_iff.mp refused with ⟨-, rfl⟩ | ⟨-, -, rfl⟩
  · exact List.mem_cons_self
  · exact List.mem_cons_of_mem _ List.mem_cons_self

theorem code_of_checkSize_of_visible (visible : text.trim ≠ [])
    (refused : checkSize language limit text = .error rejection) : rejection.code = .tooLong := by
  rcases checkSize_eq_error_iff.mp refused with ⟨blank, -⟩ | ⟨-, -, rfl⟩
  · exact absurd blank visible
  · rfl

theorem checkSize_of_le (room : limit ≤ wider) (passes : checkSize language limit text = .ok ()) :
    checkSize language wider text = .ok () := by
  rw [checkSize_eq_ok_iff] at passes ⊢
  exact ⟨passes.1, passes.2.trans room⟩

theorem checkSize_trim (passes : checkSize language limit text = .ok ()) :
    checkSize language limit text.trim = .ok () := by
  rw [checkSize_eq_ok_iff] at passes ⊢
  rw [Text.trim_trim]
  exact ⟨passes.1, (Text.isCore_trim text).length_le.trans passes.2⟩

/-! ## The patterns -/

namespace Detector

variable {detector : Detector}

theorem check_eq_ok_iff :
    detector.check language text = .ok () ↔ (detector.inspect text).isDetected = false := by
  unfold check
  cases detected : (detector.inspect text).isDetected with
  | true => simp [detected]
  | false => simp [detected]

theorem check_eq_error_iff :
    detector.check language text = .error rejection ↔
      (detector.inspect text).isDetected = true ∧
        rejection = .dangerous language (detector.inspect text).source := by
  unfold check
  cases detected : (detector.inspect text).isDetected with
  | true => simp [detected, eq_comm]
  | false => simp [detected]

theorem code_of_check (refused : detector.check language text = .error rejection) :
    rejection.code = .dangerousPattern := by
  obtain ⟨-, rfl⟩ := check_eq_error_iff.mp refused
  rfl

theorem check_of_failsClosed (closed : detector.failsClosed = true) :
    detector.check language text = .error (.dangerous language []) := by
  rw [check_eq_error_iff, inspect_eq_failClosed_iff.mpr closed]
  exact ⟨rfl, rfl⟩

theorem check_of_fewer {sources fewer : List Text}
    (searched : ∃ source ∈ fewer, (Pattern.ofSource? source).isSome = true)
    (within : ∀ source ∈ fewer, (Pattern.ofSource? source).isSome = true → source ∈ sources)
    (passes : (ofSources sources).check language text = .ok ()) :
    (ofSources fewer).check language text = .ok () := by
  rw [check_eq_ok_iff] at passes ⊢
  exact undetected_of_fewer searched within passes

theorem check_trim (steady : detector.IsSteady) (passes : detector.check language text = .ok ()) :
    detector.check language text.trim = .ok () := by
  rw [check_eq_ok_iff] at passes ⊢
  cases detected : (detector.inspect text.trim).isDetected with
  | false => rfl
  | true => exact (isDetected_of_isCore steady (Text.isCore_trim text) detected).symm.trans passes

end Detector

end QueryGate
