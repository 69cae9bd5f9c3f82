import QueryGate.Proofs.Pattern.Margins

/-! # What a list of sources detects

A source that is no pattern counts for nothing, unless all of them are none: then every text is
reported. A detector with fewer patterns therefore reports less, as long as it has any.
-/

namespace QueryGate.Detector

variable {sources fewer : List Text} {t : Text}

theorem mem_patterns_ofSources {pattern : Pattern} :
    pattern ∈ (ofSources sources).patterns ↔
      ∃ source ∈ sources, Pattern.ofSource? source = some pattern := by
  simp [ofSources, List.mem_filterMap]

theorem failsClosed_ofSources :
    (ofSources sources).failsClosed = true ↔
      ∀ source ∈ sources, Pattern.ofSource? source = none := by
  rw [failsClosed, List.isEmpty_iff, List.eq_nil_iff_forall_not_mem]
  simp only [mem_patterns_ofSources, not_exists, not_and]
  constructor
  · intro absent source listed
    cases read : Pattern.ofSource? source with
    | none => rfl
    | some pattern => exact absurd read (absent pattern source listed)
  · intro invalid pattern source listed read
    rw [invalid source listed] at read
    cases read

theorem isDetected_ofSources_iff :
    ((ofSources sources).inspect t).isDetected = true ↔
      (∀ source ∈ sources, Pattern.ofSource? source = none) ∨
        ∃ source ∈ sources, ∃ pattern, Pattern.ofSource? source = some pattern ∧
          pattern.occursIn t = true := by
  rw [inspect_isDetected_iff, failsClosed_ofSources]
  refine or_congr_right ?_
  constructor
  · rintro ⟨pattern, listed, occurs⟩
    obtain ⟨source, member, read⟩ := mem_patterns_ofSources.mp listed
    exact ⟨source, member, pattern, read, occurs⟩
  · rintro ⟨source, member, pattern, read, occurs⟩
    exact ⟨pattern, mem_patterns_ofSources.mpr ⟨source, member, read⟩, occurs⟩

section Fewer

variable (searched : ∃ source ∈ fewer, (Pattern.ofSource? source).isSome = true)
  (within : ∀ source ∈ fewer, (Pattern.ofSource? source).isSome = true → source ∈ sources)

include searched within

theorem isDetected_of_fewer (detected : ((ofSources fewer).inspect t).isDetected = true) :
    ((ofSources sources).inspect t).isDetected = true := by
  rw [isDetected_ofSources_iff] at detected ⊢
  rcases detected with invalid | ⟨source, listed, pattern, read, occurs⟩
  · obtain ⟨source, listed, valid⟩ := searched
    rw [invalid source listed] at valid
    cases valid
  · have valid : (Pattern.ofSource? source).isSome = true := by rw [read]; rfl
    exact Or.inr ⟨source, within source listed valid, pattern, read, occurs⟩

theorem undetected_of_fewer (clear : ((ofSources sources).inspect t).isDetected = false) :
    ((ofSources fewer).inspect t).isDetected = false := by
  cases detected : ((ofSources fewer).inspect t).isDetected with
  | false => rfl
  | true => exact (isDetected_of_fewer searched within detected).symm.trans clear

end Fewer

end QueryGate.Detector
