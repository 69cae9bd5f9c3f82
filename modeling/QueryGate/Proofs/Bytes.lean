import QueryGate.Text

/-! # Classes of bytes

The classes of bytes that readers and checks ask about, and how they lie to each other.
-/

namespace QueryGate.Byte

variable {b c : UInt8}

theorem isWord_of_isNameStart (starts : isNameStart b = true) : isWord b = true := by
  simp only [isNameStart, isWord, isAlphanumeric, Bool.or_eq_true] at starts ⊢
  exact starts.imp_left Or.inl

theorem isWord_of_isDigit (digit : isDigit b = true) : isWord b = true := by
  simp [isWord, isAlphanumeric, digit]

theorem not_isNameStart_of_isDigit (digit : isDigit b = true) : isNameStart b = false := by
  grind [isDigit, isNameStart, isLetter, isUpper, isLower]

theorem isWord_of_isLower_lower (lowered : isLower (lower b) = true) : isWord b = true := by
  grind [lower, isWord, isAlphanumeric, isLetter, isUpper, isLower]

@[simp] theorem isWord_lower (b : UInt8) : isWord (lower b) = isWord b := by
  grind [lower, isWord, isAlphanumeric, isLetter, isUpper, isLower, isDigit]

@[simp] theorem isNameStart_lower (b : UInt8) : isNameStart (lower b) = isNameStart b := by
  grind [lower, isNameStart, isLetter, isUpper, isLower]

@[simp] theorem lower_lower (b : UInt8) : lower (lower b) = lower b := by
  grind [lower, isUpper]

theorem not_isWord_of_isBlank (blank : isBlank b = true) : isWord b = false := by
  grind [isBlank, isWord, isAlphanumeric, isLetter, isUpper, isLower, isDigit]

theorem not_isBlank_of_isWord (word : isWord b = true) : isBlank b = false := by
  cases blank : isBlank b with
  | false => rfl
  | true =>
      rw [not_isWord_of_isBlank blank] at word
      cases word

theorem ne_of_isBlank (blank : isBlank b = true) (visible : isBlank c = false) : b ≠ c := by
  rintro rfl
  rw [blank] at visible
  cases visible

end QueryGate.Byte

namespace QueryGate.Text

@[simp] theorem toLower_toLower (t : Text) : t.toLower.toLower = t.toLower := by
  simp [toLower]

/-- A letter or an underscore, and then letters, digits and underscores. -/
def IsIdentifier (t : Text) : Prop :=
  ∃ first rest, t = first :: rest ∧ Byte.isNameStart first = true ∧
    ∀ b ∈ rest, Byte.isWord b = true

theorem isName_iff {t : Text} : t.isName = true ↔ t.IsIdentifier := by
  cases t with
  | nil => simp [isName, IsIdentifier]
  | cons first rest =>
      rw [isName, Bool.and_eq_true, List.all_eq_true]
      constructor
      · rintro ⟨starts, words⟩
        exact ⟨first, rest, rfl, starts, words⟩
      · rintro ⟨_, _, split, starts, words⟩
        obtain ⟨rfl, rfl⟩ := List.cons.inj split
        exact ⟨starts, words⟩

theorem IsIdentifier.isWord {t : Text} (named : t.IsIdentifier) : ∀ b ∈ t, Byte.isWord b = true := by
  obtain ⟨first, rest, rfl, starts, words⟩ := named
  exact List.forall_mem_cons.mpr ⟨Byte.isWord_of_isNameStart starts, words⟩

@[simp] theorem isName_toLower (t : Text) : t.toLower.isName = t.isName := by
  cases t with
  | nil => rfl
  | cons first rest =>
      have words : (Byte.isWord ∘ Byte.lower) = Byte.isWord := funext Byte.isWord_lower
      simp [toLower, isName, words]

end QueryGate.Text
