import Mathlib.Data.List.DropRight
import QueryGate.Text

/-! # Whitespace around a text

What a gate hands on is the core of what it was given: whitespace is taken off at both ends and
nowhere else. A text has one core, and the core of a core is the core itself.
-/

namespace QueryGate.Text

/-- The text consists of whitespace. -/
def Blank (t : Text) : Prop := ∀ b ∈ t, Byte.isBlank b = true

/-- The whitespace that a text starts with. -/
def lead (t : Text) : Text := t.takeWhile Byte.isBlank

/-- `core` stands in `t` between whitespace and has no whitespace at its own ends. -/
structure IsCore (core t : Text) : Prop where
  between : ∃ lead trail, Blank lead ∧ Blank trail ∧ t = lead ++ (core ++ trail)
  starts : ∀ b ∈ core.head?, Byte.isBlank b = false
  ends : ∀ b ∈ core.getLast?, Byte.isBlank b = false

theorem Blank.tail {b : UInt8} {t : Text} (blank : Blank (b :: t)) : Blank t :=
  fun c member => blank c (List.mem_cons_of_mem b member)

theorem Blank.not_mem {t : Text} (blank : Blank t) {b : UInt8} (visible : Byte.isBlank b = false) :
    b ∉ t := by
  intro member
  have white := blank b member
  rw [visible] at white
  cases white

theorem trim_eq_rdropWhile (t : Text) :
    t.trim = (t.dropWhile Byte.isBlank).rdropWhile Byte.isBlank := rfl

theorem blank_lead (t : Text) : Blank t.lead := fun _ member => List.mem_takeWhile_imp member

theorem exists_trail (t : Text) : ∃ trail, Blank trail ∧ t = t.lead ++ (t.trim ++ trail) := by
  refine ⟨(t.dropWhile Byte.isBlank).rtakeWhile Byte.isBlank, ?_, ?_⟩
  · intro b member
    exact List.mem_rtakeWhile_imp member
  · rw [trim_eq_rdropWhile, List.rdropWhile_append_rtakeWhile, lead, List.takeWhile_append_dropWhile]

theorem isCore_trim (t : Text) : IsCore t.trim t := by
  constructor
  case between =>
    obtain ⟨trail, back, whole⟩ := t.exists_trail
    exact ⟨t.lead, trail, t.blank_lead, back, whole⟩
  case starts =>
    rw [trim_eq_rdropWhile]
    intro b first
    obtain ⟨trail, whole⟩ := List.rdropWhile_prefix Byte.isBlank (t.dropWhile Byte.isBlank)
    have dropped : b ∈ (t.dropWhile Byte.isBlank).head? := by
      rw [← whole]
      exact List.mem_head?_append_of_mem_head? first
    have visible := List.head?_dropWhile_not Byte.isBlank t
    rw [Option.mem_def.mp dropped] at visible
    exact visible
  case ends =>
    rw [trim_eq_rdropWhile]
    intro b last
    obtain ⟨nonempty, rfl⟩ := List.mem_getLast?_eq_getLast last
    exact Bool.eq_false_iff.mpr (List.rdropWhile_last_not Byte.isBlank _ nonempty)

theorem trim_eq_self {t : Text} (starts : ∀ b ∈ t.head?, Byte.isBlank b = false)
    (ends : ∀ b ∈ t.getLast?, Byte.isBlank b = false) : t.trim = t := by
  have kept : t.dropWhile Byte.isBlank = t := by
    cases t with
    | nil => rfl
    | cons b rest => simp [starts b rfl]
  rw [trim_eq_rdropWhile, kept, List.rdropWhile_eq_self_iff]
  intro nonempty
  rw [ends _ (List.getLast_mem_getLast? nonempty)]
  exact Bool.false_ne_true

namespace IsCore

variable {core t : Text}

theorem trim_self (isCore : IsCore core t) : core.trim = core :=
  trim_eq_self isCore.starts isCore.ends

theorem length_le (isCore : IsCore core t) : core.length ≤ t.length := by
  obtain ⟨lead, trail, -, -, rfl⟩ := isCore.between
  simp only [List.length_append]
  omega

end IsCore

theorem trim_trim (t : Text) : t.trim.trim = t.trim := (isCore_trim t).trim_self

end QueryGate.Text
