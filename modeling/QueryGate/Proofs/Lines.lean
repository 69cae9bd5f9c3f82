import QueryGate.Proofs.Margins

/-! # Line ends

A line ends with a line feed or with a carriage return. Two texts are alike that differ in which of the
two stands at the ends of their lines.
-/

namespace QueryGate

/-- The byte itself, and a line feed for a carriage return. -/
def Byte.unifyLine (b : UInt8) : UInt8 := if b = Byte.carriageReturn then Byte.lineFeed else b

theorem Byte.unifyLine_of_ne {b : UInt8} (inner : b ≠ Byte.carriageReturn) :
    Byte.unifyLine b = b := if_neg inner

theorem Byte.unifyLine_eq_iff {b c : UInt8} (unfed : c ≠ Byte.lineFeed)
    (inner : c ≠ Byte.carriageReturn) : Byte.unifyLine b = c ↔ b = c := by
  unfold Byte.unifyLine
  split
  · next ends => exact iff_of_false unfed.symm fun same => inner (same.symm.trans ends)
  · exact Iff.rfl

theorem Byte.blind_unifyLine {p : UInt8 → Bool}
    (blind : p Byte.carriageReturn = p Byte.lineFeed) (b : UInt8) : p (Byte.unifyLine b) = p b := by
  unfold Byte.unifyLine
  split
  · next ends => rw [ends, blind]
  · rfl

@[simp] theorem Byte.isBlank_unifyLine (b : UInt8) :
    Byte.isBlank (Byte.unifyLine b) = Byte.isBlank b := Byte.blind_unifyLine rfl b

@[simp] theorem Byte.isWord_unifyLine (b : UInt8) :
    Byte.isWord (Byte.unifyLine b) = Byte.isWord b := Byte.blind_unifyLine rfl b

@[simp] theorem Byte.unifyLine_unifyLine (b : UInt8) :
    Byte.unifyLine (Byte.unifyLine b) = Byte.unifyLine b := by
  by_cases ends : b = Byte.carriageReturn
  · subst ends
    rfl
  · rw [Byte.unifyLine_of_ne ends, Byte.unifyLine_of_ne ends]

theorem Byte.any_isWord_unifyLine (seen : Option UInt8) :
    (seen.map Byte.unifyLine).any Byte.isWord = seen.any Byte.isWord := by
  cases seen <;> simp

namespace Text

/-- The text with line feeds for its carriage returns. -/
def unifyLines (t : Text) : Text := t.map Byte.unifyLine

/-- The texts differ in their line ends at most. -/
def SameLines (s t : Text) : Prop := s.unifyLines = t.unifyLines

@[simp] theorem unifyLines_nil : unifyLines [] = [] := rfl

@[simp] theorem unifyLines_cons (b : UInt8) (t : Text) :
    unifyLines (b :: t) = Byte.unifyLine b :: unifyLines t := rfl

variable {s t : Text}

theorem isPrefixOf_unifyLines {start : Text}
    (unlined : ∀ b ∈ start, b ≠ Byte.lineFeed ∧ b ≠ Byte.carriageReturn) (t : Text) :
    start.isPrefixOf t.unifyLines = start.isPrefixOf t := by
  induction start generalizing t with
  | nil => simp
  | cons a start ih =>
      cases t with
      | nil => rfl
      | cons b t =>
          obtain ⟨unfed, inner⟩ := unlined a List.mem_cons_self
          have same : (a == Byte.unifyLine b) = (a == b) := by
            rw [Bool.eq_iff_iff, beq_iff_eq, beq_iff_eq, eq_comm, Byte.unifyLine_eq_iff unfed inner,
              eq_comm]
          rw [unifyLines_cons, List.isPrefixOf_cons_cons, List.isPrefixOf_cons_cons, same,
            ih fun b member => unlined b (List.mem_cons_of_mem a member)]

theorem length_takeWhile_unifyLines {p : UInt8 → Bool}
    (blind : p Byte.carriageReturn = p Byte.lineFeed) (t : Text) :
    (t.unifyLines.takeWhile p).length = (t.takeWhile p).length := by
  have same : p ∘ Byte.unifyLine = p := funext (Byte.blind_unifyLine blind)
  rw [unifyLines, List.takeWhile_map, List.length_map, same]

theorem any_head?_unifyLines {p : UInt8 → Bool}
    (blind : p Byte.carriageReturn = p Byte.lineFeed) (t : Text) :
    t.unifyLines.head?.any p = t.head?.any p := by
  cases t with
  | nil => rfl
  | cons b t => exact Byte.blind_unifyLine blind b

theorem SameLines.length_eq (same : SameLines s t) : s.length = t.length := by
  have lengths := congrArg List.length same
  rwa [unifyLines, unifyLines, List.length_map, List.length_map] at lengths

theorem SameLines.exists_append {before after : Text} (same : SameLines (before ++ after) t) :
    ∃ front back, t = front ++ back ∧ SameLines before front ∧ SameLines after back := by
  have cut : t.map Byte.unifyLine = before.unifyLines ++ after.unifyLines :=
    same.symm.trans List.map_append
  obtain ⟨front, back, whole, first, second⟩ := List.map_eq_append_iff.mp cut
  exact ⟨front, back, whole, first.symm, second.symm⟩

theorem trim_eq_nil_iff : t.trim = [] ↔ t.Blank := by
  have isCore := isCore_trim t
  obtain ⟨lead, trail, front, back, whole⟩ := isCore.between
  constructor
  · intro nothing b member
    rw [nothing, List.nil_append] at whole
    rw [whole, List.mem_append] at member
    exact member.elim (front b) (back b)
  · intro blank
    cases starts : t.trim with
    | nil => rfl
    | cons b rest =>
        have member : b ∈ t := by
          rw [whole, starts]
          simp
        have visible := isCore.starts b (by rw [starts]; rfl)
        rw [blank b member] at visible
        cases visible

theorem blank_unifyLines : t.unifyLines.Blank ↔ t.Blank := by
  simp [Blank, unifyLines]

theorem SameLines.trim_eq_nil_iff (same : SameLines s t) : s.trim = [] ↔ t.trim = [] := by
  rw [Text.trim_eq_nil_iff, Text.trim_eq_nil_iff, ← blank_unifyLines, same, blank_unifyLines]

end Text

end QueryGate
