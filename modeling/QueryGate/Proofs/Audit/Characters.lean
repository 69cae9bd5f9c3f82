import QueryGate.Audit.Log
import QueryGate.Proofs.Audit.Rendering

/-! # Characters of several bytes

A text in UTF-8 is the characters of a list, each in one to four bytes. The first byte of a character
continues none and every other byte does, so a byte alone tells whether a text may be cut in front of it.
-/

namespace QueryGate.Audit

/-- The text is valid in UTF-8: it consists of whole characters, each in its shortest form. -/
def IsUtf8 (t : Text) : Prop := t.toByteArray.IsValidUTF8

instance (t : Text) : Decidable (IsUtf8 t) := inferInstanceAs (Decidable (ByteArray.IsValidUTF8 _))

/-- The bytes of the characters, one after the other. -/
def spell (characters : List Char) : Text := characters.flatMap String.utf8EncodeChar

@[simp] theorem spell_nil : spell [] = [] := rfl

@[simp] theorem spell_cons (c : Char) (characters : List Char) :
    spell (c :: characters) = String.utf8EncodeChar c ++ spell characters := List.flatMap_cons

@[simp] theorem spell_append (first last : List Char) :
    spell (first ++ last) = spell first ++ spell last := List.flatMap_append

theorem isUtf8_iff {t : Text} : IsUtf8 t ↔ ∃ characters, t = spell characters := by
  constructor
  · rintro ⟨characters, same⟩
    exact ⟨characters, List.toByteArray_inj.mp same⟩
  · rintro ⟨characters, rfl⟩
    exact ⟨characters, rfl⟩

theorem isUtf8_append {s t : Text} (first : IsUtf8 s) (second : IsUtf8 t) : IsUtf8 (s ++ t) := by
  obtain ⟨characters, rfl⟩ := isUtf8_iff.mp first
  obtain ⟨others, rfl⟩ := isUtf8_iff.mp second
  exact isUtf8_iff.mpr ⟨characters ++ others, (spell_append characters others).symm⟩

theorem exists_lead (c : Char) : ∃ lead more, String.utf8EncodeChar c = lead :: more ∧
    isContinuation lead = false ∧ (∀ b ∈ more, isContinuation b = true) ∧ more.length ≤ 3 ∧
      (lead < 0x80 → more = []) := by
  have leads : ∀ b : UInt8, b.IsUTF8FirstByte → isContinuation b = false := by decide +kernel
  have continues : ∀ n, isContinuation (UInt8.ofNat (n % 64) + 128) = true := by
    have each : ∀ n < 64, isContinuation (UInt8.ofNat n + 128) = true := by decide +kernel
    exact fun n => each _ (Nat.mod_lt n (by decide))
  have high : ∀ n, 128 ≤ n → n < 256 → ¬ UInt8.ofNat n < 0x80 := by
    have each : ∀ n < 256, 128 ≤ n → ¬ UInt8.ofNat n < 0x80 := by decide +kernel
    exact fun n large small => each n small large
  obtain ⟨lead, more, bytes, others⟩ : ∃ lead more, String.utf8EncodeChar c = lead :: more ∧
      (∀ b ∈ more, isContinuation b = true) ∧ more.length ≤ 3 ∧ (lead < 0x80 → more = []) := by
    fun_cases String.utf8EncodeChar c with
    | case1 => exact ⟨_, [], rfl, by simp, by simp, fun _ => rfl⟩
    | case2 | case3 | case4 =>
        refine ⟨_, _, rfl, by simp [continues], by simp, fun small => ?_⟩
        exact absurd small (high _ (by omega) (by omega))
  have opens := UInt8.isUTF8FirstByte_getElem_zero_utf8EncodeChar (c := c)
  simp only [bytes, List.getElem_cons_zero] at opens
  exact ⟨lead, more, bytes, leads lead opens, others⟩

/-! ## Where to cut -/

theorem any_head?_spell (characters : List Char) : (spell characters).head?.any isContinuation = false := by
  cases characters with
  | nil => rfl
  | cons c characters =>
      obtain ⟨lead, more, bytes, first, -⟩ := exists_lead c
      simpa [bytes] using first

theorem isUtf8_take {t : Text} (valid : IsUtf8 t) {n : Nat} (apart : t[n]?.any isContinuation = false) :
    IsUtf8 (t.take n) := by
  obtain ⟨characters, rfl⟩ := isUtf8_iff.mp valid
  rw [isUtf8_iff]
  clear valid
  induction characters generalizing n with
  | nil => exact ⟨[], by simp⟩
  | cons c characters ih =>
      obtain ⟨lead, more, bytes, -, continues, -⟩ := exists_lead c
      cases n with
      | zero => exact ⟨[], rfl⟩
      | succ n =>
          rw [spell_cons, bytes, List.cons_append, List.getElem?_cons_succ] at apart
          rcases Nat.lt_or_ge n more.length with inside | beyond
          · rw [List.getElem?_append_left inside, List.getElem?_eq_getElem inside, Option.any_some,
              continues _ (List.getElem_mem inside)] at apart
            cases apart
          · rw [List.getElem?_append_right beyond] at apart
            obtain ⟨others, taken⟩ := ih apart
            refine ⟨c :: others, ?_⟩
            rw [spell_cons, spell_cons, bytes, List.cons_append, List.take_succ_cons, List.take_append,
              List.take_of_length_le beyond, taken, List.cons_append]

theorem not_continues_of_prefix {s t : Text} (begins : s <+: t) (valid : IsUtf8 t) (whole : IsUtf8 s) :
    t[s.length]?.any isContinuation = false := by
  obtain ⟨characters, rfl⟩ := isUtf8_iff.mp valid
  obtain ⟨first, rfl⟩ := isUtf8_iff.mp whole
  obtain ⟨rest, split⟩ := begins
  have bytes : first.utf8Encode ++ rest.toByteArray = characters.utf8Encode := by
    rw [List.utf8Encode, List.utf8Encode, ← List.toByteArray_append]
    exact congrArg List.toByteArray split
  obtain ⟨last, rfl⟩ := List.isPrefix_of_utf8Encode_append_eq_utf8Encode rest.toByteArray bytes
  rw [spell_append, List.getElem?_append_right (Nat.le_refl _), Nat.sub_self, ← List.head?_eq_getElem?]
  exact any_head?_spell last

/-- No place is more than three bytes behind one where whole characters end. -/
theorem exists_prefix_near {t : Text} (valid : IsUtf8 t) {n : Nat} (within : n ≤ t.length) :
    ∃ s, s <+: t ∧ IsUtf8 s ∧ s.length ≤ n ∧ n ≤ s.length + 3 := by
  obtain ⟨characters, rfl⟩ := isUtf8_iff.mp valid
  clear valid
  induction characters generalizing n with
  | nil => exact ⟨[], List.prefix_rfl, isUtf8_iff.mpr ⟨[], rfl⟩, Nat.zero_le n, Nat.le_add_right_of_le within⟩
  | cons c characters ih =>
      obtain ⟨lead, more, bytes, -, -, short, -⟩ := exists_lead c
      have size : (String.utf8EncodeChar c).length = more.length + 1 := by rw [bytes, List.length_cons]
      rw [spell_cons, List.length_append] at within
      rcases Nat.lt_or_ge n (more.length + 1) with inside | beyond
      · exact ⟨[], List.nil_prefix, isUtf8_iff.mpr ⟨[], rfl⟩, Nat.zero_le n, by simp; omega⟩
      · obtain ⟨s, begins, whole, below, near⟩ := ih (n := n - (more.length + 1)) (by omega)
        refine ⟨String.utf8EncodeChar c ++ s, ?_, ?_, ?_, ?_⟩
        · rw [spell_cons]
          exact (List.prefix_append_right_inj _).mpr begins
        · exact isUtf8_append (isUtf8_iff.mpr ⟨[c], by simp⟩) whole
        · rw [List.length_append]
          omega
        · rw [List.length_append]
          omega

/-! ## Escapes -/

theorem ascii_or_high (c : Char) :
    (∃ b, String.utf8EncodeChar c = [b] ∧ b < 0x80) ∨ ∀ b ∈ String.utf8EncodeChar c, ¬ b < 0x80 := by
  have high : ∀ b, isContinuation b = true → ¬ b < 0x80 := by decide +kernel
  obtain ⟨lead, more, bytes, -, continues, -, alone⟩ := exists_lead c
  rw [bytes]
  by_cases small : lead < 0x80
  · exact .inl ⟨lead, by rw [alone small], small⟩
  · exact .inr (List.forall_mem_cons.mpr ⟨small, fun b member => high b (continues b member)⟩)

theorem isUtf8_of_ascii {t : Text} (small : ∀ b ∈ t, b < 0x80) : IsUtf8 t := by
  have single : ∀ b : UInt8, b < 0x80 → String.utf8EncodeChar (Char.ofNat b.toNat) = [b] := by
    decide +kernel
  induction t with
  | nil => exact isUtf8_iff.mpr ⟨[], rfl⟩
  | cons b t ih =>
      obtain ⟨first, others⟩ := List.forall_mem_cons.mp small
      have whole : IsUtf8 [b] := isUtf8_iff.mpr ⟨[Char.ofNat b.toNat], by simp [single b first]⟩
      exact isUtf8_append whole (ih others)

/-- Escapes are made of ASCII and replace nothing but ASCII, so characters stay whole. -/
theorem isUtf8_escape {t : Text} (valid : IsUtf8 t) : IsUtf8 (Json.escape t) := by
  have escaped : ∀ b : UInt8, b < 0x80 → (Json.escapeByte b).all (· < 0x80) = true := by decide +kernel
  have plain : ∀ b : UInt8, ¬ b < 0x80 → Json.isPlain b = true := by decide +kernel
  obtain ⟨characters, rfl⟩ := isUtf8_iff.mp valid
  clear valid
  induction characters with
  | nil => exact isUtf8_iff.mpr ⟨[], rfl⟩
  | cons c characters ih =>
      rw [spell_cons, Json.escape, List.flatMap_append]
      refine isUtf8_append ?_ ih
      rcases ascii_or_high c with ⟨b, bytes, small⟩ | high
      · rw [bytes, List.flatMap_singleton]
        exact isUtf8_of_ascii fun e member => by simpa using List.all_eq_true.mp (escaped b small) e member
      · have same : (String.utf8EncodeChar c).flatMap Json.escapeByte = String.utf8EncodeChar c :=
          Json.escape_of_plain fun b member => plain b (high b member)
        rw [same]
        exact isUtf8_iff.mpr ⟨[c], by simp⟩

end QueryGate.Audit
