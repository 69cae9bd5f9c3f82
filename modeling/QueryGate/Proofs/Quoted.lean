import QueryGate.Proofs.Joining
import QueryGate.Quoted

/-! # Literals and what follows them

Where a literal ends is settled once its closing quote has been read, whatever follows, and a text
without quotes closes no literal. What an escape has made of a value is *sealed*: no quote in it
closes the literal around it, and the value can be decoded from it byte by byte.
-/

namespace QueryGate.Quoted

variable {quote : UInt8} {s t : Text} {n : Nat}

theorem span?_escaped (c : UInt8) (t : Text) :
    span? quote (Byte.backslash :: c :: t) = (span? quote t).map (· + 2) := by
  rw [span?.eq_def]
  rfl

theorem span?_closing (unescaping : quote ≠ Byte.backslash) (t : Text) :
    span? quote (quote :: t) = some 1 := by
  rw [span?.eq_def]
  simp [unescaping]

theorem span?_plain {c : UInt8} (plain : c ≠ Byte.backslash) (other : c ≠ quote) (t : Text) :
    span? quote (c :: t) = (span? quote t).map (· + 1) := by
  rw [span?.eq_def]
  simp [plain, other]

theorem span?_append (closes : span? quote s = some n) : span? quote (s ++ t) = some n := by
  fun_induction span? quote s generalizing n with
  | case1 => cases closes
  | case2 => cases closes
  | case3 c rest ih =>
      obtain ⟨m, later, rfl⟩ := Option.map_eq_some_iff.mp closes
      rw [List.cons_append, List.cons_append, span?_escaped, ih later]
      rfl
  | case4 rest other =>
      rw [List.cons_append, span?_closing other]
      exact closes
  | case5 c rest plain other ih =>
      obtain ⟨m, later, rfl⟩ := Option.map_eq_some_iff.mp closes
      rw [List.cons_append, span?_plain plain other, ih later]
      rfl

theorem span?_of_not_mem (unquoted : quote ∉ t) : span? quote t = none := by
  fun_induction span? quote t with
  | case1 => rfl
  | case2 => rfl
  | case3 c rest ih => simp [ih (by simp_all)]
  | case4 => simp at unquoted
  | case5 c rest plain other ih => simp [ih (by simp_all)]

theorem span?_append_of_not_mem (unquoted : quote ∉ t) (stays : span? quote s = none) :
    span? quote (s ++ t) = none := by
  fun_induction span? quote s with
  | case1 => exact span?_of_not_mem unquoted
  | case2 =>
      cases t with
      | nil => rfl
      | cons c t =>
          have later : span? quote t = none :=
            span?_of_not_mem fun member => unquoted (List.mem_cons_of_mem c member)
          rw [List.singleton_append, span?_escaped, later]
          rfl
  | case3 c rest ih =>
      have later := ih (Option.map_eq_none_iff.mp stays)
      rw [List.cons_append, List.cons_append, span?_escaped, later]
      rfl
  | case4 => cases stays
  | case5 c rest plain other ih =>
      have later := ih (Option.map_eq_none_iff.mp stays)
      rw [List.cons_append, span?_plain plain other, later]
      rfl

theorem span?_append_eq (stays : span? quote s = none → quote ∉ t) :
    span? quote (s ++ t) = span? quote s := by
  cases closes : span? quote s with
  | none => exact span?_append_of_not_mem (stays closes) closes
  | some n => exact span?_append closes

theorem span?_take (closes : span? quote t = some n) : span? quote (t.take n) = some n := by
  fun_induction span? quote t generalizing n with
  | case1 => cases closes
  | case2 => cases closes
  | case3 c rest ih =>
      obtain ⟨m, later, rfl⟩ := Option.map_eq_some_iff.mp closes
      rw [List.take_succ_cons, List.take_succ_cons, span?_escaped, ih later]
      rfl
  | case4 rest other =>
      obtain rfl := Option.some.inj closes
      rw [List.take_succ_cons]
      exact span?_closing other _
  | case5 c rest plain other ih =>
      obtain ⟨m, later, rfl⟩ := Option.map_eq_some_iff.mp closes
      rw [List.take_succ_cons, span?_plain plain other, ih later]
      rfl

/-! ## Sealed texts -/

/-- Every quote in the text is escaped, and no backslash is left to escape what follows. -/
def isSealed (quote : UInt8) : Text → Bool
  | [] => true
  | c :: rest =>
    if c = Byte.backslash then
      match rest with
      | [] => false
      | _ :: rest => isSealed quote rest
    else c != quote && isSealed quote rest

theorem isSealed_escaped (c : UInt8) (t : Text) :
    isSealed quote (Byte.backslash :: c :: t) = isSealed quote t := by
  rw [isSealed.eq_def]
  rfl

theorem isSealed_plain {c : UInt8} (plain : c ≠ Byte.backslash) (t : Text) :
    isSealed quote (c :: t) = (c != quote && isSealed quote t) := by
  rw [isSealed.eq_def]
  simp [plain]

theorem isSealed_append (first : isSealed quote s = true) (second : isSealed quote t = true) :
    isSealed quote (s ++ t) = true := by
  fun_induction isSealed quote s with
  | case1 => exact second
  | case2 => cases first
  | case3 c rest ih =>
      rw [List.cons_append, List.cons_append, isSealed_escaped]
      exact ih first
  | case4 c rest plain ih =>
      rw [Bool.and_eq_true] at first
      rw [List.cons_append, isSealed_plain plain, first.1, ih first.2]
      rfl

theorem span?_of_isSealed (sealed_ : isSealed quote s = true) (unescaping : quote ≠ Byte.backslash) :
    span? quote (s ++ quote :: t) = some (s.length + 1) := by
  fun_induction isSealed quote s with
  | case1 => exact span?_closing unescaping t
  | case2 => cases sealed_
  | case3 c rest ih =>
      rw [List.cons_append, List.cons_append, span?_escaped, ih sealed_]
      rfl
  | case4 c rest plain ih =>
      rw [Bool.and_eq_true, bne_iff_ne] at sealed_
      rw [List.cons_append, span?_plain plain sealed_.1, ih sealed_.2]
      rfl

theorem head?_ne_of_isSealed (sealed_ : isSealed quote s = true)
    (unescaping : quote ≠ Byte.backslash) : s.head? ≠ some quote := by
  cases s with
  | nil => simp
  | cons c rest =>
      rintro first
      obtain rfl := Option.some.inj first
      rw [isSealed_plain unescaping, bne_self_eq_false] at sealed_
      cases sealed_

/-! ## Decoding -/

/-- The value of a text in which a backslash and a byte stand for the meaning of that byte; a
backslash at the very end stands for itself. -/
def decode (meaning : UInt8 → UInt8) : Text → Text
  | [] => []
  | c :: rest =>
    if c = Byte.backslash then
      match rest with
      | [] => [c]
      | d :: rest => meaning d :: decode meaning rest
    else c :: decode meaning rest

section Decoding

variable {meaning : UInt8 → UInt8}

theorem decode_escaped (d : UInt8) (t : Text) :
    decode meaning (Byte.backslash :: d :: t) = meaning d :: decode meaning t := by
  rw [decode.eq_def]
  rfl

theorem decode_plain {c : UInt8} (plain : c ≠ Byte.backslash) (t : Text) :
    decode meaning (c :: t) = c :: decode meaning t := by
  rw [decode.eq_def]
  simp [plain]

/-- No escape reaches from a sealed text into what follows. -/
theorem decode_append (sealed_ : isSealed quote s = true) (t : Text) :
    decode meaning (s ++ t) = decode meaning s ++ decode meaning t := by
  fun_induction isSealed quote s with
  | case1 => rfl
  | case2 => cases sealed_
  | case3 c rest ih =>
      rw [List.cons_append, List.cons_append, decode_escaped, decode_escaped, ih sealed_]
      rfl
  | case4 c rest plain ih =>
      rw [Bool.and_eq_true] at sealed_
      rw [List.cons_append, decode_plain plain, decode_plain plain, ih sealed_.2]
      rfl

end Decoding

/-! ## Encoding -/

/-- How a byte of a value is encoded: behind a backslash, not at all, or as it is. -/
inductive Encodes (quote : UInt8) (meaning : UInt8 → UInt8) (kept : UInt8 → Bool) (b : UInt8) :
    Text → Prop where
  | escaped {c} (means : meaning c = b) (keeps : kept b = true) :
      Encodes quote meaning kept b [Byte.backslash, c]
  | dropped (drops : kept b = false) : Encodes quote meaning kept b []
  | plain (unescaping : b ≠ Byte.backslash) (unclosing : b ≠ quote) (keeps : kept b = true) :
      Encodes quote meaning kept b [b]

section Encoding

variable {meaning : UInt8 → UInt8} {kept : UInt8 → Bool} {b : UInt8} {piece : Text}
  {encode : UInt8 → Text}

theorem isSealed_of_encodes (encodes : Encodes quote meaning kept b piece) :
    isSealed quote piece = true := by
  cases encodes with
  | escaped => rfl
  | dropped => rfl
  | plain unescaping unclosing =>
      rw [isSealed_plain unescaping]
      simp [unclosing, isSealed]

theorem decode_of_encodes (encodes : Encodes quote meaning kept b piece) :
    decode meaning piece = [b].filter kept := by
  cases encodes with
  | escaped means keeps => simp [means, keeps, decode]
  | dropped drops => simp [drops, decode]
  | plain _ _ keeps => simp [keeps, decode]

theorem isSealed_flatMap (encodes : ∀ b, Encodes quote meaning kept b (encode b)) (value : Text) :
    isSealed quote (value.flatMap encode) = true := by
  induction value with
  | nil => rfl
  | cons b value ih =>
      rw [List.flatMap_cons]
      exact isSealed_append (isSealed_of_encodes (encodes b)) ih

theorem decode_flatMap (encodes : ∀ b, Encodes quote meaning kept b (encode b)) (value : Text) :
    decode meaning (value.flatMap encode) = value.filter kept := by
  induction value with
  | nil => rfl
  | cons b value ih =>
      rw [List.flatMap_cons, decode_append (isSealed_of_encodes (encodes b)),
        decode_of_encodes (encodes b), ih, ← List.filter_append]
      rfl

end Encoding

/-- The escapes can be read back, and what would end a literal or escape what follows has one. -/
structure AreReadable (quote : UInt8) (meaning : UInt8 → UInt8) (kept : UInt8 → Bool)
    (escapes : List (UInt8 × UInt8)) : Prop where
  means : escapes.all (fun entry => meaning entry.2 == entry.1) = true
  keeps : escapes.all (fun entry => kept entry.1) = true
  unescaping : (escapes.lookup Byte.backslash).isSome = true
  unclosing : (escapes.lookup quote).isSome = true
  others : ∀ b, escapes.lookup b = none → kept b = !Byte.isControl b

namespace AreReadable

variable {meaning : UInt8 → UInt8} {kept : UInt8 → Bool} {escapes : List (UInt8 × UInt8)}
  (readable : AreReadable quote meaning kept escapes)

include readable

theorem encodes (b : UInt8) : Encodes quote meaning kept b (escapeByte escapes b) := by
  unfold escapeByte
  cases found : escapes.lookup b with
  | some letter =>
      obtain ⟨before, after, split, -⟩ := List.lookup_eq_some_iff.mp found
      have listed : (b, letter) ∈ escapes := split ▸ List.mem_append_right before List.mem_cons_self
      have means := List.all_eq_true.mp readable.means _ listed
      exact .escaped (beq_iff_eq.mp means) (List.all_eq_true.mp readable.keeps _ listed)
  | none =>
      have keeps := readable.others b found
      cases control : Byte.isControl b with
      | true => exact .dropped (by rw [keeps, control]; rfl)
      | false =>
          refine .plain ?_ ?_ (by rw [keeps, control]; rfl)
          · rintro rfl
            exact absurd readable.unescaping (by simp [found])
          · rintro rfl
            exact absurd readable.unclosing (by simp [found])

theorem isSealed_escape (value : Text) : isSealed quote (escape escapes value) = true :=
  isSealed_flatMap readable.encodes value

theorem decode_escape (value : Text) : decode meaning (escape escapes value) = value.filter kept :=
  decode_flatMap readable.encodes value

end AreReadable

/-- The literal with the given contents, in double quotes. -/
def literal (contents : Text) : Text := Byte.doubleQuote :: (contents ++ [Byte.doubleQuote])

theorem literal_append (contents t : Text) :
    literal contents ++ t = Byte.doubleQuote :: (contents ++ Byte.doubleQuote :: t) := by
  simp [literal]

/-! ## Fences -/

theorem isPrefixOf_append {start : Text} (begins : start.isPrefixOf s = true) :
    start.isPrefixOf (s ++ t) = true := by
  rw [List.isPrefixOf_iff_prefix] at begins ⊢
  exact begins.trans (List.prefix_append s t)

theorem isPrefixOf_of_append {start : Text} (fits : start.length ≤ s.length)
    (begins : start.isPrefixOf (s ++ t) = true) : start.isPrefixOf s = true := by
  rw [List.isPrefixOf_iff_prefix] at begins ⊢
  exact List.prefix_of_prefix_length_le begins (List.prefix_append s t) fits

theorem three_le_of_throughFence? (closes : throughFence? s = some n) : 3 ≤ s.length := by
  fun_induction throughFence? s generalizing n with
  | case1 => cases closes
  | case2 c rest begins => exact (List.isPrefixOf_iff_prefix.mp begins).length_le
  | case3 c rest _ ih =>
      obtain ⟨m, later, -⟩ := Option.map_eq_some_iff.mp closes
      exact Nat.le_succ_of_le (ih later)

theorem throughFence?_append (closes : throughFence? s = some n) :
    throughFence? (s ++ t) = some n := by
  fun_induction throughFence? s generalizing n with
  | case1 => cases closes
  | case2 c rest begins =>
      have still : fence.isPrefixOf (c :: (rest ++ t)) = true := isPrefixOf_append begins
      rw [← closes, List.cons_append, throughFence?, if_pos still]
  | case3 c rest begins ih =>
      obtain ⟨m, later, rfl⟩ := Option.map_eq_some_iff.mp closes
      have long : fence.length ≤ (c :: rest).length :=
        Nat.le_succ_of_le (three_le_of_throughFence? later)
      have still : ¬ fence.isPrefixOf (c :: (rest ++ t)) = true :=
        fun begun => begins (isPrefixOf_of_append long begun)
      rw [List.cons_append, throughFence?, if_neg still, ih later]
      rfl

theorem throughFence?_take (closes : throughFence? t = some n) :
    throughFence? (t.take n) = some n := by
  fun_induction throughFence? t generalizing n with
  | case1 => cases closes
  | case2 c rest begins =>
      obtain rfl := Option.some.inj closes
      obtain ⟨more, split⟩ := List.isPrefixOf_iff_prefix.mp begins
      rw [← split]
      rfl
  | case3 c rest begins ih =>
      obtain ⟨m, later, rfl⟩ := Option.map_eq_some_iff.mp closes
      have still : ¬ fence.isPrefixOf (c :: rest.take m) = true := by
        intro begun
        rw [List.isPrefixOf_iff_prefix] at begins begun
        exact begins (begun.trans (List.prefix_cons_inj c |>.mpr (List.take_prefix m rest)))
      rw [List.take_succ_cons, throughFence?, if_neg still, ih later]
      rfl

theorem isPrefixOf_fence_of_append (unquoted : Byte.doubleQuote ∉ t)
    (begins : fence.isPrefixOf (s ++ t) = true) : fence.isPrefixOf s = true := by
  rw [List.isPrefixOf_iff_prefix] at begins ⊢
  refine (Text.prefix_append_iff fun b first among => ?_).mp begins
  have quote : b = Byte.doubleQuote := by simpa [fence] using among
  exact absurd (List.mem_of_mem_head? first) (quote ▸ unquoted)

theorem throughFence?_append_of_not_mem (unquoted : Byte.doubleQuote ∉ t)
    (stays : throughFence? s = none) : throughFence? (s ++ t) = none := by
  fun_induction throughFence? s with
  | case1 =>
      clear stays
      induction t with
      | nil => rfl
      | cons c t ih =>
          have plain : ¬ fence.isPrefixOf (c :: t) = true := by
            intro begins
            exact unquoted ((List.isPrefixOf_iff_prefix.mp begins).subset (by decide))
          rw [List.nil_append, throughFence?, if_neg plain]
          exact Option.map_eq_none_iff.mpr (ih fun member => unquoted (List.mem_cons_of_mem c member))
  | case2 => cases stays
  | case3 c rest begins ih =>
      have still : ¬ fence.isPrefixOf (c :: (rest ++ t)) = true :=
        fun begun => begins (isPrefixOf_fence_of_append unquoted begun)
      rw [List.cons_append, throughFence?, if_neg still, ih (Option.map_eq_none_iff.mp stays)]
      rfl

/-- A literal with sealed contents does not open with a fence, unless a quote follows it. -/
theorem fence_of_isSealed (sealed_ : isSealed Byte.doubleQuote s = true)
    (unfenced : t.head? ≠ some Byte.doubleQuote) :
    fence.isPrefixOf (Byte.doubleQuote :: (s ++ Byte.doubleQuote :: t).take 2) = false := by
  cases s with
  | nil =>
      cases t with
      | nil => rfl
      | cons b t =>
          have other : Byte.doubleQuote ≠ b := fun same => unfenced (congrArg some same.symm)
          simp [fence, List.isPrefixOf, beq_false_of_ne other]
  | cons b s =>
      have opens := head?_ne_of_isSealed sealed_ (by decide)
      have other : Byte.doubleQuote ≠ b := fun same => opens (congrArg some same.symm)
      simp [fence, List.isPrefixOf, beq_false_of_ne other]

theorem throughFence?_append_eq (stays : throughFence? s = none → Byte.doubleQuote ∉ t) :
    throughFence? (s ++ t) = throughFence? s := by
  cases closes : throughFence? s with
  | none => exact throughFence?_append_of_not_mem (stays closes) closes
  | some n => exact throughFence?_append closes

end QueryGate.Quoted
