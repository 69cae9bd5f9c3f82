import Mathlib.Data.List.DropRight
import QueryGate.Proofs.Nesting.Reading

/-! # The division of a text, region by region

The check follows a text byte by byte. Here is what it finds: code, and regions from a quote to the next
one of its kind, where no quote counts behind an odd run of backslashes. Every text is divided so, and in
one way only.
-/

namespace QueryGate.Nesting

/-- An odd run of backslashes stands at the end of a text. -/
def oddRun (before : Text) : Bool := (before.rtakeWhile (· == Byte.backslash)).length % 2 == 1

theorem escapedAfter_eq_oddRun (before : Text) : escapedAfter before = oddRun before := by
  induction before using List.reverseRecOn with
  | nil => rfl
  | append_singleton before b ih =>
      rw [escapedAfter_append, ih]
      by_cases slash : b = Byte.backslash
      · subst slash
        have longer : (before ++ [Byte.backslash]).rtakeWhile (· == Byte.backslash) =
            before.rtakeWhile (· == Byte.backslash) ++ [Byte.backslash] :=
          List.rtakeWhile_concat_pos _ _ _ (by simp)
        simp only [List.foldl_cons, List.foldl_nil, escapesNext, oddRun, longer, beq_self_eq_true,
          Bool.true_and, List.length_append, List.length_singleton]
        grind
      · have none_behind : (before ++ [b]).rtakeWhile (· == Byte.backslash) = [] :=
          List.rtakeWhile_concat_neg _ _ _ (by simp [slash])
        simp [oddRun, none_behind, escapesNext, slash]

/-- How many double quotes stand behind an even run of backslashes. -/
def evenQuotes (t : Text) : Nat :=
  (List.range t.length).countP fun i => t[i]? == some Byte.doubleQuote && !oddRun (t.take i)

theorem countQuotes_eq_evenQuotes (t : Text) : countQuotes t = evenQuotes t := by
  have from_here : ∀ before, quotesFrom (escapedAfter before) t =
      (List.range t.length).countP fun i =>
        t[i]? == some Byte.doubleQuote && !oddRun (before ++ t.take i) := by
    induction t with
    | nil => exact fun _ => rfl
    | cons b t ih =>
        intro before
        have past := ih (before ++ [b])
        rw [escapedAfter_append, List.foldl_cons, List.foldl_nil] at past
        rw [quotesFrom, past, List.length_cons, List.range_succ_eq_map, List.countP_cons,
          List.countP_map, Nat.add_comm]
        congr 1
        · refine List.countP_congr fun i _ => ?_
          simp
        · simp [escapedAfter_eq_oddRun]
  exact from_here []

/-- Behind `before`, no byte of `inner` closes a region of the quote. -/
def Hides (quote : UInt8) (before inner : Text) : Prop :=
  ∀ start, start ++ [quote] <+: inner → oddRun (before ++ start) = true

/-- What stands behind `before` is divided into code and regions, which any of the bytes `quotes` opens.
The bytes `idle` are left out of the code and open no region. -/
inductive Divides (quotes idle : Text) : (before t : Text) → Reading → Prop where
  | done {before} : Divides quotes idle before [] ⟨[], true⟩
  | code {before b rest code closed} (ordinary : b ∈ quotes ++ idle → oddRun before = true)
      (more : Divides quotes idle (before ++ [b]) rest ⟨code, closed⟩) :
      Divides quotes idle before (b :: rest) ⟨b :: code, closed⟩
  | region {before quote inner rest reading} (opens : quote ∈ quotes) (counts : oddRun before = false)
      (hidden : Hides quote (before ++ [quote]) inner)
      (closes : oddRun (before ++ quote :: inner) = false)
      (more : Divides quotes idle (before ++ quote :: (inner ++ [quote])) rest reading) :
      Divides quotes idle before (quote :: (inner ++ quote :: rest)) reading
  | openRegion {before quote inner} (opens : quote ∈ quotes) (counts : oddRun before = false)
      (hidden : Hides quote (before ++ [quote]) inner) :
      Divides quotes idle before (quote :: inner) ⟨[], false⟩
  | skip {before b rest reading} (idles : b ∈ idle) (counts : oddRun before = false)
      (more : Divides quotes idle (before ++ [b]) rest reading) :
      Divides quotes idle before (b :: rest) reading

section Regions

variable {quotes before inner rest t : Text} {quote : UInt8} {reading other : Reading}

theorem Hides.nil : Hides quote before [] := by
  intro start begins
  cases List.prefix_nil.mp begins |> List.append_eq_nil_iff.mp |>.2

theorem hides_cons {b : UInt8} :
    Hides quote before (b :: inner) ↔
      (b = quote → oddRun before = true) ∧ Hides quote (before ++ [b]) inner := by
  constructor
  · intro hidden
    refine ⟨?_, fun start begins => ?_⟩
    · rintro rfl
      simpa using hidden [] (by simp)
    · simpa using hidden (b :: start) (by simpa using begins)
  · rintro ⟨first, later⟩ start begins
    cases start with
    | nil =>
        obtain rfl : quote = b := by simpa using begins
        simpa using first rfl
    | cons c start =>
        rw [List.cons_append, List.cons_prefix_cons] at begins
        obtain ⟨rfl, begins⟩ := begins
        simpa using later start begins

theorem exists_closing (quote : UInt8) (before t : Text) :
    (∃ inner rest, t = inner ++ quote :: rest ∧ Hides quote before inner ∧
        oddRun (before ++ inner) = false) ∨ Hides quote before t := by
  induction t generalizing before with
  | nil => exact Or.inr .nil
  | cons b t ih =>
      by_cases closes : b = quote ∧ oddRun before = false
      · obtain ⟨rfl, counts⟩ := closes
        exact Or.inl ⟨[], t, rfl, .nil, by rwa [List.append_nil]⟩
      · have hidden : b = quote → oddRun before = true := by simpa using closes
        rcases ih (before ++ [b]) with ⟨inner, rest, rfl, more, counts⟩ | never
        · exact Or.inl ⟨b :: inner, rest, rfl, hides_cons.mpr ⟨hidden, more⟩, by simpa using counts⟩
        · exact Or.inr (hides_cons.mpr ⟨hidden, never⟩)

theorem escapesNext_oddRun (before : Text) (b : UInt8) :
    escapesNext (oddRun before) b = oddRun (before ++ [b]) := by
  rw [← escapedAfter_eq_oddRun, ← escapedAfter_eq_oddRun, escapedAfter_append]
  rfl

variable (quotes) in
theorem readFrom_hidden (hidden : Hides quote before inner) (rest : Text) :
    readFrom quotes (some quote) (oddRun before) (inner ++ rest) =
      readFrom quotes (some quote) (oddRun (before ++ inner)) rest := by
  induction inner generalizing before with
  | nil => simp
  | cons b inner ih =>
      obtain ⟨first, later⟩ := hides_cons.mp hidden
      have stays : ¬ (b = quote ∧ oddRun before = false) := by simpa using first
      rw [List.cons_append, readFrom]
      simp only [if_neg stays, escapesNext_oddRun, ih later, List.append_assoc, List.singleton_append]

variable (quotes) in
theorem readFrom_openRegion (hidden : Hides quote before inner) :
    readFrom quotes (some quote) (oddRun before) inner = ⟨[], false⟩ := by
  have all := readFrom_hidden quotes hidden []
  rw [List.append_nil] at all
  rw [all]
  rfl

variable (quotes) in
theorem readFrom_closing (hidden : Hides quote before inner) (closes : oddRun (before ++ inner) = false)
    (rest : Text) :
    readFrom quotes (some quote) (oddRun before) (inner ++ quote :: rest) =
      readFrom quotes none (oddRun (before ++ inner ++ [quote])) rest := by
  rw [readFrom_hidden quotes hidden, readFrom]
  simp only [closes, and_self, if_true, ← escapesNext_oddRun]

end Regions

section Division

variable {opening idle before t : Text} {reading : Reading}

/-- Every quote opens regions or is left out, and only a zero byte is left out. -/
structure Sorts (quotes opening idle : Text) : Prop where
  listed : ∀ b, b ∈ quotes ↔ b ∈ opening ++ idle
  visible : ∀ b ∈ opening, b ≠ 0
  zero : ∀ b ∈ idle, b = 0

theorem sorts_filter (quotes : Text) :
    Sorts quotes (quotes.filter (· ≠ 0)) (quotes.filter (· = 0)) where
  listed b := by
    by_cases zero : b = 0 <;> simp [zero]
  visible b member := by simpa using (List.mem_filter.mp member).2
  zero b member := by simpa using (List.mem_filter.mp member).2

theorem sorts_self {quotes : Text} (visible : 0 ∉ quotes) : Sorts quotes quotes [] where
  listed b := by simp
  visible b member := fun zero => visible (zero ▸ member)
  zero b member := by cases member

variable {quotes : Text} (sorts : Sorts quotes opening idle)

include sorts

theorem readFrom_of_divides (divides : Divides opening idle before t reading) :
    readFrom quotes none (oddRun before) t = reading := by
  induction divides with
  | done => rfl
  | @code before b rest code closed ordinary more ih =>
      have stays : ¬ (b ∈ quotes ∧ oddRun before = false) := by
        rw [sorts.listed]
        simpa using ordinary
      rw [readFrom]
      simp only [if_neg stays, escapesNext_oddRun, ih]
  | @region before quote inner rest reading opens counts hidden closes more ih =>
      have listed := (sorts.listed quote).mpr (List.mem_append_left _ opens)
      have ends : oddRun (before ++ [quote] ++ inner) = false := by simpa using closes
      rw [readFrom]
      simp only [if_pos (And.intro listed counts), regionOf_of_ne (sorts.visible quote opens),
        escapesNext_oddRun, readFrom_closing quotes hidden ends]
      simpa using ih
  | @openRegion before quote inner opens counts hidden =>
      have listed := (sorts.listed quote).mpr (List.mem_append_left _ opens)
      rw [readFrom]
      simp only [if_pos (And.intro listed counts), regionOf_of_ne (sorts.visible quote opens),
        escapesNext_oddRun, readFrom_openRegion quotes hidden]
  | @skip before b rest reading idles counts more ih =>
      have listed := (sorts.listed b).mpr (List.mem_append_right _ idles)
      obtain rfl := sorts.zero b idles
      rw [readFrom]
      simp only [if_pos (And.intro listed counts), escapesNext_oddRun]
      exact ih

omit sorts in
variable (opening idle) in
theorem exists_divides (before t : Text) : ∃ reading, Divides opening idle before t reading := by
  induction size : t.length using Nat.strongRecOn generalizing before t with
  | ind size ih =>
      subst size
      cases t with
      | nil => exact ⟨_, .done⟩
      | cons b rest =>
          by_cases ordinary : b ∈ opening ++ idle → oddRun before = true
          · obtain ⟨⟨code, closed⟩, more⟩ := ih rest.length (by simp) (before ++ [b]) rest rfl
            exact ⟨_, .code ordinary more⟩
          obtain ⟨listed, counts⟩ : b ∈ opening ++ idle ∧ oddRun before = false := by
            simpa using ordinary
          rcases List.mem_append.mp listed with opens | idles
          · rcases exists_closing b (before ++ [b]) rest with ⟨inner, rest, rfl, hidden, closes⟩ | never
            · obtain ⟨reading, more⟩ := ih rest.length (by simp; omega)
                (before ++ b :: (inner ++ [b])) rest rfl
              exact ⟨reading, .region opens counts hidden (by simpa using closes) more⟩
            · exact ⟨_, .openRegion opens counts never⟩
          · obtain ⟨reading, more⟩ := ih rest.length (by simp) (before ++ [b]) rest rfl
            exact ⟨reading, .skip idles counts more⟩

/-- A text has one division, and the check finds it. -/
theorem divides_iff : Divides opening idle [] t reading ↔ reading = read quotes t := by
  have found : ∀ {reading}, Divides opening idle [] t reading → reading = read quotes t :=
    fun divides => (readFrom_of_divides sorts divides).symm
  refine ⟨found, ?_⟩
  rintro rfl
  obtain ⟨reading, divides⟩ := exists_divides opening idle [] t
  exact found divides ▸ divides

end Division

end QueryGate.Nesting
