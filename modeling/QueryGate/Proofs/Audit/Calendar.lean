import Mathlib.Tactic.IntervalCases
import QueryGate.Audit.Instant

/-! # The Gregorian calendar

The lengths of the months and of the years, the day after a date, and the number of days up to it. The date
that is computed for a day is the date with that number of days, so it moves from each day to the next as the
calendar does.
-/

namespace QueryGate.Audit

/-- Every fourth year, without the last of a century unless 400 divides it. -/
def isLeapYear (year : Int) : Bool := year % 4 == 0 && (year % 100 != 0 || year % 400 == 0)

def monthLength (year : Int) : Nat → Nat
  | 2 => if isLeapYear year then 29 else 28
  | 4 | 6 | 9 | 11 => 30
  | _ => 31

/-- The days of a year before a month. -/
def daysBeforeMonth (year : Int) : Nat → Nat
  | 0 | 1 => 0
  | month + 1 => daysBeforeMonth year month + monthLength year month

/-- The days from the start of the year 0 to the start of a year. -/
def daysBeforeYear (year : Int) : Int :=
  365 * year + (year - 1) / 4 - (year - 1) / 100 + (year - 1) / 400 + 1

namespace Date

structure IsValid (date : Date) : Prop where
  month : 1 ≤ date.month ∧ date.month ≤ 12
  day : 1 ≤ date.day ∧ date.day ≤ monthLength date.year date.month

instance (date : Date) : Decidable date.IsValid :=
  decidable_of_iff
    ((1 ≤ date.month ∧ date.month ≤ 12) ∧ 1 ≤ date.day ∧ date.day ≤ monthLength date.year date.month)
    ⟨fun ⟨month, day⟩ => ⟨month, day⟩, fun ⟨month, day⟩ => ⟨month, day⟩⟩

/-- The first date of 1970. -/
def epoch : Date := ⟨1970, 1, 1⟩

/-- The number of days from the start of 1970 to a date. -/
def days (date : Date) : Int :=
  daysBeforeYear date.year + daysBeforeMonth date.year date.month + date.day - 1 - daysBeforeYear 1970

/-- The date of the day after. -/
def next (date : Date) : Date :=
  if date.day < monthLength date.year date.month then ⟨date.year, date.month, date.day + 1⟩
  else if date.month < 12 then ⟨date.year, date.month + 1, 1⟩
  else ⟨date.year + 1, 1, 1⟩

/-- One date is earlier than another. -/
def Before (date later : Date) : Prop :=
  date.year < later.year ∨ date.year = later.year ∧
    (date.month < later.month ∨ date.month = later.month ∧ date.day < later.day)

end Date

/-! ## Months and years -/

theorem monthLength_bounds (year : Int) (month : Nat) :
    1 ≤ monthLength year month ∧ monthLength year month ≤ 31 := by
  unfold monthLength
  split
  · split <;> decide
  all_goals decide

theorem daysBeforeMonth_succ (year : Int) {month : Nat} (positive : 1 ≤ month) :
    daysBeforeMonth year (month + 1) = daysBeforeMonth year month + monthLength year month := by
  obtain ⟨month, rfl⟩ := Nat.exists_eq_succ_of_ne_zero (Nat.ne_of_gt positive)
  rfl

theorem daysBeforeMonth_add_le (year : Int) {month later : Nat} (positive : 1 ≤ month) (earlier : month < later) :
    daysBeforeMonth year month + monthLength year month ≤ daysBeforeMonth year later := by
  induction later, earlier using Nat.le_induction with
  | base => exact (daysBeforeMonth_succ year positive).ge
  | succ later earlier ih =>
      rw [daysBeforeMonth_succ year (Nat.one_le_of_lt earlier)]
      exact Nat.le_add_right_of_le ih

theorem daysBeforeYear_succ (year : Int) :
    daysBeforeYear (year + 1) = daysBeforeYear year + daysBeforeMonth year 13 := by
  have twelve : daysBeforeMonth year 13 = if isLeapYear year then 366 else 365 := by
    simp only [daysBeforeMonth, monthLength]
    split <;> rfl
  rw [twelve]
  simp only [daysBeforeYear, isLeapYear, Bool.and_eq_true, Bool.or_eq_true, beq_iff_eq, bne_iff_ne]
  split <;> omega

theorem daysBeforeYear_le {year later : Int} (earlier : year ≤ later) :
    daysBeforeYear year ≤ daysBeforeYear later := by
  unfold daysBeforeYear
  omega

namespace Date

variable {date later : Date}

/-! ## Counting days -/

theorem days_epoch : epoch.days = 0 := by decide

theorem isValid_next (valid : date.IsValid) : date.next.IsValid := by
  obtain ⟨month, day⟩ := valid
  unfold next
  split
  · next inside => exact ⟨month, Nat.le_add_left 1 _, inside⟩
  · split
    · next earlier => exact ⟨⟨Nat.le_add_left 1 _, earlier⟩, le_refl 1, (monthLength_bounds _ _).1⟩
    · exact ⟨⟨le_refl 1, Nat.one_le_ofNat⟩, le_refl 1, (monthLength_bounds _ _).1⟩

theorem days_next (valid : date.IsValid) : date.next.days = date.days + 1 := by
  obtain ⟨month, day⟩ := valid
  unfold next
  split
  · simp only [days]
    omega
  · next last =>
    have full : date.day = monthLength date.year date.month := by omega
    have later := daysBeforeMonth_succ date.year month.1
    split
    · simp only [days]
      omega
    · next december =>
      have twelve : date.month = 12 := by omega
      have year := daysBeforeYear_succ date.year
      rw [twelve] at later full
      simp only [days, daysBeforeMonth, twelve] at *
      omega

theorem days_bounds (valid : date.IsValid) :
    daysBeforeYear date.year ≤ date.days + daysBeforeYear 1970 ∧
      date.days + daysBeforeYear 1970 < daysBeforeYear (date.year + 1) := by
  have within : _ ≤ daysBeforeMonth date.year 13 :=
    daysBeforeMonth_add_le date.year valid.month.1 (Nat.lt_succ_of_le valid.month.2)
  have year := daysBeforeYear_succ date.year
  have day := valid.day
  simp only [days]
  omega

theorem days_lt_of_before (valid : date.IsValid) (valid' : later.IsValid) (before : date.Before later) :
    date.days < later.days := by
  rcases before with year | ⟨year, month | ⟨month, day⟩⟩
  · have start := daysBeforeYear_le (Int.add_one_le_of_lt year)
    have one := days_bounds valid
    have other := days_bounds valid'
    omega
  · have start := daysBeforeMonth_add_le date.year valid.month.1 month
    have one := valid.day
    have other := valid'.day
    simp only [days, ← year]
    omega
  · simp only [days, ← year, ← month]
    omega

theorem before_trichotomy (date later : Date) : date.Before later ∨ date = later ∨ later.Before date := by
  obtain ⟨year, month, day⟩ := date
  obtain ⟨year', month', day'⟩ := later
  simp only [Before, mk.injEq]
  omega

theorem before_of_days_lt (valid : date.IsValid) (valid' : later.IsValid) (less : date.days < later.days) :
    date.Before later := by
  obtain before | rfl | after := before_trichotomy date later
  · exact before
  · exact absurd less (lt_irrefl _)
  · exact absurd less (lt_asymm (days_lt_of_before valid' valid after))

theorem eq_of_days_eq (valid : date.IsValid) (valid' : later.IsValid) (same : date.days = later.days) :
    date = later := by
  obtain before | equal | after := before_trichotomy date later
  · exact absurd same (ne_of_lt (days_lt_of_before valid valid' before))
  · exact equal
  · exact absurd same (ne_of_gt (days_lt_of_before valid' valid after))

/-! ## The date of a day -/

/-- The date of a day, counted from the start of March of a year. -/
def ofMarch (year : Int) (day : Nat) : Date :=
  let monthFromMarch := (5 * day + 2) / 153
  let month := if monthFromMarch < 10 then monthFromMarch + 3 else monthFromMarch - 9
  ⟨year + (if month ≤ 2 then 1 else 0), month, day - (153 * monthFromMarch + 2) / 5 + 1⟩

/-- The months from March begin where the division by 153 says. -/
theorem daysBeforeMonth_march (year : Int) {month : Nat} (upTo : month ≤ 10) :
    daysBeforeMonth year (month + 3) = daysBeforeMonth year 3 + (153 * month + 2) / 5 := by
  interval_cases month <;> rfl

theorem monthLength_march (year : Int) {month : Nat} (early : month < 10) :
    monthLength year (month + 3) = (153 * (month + 1) + 2) / 5 - (153 * month + 2) / 5 := by
  have start := daysBeforeMonth_march year early.le
  have nextStart : daysBeforeMonth year (month + 3 + 1) = daysBeforeMonth year 3 + (153 * (month + 1) + 2) / 5 :=
    daysBeforeMonth_march year early
  have length := daysBeforeMonth_succ year (show 1 ≤ month + 3 by omega)
  omega

theorem ofMarch_cases (year : Int) {day : Nat} (within : day ≤ 365) :
    (∃ month < 10, (153 * month + 2) / 5 ≤ day ∧ day < (153 * (month + 1) + 2) / 5 ∧
      ofMarch year day = ⟨year, month + 3, day - (153 * month + 2) / 5 + 1⟩) ∨
    (306 ≤ day ∧ day < 337 ∧ ofMarch year day = ⟨year + 1, 1, day - 306 + 1⟩) ∨
    (337 ≤ day ∧ ofMarch year day = ⟨year + 1, 2, day - 337 + 1⟩) := by
  obtain ⟨month, defined⟩ : ∃ month, (5 * day + 2) / 153 = month := ⟨_, rfl⟩
  rw [ofMarch, defined]
  obtain early | rfl | rfl : month < 10 ∨ month = 10 ∨ month = 11 := by omega
  · refine .inl ⟨month, early, by omega, by omega, ?_⟩
    simp only [if_pos early]
    rw [if_neg (by omega), Int.add_zero]
  · exact .inr (.inl ⟨by omega, by omega, rfl⟩)
  · exact .inr (.inr ⟨by omega, rfl⟩)

theorem ofMarch_spec {year : Int} {day : Nat} (within : day ≤ 365)
    (leap : day = 365 → isLeapYear (year + 1) = true) :
    (ofMarch year day).IsValid ∧
      (ofMarch year day).days = daysBeforeYear (year + 1) - 306 + day - daysBeforeYear 1970 := by
  have nextYear := daysBeforeYear_succ year
  have december : daysBeforeMonth year 13 = daysBeforeMonth year 3 + 306 :=
    daysBeforeMonth_march year (le_refl 10)
  obtain ⟨month, early, begun, unfinished, date⟩ | ⟨begun, unfinished, date⟩ | ⟨begun, date⟩ :=
    ofMarch_cases year within
  all_goals rw [date]
  · have start := daysBeforeMonth_march year early.le
    have length := monthLength_march year early
    refine ⟨⟨⟨Nat.le_add_left 1 _, Nat.add_le_add_right (Nat.le_of_lt_succ early) 3⟩, Nat.le_add_left 1 _, ?_⟩, ?_⟩
    · show day - (153 * month + 2) / 5 + 1 ≤ monthLength year (month + 3)
      omega
    · simp only [days]
      omega
  · have start : daysBeforeMonth (year + 1) 1 = 0 := rfl
    refine ⟨⟨⟨le_refl 1, Nat.one_le_ofNat⟩, Nat.le_add_left 1 _, ?_⟩, ?_⟩
    · show day - 306 + 1 ≤ 31
      omega
    · simp only [days]
      omega
  · have start : daysBeforeMonth (year + 1) 2 = 31 := rfl
    have february : monthLength (year + 1) 2 = if isLeapYear (year + 1) then 29 else 28 := rfl
    refine ⟨⟨⟨one_le_two, Nat.le_of_ble_eq_true rfl⟩, Nat.le_add_left 1 _, ?_⟩, ?_⟩
    · show day - 337 + 1 ≤ monthLength (year + 1) 2
      split at february
      · omega
      · next short =>
        have last : day ≠ 365 := mt leap short
        omega
    · simp only [days]
      omega

/-- The place of a day in the 400 years. Only the last of four years can have a 366th day, and the last year of
a century has it only in the last century. -/
structure InEra (day century olympiad year dayOfYear : Nat) : Prop where
  century_lt : century < 4
  olympiad_lt : olympiad < 25
  year_lt : year < 4
  dayOfYear_le : dayOfYear ≤ 365
  split : day = 36524 * century + 1461 * olympiad + 365 * year + dayOfYear
  leap : dayOfYear = 365 → year = 3 ∧ (olympiad < 24 ∨ century = 3)

theorem exists_inEra {day : Nat} (within : day < 146097) :
    ∃ century olympiad year dayOfYear, InEra day century olympiad year dayOfYear := by
  obtain ⟨century, rest, four, short, rfl, last⟩ : ∃ century rest, century < 4 ∧ rest ≤ 36524 ∧
      day = 36524 * century + rest ∧ (rest = 36524 → century = 3) := by
    by_cases final : day = 146096
    · exact ⟨3, 36524, by omega⟩
    · exact ⟨day / 36524, day % 36524, by omega⟩
  obtain ⟨olympiad, rest, many, short, rfl⟩ :
      ∃ olympiad rest', olympiad < 25 ∧ rest' < 1461 ∧ rest = 1461 * olympiad + rest' :=
    ⟨rest / 1461, rest % 1461, by omega⟩
  by_cases final : rest = 1460
  · exact ⟨century, olympiad, 3, 365, by constructor <;> omega⟩
  · exact ⟨century, olympiad, rest / 365, rest % 365, by constructor <;> omega⟩

namespace InEra

variable {day century olympiad year dayOfYear : Nat} (place : InEra day century olympiad year dayOfYear)

include place

/-- The divisions by 1460, 36524 and 146096 leave 365 days to every year. -/
theorem yearOfEra_eq :
    (day - day / 1460 + day / 36524 - day / 146096) / 365 = 100 * century + 4 * olympiad + year := by
  obtain ⟨four, many, inside, short, split, leap⟩ := place
  have centuries : day / 36524 - day / 146096 = century ∧ day / 146096 ≤ day / 36524 := by omega
  have olympiads : day - day / 1460 = 36500 * century + 1460 * olympiad + 365 * year - century + dayOfYear -
      (24 * century + olympiad + 365 * year + dayOfYear) / 1460 := by
    omega
  have carry : (24 * century + olympiad + 365 * year + dayOfYear) / 1460 = 0 ∨
      (24 * century + olympiad + 365 * year + dayOfYear) / 1460 = 1 ∧ 1 ≤ dayOfYear := by
    omega
  omega

theorem dayOfYear_eq :
    day - (365 * (100 * century + 4 * olympiad + year) + (100 * century + 4 * olympiad + year) / 4 -
      (100 * century + 4 * olympiad + year) / 100) = dayOfYear := by
  obtain ⟨four, many, inside, -, split, -⟩ := place
  have fours : (100 * century + 4 * olympiad + year) / 4 = 25 * century + olympiad := by omega
  have hundreds : (100 * century + 4 * olympiad + year) / 100 = century := by omega
  omega

theorem isLeapYear_of_last (era : Int) (last : dayOfYear = 365) :
    isLeapYear ((100 * century + 4 * olympiad + year : Nat) + era * 400 + 1) = true := by
  obtain ⟨four, many, -, -, -, leap⟩ := place
  obtain ⟨rfl, ends⟩ := leap last
  simp only [isLeapYear, Bool.and_eq_true, Bool.or_eq_true, beq_iff_eq, bne_iff_ne]
  omega

theorem daysBeforeYear_eq (era : Int) :
    daysBeforeYear ((100 * century + 4 * olympiad + year : Nat) + era * 400 + 1) =
      146097 * era + day - dayOfYear + 366 := by
  obtain ⟨four, many, inside, -, split, -⟩ := place
  simp only [daysBeforeYear, Int.add_sub_cancel]
  omega

theorem ofDays_eq {days era : Int} (shifted : days + 719468 = 146097 * era + day) (within : day < 146097) :
    ofDays days = ofMarch ((100 * century + 4 * olympiad + year : Nat) + era * 400) dayOfYear := by
  have quotient : (days + 719468).fdiv 146097 = era := by
    rw [Int.fdiv_eq_ediv_of_nonneg _ (by decide)]
    omega
  have remainder : ((days + 719468).fmod 146097).toNat = day := by
    rw [Int.fmod_eq_emod_of_nonneg _ (by decide)]
    omega
  simp only [ofDays, quotient, remainder, place.yearOfEra_eq, place.dayOfYear_eq, ofMarch]

end InEra

theorem ofDays_spec (day : Int) : (ofDays day).IsValid ∧ (ofDays day).days = day := by
  obtain ⟨era, dayOfEra, within, shifted⟩ : ∃ (era : Int) (dayOfEra : Nat), dayOfEra < 146097 ∧
      day + 719468 = 146097 * era + dayOfEra :=
    ⟨(day + 719468) / 146097, ((day + 719468) % 146097).toNat, by omega, by omega⟩
  obtain ⟨century, olympiad, year, dayOfYear, place⟩ := exists_inEra within
  obtain ⟨valid, days⟩ := ofMarch_spec place.dayOfYear_le (place.isLeapYear_of_last era)
  have start : daysBeforeYear 1970 = 719528 := by decide
  rw [place.ofDays_eq shifted within]
  refine ⟨valid, days.trans ?_⟩
  rw [place.daysBeforeYear_eq, start]
  omega

theorem ofDays_days {date : Date} (valid : date.IsValid) : ofDays date.days = date :=
  eq_of_days_eq (ofDays_spec date.days).1 valid (ofDays_spec date.days).2

/-- The day after has the date after, by the lengths of the months. -/
theorem ofDays_succ (day : Int) : ofDays (day + 1) = (ofDays day).next := by
  obtain ⟨valid, days⟩ := ofDays_spec day
  rw [← ofDays_days (isValid_next valid), days_next valid, days]

/-- The calendar is followed day by day from the first of 1970. -/
theorem ofDays_eq_iterate_next (days : Nat) : ofDays days = next^[days] epoch := by
  induction days with
  | zero =>
      rw [Nat.cast_zero, ← days_epoch]
      exact ofDays_days (by decide)
  | succ days ih => rw [Nat.cast_succ, ofDays_succ, ih, Function.iterate_succ_apply']

end Date

end QueryGate.Audit
