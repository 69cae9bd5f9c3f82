import QueryGate.Proofs.Audit.Calendar
import QueryGate.Proofs.Audit.Layout
import QueryGate.Proofs.Audit.Members

/-! # The time in a line

A time from 1970 on is written with a fixed layout, as a date of the Gregorian calendar and the time of its
day. The time is read back to the millisecond, and later times are later in the order of texts, as long as
the years have four digits.
-/

namespace QueryGate.Audit

/-! ## Moments of the calendar -/

/-- A date and a time of its day, to the millisecond. -/
structure Moment where
  date : Date
  hour : Nat
  minute : Nat
  second : Nat
  millisecond : Nat
  deriving Repr, DecidableEq

namespace Moment

structure IsValid (moment : Moment) : Prop where
  date : moment.date.IsValid
  hour : moment.hour < 24
  minute : moment.minute < 60
  second : moment.second < 60
  millisecond : moment.millisecond < 1000

instance (moment : Moment) : Decidable moment.IsValid :=
  decidable_of_iff
    (moment.date.IsValid ∧ moment.hour < 24 ∧ moment.minute < 60 ∧ moment.second < 60 ∧ moment.millisecond < 1000)
    ⟨fun ⟨date, hour, minute, second, millisecond⟩ => ⟨date, hour, minute, second, millisecond⟩,
      fun ⟨date, hour, minute, second, millisecond⟩ => ⟨date, hour, minute, second, millisecond⟩⟩

/-- The milliseconds from the start of 1970, of which every day has equally many. -/
def milliseconds (moment : Moment) : Int :=
  (((moment.date.days * 24 + moment.hour) * 60 + moment.minute) * 60 + moment.second) * 1000 + moment.millisecond

/-- The moment so many milliseconds from the start of 1970. -/
def ofMilliseconds (ms : Int) : Moment where
  date := Date.ofDays (ms / 86400000)
  hour := (ms / 3600000 % 24).toNat
  minute := (ms / 60000 % 60).toNat
  second := (ms / 1000 % 60).toNat
  millisecond := (ms % 1000).toNat

/-- The numbers of a moment, in a year that is not negative. -/
def numbers (moment : Moment) : List Nat :=
  [moment.date.year.toNat, moment.date.month, moment.date.day, moment.hour, moment.minute, moment.second,
    moment.millisecond]

def ofNumbers? : List Nat → Option Moment
  | [year, month, day, hour, minute, second, millisecond] =>
      let moment : Moment := ⟨⟨year, month, day⟩, hour, minute, second, millisecond⟩
      if moment.IsValid then some moment else none
  | _ => none

variable {moment later : Moment} {ms : Int}

theorem isValid_ofMilliseconds (ms : Int) : (ofMilliseconds ms).IsValid where
  date := (Date.ofDays_spec _).1
  hour := by simp only [ofMilliseconds]; omega
  minute := by simp only [ofMilliseconds]; omega
  second := by simp only [ofMilliseconds]; omega
  millisecond := by simp only [ofMilliseconds]; omega

theorem milliseconds_ofMilliseconds (ms : Int) : (ofMilliseconds ms).milliseconds = ms := by
  simp only [milliseconds, ofMilliseconds, (Date.ofDays_spec _).2]
  omega

theorem ofNumbers?_numbers (valid : moment.IsValid) (positive : 0 ≤ moment.date.year) :
    ofNumbers? moment.numbers = some moment := by
  obtain ⟨⟨year, month, day⟩, hour, minute, second, millisecond⟩ := moment
  simp only [numbers, ofNumbers?, Int.toNat_of_nonneg positive, if_pos valid]

theorem year_ofMilliseconds (start : 0 ≤ ms) (before : ms < 253402300800000) :
    1970 ≤ (ofMilliseconds ms).date.year ∧ (ofMilliseconds ms).date.year < 10000 := by
  obtain ⟨valid, days⟩ := Date.ofDays_spec (ms / 86400000)
  obtain ⟨least, greatest⟩ := Date.days_bounds valid
  rw [days] at least greatest
  have first : daysBeforeYear 1970 = 719528 := by decide
  have last : daysBeforeYear 10000 = 3652425 := by decide
  constructor
  · by_contra! early
    have upTo := daysBeforeYear_le (Int.add_one_le_of_lt early)
    simp only [ofMilliseconds] at upTo
    omega
  · by_contra! late
    have upTo := daysBeforeYear_le late
    simp only [ofMilliseconds] at upTo
    omega

theorem numbers_lt (valid : moment.IsValid) (valid' : later.IsValid) (positive : 0 ≤ moment.date.year)
    (positive' : 0 ≤ later.date.year) (less : moment.milliseconds < later.milliseconds) :
    moment.numbers < later.numbers := by
  obtain ⟨date, hour, minute, second, millisecond⟩ := valid
  obtain ⟨date', hour', minute', second', millisecond'⟩ := valid'
  simp only [milliseconds] at less
  simp only [numbers, List.cons_lt_cons_iff, List.lt_irrefl, and_false, or_false]
  obtain earlier | same | after := lt_trichotomy moment.date.days later.date.days
  · have before := Date.before_of_days_lt date date' earlier
    simp only [Date.Before] at before
    omega
  · rw [Date.eq_of_days_eq date date' same] at less ⊢
    omega
  · omega

end Moment

/-! ## The text of a time -/

/-- The numbers of a text and the bytes behind them. -/
def timestampLayout : Layout :=
  [(4, Byte.minus), (2, Byte.minus), (2, 0x54), (2, Byte.colon), (2, Byte.colon), (2, Byte.dot), (3, 0x5A)]

/-- The milliseconds from the start of 1970 to the time that a text says. -/
def readTimestamp? (stamp : Text) : Option Int :=
  (timestampLayout.read? stamp).bind fun numbers => (Moment.ofNumbers? numbers).map Moment.milliseconds

section Written

variable {moment : Moment}

theorem fits_numbers (valid : moment.IsValid) (short : moment.date.year < 10000) :
    timestampLayout.Fits moment.numbers := by
  obtain ⟨⟨month, day⟩, hour, minute, second, millisecond⟩ := valid
  have longest := (monthLength_bounds moment.date.year moment.date.month).2
  simp only [Layout.Fits, timestampLayout, Moment.numbers, List.forall₂_cons, List.Forall₂.nil, and_true]
  omega

theorem follows_timestamp (valid : moment.IsValid) (short : moment.date.year < 10000) :
    Follows (ascii "YYYY-MM-DDThh:mm:ss.mmmZ") (timestampLayout.render moment.numbers) := by
  have form : ascii "YYYY-MM-DDThh:mm:ss.mmmZ" = timestampLayout.form (ascii "YMDhmsm") := rfl
  rw [form]
  exact Layout.follows_render (fits_numbers valid short) (by decide)

theorem readTimestamp?_render (valid : moment.IsValid) (positive : 0 ≤ moment.date.year)
    (short : moment.date.year < 10000) :
    readTimestamp? (timestampLayout.render moment.numbers) = some moment.milliseconds := by
  rw [readTimestamp?, Layout.read?_render (fits_numbers valid short), Option.bind_some,
    Moment.ofNumbers?_numbers valid positive, Option.map_some]

end Written

/-- The first millisecond that the nanoseconds of the clock do not reach, in the year 2262. -/
def clockEnd : Int := Int64.maxValue.toInt / 1000000 + 1

section Clock

variable {ms later : Int}

theorem toInt_ofMilliseconds (start : 0 ≤ ms) (held : ms < clockEnd) :
    (Instant.ofMilliseconds ms).nanoseconds.toInt = ms * 1000000 := by
  have size : (Int64.size : Int) = 18446744073709551616 := rfl
  have last : clockEnd = 9223372036855 := rfl
  rw [Instant.ofMilliseconds, Int64.toInt_ofInt]
  exact Int.bmod_eq_of_le (by omega) (by omega)

/-- From 1970 on, truncation and rounding down are the same. -/
theorem seconds_ofMilliseconds (start : 0 ≤ ms) (held : ms < clockEnd) :
    (Instant.ofMilliseconds ms).seconds = ms / 1000 ∧ (Instant.ofMilliseconds ms).milliseconds = ms % 1000 := by
  have nanoseconds := toInt_ofMilliseconds start held
  have seconds : (Instant.ofMilliseconds ms).seconds = ms / 1000 := by
    rw [Instant.seconds, nanoseconds, Int.tdiv_eq_ediv_of_nonneg (by omega)]
    omega
  refine ⟨seconds, ?_⟩
  rw [Instant.milliseconds, seconds, nanoseconds, Int.tdiv_eq_ediv_of_nonneg (by omega)]
  omega

theorem signedDecimal_of_nonneg {n : Int} (positive : 0 ≤ n) : Text.signedDecimal n = Text.decimal n.toNat := by
  rw [Text.signedDecimal, if_neg (by omega), show n.natAbs = n.toNat by omega]

theorem text_ofMilliseconds (start : 0 ≤ ms) (held : ms < clockEnd) :
    (Instant.ofMilliseconds ms).text = timestampLayout.render (Moment.ofMilliseconds ms).numbers := by
  obtain ⟨seconds, milliseconds⟩ := seconds_ofMilliseconds start held
  have year : 0 ≤ (Date.ofDays (ms / 86400000)).year :=
    Int.le_trans (by decide) (Moment.year_ofMilliseconds start (held.trans (by decide))).1
  have date : (ms / 1000).fdiv 86400 = ms / 86400000 := by
    rw [Int.fdiv_eq_ediv_of_nonneg _ (by decide)]
    omega
  have ofDay : (ms / 1000).fmod 86400 = ms / 1000 % 86400 := Int.fmod_eq_emod_of_nonneg _ (by decide)
  have hour : (ms / 1000 % 86400).toNat / 3600 = (ms / 3600000 % 24).toNat := by omega
  have minute : (ms / 1000 % 86400).toNat / 60 % 60 = (ms / 60000 % 60).toNat := by omega
  have second : (ms / 1000 % 86400).toNat % 60 = (ms / 1000 % 60).toNat := by omega
  simp only [Instant.text, seconds, milliseconds, date, ofDay, hour, minute, second, signedDecimal_of_nonneg year,
    signedDecimal_of_nonneg (Int.emod_nonneg ms (by decide : (1000 : Int) ≠ 0)), timestampLayout, Moment.numbers,
    Moment.ofMilliseconds, Layout.render, List.append_assoc, List.cons_append]
  rfl

theorem text_lt (start : 0 ≤ ms) (after : ms < later) (held : later < clockEnd) :
    (Instant.ofMilliseconds ms).text < (Instant.ofMilliseconds later).text := by
  have years := Moment.year_ofMilliseconds start ((after.trans held).trans (by decide))
  have years' := Moment.year_ofMilliseconds (start.trans after.le) (held.trans (by decide))
  have valid := Moment.isValid_ofMilliseconds ms
  have valid' := Moment.isValid_ofMilliseconds later
  rw [text_ofMilliseconds start (after.trans held), text_ofMilliseconds (start.trans after.le) held]
  refine Layout.render_lt (fits_numbers valid years.2) (fits_numbers valid' years'.2) ?_
  refine Moment.numbers_lt valid valid' (by omega) (by omega) ?_
  rwa [Moment.milliseconds_ofMilliseconds, Moment.milliseconds_ofMilliseconds]

end Clock

/-! ## The times of lines -/

/-- A line shows a time of the form, and it is the given one. -/
structure Faithful (line : Text) (ms : Int) (stamp : Text) : Prop where
  shows : Shows line (ascii "timestamp") stamp stamp
  form : Follows (ascii "YYYY-MM-DDThh:mm:ss.mmmZ") stamp
  length : stamp.length = 24
  reads : readTimestamp? stamp = some ms

/-- Every line of a time from 1970 to the end of the clock shows that time, in a text that comes before those
of all later times. -/
theorem timestamp_faithful {query line : Text} {ms : Int} (start : 0 ≤ ms) (held : ms < clockEnd)
    (recorded : Records query (.ofMilliseconds ms) line) :
    ∃ stamp, Faithful line ms stamp ∧
      ∀ {query' line' : Text} {later : Int} {stamp' : Text}, ms < later → later < clockEnd →
        Records query' (.ofMilliseconds later) line' → Shows line' (ascii "timestamp") stamp' stamp' →
        stamp < stamp' := by
  have years := Moment.year_ofMilliseconds start (held.trans (by decide))
  have valid := Moment.isValid_ofMilliseconds ms
  have text := text_ofMilliseconds start held
  have form := follows_timestamp valid years.2
  have reads := readTimestamp?_render valid (by omega) years.2
  refine ⟨(Instant.ofMilliseconds ms).text, ⟨shows_timestamp recorded, ?_, ?_, ?_⟩, ?_⟩
  · rwa [text]
  · rw [text]
    exact form.length_eq.symm
  · rw [text, reads, Moment.milliseconds_ofMilliseconds]
  · intro query' line' later stamp' after held' recorded' shows'
    rw [shows'.text_unique (shows_timestamp recorded')]
    exact text_lt start after held'

/-- The last millisecond of a leap day and the first of the next. -/
theorem timestamp_faithful_leapDay :
    let last : Acceptance := ⟨some .jql, [], [], .ofMilliseconds 951868799999, 0⟩
    let first : Acceptance := ⟨some .jql, [], [], .ofMilliseconds 951868800000, 0⟩
    ∃ stamp stamp', Faithful last.line 951868799999 stamp ∧ Faithful first.line 951868800000 stamp' ∧
      stamp < stamp' := by
  intro last first
  obtain ⟨stamp, faithful, sorted⟩ := timestamp_faithful (by decide) (by decide) (.accepted last)
  obtain ⟨stamp', faithful', -⟩ := timestamp_faithful (by decide) (by decide) (.accepted first)
  exact ⟨stamp, stamp', faithful, faithful', sorted (by decide) (by decide) (.accepted first) faithful'.shows⟩

/-- The nanoseconds of the first later millisecond wrap around, to a time before 1970. -/
theorem not_faithful_clockEnd :
    let entry : Acceptance := ⟨some .jql, [], [], .ofMilliseconds 9223372036855, 0⟩
    (0 : Int) ≤ 9223372036855 ∧ (9223372036855 : Int) < 253402300800000 ∧
      Shows entry.line (ascii "timestamp") (ascii "1677-09-21T00:12:44.-854Z")
        (ascii "1677-09-21T00:12:44.-854Z") ∧
      ∀ stamp, ¬ Faithful entry.line 9223372036855 stamp := by
  intro entry
  have text : entry.time.text = ascii "1677-09-21T00:12:44.-854Z" := by decide +kernel
  have shows := shows_timestamp (.accepted entry)
  refine ⟨by decide, by decide, text ▸ shows, fun stamp faithful => ?_⟩
  have length := faithful.length
  rw [faithful.shows.text_unique shows, text] at length
  exact absurd length (by decide)

end QueryGate.Audit
