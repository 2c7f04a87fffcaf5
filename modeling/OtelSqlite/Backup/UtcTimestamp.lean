import OtelSqlite.Backup.Artifacts
import OtelSqlite.Lib.Calendar
import OtelSqlite.Lib.Numerals
import OtelSqlite.Model.Attribute

/-!
# Timestamps are UTC dates

`utc_timestamp` counts years from March, so that the leap day is the last of its year. Inside
an era of 400 years a day is split into centuries, groups of four years, years and days
(`Era`); the formula for the year of the era is read off this split. The result is the one
date and time of the second, and up to the year 9999 its text sorts like the second.
-/

namespace OtelSqlite.Backup

open OtelSqlite.Lib OtelSqlite.Lib.Calendar OtelSqlite.Model

variable {doe epochSecs : Nat}

section Fields

/-- The numbers that `utc_timestamp` formats. -/
structure UtcFields where
  year : Int
  month : Int
  day : Int
  hour : Int
  minute : Int
  second : Int
  deriving DecidableEq, Repr

def utcFields (epochSecs : Nat) : UtcFields :=
  let days : Int := (epochSecs / 86400 : Nat)
  let secondsInDay : Int := (epochSecs % 86400 : Nat)
  let z := days + 719468
  let era := (if z ≥ 0 then z else z - 146096).tdiv 146097
  let doe := z - era * 146097
  let yoe := (doe - doe.tdiv 1460 + doe.tdiv 36524 - doe.tdiv 146096).tdiv 365
  let year := yoe + era * 400
  let dayOfYear := doe - (365 * yoe + yoe.tdiv 4 - yoe.tdiv 100)
  let mp := (5 * dayOfYear + 2).tdiv 153
  let day := dayOfYear - (153 * mp + 2).tdiv 5 + 1
  let month := if mp < 10 then mp + 3 else mp - 9
  let year := if month ≤ 2 then year + 1 else year
  { year, month, day
    hour := secondsInDay.tdiv 3600
    minute := (secondsInDay.tmod 3600).tdiv 60
    second := secondsInDay.tmod 60 }

def UtcFields.render (fields : UtcFields) : String :=
  zeroPadded 4 fields.year ++ zeroPadded 2 fields.month ++ zeroPadded 2 fields.day ++ "T" ++
    zeroPadded 2 fields.hour ++ zeroPadded 2 fields.minute ++ zeroPadded 2 fields.second ++ "Z"

theorem utcTimestamp_eq_render (epochSecs : Nat) :
    utcTimestamp epochSecs = (utcFields epochSecs).render := by
  simp only [utcTimestamp, utcFields, UtcFields.render]

def fieldsOf (t : DateTime) : UtcFields :=
  ⟨t.year, t.month, t.day, t.hour, t.minute, t.second⟩

end Fields

section Era

/-- A day of an era: the century, the group of four years in it, the year in that and the day
in the year from March on. Only the last year of a group has a day 365, and the last group of
a century lacks it, except in the last century. -/
structure Era (doe : Nat) where
  century : Nat
  group : Nat
  yearOfGroup : Nat
  dayOfYear : Nat
  century_lt : century < 4
  group_lt : group < 25
  yearOfGroup_lt : yearOfGroup < 4
  dayOfYear_le : dayOfYear ≤ 365
  leap : dayOfYear = 365 → yearOfGroup = 3 ∧ (group < 24 ∨ century = 3)
  doe_eq : doe = 36524 * century + 1461 * group + 365 * yearOfGroup + dayOfYear

theorem exists_era (h : doe < 146097) : Nonempty (Era doe) := by
  -- the last day of the era belongs to its fourth century, and the last day of a group to its
  -- fourth year
  obtain ⟨century, rest, hcentury, hrest, hdoe⟩ : ∃ century rest, century < 4 ∧
      (rest < 36524 ∨ rest = 36524 ∧ century = 3) ∧ doe = 36524 * century + rest := by
    by_cases hlast : doe = 146096
    · exact ⟨3, 36524, by omega, by omega, by omega⟩
    · exact ⟨doe / 36524, doe % 36524, by omega, by omega, by omega⟩
  obtain ⟨year, day, hyear, hday, hrest'⟩ : ∃ year day, year < 4 ∧
      (day < 365 ∨ day = 365 ∧ year = 3) ∧ rest % 1461 = 365 * year + day := by
    by_cases hlast : rest % 1461 = 1460
    · exact ⟨3, 365, by omega, by omega, by omega⟩
    · exact ⟨rest % 1461 / 365, rest % 1461 % 365, by omega, by omega, by omega⟩
  exact ⟨⟨century, rest / 1461, year, day, hcentury, by omega, hyear, by omega, by omega,
    by omega⟩⟩

namespace Era

variable {doe : Nat} (e : Era doe)

def year : Nat := 100 * e.century + 4 * e.group + e.yearOfGroup

/-- Only the last day of the era is in a fifth century, which the correction takes back. -/
theorem century_eq : doe / 146096 ≤ doe / 36524 ∧ doe / 36524 - doe / 146096 = e.century := by
  obtain ⟨c, g, y, d, hc, hg, hy, hd, hleap, hdoe⟩ := e
  dsimp only
  by_cases hlast : doe = 146096
  · omega
  · have hlt : 1461 * g + 365 * y + d < 36524 := by omega
    have hcentury : doe / 36524 = c := by omega
    have hera : doe / 146096 = 0 := by omega
    omega

/-- The groups before the day, with the day's own one if it is behind its leap day. -/
theorem groups_eq :
    doe / 1460 = 25 * e.century + e.group ∧ e.dayOfYear < 365 ∨
      doe / 1460 = 25 * e.century + e.group + 1 ∧ 0 < e.dayOfYear := by
  obtain ⟨c, g, y, d, hc, hg, hy, hd, hleap, hdoe⟩ := e
  dsimp only
  by_cases hlast : 24 * c + g + 365 * y + d < 1460
  · left
    omega
  · right
    omega

/-- The formula for the year of the era. -/
theorem yoe_eq : (doe - doe / 1460 + doe / 36524 - doe / 146096) / 365 = e.year := by
  obtain ⟨hle, hcentury⟩ := e.century_eq
  have hgroups := e.groups_eq
  have hday := e.dayOfYear_le
  have hdoe := e.doe_eq
  rw [year]
  omega

/-- The formula for the day of the year. -/
theorem dayOfYear_eq : doe + e.year / 100 = 365 * e.year + e.year / 4 + e.dayOfYear := by
  have hcentury := e.century_lt
  have hgroup := e.group_lt
  have hyear := e.yearOfGroup_lt
  have hdoe := e.doe_eq
  rw [year]
  omega

/-- A day 365 belongs to a year that ends in a leap year. -/
theorem leap_iff (era : Nat) :
    e.dayOfYear < 365 ∨ e.dayOfYear = 365 ∧ isLeapYear (400 * era + e.year + 1) = true := by
  rcases Nat.lt_or_eq_of_le e.dayOfYear_le with hday | hday
  · exact .inl hday
  · obtain ⟨hyear, hgroup⟩ := e.leap hday
    have hlt := e.group_lt
    have hcentury := e.century_lt
    refine .inr ⟨hday, isLeapYear_iff.mpr ?_⟩
    rw [year, hyear]
    omega

/-- The days before the March year of the day, counted from the first of March of the year 0. -/
theorem daysBeforeYear_eq (era : Nat) :
    daysBeforeYear (400 * era + e.year + 1) + e.dayOfYear = 146097 * era + doe + 366 := by
  have hcentury := e.century_lt
  have hgroup := e.group_lt
  have hyear := e.yearOfGroup_lt
  have hdoe := e.doe_eq
  have hdays := Calendar.daysBeforeYear_eq (400 * era + e.year + 1)
  rw [year] at hdays ⊢
  omega

end Era

end Era

section Date

variable {n : Nat}

/-- The date `n` days behind the first of March of the year 0. -/
def civil (n : Nat) (e : Era (n % 146097)) : Date :=
  .ofMarch (400 * (n / 146097) + e.year) e.dayOfYear (e.leap_iff _)

theorem dayNumber_civil (e : Era (n % 146097)) : (civil n e).dayNumber = n + 60 := by
  have hdays := Date.dayNumber_ofMarch (e.leap_iff (n / 146097))
  have hyears := e.daysBeforeYear_eq (n / 146097)
  rw [civil]
  omega

theorem natCast_tdiv_of_eq {a : Int} (h : a = n) (b : Nat) : a.tdiv b = ((n / b : Nat) : Int) := by
  rw [h, Int.ofNat_tdiv]

theorem yoe_tdiv (e : Era doe) :
    ((doe : Int) - (doe : Int).tdiv 1460 + (doe : Int).tdiv 36524 - (doe : Int).tdiv 146096).tdiv
      365 = (e.year : Int) := by
  have hquarter : (doe : Int).tdiv 1460 = ((doe / 1460 : Nat) : Int) := natCast_tdiv_of_eq rfl 1460
  have hcentury : (doe : Int).tdiv 36524 = ((doe / 36524 : Nat) : Int) :=
    natCast_tdiv_of_eq rfl 36524
  have hera : (doe : Int).tdiv 146096 = ((doe / 146096 : Nat) : Int) :=
    natCast_tdiv_of_eq rfl 146096
  have hle := e.century_eq.1
  rw [hquarter, hcentury, hera, ← e.yoe_eq]
  refine natCast_tdiv_of_eq ?_ 365
  omega

theorem dayOfYear_tdiv (e : Era doe) :
    (doe : Int) - (365 * (e.year : Int) + (e.year : Int).tdiv 4 - (e.year : Int).tdiv 100) =
      (e.dayOfYear : Int) := by
  have hquarter : (e.year : Int).tdiv 4 = ((e.year / 4 : Nat) : Int) := natCast_tdiv_of_eq rfl 4
  have hcentury : (e.year : Int).tdiv 100 = ((e.year / 100 : Nat) : Int) :=
    natCast_tdiv_of_eq rfl 100
  have hday := e.dayOfYear_eq
  rw [hquarter, hcentury]
  omega

/-- The integer formulas give the date and the time of day. -/
theorem utcFields_eq (hn : n = epochSecs / 86400 + 719468) (e : Era (n % 146097)) :
    utcFields epochSecs =
      { year := (civil n e).year
        month := (civil n e).month
        day := (civil n e).day
        hour := (epochSecs % 86400 / 3600 : Nat)
        minute := (epochSecs % 86400 % 3600 / 60 : Nat)
        second := (epochSecs % 86400 % 60 : Nat) } := by
  have hz : ((epochSecs / 86400 : Nat) : Int) + 719468 = (n : Int) := by omega
  have hera : (if (n : Int) ≥ 0 then (n : Int) else (n : Int) - 146096).tdiv 146097 =
      ((n / 146097 : Nat) : Int) := by
    rw [if_pos (Int.natCast_nonneg n)]
    exact natCast_tdiv_of_eq rfl 146097
  have hdoe : (n : Int) - ((n / 146097 : Nat) : Int) * 146097 = ((n % 146097 : Nat) : Int) := by
    omega
  have hmonth : (5 * (e.dayOfYear : Int) + 2).tdiv 153 =
      (((5 * e.dayOfYear + 2) / 153 : Nat) : Int) :=
    natCast_tdiv_of_eq (by omega) 153
  simp only [utcFields, hz, hera, hdoe, yoe_tdiv e, dayOfYear_tdiv e, hmonth, civil, Date.ofMarch,
    UtcFields.mk.injEq]
  obtain ⟨hm, hle, -⟩ := month_of_march e.dayOfYear_le
  generalize (5 * e.dayOfYear + 2) / 153 = m at hm hle
  have hstart : (153 * (m : Int) + 2).tdiv 5 = (((153 * m + 2) / 5 : Nat) : Int) :=
    natCast_tdiv_of_eq (by omega) 5
  rw [hstart]
  refine ⟨?_, ?_, ?_, ?_, ?_, ?_⟩
  · split_ifs <;> omega
  · split_ifs <;> omega
  · omega
  · exact natCast_tdiv_of_eq rfl 3600
  · exact natCast_tdiv_of_eq (Int.ofNat_tmod _ _).symm 60
  · exact (Int.ofNat_tmod _ _).symm

/-- The date and time that `utc_timestamp` renders. -/
def utcDateTime (epochSecs : Nat) (e : Era ((epochSecs / 86400 + 719468) % 146097)) : DateTime where
  toDate := civil (epochSecs / 86400 + 719468) e
  hour := epochSecs % 86400 / 3600
  minute := epochSecs % 86400 % 3600 / 60
  second := epochSecs % 86400 % 60
  hour_lt := by omega
  minute_lt := by omega
  second_lt := by omega

theorem unixSecond_utcDateTime (epochSecs : Nat)
    (e : Era ((epochSecs / 86400 + 719468) % 146097)) :
    (utcDateTime epochSecs e).unixSecond = epochSecs := by
  have hday := dayNumber_civil e
  have hepoch := dayNumber_unixEpoch
  simp only [DateTime.unixSecond, DateTime.secondNumber, utcDateTime, hday, hepoch]
  simp only [unixEpoch]
  omega

/-- The fields are those of a date and time whose second is the given one. -/
theorem utcFields_correct (epochSecs : Nat) :
    ∃ t : DateTime, utcFields epochSecs = fieldsOf t ∧ t.unixSecond = epochSecs := by
  obtain ⟨e⟩ := exists_era (Nat.mod_lt (epochSecs / 86400 + 719468) (by decide : 0 < 146097))
  exact ⟨utcDateTime epochSecs e, utcFields_eq rfl e, unixSecond_utcDateTime epochSecs e⟩

end Date

section Text

variable {a b t : DateTime}

/-- A number that fits the width has its digits with leading zeros. -/
theorem zeroPadded_eq {width n : Nat} (h : n < 10 ^ (width + 1)) :
    zeroPadded (width + 1) n = String.ofList (decimal (width + 1) n) := by
  have htext : toString (n : Int) = String.ofList (Nat.toDigits 10 n) := rfl
  rw [zeroPadded, htext, String.length_ofList, ← String.ofList_append, replicate_append_toDigits h]

/-- `YYYYMMDDTHHMMSSZ`. -/
def stampText (t : DateTime) : List Char :=
  decimal 4 t.year ++ (decimal 2 t.month ++ (decimal 2 t.day ++ (['T'] ++
    (decimal 2 t.hour ++ (decimal 2 t.minute ++ (decimal 2 t.second ++ ['Z']))))))

theorem month_lt_hundred (d : Date) : d.month < 10 ^ 2 := by
  have hmonth := d.month_mem.2
  omega

theorem day_lt_hundred (d : Date) : d.day < 10 ^ 2 := by
  have hday := d.day_mem.2
  have hlength := monthLength_le d.year d.month
  omega

theorem hour_lt_hundred (t : DateTime) : t.hour < 10 ^ 2 := t.hour_lt.trans (by decide)

theorem minute_lt_hundred (t : DateTime) : t.minute < 10 ^ 2 := t.minute_lt.trans (by decide)

theorem second_lt_hundred (t : DateTime) : t.second < 10 ^ 2 := t.second_lt.trans (by decide)

theorem render_fieldsOf (h : t.year < 10 ^ 4) :
    (fieldsOf t).render = String.ofList (stampText t) := by
  simp only [UtcFields.render, fieldsOf, zeroPadded_eq h, zeroPadded_eq (month_lt_hundred t.toDate),
    zeroPadded_eq (day_lt_hundred t.toDate), zeroPadded_eq (hour_lt_hundred t),
    zeroPadded_eq (minute_lt_hundred t), zeroPadded_eq (second_lt_hundred t), stampText,
    String.ofList_append, String.append_assoc]

theorem length_stampText (t : DateTime) : (stampText t).length = 16 := by
  simp [stampText, length_decimal]

theorem ascii_stampText (t : DateTime) : ∀ c ∈ stampText t, c.toNat < 128 := by
  intro c hc
  simp only [stampText, List.mem_append, List.mem_singleton] at hc
  rcases hc with hc | hc | hc | rfl | hc | hc | hc | rfl
  any_goals exact ascii_of_mem_decimal hc
  · decide
  · decide

/-- Up to the year 9999 the texts compare as the dates and times do. -/
theorem stampText_lt_iff (ha : a.year < 10 ^ 4) (hb : b.year < 10 ^ 4) :
    stampText a < stampText b ↔ a.Before b := by
  rw [stampText, stampText, decimal_append_lt_iff ha hb,
    decimal_append_lt_iff (month_lt_hundred _) (month_lt_hundred _),
    decimal_append_lt_iff (day_lt_hundred _) (day_lt_hundred _), append_lt_append_iff rfl,
    decimal_append_lt_iff (hour_lt_hundred a) (hour_lt_hundred b),
    decimal_append_lt_iff (minute_lt_hundred a) (minute_lt_hundred b),
    decimal_append_lt_iff (second_lt_hundred a) (second_lt_hundred b)]
  simp only [List.lt_irrefl, and_false, or_false, false_or, true_and, DateTime.Before, Date.Before,
    Date.ext_iff]
  tauto

/-- The last second of the year 9999. -/
def endOfYear9999 : DateTime where
  year := 9999
  month := 12
  day := 31
  month_mem := by decide
  day_mem := by decide
  hour := 23
  minute := 59
  second := 59
  hour_lt := by decide
  minute_lt := by decide
  second_lt := by decide

theorem year_lt_of_unixSecond_le (h : t.unixSecond ≤ endOfYear9999.unixSecond) :
    t.year < 10 ^ 4 := by
  by_contra hyear
  have hbefore : endOfYear9999.Before t := .inl (.inl (Nat.lt_of_not_le fun hle => hyear
    (Nat.lt_succ_of_le hle)))
  exact absurd (DateTime.unixSecond_lt_iff.mpr hbefore) (Int.not_lt.mpr h)

/-- The text and its date and time, up to the year 9999. -/
theorem utcTimestamp_eq_stampText (h : (epochSecs : Int) ≤ endOfYear9999.unixSecond) :
    ∃ t : DateTime, t.year < 10 ^ 4 ∧ utcTimestamp epochSecs = String.ofList (stampText t) ∧
      t.unixSecond = epochSecs := by
  obtain ⟨t, hfields, hsecond⟩ := utcFields_correct epochSecs
  have hyear : t.year < 10 ^ 4 := year_lt_of_unixSecond_le (hsecond.trans_le h)
  refine ⟨t, hyear, ?_, hsecond⟩
  rw [utcTimestamp_eq_render, hfields, render_fieldsOf hyear]

theorem utf8_utcTimestamp (h : (epochSecs : Int) ≤ endOfYear9999.unixSecond) :
    ∃ t : DateTime, t.year < 10 ^ 4 ∧
      utf8 (utcTimestamp epochSecs) = (stampText t).map asciiByte ∧ t.unixSecond = epochSecs := by
  obtain ⟨t, hyear, htext, hsecond⟩ := utcTimestamp_eq_stampText h
  refine ⟨t, hyear, ?_, hsecond⟩
  rw [utf8, htext, bytes_ofList_of_ascii (ascii_stampText t)]

/-- Up to the year 9999 the texts have one length and sort like the seconds. -/
theorem toList_utcTimestamp_lt {epochSecs' : Nat} (hlt : epochSecs < epochSecs')
    (h : (epochSecs' : Int) ≤ endOfYear9999.unixSecond) :
    (utcTimestamp epochSecs).toList.length = (utcTimestamp epochSecs').toList.length ∧
      (utcTimestamp epochSecs).toList < (utcTimestamp epochSecs').toList := by
  obtain ⟨t, hyear, htext, hsecond⟩ := utcTimestamp_eq_stampText
    (Int.le_trans (Int.ofNat_le.mpr (Nat.le_of_lt hlt)) h)
  obtain ⟨t', hyear', htext', hsecond'⟩ := utcTimestamp_eq_stampText h
  rw [htext, htext', String.toList_ofList, String.toList_ofList, length_stampText,
    length_stampText, stampText_lt_iff hyear hyear', ← DateTime.unixSecond_lt_iff, hsecond,
    hsecond']
  exact ⟨rfl, Int.ofNat_lt.mpr hlt⟩

end Text

/-- Every second is rendered as its date and time in the proleptic Gregorian calendar, which is
the only one. Up to the end of the year 9999 the texts have 16 bytes and sort like the
seconds. -/
theorem backup_timestamps_are_utc :
    (∀ epochSecs : Nat, utcTimestamp epochSecs = (utcFields epochSecs).render ∧
      ∃ t : DateTime, utcFields epochSecs = fieldsOf t ∧ t.unixSecond = epochSecs ∧
        ∀ t' : DateTime, t'.unixSecond = epochSecs → t' = t) ∧
    (∀ epochSecs : Nat, (epochSecs : Int) ≤ endOfYear9999.unixSecond →
      (utf8 (utcTimestamp epochSecs)).length = 16) ∧
    ∀ epochSecs epochSecs' : Nat, (epochSecs : Int) ≤ endOfYear9999.unixSecond →
      (epochSecs' : Int) ≤ endOfYear9999.unixSecond →
      (utf8 (utcTimestamp epochSecs) < utf8 (utcTimestamp epochSecs') ↔
        epochSecs < epochSecs') := by
  refine ⟨fun epochSecs => ⟨utcTimestamp_eq_render epochSecs, ?_⟩, fun epochSecs h => ?_,
    fun epochSecs epochSecs' h h' => ?_⟩
  · obtain ⟨t, hfields, hsecond⟩ := utcFields_correct epochSecs
    refine ⟨t, hfields, hsecond, fun t' ht' => ?_⟩
    exact DateTime.unixSecond_injective (ht'.trans hsecond.symm)
  · obtain ⟨t, -, hbytes, -⟩ := utf8_utcTimestamp h
    rw [hbytes, List.length_map, length_stampText]
  · obtain ⟨t, hyear, hbytes, hsecond⟩ := utf8_utcTimestamp h
    obtain ⟨t', hyear', hbytes', hsecond'⟩ := utf8_utcTimestamp h'
    rw [hbytes, hbytes', map_asciiByte_lt_iff (ascii_stampText t) (ascii_stampText t'),
      stampText_lt_iff hyear hyear', ← DateTime.unixSecond_lt_iff, hsecond, hsecond',
      Int.ofNat_lt]

end OtelSqlite.Backup
