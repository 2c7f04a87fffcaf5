import Mathlib.Order.Lattice.Nat
import Mathlib.Order.Monotone.Basic
import Mathlib.Tactic.IntervalCases

/-!
# The proleptic Gregorian calendar

Dates and times of day from the year 0 on, counted by summing the lengths of the years and
months before. The fields compare in the order in which they are written, and the count of
seconds compares in the same way, so a count has one date and time only.
-/

namespace OtelSqlite.Lib.Calendar

section Lengths

def isLeapYear (year : Nat) : Bool :=
  year % 4 = 0 && (year % 100 ≠ 0 || year % 400 = 0)

def yearLength (year : Nat) : Nat := if isLeapYear year then 366 else 365

def monthLength (year : Nat) : Nat → Nat
  | 1 | 3 | 5 | 7 | 8 | 10 | 12 => 31
  | 4 | 6 | 9 | 11 => 30
  | 2 => if isLeapYear year then 29 else 28
  | _ => 0

def daysBeforeYear : Nat → Nat
  | 0 => 0
  | year + 1 => daysBeforeYear year + yearLength year

def daysBeforeMonth (year : Nat) : Nat → Nat
  | 0 => 0
  | month + 1 => daysBeforeMonth year month + monthLength year month

theorem isLeapYear_iff {year : Nat} :
    isLeapYear year = true ↔ year % 4 = 0 ∧ (year % 100 ≠ 0 ∨ year % 400 = 0) := by
  simp [isLeapYear]

/-- The leap days before a year, by its multiples of 4, 100 and 400. -/
theorem daysBeforeYear_eq (year : Nat) :
    daysBeforeYear year + (year + 99) / 100 =
      365 * year + (year + 3) / 4 + (year + 399) / 400 := by
  induction year with
  | zero => rfl
  | succ year ih =>
    rw [daysBeforeYear, yearLength]
    split
    · next h =>
      obtain ⟨h4, h100 | h400⟩ := isLeapYear_iff.mp h
      · omega
      · omega
    · next h =>
      rw [isLeapYear_iff, not_and_or, not_or, not_not] at h
      rcases h with h4 | ⟨h100, h400⟩
      · have hquarter : (year + 1 + 3) / 4 = (year + 3) / 4 := by omega
        have hcentury : (year + 1 + 99) / 100 = (year + 99) / 100 := by omega
        have hera : (year + 1 + 399) / 400 = (year + 399) / 400 := by omega
        omega
      · omega

theorem monotone_daysBeforeYear : Monotone daysBeforeYear :=
  monotone_nat_of_le_succ fun _ => Nat.le_add_right _ _

theorem monotone_daysBeforeMonth (year : Nat) : Monotone (daysBeforeMonth year) :=
  monotone_nat_of_le_succ fun _ => Nat.le_add_right _ _

theorem daysBeforeMonth_thirteen (year : Nat) : daysBeforeMonth year 13 = yearLength year := by
  simp only [daysBeforeMonth, monthLength, yearLength]
  split <;> rfl

theorem monthLength_le (year month : Nat) : monthLength year month ≤ 31 := by
  unfold monthLength
  split <;> try split
  all_goals decide

end Lengths

@[ext]
structure Date where
  year : Nat
  month : Nat
  day : Nat
  month_mem : 1 ≤ month ∧ month ≤ 12
  day_mem : 1 ≤ day ∧ day ≤ monthLength year month

/-- A date and a time of day, without leap seconds. -/
structure DateTime extends Date where
  hour : Nat
  minute : Nat
  second : Nat
  hour_lt : hour < 24
  minute_lt : minute < 60
  second_lt : second < 60

namespace Date

variable (a b : Date)

/-- Days since the first of January of the year 0. -/
def dayNumber (d : Date) : Nat :=
  daysBeforeYear d.year + (daysBeforeMonth d.year d.month + (d.day - 1))

theorem lt_daysBeforeMonth_succ :
    daysBeforeMonth a.year a.month + (a.day - 1) < daysBeforeMonth a.year (a.month + 1) := by
  have hday := a.day_mem
  rw [daysBeforeMonth]
  omega

theorem lt_daysBeforeYear_succ : a.dayNumber < daysBeforeYear (a.year + 1) := by
  have hmonth : daysBeforeMonth a.year (a.month + 1) ≤ yearLength a.year := by
    rw [← daysBeforeMonth_thirteen]
    exact monotone_daysBeforeMonth _ (Nat.succ_le_succ a.month_mem.2)
  have hday := a.lt_daysBeforeMonth_succ
  rw [dayNumber, daysBeforeYear]
  omega

/-- The year decides first, then the month, then the day. -/
def Before (a b : Date) : Prop :=
  a.year < b.year ∨ a.year = b.year ∧ (a.month < b.month ∨ a.month = b.month ∧ a.day < b.day)

variable {a b}

theorem dayNumber_lt_of_before (h : a.Before b) : a.dayNumber < b.dayNumber := by
  rcases h with hyear | ⟨hyear, hmonth | ⟨hmonth, hday⟩⟩
  · have hnext := monotone_daysBeforeYear (Nat.succ_le_of_lt hyear)
    exact (a.lt_daysBeforeYear_succ.trans_le hnext).trans_le (Nat.le_add_right _ _)
  · have hnext : daysBeforeMonth b.year (a.month + 1) ≤ daysBeforeMonth b.year b.month :=
      monotone_daysBeforeMonth b.year hmonth
    have hlt := a.lt_daysBeforeMonth_succ
    rw [hyear] at hlt
    rw [dayNumber, dayNumber, hyear]
    omega
  · have hpos := a.day_mem.1
    rw [dayNumber, dayNumber, hyear, hmonth]
    omega

theorem eq_of_not_before (hab : ¬a.Before b) (hba : ¬b.Before a) : a = b := by
  have hfields : a.year = b.year ∧ a.month = b.month ∧ a.day = b.day := by
    unfold Before at hab hba
    omega
  exact Date.ext hfields.1 hfields.2.1 hfields.2.2

end Date

namespace DateTime

variable {a b : DateTime}

/-- Seconds since the beginning of the year 0. -/
def secondNumber (t : DateTime) : Nat :=
  86400 * t.toDate.dayNumber + 3600 * t.hour + 60 * t.minute + t.second

/-- The fields compare from the year down to the second. -/
def Before (a b : DateTime) : Prop :=
  a.toDate.Before b.toDate ∨ a.toDate = b.toDate ∧
    (a.hour < b.hour ∨ a.hour = b.hour ∧
      (a.minute < b.minute ∨ a.minute = b.minute ∧ a.second < b.second))

theorem secondNumber_lt_of_before (h : a.Before b) : a.secondNumber < b.secondNumber := by
  have hhour := a.hour_lt
  have hminute := a.minute_lt
  have hsecond := a.second_lt
  unfold secondNumber
  rcases h with hdate | ⟨hdate, htime⟩
  · have hday := Date.dayNumber_lt_of_before hdate
    omega
  · rw [hdate]
    omega

theorem eq_of_not_before (hab : ¬a.Before b) (hba : ¬b.Before a) : a = b := by
  have hdate : a.toDate = b.toDate :=
    Date.eq_of_not_before (fun h => hab (.inl h)) fun h => hba (.inl h)
  have htime : a.hour = b.hour ∧ a.minute = b.minute ∧ a.second = b.second := by
    simp only [Before, hdate, true_and, not_or] at hab hba
    omega
  obtain ⟨date, _, _, _, _, _, _⟩ := a
  obtain ⟨date', _, _, _, _, _, _⟩ := b
  obtain ⟨rfl, rfl, rfl⟩ := htime
  cases hdate
  rfl

/-- Counts compare as dates and times do. -/
theorem secondNumber_lt_iff : a.secondNumber < b.secondNumber ↔ a.Before b := by
  refine ⟨fun hlt => ?_, secondNumber_lt_of_before⟩
  by_contra hab
  by_cases hba : b.Before a
  · exact Nat.lt_asymm hlt (secondNumber_lt_of_before hba)
  · rw [eq_of_not_before hab hba] at hlt
    exact Nat.lt_irrefl _ hlt

/-- A count has one date and time. -/
theorem secondNumber_injective : Function.Injective secondNumber := by
  intro a b h
  refine eq_of_not_before (fun hab => ?_) fun hba => ?_
  · exact Nat.ne_of_lt (secondNumber_lt_of_before hab) h
  · exact Nat.ne_of_gt (secondNumber_lt_of_before hba) h

end DateTime

section March

/-! Years that begin in March end with their leap day, so that their months have fixed places:
the month `m` months behind March begins `(153 * m + 2) / 5` days behind the first of March. -/

theorem daysBeforeMonth_march (year : Nat) : daysBeforeMonth year 3 + 306 = yearLength year := by
  simp only [daysBeforeMonth, monthLength, yearLength]
  split <;> rfl

theorem daysBeforeMonth_of_march (year : Nat) {m : Nat} (h : m < 10) :
    daysBeforeMonth year (m + 3) = daysBeforeMonth year 3 + (153 * m + 2) / 5 := by
  interval_cases m <;> simp [daysBeforeMonth, monthLength, Nat.add_assoc]

theorem monthLength_of_march (year : Nat) {m : Nat} (h : m < 10) :
    monthLength year (m + 3) = (153 * (m + 1) + 2) / 5 - (153 * m + 2) / 5 := by
  interval_cases m <;> rfl

theorem month_of_march {day : Nat} (h : day ≤ 365) :
    (5 * day + 2) / 153 < 12 ∧ (153 * ((5 * day + 2) / 153) + 2) / 5 ≤ day ∧
      day < (153 * ((5 * day + 2) / 153 + 1) + 2) / 5 := by
  omega

variable {year day : Nat}

theorem day_of_march (h : day < 365 ∨ day = 365 ∧ isLeapYear (year + 1) = true) {m : Nat}
    (hm : m < 12) (hle : (153 * m + 2) / 5 ≤ day) (hlt : day < (153 * (m + 1) + 2) / 5) :
    day - (153 * m + 2) / 5 + 1 ≤
      monthLength (if m < 10 then year else year + 1) (if m < 10 then m + 3 else m - 9) := by
  by_cases hsame : m < 10
  · rw [if_pos hsame, if_pos hsame, monthLength_of_march year hsame]
    omega
  · rw [if_neg hsame, if_neg hsame]
    obtain rfl | rfl : m = 10 ∨ m = 11 := by omega
    · show _ ≤ 31
      omega
    · show _ ≤ if isLeapYear (year + 1) = true then 29 else 28
      rcases h with hday | ⟨rfl, hleap⟩
      · split <;> omega
      · rw [if_pos hleap]

/-- The date `day` days behind the first of March of `year`. -/
def Date.ofMarch (year day : Nat) (h : day < 365 ∨ day = 365 ∧ isLeapYear (year + 1) = true) :
    Date where
  year := if (5 * day + 2) / 153 < 10 then year else year + 1
  month := if (5 * day + 2) / 153 < 10 then (5 * day + 2) / 153 + 3 else (5 * day + 2) / 153 - 9
  day := day - (153 * ((5 * day + 2) / 153) + 2) / 5 + 1
  month_mem := by
    have hm := (month_of_march (show day ≤ 365 by omega)).1
    split <;> omega
  day_mem := by
    obtain ⟨hm, hle, hlt⟩ := month_of_march (show day ≤ 365 by omega)
    exact ⟨Nat.le_add_left _ _, day_of_march h hm hle hlt⟩

theorem Date.dayNumber_ofMarch (h : day < 365 ∨ day = 365 ∧ isLeapYear (year + 1) = true) :
    (Date.ofMarch year day h).dayNumber + 306 = daysBeforeYear (year + 1) + day := by
  obtain ⟨hm, hle, hlt⟩ := month_of_march (show day ≤ 365 by omega)
  simp only [dayNumber, ofMarch]
  generalize (5 * day + 2) / 153 = m at hm hle hlt
  have hmarch := daysBeforeMonth_march year
  by_cases hsame : m < 10
  · rw [if_pos hsame, if_pos hsame, daysBeforeMonth_of_march year hsame, daysBeforeYear]
    omega
  · rw [if_neg hsame, if_neg hsame]
    obtain rfl | rfl : m = 10 ∨ m = 11 := by omega
    all_goals
      simp only [daysBeforeMonth, monthLength]
      omega

end March

section Epoch

/-- The beginning of Unix time. -/
def unixEpoch : DateTime where
  year := 1970
  month := 1
  day := 1
  month_mem := by decide
  day_mem := by decide
  hour := 0
  minute := 0
  second := 0
  hour_lt := by decide
  minute_lt := by decide
  second_lt := by decide

/-- Seconds since the beginning of Unix time. -/
def DateTime.unixSecond (t : DateTime) : Int := (t.secondNumber : Int) - unixEpoch.secondNumber

theorem dayNumber_unixEpoch : unixEpoch.toDate.dayNumber = 719528 := by
  have hyear := daysBeforeYear_eq 1970
  simp only [Date.dayNumber, unixEpoch, daysBeforeMonth, monthLength]
  omega

theorem DateTime.unixSecond_injective : Function.Injective unixSecond := by
  intro a b h
  apply secondNumber_injective
  unfold unixSecond at h
  omega

theorem DateTime.unixSecond_lt_iff {a b : DateTime} : a.unixSecond < b.unixSecond ↔ a.Before b := by
  rw [← secondNumber_lt_iff, unixSecond, unixSecond]
  omega

end Epoch

end OtelSqlite.Lib.Calendar
