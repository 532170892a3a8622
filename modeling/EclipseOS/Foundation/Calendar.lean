import Mathlib.Logic.Function.Iterate
import Mathlib.Order.Monotone.Basic
import Mathlib.Tactic.IntervalCases
import EclipseOS.Foundation.FixedDigits

/-! # The Gregorian calendar

A date and the one after it. The day a count of days stands for is the date that many
steps after the first, whatever arithmetic computes it. -/

namespace EclipseOS.Foundation

def IsLeap (year : Nat) : Prop := 4 ∣ year ∧ (100 ∣ year → 400 ∣ year)

instance : DecidablePred IsLeap := fun year =>
  inferInstanceAs (Decidable (4 ∣ year ∧ (100 ∣ year → 400 ∣ year)))

def monthLength (year : Nat) : (month : Nat) → Nat
  | 2 => if IsLeap year then 29 else 28
  | 4 | 6 | 9 | 11 => 30
  | _ => 31

structure CivilDate where
  year : Nat
  month : Nat
  day : Nat
  deriving DecidableEq

namespace CivilDate

variable {date : CivilDate}

structure InCalendar (date : CivilDate) : Prop where
  month_pos : 1 ≤ date.month
  month_le : date.month ≤ 12
  day_pos : 1 ≤ date.day
  day_le : date.day ≤ monthLength date.year date.month

def next (date : CivilDate) : CivilDate :=
  if date.day < monthLength date.year date.month then { date with day := date.day + 1 }
  else if date.month < 12 then ⟨date.year, date.month + 1, 1⟩
  else ⟨date.year + 1, 1, 1⟩

def unixEpoch : CivilDate := ⟨1970, 1, 1⟩

/-- The date that many days after 1 January 1970. -/
def ofUnixDay (days : Nat) : CivilDate := next^[days] unixEpoch

theorem ofUnixDay_succ (days : Nat) : ofUnixDay (days + 1) = (ofUnixDay days).next :=
  Function.iterate_succ_apply' next days unixEpoch

theorem monthLength_bounds (year month : Nat) :
    28 ≤ monthLength year month ∧ monthLength year month ≤ 31 := by
  unfold monthLength
  split <;> first | omega | (split <;> omega)

theorem InCalendar.next (inCalendar : date.InCalendar) : date.next.InCalendar := by
  have lengths := monthLength_bounds date.year (date.month + 1)
  have january := monthLength_bounds (date.year + 1) 1
  unfold CivilDate.next
  split
  · exact { inCalendar with day_pos := by simp, day_le := by simpa }
  · split
    · rename_i earlier
      exact ⟨by simp, earlier, Nat.le_refl 1, by simp; omega⟩
    · exact ⟨Nat.le_refl 1, by simp, Nat.le_refl 1, by simp; omega⟩

theorem inCalendar_ofUnixDay (days : Nat) : (ofUnixDay days).InCalendar := by
  induction days with
  | zero => exact ⟨by decide, by decide, by decide, by decide⟩
  | succ days induction =>
    rw [ofUnixDay_succ]
    exact induction.next

/-! ## Counting days

Years run from March, so that the leap day is the last of its year. -/

def daysBeforeYear (year : Int) : Int := 365 * year + year / 4 - year / 100 + year / 400

/-- The days before a month, both counted from March. -/
def daysBeforeMonth (month : Nat) : Nat := (153 * month + 2) / 5

def dayNumber (date : CivilDate) : Int :=
  if date.month ≤ 2 then
    daysBeforeYear (date.year - 1) + daysBeforeMonth (date.month + 9) + date.day - 1
  else daysBeforeYear date.year + daysBeforeMonth (date.month - 3) + date.day - 1

theorem daysBeforeYear_eq (year : Nat) :
    daysBeforeYear year =
      daysBeforeYear (year - 1) + daysBeforeMonth 11 + monthLength year 2 := by
  have shortest : daysBeforeMonth 11 = 337 := rfl
  by_cases leap : IsLeap year
  · rw [monthLength, if_pos leap, shortest, daysBeforeYear, daysBeforeYear]
    unfold IsLeap at leap
    omega
  · rw [monthLength, if_neg leap, shortest, daysBeforeYear, daysBeforeYear]
    unfold IsLeap at leap
    omega

theorem daysBeforeMonth_succ (year : Nat) {month : Nat} (positive : 1 ≤ month) (before : month ≤ 12)
    (notFebruary : month ≠ 2) :
    daysBeforeMonth ((month + 9) % 12 + 1) =
      daysBeforeMonth ((month + 9) % 12) + monthLength year month := by
  interval_cases month <;> first | rfl | exact absurd rfl notFebruary

theorem dayNumber_next (inCalendar : date.InCalendar) :
    date.next.dayNumber = date.dayNumber + 1 := by
  obtain ⟨year, month, day⟩ := date
  obtain ⟨positive, before, first, last⟩ := inCalendar
  simp only at positive before first last
  unfold next
  split
  · unfold dayNumber
    simp only
    split <;> omega
  · rename_i ends
    simp only at ends
    have final : day = monthLength year month := by omega
    by_cases february : month = 2
    · subst february
      have years := daysBeforeYear_eq year
      rw [final]
      simp [dayNumber, years]
      rfl
    · have months := daysBeforeMonth_succ year positive before february
      interval_cases month <;> simp [dayNumber, final, daysBeforeMonth] at months ⊢ <;> omega

theorem dayNumber_ofUnixDay (days : Nat) : (ofUnixDay days).dayNumber = days + 719468 := by
  induction days with
  | zero => decide
  | succ days induction =>
    rw [ofUnixDay_succ, dayNumber_next (inCalendar_ofUnixDay days), induction]
    omega

/-! ## Order -/

/-- The year, the month and the day as one number of eight digits. -/
def stamp (date : CivilDate) : Nat := date.year * 10000 + date.month * 100 + date.day

theorem InCalendar.stamp_lt_next (inCalendar : date.InCalendar) : date.stamp < date.next.stamp := by
  have lengths := monthLength_bounds date.year date.month
  have monthEnds := inCalendar.day_le
  have yearEnds := inCalendar.month_le
  unfold stamp CivilDate.next
  split
  · simp
  · split
    · simp only
      omega
    · simp only
      omega

theorem stamp_strictMono : StrictMono fun days => (ofUnixDay days).stamp := by
  apply strictMono_nat_of_lt_succ
  intro days
  rw [ofUnixDay_succ]
  exact (inCalendar_ofUnixDay days).stamp_lt_next

/-- `YYYYMMDD`. -/
def compact (date : CivilDate) : List Char :=
  (fixedDigits 10 4 date.year ++ fixedDigits 10 2 date.month ++ fixedDigits 10 2 date.day).map
    Nat.digitChar

theorem InCalendar.compact_eq (inCalendar : date.InCalendar) :
    date.compact = (fixedDigits 10 8 date.stamp).map Nat.digitChar := by
  have lengths := monthLength_bounds date.year date.month
  have monthEnds := inCalendar.day_le
  have yearEnds := inCalendar.month_le
  have month : date.month < 10 ^ 2 := by omega
  have day : date.day < 10 ^ 2 := by omega
  have months : fixedDigits 10 6 (date.year * 100 + date.month) =
      fixedDigits 10 4 date.year ++ fixedDigits 10 2 date.month :=
    fixedDigits_append _ _ month
  have days : fixedDigits 10 8 ((date.year * 100 + date.month) * 100 + date.day) =
      fixedDigits 10 6 (date.year * 100 + date.month) ++ fixedDigits 10 2 date.day :=
    fixedDigits_append _ _ day
  have parts : date.stamp = (date.year * 100 + date.month) * 100 + date.day := by
    unfold stamp
    omega
  rw [compact, parts, days, months]

theorem compact_lt_iff {left right : Nat} (leftFits : (ofUnixDay left).year < 10000)
    (rightFits : (ofUnixDay right).year < 10000) :
    (ofUnixDay left).compact < (ofUnixDay right).compact ↔ left < right := by
  have eightDigits {days : Nat} (fits : (ofUnixDay days).year < 10000) :
      (ofUnixDay days).stamp < 10 ^ 8 := by
    have inCalendar := inCalendar_ofUnixDay days
    have lengths := monthLength_bounds (ofUnixDay days).year (ofUnixDay days).month
    have monthEnds := inCalendar.day_le
    have yearEnds := inCalendar.month_le
    unfold stamp
    omega
  have increasing : ∀ low high, low < high → high < 10 → low.digitChar < high.digitChar := by
    intro low high less small
    interval_cases high <;> interval_cases low <;> decide
  rw [(inCalendar_ofUnixDay left).compact_eq, (inCalendar_ofUnixDay right).compact_eq,
    map_fixedDigits_lt_iff increasing (eightDigits leftFits) (eightDigits rightFits)]
  exact stamp_strictMono.lt_iff_lt

end CivilDate

end EclipseOS.Foundation
