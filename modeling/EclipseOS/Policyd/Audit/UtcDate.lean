import EclipseOS.Foundation.Calendar

/-! # The date of a segment

A sealed segment of the journal is named by the day it was sealed on. -/

namespace EclipseOS.Policyd

open Foundation CivilDate

/-- The civil date of a day, counted from 1 March of the year 0. No value is negative for
a day that is not, so the divisions round the same way. -/
def civilDate (days : Int) : CivilDate :=
  let era := days / 146097
  let doe := days % 146097
  let yoe := (doe - doe / 1460 + doe / 36524 - doe / 146096) / 365
  let y := yoe + era * 400
  let doy := doe - (365 * yoe + yoe / 4 - yoe / 100)
  let mp := (5 * doy + 2) / 153
  let d := doy - (153 * mp + 2) / 5 + 1
  let m := if mp < 10 then mp + 3 else mp - 9
  let y := if m ≤ 2 then y + 1 else y
  ⟨y.toNat, m.toNat, d.toNat⟩

/-- UTC `YYYYMMDD` from epoch milliseconds. -/
def utcDate (ms : UInt64) : String :=
  let days := ((ms / 86400000).toNat : Int) + 719468
  let date := civilDate days
  String.ofList (zeroPadded 4 date.year ++ zeroPadded 2 date.month ++ zeroPadded 2 date.day)

/-- The year of an era that a day lies in, by centuries, spans of four years and years. -/
theorem yearOfEra_eq {century span year doy doe : Int} (centuries : 0 ≤ century ∧ century < 4)
    (spans : 0 ≤ span ∧ span < 25) (years : 0 ≤ year ∧ year < 4) (days : 0 ≤ doy)
    (inYear : doy < 365 ∨ doy = 365 ∧ year = 3 ∧ (span = 24 → century = 3))
    (split : doe = 36524 * century + 1461 * span + 365 * year + doy) :
    (doe - doe / 1460 + doe / 36524 - doe / 146096) / 365 =
      100 * century + 4 * span + year := by
  have hundreds : doe / 36524 - doe / 146096 = century := by
    by_cases last : doe = 146096
    · rw [last]
      omega
    · have inCentury : 36524 * century ≤ doe ∧ doe < 36524 * century + 36524 := by omega
      have whole : doe / 146096 = 0 := by omega
      have quotient : doe / 36524 = century := by omega
      omega
  -- the leap days before a year are worth at most one more span of 1460 days
  have fours : doe / 1460 = 25 * century + span +
      (24 * century + span + 365 * year + doy) / 1460 := by
    omega
  have rest : 0 ≤ doy - (24 * century + span + 365 * year + doy) / 1460 ∧
      doy - (24 * century + span + 365 * year + doy) / 1460 < 365 := by
    omega
  rw [fours]
  omega

section Parts

variable {era century span rest : Nat}

theorem daysBeforeYear_parts (centuries : century < 4) (spans : span < 25) (years : rest < 4) :
    daysBeforeYear (400 * era + 100 * century + 4 * span + rest : Nat) =
      146097 * era + (36524 * century + 1461 * span + 365 * rest) := by
  have fours : ((400 * era + 100 * century + 4 * span + rest : Nat) : Int) / 4 =
      100 * era + 25 * century + span := by
    omega
  have hundreds : ((400 * era + 100 * century + 4 * span + rest : Nat) : Int) / 100 =
      4 * era + century := by
    omega
  have eras : ((400 * era + 100 * century + 4 * span + rest : Nat) : Int) / 400 = era := by omega
  rw [daysBeforeYear, fours, hundreds, eras]
  omega

/-- Only the last year of a span ends in a leap day, and the last span of a century only in
the last century. -/
theorem leap_parts (centuries : century < 4) (_spans : span < 25) (years : rest < 4)
    (leap : IsLeap (400 * era + 100 * century + 4 * span + rest + 1)) :
    rest = 3 ∧ (span = 24 → century = 3) := by
  obtain ⟨byFour, byHundred⟩ := leap
  have last : rest = 3 := by omega
  refine ⟨last, fun ends => ?_⟩
  have eraEnds := byHundred (by omega)
  omega

theorem civilDate_parts {doy month : Nat} (centuries : century < 4) (spans : span < 25)
    (years : rest < 4)
    (inYear : doy < 365 ∨ doy = 365 ∧ rest = 3 ∧ (span = 24 → century = 3))
    (monthEq : (5 * (doy : Int) + 2) / 153 = month) :
    civilDate (146097 * era + (36524 * century + 1461 * span + 365 * rest + doy)) =
      let year := 400 * era + 100 * century + 4 * span + rest
      ⟨if month < 10 then year else year + 1, if month < 10 then month + 3 else month - 9,
        doy + 1 - daysBeforeMonth month⟩ := by
  obtain ⟨doe, doeEq⟩ : ∃ doe : Int, doe = 36524 * century + 1461 * span + 365 * rest + doy :=
    ⟨_, rfl⟩
  have inEra : 0 ≤ doe ∧ doe < 146097 := by omega
  have eraEq : (146097 * era + doe) / 146097 = era := by omega
  have doeMod : (146097 * era + doe) % 146097 = doe := by omega
  have yoe : (doe - doe / 1460 + doe / 36524 - doe / 146096) / 365 =
      100 * century + 4 * span + rest :=
    yearOfEra_eq (by omega) (by omega) (by omega) (by omega) (by omega) doeEq
  have fours : (100 * century + 4 * span + rest : Int) / 4 = 25 * century + span := by omega
  have hundreds : (100 * century + 4 * span + rest : Int) / 100 = century := by omega
  have doyEq : doe - (365 * (100 * century + 4 * span + rest) + (25 * century + span) - century) =
      doy := by
    omega
  clear inEra
  rw [← doeEq]
  simp only [civilDate, eraEq, doeMod, yoe, fours, hundreds, doyEq, monthEq]
  clear eraEq doeMod yoe fours hundreds doyEq doeEq
  unfold daysBeforeMonth
  by_cases early : month < 10
  · have later : ¬(month : Int) + 3 ≤ 2 := by omega
    have intEarly : (month : Int) < 10 := by omega
    rw [if_pos intEarly, if_neg later, if_pos early, if_pos early]
    congr 1 <;> omega
  · have wraps : (month : Int) - 9 ≤ 2 := by omega
    have intLate : ¬(month : Int) < 10 := by omega
    rw [if_neg intLate, if_pos wraps, if_neg early, if_neg early]
    congr 1 <;> omega

end Parts

/-- A day in March's count of years and months. -/
structure MarchDay (year month day : Nat) : Prop where
  month_lt : month < 12
  day_pos : 1 ≤ day
  day_le : month < 11 → daysBeforeMonth month + day ≤ daysBeforeMonth (month + 1)
  february : month = 11 → day ≤ 28 ∨ day = 29 ∧ IsLeap (year + 1)

namespace MarchDay

variable {year month day : Nat}

theorem inYear (march : MarchDay year month day) :
    daysBeforeMonth month + day ≤ 365 ∨
      daysBeforeMonth month + day = 366 ∧ IsLeap (year + 1) := by
  have last : daysBeforeMonth 11 = 337 := rfl
  by_cases inFebruary : month = 11
  · rw [inFebruary, last]
    rcases march.february inFebruary with short | ⟨long, leap⟩
    · exact Or.inl (by omega)
    · exact Or.inr ⟨by omega, leap⟩
  · have inside := march.day_le (by have := march.month_lt; omega)
    have before : daysBeforeMonth (month + 1) ≤ daysBeforeMonth 11 := by
      have bound := march.month_lt
      unfold daysBeforeMonth
      omega
    exact Or.inl (by omega)

theorem month_eq (march : MarchDay year month day) :
    (5 * (daysBeforeMonth month + day - 1 : Int) + 2) / 153 = month := by
  obtain ⟨months, first, inMonth, february⟩ := march
  unfold daysBeforeMonth at inMonth ⊢
  interval_cases month <;> omega

theorem civilDate_eq (march : MarchDay year month day) :
    civilDate (daysBeforeYear year + daysBeforeMonth month + day - 1) =
      ⟨if month < 10 then year else year + 1,
        if month < 10 then month + 3 else month - 9, day⟩ := by
  have inYear := march.inYear
  have monthEq := march.month_eq
  have first := march.day_pos
  obtain ⟨era, century, span, rest, split, centuries, spans, years⟩ :
      ∃ era century span rest, year = 400 * era + 100 * century + 4 * span + rest ∧
        century < 4 ∧ span < 25 ∧ rest < 4 :=
    ⟨year / 400, year % 400 / 100, year % 100 / 4, year % 4, by omega, by omega, by omega,
      by omega⟩
  obtain ⟨doy, dayEq⟩ : ∃ doy : Nat, daysBeforeMonth month + day = doy + 1 :=
    ⟨daysBeforeMonth month + day - 1, by omega⟩
  have leapLast : doy < 365 ∨ doy = 365 ∧ rest = 3 ∧ (span = 24 → century = 3) := by
    rcases inYear with short | ⟨long, leap⟩
    · exact Or.inl (by omega)
    · rw [split] at leap
      exact Or.inr ⟨by omega, leap_parts centuries spans years leap⟩
  have number : daysBeforeYear year + daysBeforeMonth month + day - 1 =
      146097 * era + (36524 * century + 1461 * span + 365 * rest + doy) := by
    rw [split, daysBeforeYear_parts centuries spans years]
    omega
  have known : (5 * (doy : Int) + 2) / 153 = month := by
    rw [← monthEq]
    congr 2
    omega
  have back : doy + 1 - daysBeforeMonth month = day := by omega
  rw [number, civilDate_parts centuries spans years leapLast known, back, split]

end MarchDay

theorem civilDate_dayNumber {date : CivilDate} (inCalendar : date.InCalendar)
    (counted : 1 ≤ date.year) : civilDate date.dayNumber = date := by
  obtain ⟨year, month, day⟩ := date
  obtain ⟨positive, before, first, last⟩ := inCalendar
  simp only at positive before first last counted
  unfold dayNumber
  by_cases winter : month ≤ 2
  · have yearBack : ((year : Int) - 1) = (year - 1 : Nat) := by omega
    have march : MarchDay (year - 1) (month + 9) day := by
      refine ⟨by omega, first, fun early => ?_, fun late => ?_⟩
      · have january : month = 1 := by omega
        subst january
        exact Nat.add_le_add_left last _
      · have february : month = 2 := by omega
        subst february
        rw [Nat.sub_add_cancel counted]
        have length : monthLength year 2 = if IsLeap year then 29 else 28 := rfl
        rw [length] at last
        by_cases leap : IsLeap year
        · rw [if_pos leap] at last
          by_cases longest : day = 29
          · exact Or.inr ⟨longest, leap⟩
          · exact Or.inl (by omega)
        · rw [if_neg leap] at last
          exact Or.inl last
    have late : ¬month + 9 < 10 := by omega
    rw [if_pos winter, yearBack]
    have converted := march.civilDate_eq
    rw [if_neg late, if_neg late, Nat.sub_add_cancel counted] at converted
    exact converted
  · have march : MarchDay year (month - 3) day := by
      refine ⟨by omega, first, fun _ => ?_, fun late => by omega⟩
      have lengths := daysBeforeMonth_succ year positive before (by omega)
      have place : (month + 9) % 12 = month - 3 := by omega
      rw [place] at lengths
      omega
    have early : month - 3 < 10 := by omega
    have back : month - 3 + 3 = month := by omega
    rw [if_neg winter]
    have converted := march.civilDate_eq
    rw [if_pos early, if_pos early, back] at converted
    exact converted

theorem civilDate_ofUnixDay (days : Nat) : civilDate (days + 719468) = ofUnixDay days := by
  have epoch : 1970 * 10000 ≤ (ofUnixDay days).stamp := by
    have first : 1970 * 10000 ≤ (ofUnixDay 0).stamp := by decide
    exact first.trans (stamp_strictMono.monotone (Nat.zero_le days))
  have inCalendar := inCalendar_ofUnixDay days
  have counted : 1 ≤ (ofUnixDay days).year := by
    have lengths := monthLength_bounds (ofUnixDay days).year (ofUnixDay days).month
    have monthEnds := inCalendar.day_le
    have yearEnds := inCalendar.month_le
    unfold stamp at epoch
    omega
  rw [← dayNumber_ofUnixDay]
  exact civilDate_dayNumber inCalendar counted

def dayOf (ms : UInt64) : Nat := ms.toNat / 86400000

theorem utcDate_eq {ms : UInt64} (early : (ofUnixDay (dayOf ms)).year < 10000) :
    utcDate ms = String.ofList (ofUnixDay (dayOf ms)).compact := by
  have days : (ms / 86400000).toNat = dayOf ms := rfl
  have inCalendar := inCalendar_ofUnixDay (dayOf ms)
  have lengths := monthLength_bounds (ofUnixDay (dayOf ms)).year (ofUnixDay (dayOf ms)).month
  have monthEnds := inCalendar.day_le
  have yearEnds := inCalendar.month_le
  have year : (ofUnixDay (dayOf ms)).year < 10 ^ 4 := early
  have month : (ofUnixDay (dayOf ms)).month < 10 ^ 2 := by omega
  have day : (ofUnixDay (dayOf ms)).day < 10 ^ 2 := by omega
  simp only [utcDate, days, civilDate_ofUnixDay]
  rw [zeroPadded_eq year, zeroPadded_eq month, zeroPadded_eq day, compact, List.map_append,
    List.map_append]

/-- Before the year 10000 the text is the date the calendar gives the day, and texts sort
as days do. -/
theorem utcDate_gregorian :
    (∀ ms, (ofUnixDay (dayOf ms)).year < 10000 →
      utcDate ms = String.ofList (ofUnixDay (dayOf ms)).compact) ∧
    (∀ left right, (ofUnixDay (dayOf left)).year < 10000 →
      (ofUnixDay (dayOf right)).year < 10000 →
      (utcDate left < utcDate right ↔ dayOf left < dayOf right)) := by
  refine ⟨fun ms early => utcDate_eq early, fun left right leftEarly rightEarly => ?_⟩
  rw [utcDate_eq leftEarly, utcDate_eq rightEarly, String.lt_iff, String.toList_ofList,
    String.toList_ofList]
  exact compact_lt_iff leftEarly rightEarly

theorem utcDate_gregorian_2023 :
    utcDate 1700000000000 = String.ofList (CivilDate.mk 2023 11 14).compact ∧
    (utcDate 0 < utcDate 1700000000000 ↔ dayOf 0 < dayOf 1700000000000) := by
  obtain ⟨correct, ordered⟩ := utcDate_gregorian
  have date : ofUnixDay (dayOf 1700000000000) = ⟨2023, 11, 14⟩ := by
    rw [← civilDate_ofUnixDay]
    decide +kernel
  have early : (ofUnixDay (dayOf 1700000000000)).year < 10000 := by
    rw [date]
    decide
  have shown := correct 1700000000000 early
  rw [date] at shown
  exact ⟨shown, ordered 0 1700000000000 (by decide) early⟩

example : utcDate 1700000000000 = "20231114" := by decide +kernel

end EclipseOS.Policyd
