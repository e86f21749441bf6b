/-
This file is the files of a ledger: one for each day, and further ones where a day's
file is full. They are read back in the order of their names.

The names come in the order of the days. But the first file of a day comes after all
others of that day, because a dash comes before a dot.
-/

import Mathlib.Data.Prod.Lex
import Mathlib.Order.Basic
import Senars.Library.Text

namespace Senars.Storage

open Library

/-! ### Days -/

/-- A day of a year of four digits. -/
structure CalendarDay where
  year : ℕ
  month : ℕ
  day : ℕ
  year_lt : year < 10000
  month_mem : 1 ≤ month ∧ month ≤ 12
  day_mem : 1 ≤ day ∧ day ≤ 31
  deriving DecidableEq

namespace CalendarDay

/-- The digits of a day, read as one number. -/
def number (today : CalendarDay) : ℕ := (today.year * 100 + today.month) * 100 + today.day

theorem number_injective : Function.Injective number := by
  rintro ⟨year, month, day, _, _, _⟩ ⟨otherYear, otherMonth, otherDay, _, _, _⟩ same
  unfold number at same
  dsimp only at same
  obtain ⟨rfl, rfl, rfl⟩ : year = otherYear ∧ month = otherMonth ∧ day = otherDay := by omega
  rfl

instance instLinearOrder : LinearOrder CalendarDay := LinearOrder.lift' number number_injective

theorem lt_iff {first second : CalendarDay} : first < second ↔ first.number < second.number :=
  Iff.rfl

/-- The first ten characters of the ISO text of a time of the day. -/
def utcDate (today : CalendarDay) : String :=
  String.ofList
    (padded 4 today.year ++ '-' :: padded 2 today.month ++ '-' :: padded 2 today.day)

theorem codeUnits_utcDate (today : CalendarDay) :
    codeUnits today.utcDate =
      unitsOf (padded 4 today.year) ++ ([45] ++ (unitsOf (padded 2 today.month) ++
        ([45] ++ unitsOf (padded 2 today.day)))) := by
  rw [utcDate, codeUnits, String.toList_ofList, List.append_assoc, List.flatMap_append,
    List.cons_append, List.flatMap_cons, List.flatMap_append, List.flatMap_cons]
  rfl

theorem comesFirst_utcDate {first second : CalendarDay} (before : first < second) :
    ComesFirst (codeUnits first.utcDate) (codeUnits second.utcDate) := by
  have less := lt_iff.mp before
  unfold number at less
  obtain ⟨secondYear, secondMonth, secondDay⟩ := And.intro second.year_lt
    (And.intro second.month_mem second.day_mem)
  rw [codeUnits_utcDate, codeUnits_utcDate]
  rcases lt_trichotomy first.year second.year with year | year | year
  · exact (comesFirst_padded (by omega)).append _ _
  · rw [year]
    refine ComesFirst.prepend ?_ _
    refine ComesFirst.prepend ?_ _
    rcases lt_trichotomy first.month second.month with month | month | month
    · exact (comesFirst_padded (by omega)).append _ _
    · rw [month]
      refine ComesFirst.prepend ?_ _
      refine ComesFirst.prepend ?_ _
      exact comesFirst_padded (by omega)
    · omega
  · omega

end CalendarDay

/-! ### Files -/

/-- A file of a day. -/
structure LedgerFile where
  day : CalendarDay
  index : ℕ
  deriving DecidableEq

namespace LedgerFile

/-- The name of a file. -/
def pathTemplate (file : LedgerFile) : String :=
  if file.index = 0 then file.day.utcDate ++ ".jsonl"
  else file.day.utcDate ++ "-" ++ toString file.index ++ ".jsonl"

/-- Files in the order of their names. -/
def byName : Comparison LedgerFile := unitOrder.comap pathTemplate

/-- What follows the day in the name. -/
def nameRest (index : ℕ) : String :=
  if index = 0 then ".jsonl" else "-" ++ toString index ++ ".jsonl"

theorem codeUnits_pathTemplate (file : LedgerFile) :
    codeUnits file.pathTemplate =
      codeUnits file.day.utcDate ++ codeUnits (nameRest file.index) := by
  unfold pathTemplate nameRest
  split <;> simp only [codeUnits_append, List.append_assoc]

variable {first second : LedgerFile}

theorem byName_of_comesFirst
    (comes : ComesFirst (codeUnits first.pathTemplate) (codeUnits second.pathTemplate)) :
    byName.le first second = true ∧ byName.le second first = false :=
  ⟨decide_eq_true comes.lt.le, decide_eq_false (not_le.mpr comes.lt)⟩

theorem byName_of_day_lt (before : first.day < second.day) :
    byName.le first second = true ∧ byName.le second first = false := by
  refine byName_of_comesFirst ?_
  rw [codeUnits_pathTemplate, codeUnits_pathTemplate]
  exact (CalendarDay.comesFirst_utcDate before).append _ _

theorem byName_of_index_ne_zero {day index} (further : index ≠ 0) :
    byName.le ⟨day, index⟩ ⟨day, 0⟩ = true ∧ byName.le ⟨day, 0⟩ ⟨day, index⟩ = false := by
  refine byName_of_comesFirst ?_
  rw [codeUnits_pathTemplate, codeUnits_pathTemplate]
  refine ComesFirst.prepend ?_ _
  have dashed : nameRest index = "-" ++ toString index ++ ".jsonl" := if_neg further
  have dotted : nameRest 0 = ".jsonl" := rfl
  rw [dashed, dotted, codeUnits_append, codeUnits_append]
  exact ⟨[], 45, 46, _, _, rfl, rfl, by decide⟩

theorem nameRest_injective : Function.Injective nameRest := by
  intro first second same
  unfold nameRest at same
  have dash : ∀ index : ℕ, (".jsonl" : String) ≠ "-" ++ toString index ++ ".jsonl" := by
    intro index equal
    have units := congrArg String.toList equal
    rw [String.toList_append, String.toList_append] at units
    exact absurd (List.cons.inj units).1 (by decide)
  split at same <;> split at same
  · omega
  · exact absurd same (dash second)
  · exact absurd same.symm (dash first)
  · have units := congrArg String.toList same
    have digits : Nat.toDigits 10 first = Nat.toDigits 10 second := by simpa using units
    have numbers := congrArg (Nat.ofDigitChars 10 · 0) digits
    rwa [Nat.ofDigitChars_ten_toDigits, Nat.ofDigitChars_ten_toDigits] at numbers

theorem eq_of_tied (tie : byName.tied first second = true) : first = second := by
  obtain ⟨forward, backward⟩ := (byName.tied_iff first second).mp tie
  rcases lt_trichotomy first.day second.day with before | same | after
  · rw [(byName_of_day_lt before).2] at backward
    cases backward
  · have units : codeUnits first.pathTemplate = codeUnits second.pathTemplate :=
      le_antisymm (of_decide_eq_true forward) (of_decide_eq_true backward)
    rw [codeUnits_pathTemplate, codeUnits_pathTemplate, same, List.append_cancel_left_eq] at units
    obtain ⟨day, index⟩ := first
    cases same
    exact congrArg (LedgerFile.mk _) (nameRest_injective (codeUnits_injective units))
  · rw [(byName_of_day_lt after).2] at forward
    cases forward

end LedgerFile

end Senars.Storage
