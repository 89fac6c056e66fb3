import Mathlib.Data.Prod.Lex
import Mathlib.Tactic

/-!
# The proleptic Gregorian calendar

Years are counted from the year 0.  A date has its place in the calendar by
construction.

* `monthLengths`, `daysInMonth`, `yearLength`: the lengths of months and years.
* `Date.next`: the day after; `Date.dayNumber`: the days since 0000-01-01, which
  `next` counts (`dayNumber_next`); `exists_next_eq`: the day before.
* Dates are ordered by their year, month and day (`lt_iff`), which is the order of
  their day numbers (`dayNumber_strictMono`).
* `Date.weekday`: the day of the week, one further every day (`weekday_next`).
-/

namespace Brenlib
namespace Gregorian

/-- Years that have a 29th of February. -/
def IsLeap (year : Nat) : Prop :=
  (4 ∣ year ∧ ¬ 100 ∣ year) ∨ 400 ∣ year

instance (year : Nat) : Decidable (IsLeap year) :=
  inferInstanceAs (Decidable ((4 ∣ year ∧ ¬ 100 ∣ year) ∨ 400 ∣ year))

/-- The lengths of the months from January to December. -/
def monthLengths (year : Nat) : List Nat :=
  [31, if IsLeap year then 29 else 28, 31, 30, 31, 30, 31, 31, 30, 31, 30, 31]

/-- Months are counted from 1.  Other months have no days. -/
def daysInMonth (year : Nat) : Nat → Nat
  | 0 => 0
  | month + 1 => (monthLengths year).getD month 0

def yearLength (year : Nat) : Nat :=
  if IsLeap year then 366 else 365

/-- A year is as long as its months together. -/
theorem sum_monthLengths
    (year : Nat) :
    (monthLengths year).sum = yearLength year := by
  unfold monthLengths yearLength
  split_ifs <;> rfl

def IsDate (year month day : Nat) : Prop :=
  1 ≤ day ∧ day ≤ daysInMonth year month

instance (year month day : Nat) : Decidable (IsDate year month day) :=
  inferInstanceAs (Decidable (_ ∧ _))

theorem IsDate.ofNext
    {year month day : Nat}
    (h : day < daysInMonth year month) :
    IsDate year month (day + 1) :=
  ⟨Nat.succ_pos day, h⟩

theorem IsDate.month
    {year month day : Nat}
    (h : IsDate year month day) :
    1 ≤ month ∧ month ≤ 12 := by
  have hpos : 0 < daysInMonth year month := Nat.lt_of_lt_of_le h.1 h.2
  cases month with
  | zero =>
      exact absurd hpos (Nat.lt_irrefl 0)
  | succ month =>
      refine ⟨Nat.succ_pos month, ?_⟩
      by_contra hlong
      have hlength : (monthLengths year).length ≤ month := by
        change 12 ≤ month
        omega
      rw [daysInMonth, List.getD_eq_getElem?_getD, List.getElem?_eq_none hlength] at hpos
      exact Nat.lt_irrefl 0 hpos

/-- Every month has between 28 and 31 days. -/
theorem daysInMonth_bounds
    (year : Nat) {month : Nat}
    (h : 1 ≤ month ∧ month ≤ 12) :
    28 ≤ daysInMonth year month ∧ daysInMonth year month ≤ 31 := by
  obtain ⟨hlow, hhigh⟩ := h
  interval_cases month <;> simp only [daysInMonth, monthLengths] <;> split_ifs <;> decide

@[ext]
structure Date where
  year : Nat
  month : Nat
  day : Nat
  isDate : IsDate year month day
deriving DecidableEq

/-- The days of the years before a year. -/
def daysBeforeYear : Nat → Nat
  | 0 => 0
  | year + 1 => daysBeforeYear year + yearLength year

/-- The days of the months before a month, counted from 0. -/
def daysBeforeMonth (year month : Nat) : Nat :=
  ((monthLengths year).take month).sum

theorem daysBeforeMonth_succ
    (year month : Nat) :
    daysBeforeMonth year (month + 1) =
      daysBeforeMonth year month + daysInMonth year (month + 1) := by
  rw [daysBeforeMonth, daysBeforeMonth, daysInMonth, List.take_add_one, List.sum_append,
    List.getD_eq_getElem?_getD]
  cases (monthLengths year)[month]? <;> simp

theorem daysBeforeMonth_twelve
    (year : Nat) :
    daysBeforeMonth year 12 = yearLength year :=
  sum_monthLengths year

namespace Date

/-- The days since 0000-01-01. -/
def dayNumber (D : Date) : Nat :=
  daysBeforeYear D.year + daysBeforeMonth D.year (D.month - 1) + (D.day - 1)

/-- The day of the week, counted from Sunday. -/
def weekday (D : Date) : Nat :=
  (D.dayNumber + 6) % 7

/-- The first of a month. -/
def first (year month : Nat) (h : 1 ≤ month ∧ month ≤ 12) : Date where
  year := year
  month := month
  day := 1
  isDate := ⟨Nat.le_refl 1, Nat.le_trans (by decide) (daysInMonth_bounds year h).1⟩

/-- The last of a month. -/
def last (year month : Nat) (h : 1 ≤ month ∧ month ≤ 12) : Date where
  year := year
  month := month
  day := daysInMonth year month
  isDate := ⟨Nat.le_trans (by decide) (daysInMonth_bounds year h).1, Nat.le_refl _⟩

/-- The day after. -/
def next (D : Date) : Date :=
  if hday : D.day < daysInMonth D.year D.month then
    ⟨D.year, D.month, D.day + 1, .ofNext hday⟩
  else if hmonth : D.month < 12 then
    first D.year (D.month + 1) ⟨Nat.succ_pos _, hmonth⟩
  else
    first (D.year + 1) 1 (by decide)

theorem next_last
    {year month : Nat} (h : 1 ≤ month ∧ month ≤ 12)
    (hmonth : month < 12) :
    (last year month h).next = first year (month + 1) ⟨Nat.succ_pos _, hmonth⟩ := by
  unfold next
  exact (dif_neg (Nat.lt_irrefl _)).trans (dif_pos hmonth)

theorem next_last_december
    (year : Nat) :
    (last year 12 (by decide)).next = first (year + 1) 1 (by decide) := by
  unfold next
  exact (dif_neg (Nat.lt_irrefl _)).trans (dif_neg (Nat.lt_irrefl _))

theorem dayNumber_next
    (D : Date) :
    D.next.dayNumber = D.dayNumber + 1 := by
  obtain ⟨hpos, hle⟩ := D.isDate
  obtain ⟨hmonth, hdec⟩ := D.isDate.month
  obtain ⟨month, hsucc⟩ := Nat.exists_eq_add_of_le' hmonth
  have hmonths := daysBeforeMonth_succ D.year month
  rw [← hsucc] at hmonths
  unfold next
  split_ifs with hday hlast
  · simp only [dayNumber]
    omega
  · simp only [dayNumber, first, hsucc, Nat.add_sub_cancel]
    rw [← hsucc]
    omega
  · have hend : D.month = 12 := by omega
    rw [hend, daysBeforeMonth_twelve] at hmonths
    have hfirst : daysBeforeMonth (D.year + 1) (1 - 1) = 0 := rfl
    simp only [dayNumber, first, daysBeforeYear, hfirst, hsucc, Nat.add_sub_cancel]
    rw [hend] at hle hday
    omega

theorem weekday_next
    (D : Date) :
    D.next.weekday = (D.weekday + 1) % 7 := by
  rw [weekday, weekday, dayNumber_next]
  omega

theorem weekday_next_ne
    (D : Date) :
    D.next.weekday ≠ D.weekday := by
  rw [weekday_next, weekday]
  omega

theorem dayNumber_pos
    {D : Date}
    (h : 0 < D.year) :
    0 < D.dayNumber := by
  obtain ⟨year, hyear⟩ := Nat.exists_eq_add_of_le' h
  have hlength : 0 < yearLength year := by
    unfold yearLength
    split_ifs <;> decide
  rw [dayNumber, hyear, daysBeforeYear]
  omega

/-- Every day but the first one has a day before it. -/
theorem exists_next_eq
    {D : Date}
    (h : 0 < D.dayNumber) :
    ∃ E : Date, E.next = D := by
  obtain ⟨year, month, day, hdate⟩ := D
  obtain ⟨hmonth, hdec⟩ := hdate.month
  obtain ⟨hpos, hle⟩ := hdate
  obtain ⟨day, rfl⟩ := Nat.exists_eq_add_of_le' hpos
  obtain ⟨month, rfl⟩ := Nat.exists_eq_add_of_le' hmonth
  cases day with
  | succ day =>
      refine ⟨⟨year, month + 1, day + 1, Nat.succ_pos day, Nat.le_of_succ_le hle⟩, ?_⟩
      unfold next
      exact dif_pos hle
  | zero =>
      cases month with
      | succ month =>
          exact ⟨last year (month + 1) (by omega), next_last _ (by omega)⟩
      | zero =>
          cases year with
          | succ year =>
              exact ⟨last year 12 (by decide), next_last_december year⟩
          | zero =>
              exact absurd h (Nat.lt_irrefl 0)

section Order

/-- The parts of a date, the year first. -/
def key (D : Date) : ℕ ×ₗ ℕ ×ₗ ℕ :=
  toLex (D.year, toLex (D.month, D.day))

theorem key_injective :
    Function.Injective key := by
  intro D E h
  simp only [key, EmbeddingLike.apply_eq_iff_eq, Prod.mk.injEq] at h
  obtain ⟨hyear, hmonth, hday⟩ := h
  exact Date.ext hyear hmonth hday

instance : LinearOrder Date where
  __ := LinearOrder.lift' key key_injective
  toDecidableEq := inferInstance
  compare_eq_compareOfLessAndEq D E := by
    convert (LinearOrder.lift' key key_injective).compare_eq_compareOfLessAndEq D E

theorem lt_iff
    {D E : Date} :
    D < E ↔
      D.year < E.year ∨
        (D.year = E.year ∧
          (D.month < E.month ∨ (D.month = E.month ∧ D.day < E.day))) := by
  change key D < key E ↔ _
  rw [key, key, Prod.Lex.toLex_lt_toLex, Prod.Lex.toLex_lt_toLex]

theorem daysBeforeYear_monotone :
    Monotone daysBeforeYear :=
  monotone_nat_of_le_succ fun _ => Nat.le_add_right _ _

theorem daysBeforeMonth_monotone
    (year : Nat) :
    Monotone (daysBeforeMonth year) := by
  refine monotone_nat_of_le_succ fun month => ?_
  rw [daysBeforeMonth_succ]
  exact Nat.le_add_right _ _

/-- The days from the start of the year to the end of the month contain the date. -/
theorem lt_daysBeforeMonth
    (D : Date) :
    daysBeforeMonth D.year (D.month - 1) + (D.day - 1) < daysBeforeMonth D.year D.month := by
  obtain ⟨hpos, hle⟩ := D.isDate
  obtain ⟨month, hmonth⟩ := Nat.exists_eq_add_of_le' D.isDate.month.1
  rw [hmonth] at hle ⊢
  rw [daysBeforeMonth_succ, Nat.add_sub_cancel]
  omega

theorem dayNumber_lt_daysBeforeYear
    (D : Date) :
    D.dayNumber < daysBeforeYear (D.year + 1) := by
  have hmonth := D.lt_daysBeforeMonth
  have hyear := daysBeforeMonth_monotone D.year D.isDate.month.2
  rw [daysBeforeMonth_twelve] at hyear
  rw [dayNumber, daysBeforeYear]
  omega

/-- Later dates have greater numbers. -/
theorem dayNumber_strictMono :
    StrictMono dayNumber := by
  intro D E h
  rcases lt_iff.mp h with hyear | ⟨hyear, hmonth | ⟨hmonth, hday⟩⟩
  · have hstart := daysBeforeYear_monotone (Nat.succ_le_of_lt hyear)
    have hlast := D.dayNumber_lt_daysBeforeYear
    have hfirst : daysBeforeYear E.year ≤ E.dayNumber := by
      rw [dayNumber, Nat.add_assoc]
      exact Nat.le_add_right _ _
    exact Nat.lt_of_lt_of_le hlast (Nat.le_trans hstart hfirst)
  · have hstart := daysBeforeMonth_monotone E.year (Nat.le_sub_one_of_lt hmonth)
    have hlast := D.lt_daysBeforeMonth
    rw [hyear] at hlast
    rw [dayNumber, dayNumber, hyear]
    omega
  · have hpos := D.isDate.1
    rw [dayNumber, dayNumber, hyear, hmonth]
    omega

end Order

end Date
end Gregorian
end Brenlib
