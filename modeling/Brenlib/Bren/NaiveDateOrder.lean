import Brenlib.Bren.Logger
import Brenlib.Bren.NaiveDate

/-!
# The comparison operators of `NaiveDate`

The model follows `src/NaiveDate.cpp`.  Each operator compares the parts by a formula of
its own, after both dates have been found valid.

* `ValidDate`: a date that is valid, and `ValidDate.days`: its days since 1900-01-01.
* `Compares`: the answers of the six operators are those of a linear order.
* `Chronological`: two valid dates are compared by their days, and others are refused.

**Results.**  The formulas compare the dates of the calendar (`compares_date`), whose
order is that of the day numbers, so the operators form one order that agrees with the
days since 1900-01-01.  A date that is not valid is refused on both sides, with the
promised exception if the logger is set up (`comparison_chronological_iff`).
-/

namespace Brenlib
namespace Bren

open Gregorian

namespace NaiveDate

section Operators

variable [Raising]

/-- The check in front of a comparison. -/
def comparable (lhs rhs : NaiveDate) : Except StdException Bool := do
  if ← lhs.isValid then rhs.isValid
  else return false

/-- A comparison operator with its formula. -/
def compareBy
    (formula : NaiveDate → NaiveDate → Bool) (lhs rhs : NaiveDate) :
    Except StdException Bool := do
  if ¬ (← comparable lhs rhs) then
    throw (Raising.raised .invalidArgument "Can't compare invalid date")
  return formula lhs rhs

/-- `operator<`. -/
def lt : NaiveDate → NaiveDate → Except StdException Bool :=
  compareBy fun lhs rhs =>
    lhs.year_ < rhs.year_ ||
    (lhs.year_ == rhs.year_ && lhs.month_ < rhs.month_) ||
    (lhs.year_ == rhs.year_ && lhs.month_ == rhs.month_ && lhs.day_ < rhs.day_)

/-- `operator<=`. -/
def le : NaiveDate → NaiveDate → Except StdException Bool :=
  compareBy fun lhs rhs =>
    lhs.year_ < rhs.year_ ||
    (lhs.year_ == rhs.year_ && lhs.month_ < rhs.month_) ||
    (lhs.year_ == rhs.year_ && lhs.month_ == rhs.month_ && lhs.day_ ≤ rhs.day_)

/-- `operator==`. -/
def eq : NaiveDate → NaiveDate → Except StdException Bool :=
  compareBy fun lhs rhs =>
    lhs.year_ == rhs.year_ && lhs.month_ == rhs.month_ && lhs.day_ == rhs.day_

/-- `operator!=`. -/
def ne : NaiveDate → NaiveDate → Except StdException Bool :=
  compareBy fun lhs rhs =>
    lhs.year_ != rhs.year_ || lhs.month_ != rhs.month_ || lhs.day_ != rhs.day_

/-- `operator>=`. -/
def ge : NaiveDate → NaiveDate → Except StdException Bool :=
  compareBy fun lhs rhs =>
    lhs.year_ > rhs.year_ ||
    (lhs.year_ == rhs.year_ && lhs.month_ > rhs.month_) ||
    (lhs.year_ == rhs.year_ && lhs.month_ == rhs.month_ && lhs.day_ ≥ rhs.day_)

/-- `operator>`. -/
def gt : NaiveDate → NaiveDate → Except StdException Bool :=
  compareBy fun lhs rhs =>
    lhs.year_ > rhs.year_ ||
    (lhs.year_ == rhs.year_ && lhs.month_ > rhs.month_) ||
    (lhs.year_ == rhs.year_ && lhs.month_ == rhs.month_ && lhs.day_ > rhs.day_)

theorem compareBy_valid
    {formula : NaiveDate → NaiveDate → Bool} {lhs rhs : NaiveDate}
    (hlhs : lhs.isValid = .ok true)
    (hrhs : rhs.isValid = .ok true) :
    compareBy formula lhs rhs = .ok (formula lhs rhs) := by
  have hboth : comparable lhs rhs = .ok true := by
    rw [comparable, hlhs]
    exact hrhs
  rw [compareBy, hboth]
  rfl

theorem compareBy_invalid
    {formula : NaiveDate → NaiveDate → Bool} {lhs rhs : NaiveDate}
    (h : lhs.isValid = .ok false ∨ rhs.isValid = .ok false) :
    compareBy formula lhs rhs =
      .error (Raising.raised .invalidArgument "Can't compare invalid date") := by
  have hboth : comparable lhs rhs = .ok false := by
    rw [comparable]
    cases hlhs : lhs.isValid with
    | error e =>
        rw [isValid, valid_run] at hlhs
        cases hlhs
    | ok known =>
        cases known with
        | false =>
            rfl
        | true =>
            rw [hlhs] at h
            rcases h with h | h
            · cases h
            · exact h
  rw [compareBy, hboth]
  rfl

end Operators

/-- The answers of the operators are those of an order. -/
structure Compares
    [Raising] {α : Type} [LinearOrder α] (x y : NaiveDate) (a b : α) : Prop where
  lt : lt x y = .ok (decide (a < b))
  le : le x y = .ok (decide (a ≤ b))
  eq : eq x y = .ok (decide (a = b))
  ne : ne x y = .ok (decide (a ≠ b))
  ge : ge x y = .ok (decide (a ≥ b))
  gt : gt x y = .ok (decide (a > b))

theorem Compares.map
    [Raising] {α β : Type} [LinearOrder α] [LinearOrder β] {x y : NaiveDate} {a b : α}
    (h : Compares x y a b)
    {f : α → β}
    (hf : StrictMono f) :
    Compares x y (f a) (f b) where
  lt := by simp only [hf.lt_iff_lt, h.lt]
  le := by simp only [hf.le_iff_le, h.le]
  eq := by simp only [hf.injective.eq_iff, h.eq]
  ne := by simp only [ne_eq, hf.injective.eq_iff, h.ne]
  ge := by simp only [ge_iff_le, hf.le_iff_le, h.ge]
  gt := by simp only [gt_iff_lt, hf.lt_iff_lt, h.gt]

end NaiveDate

/-- A date that is valid. -/
def ValidDate : Type :=
  { s : NaiveDate // s.isValid = .ok true }

namespace ValidDate

open NaiveDate

theorem isDate
    (x : ValidDate) :
    1900 ≤ x.1.year_.toNat ∧
      IsDate x.1.year_.toNat x.1.month_.toNat x.1.day_.toNat := by
  have h := x.2
  rw [isValid, valid_run, Except.ok.injEq, decide_eq_true_eq] at h
  exact ⟨h.1, h.2.1⟩

/-- The date of the calendar. -/
def date (x : ValidDate) : Date where
  year := x.1.year_.toNat
  month := x.1.month_.toNat
  day := x.1.day_.toNat
  isDate := x.isDate.2

theorem date_injective :
    Function.Injective date := by
  intro x y h
  have hyear := UInt16.toNat_inj.mp (congrArg Date.year h)
  have hmonth := UInt8.toNat_inj.mp (congrArg Date.month h)
  have hday := UInt8.toNat_inj.mp (congrArg Date.day h)
  obtain ⟨⟨dayx, monthx, yearx⟩, hx⟩ := x
  obtain ⟨⟨dayy, monthy, yeary⟩, hy⟩ := y
  cases hyear
  cases hmonth
  cases hday
  rfl

instance : LinearOrder ValidDate :=
  LinearOrder.lift' date date_injective

/-- The days since 1900-01-01. -/
def days (x : ValidDate) : Int :=
  x.date.dayNumber - (⟨1900, 1, 1, by decide⟩ : Date).dayNumber

theorem days_strictMono :
    StrictMono days := by
  intro x y h
  exact Int.sub_lt_sub_right (Int.ofNat_lt.mpr (Date.dayNumber_strictMono h)) _

/-- The operators compare the dates of the calendar. -/
theorem compares_date
    [Raising] (x y : ValidDate) :
    Compares x.1 y.1 x.date y.date := by
  have hrun (formula : NaiveDate → NaiveDate → Bool) :
      compareBy formula x.1 y.1 = .ok (formula x.1 y.1) :=
    compareBy_valid x.2 y.2
  have hdate (D E : Date) :
      D = E ↔ D.year = E.year ∧ D.month = E.month ∧ D.day = E.day :=
    Date.ext_iff
  constructor <;>
    refine (hrun _).trans (congrArg Except.ok ?_) <;>
    rw [Bool.eq_iff_iff, decide_eq_true_eq] <;>
    simp only [Bool.or_eq_true, Bool.and_eq_true, decide_eq_true_eq, beq_iff_eq, bne_iff_ne,
      ne_eq, gt_iff_lt, ge_iff_le, ← not_lt (α := Date), Date.lt_iff, hdate, date,
      UInt16.lt_iff_toNat_lt, UInt8.lt_iff_toNat_lt, UInt8.le_iff_toNat_le,
      ← UInt16.toNat_inj, ← UInt8.toNat_inj] <;>
    omega

theorem compares
    [Raising] (x y : ValidDate) :
    Compares x.1 y.1 x y := by
  have h := compares_date x y
  refine ⟨h.lt, h.le, ?_, ?_, h.ge, h.gt⟩
  · rw [h.eq]
    simp only [date_injective.eq_iff]
  · rw [h.ne]
    simp only [ne_eq, date_injective.eq_iff]

end ValidDate

namespace NaiveDate

/-- Two valid dates are compared by their days since 1900-01-01, in one order, and with a date
that is not valid every operator refuses. -/
def Chronological (raising : Raising) (s t : NaiveDate) : Prop :=
  (∀ x y : ValidDate, x.1 = s → y.1 = t → Compares s t x.days y.days ∧ Compares s t x y) ∧
    (s.isValid ≠ .ok true ∨ t.isValid ≠ .ok true →
      ∀ operator ∈ [lt, le, eq, ne, ge, gt],
        ∃ what, operator s t = .error ⟨.invalidArgument, what⟩)

/-- A date that is not valid is refused by every operator. -/
theorem operator_invalid
    [Raising] {s t : NaiveDate}
    (h : s.isValid ≠ .ok true ∨ t.isValid ≠ .ok true)
    {operator : NaiveDate → NaiveDate → Except StdException Bool}
    (hmem : operator ∈ [lt, le, eq, ne, ge, gt]) :
    operator s t = .error (Raising.raised .invalidArgument "Can't compare invalid date") := by
  have hfalse (u : NaiveDate) (hu : u.isValid ≠ .ok true) : u.isValid = .ok false := by
    rw [isValid, valid_run] at hu ⊢
    rw [Ne, Except.ok.injEq, Bool.not_eq_true] at hu
    rw [hu]
  have hinvalid := h.imp (hfalse s) (hfalse t)
  simp only [List.mem_cons, List.not_mem_nil, or_false] at hmem
  rcases hmem with rfl | rfl | rfl | rfl | rfl | rfl <;> exact compareBy_invalid hinvalid

theorem chronological_iff
    [Raising] {setUp : Prop}
    (hdeclares : Raising.DeclaresIf .invalidArgument setUp)
    (s t : NaiveDate) :
    Chronological ‹_› s t ↔ (s.isValid = .ok true ∧ t.isValid = .ok true) ∨ setUp := by
  have hdays (x y : ValidDate) (hx : x.1 = s) (hy : y.1 = t) :
      Compares s t x.days y.days ∧ Compares s t x y := by
    subst hx hy
    exact ⟨(x.compares y).map ValidDate.days_strictMono, x.compares y⟩
  constructor
  · rintro ⟨-, hrefuses⟩
    by_cases hvalid : s.isValid = .ok true ∧ t.isValid = .ok true
    · exact .inl hvalid
    · rw [not_and_or] at hvalid
      obtain ⟨what, hrun⟩ := hrefuses hvalid lt List.mem_cons_self
      rw [operator_invalid hvalid List.mem_cons_self] at hrun
      exact .inr ((hdeclares.iff _).mp ⟨what, Except.error.inj hrun⟩)
  · intro hgood
    refine ⟨hdays, fun hinvalid operator hmem => ?_⟩
    have hsetUp := hgood.resolve_left (not_and_or.mpr hinvalid)
    obtain ⟨what, hraised⟩ := (hdeclares.iff "Can't compare invalid date").mpr hsetUp
    exact ⟨what, by rw [operator_invalid hinvalid hmem, hraised]⟩

/-- **The comparison of dates is chronological** for valid dates, and for others exactly if
the logger is set up. -/
theorem comparison_chronological_iff
    (calls : List Logger.ConfigCall) (now : Now) (here : Site) (s t : NaiveDate) :
    Chronological (.ofLogger (Logger.configured calls) now here) s t ↔
      (s.isValid = .ok true ∧ t.isValid = .ok true) ∨
        (Logger.configured calls).SetUp here :=
  @chronological_iff (.ofLogger (Logger.configured calls) now here) _
    (Logger.raised_kind_iff (by decide)) s t

/-- The check of `operator<`. -/
def lessSite : Site where
  file := ⟨literal "src/NaiveDate.cpp", by decide⟩
  line := 140

/-- With a new logger a date that is not set is refused with another exception. -/
theorem comparison_without_logger :
    @lt (.ofLogger (Logger.configured []) Logger.checkNow lessSite) init ⟨31, 12, 2025⟩ =
      .error ⟨.logicError, "Asked to log to stream, but stream is NULL"⟩ ∧
    ¬ Chronological (.ofLogger (Logger.configured []) Logger.checkNow lessSite) init
      ⟨31, 12, 2025⟩ := by
  have hinvalid : init.isValid ≠ .ok true := by decide
  have hrun :
      @lt (.ofLogger (Logger.configured []) Logger.checkNow lessSite) init ⟨31, 12, 2025⟩ =
        .error ⟨.logicError, "Asked to log to stream, but stream is NULL"⟩ := by
    refine (@operator_invalid (.ofLogger (Logger.configured []) Logger.checkNow lessSite) _ _
      (.inl hinvalid) _ List.mem_cons_self).trans ?_
    rw [Logger.raised_init]
  refine ⟨hrun, fun h => ?_⟩
  obtain ⟨what, hpromised⟩ := h.2 (.inl hinvalid) _ List.mem_cons_self
  cases hrun.symm.trans hpromised

end NaiveDate
end Bren
end Brenlib
