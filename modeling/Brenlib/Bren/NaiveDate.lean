import Brenlib.Base.Gregorian
import Brenlib.Bren.StdNumbers

/-!
# `NaiveDate`: a date without a time zone

The model follows `hdr/bren/NaiveDate.hpp` and `src/NaiveDate.cpp`.  Day and month are
`uint8_t`, the year is a `uint16_t`, and 0 stands for a part that is not set.

* `days`, `leap_`, `valid`: the length of a month, the leap rule and the validity of a
  date.
* `parse`: `iso8601(date_i)`.

**Results.**  `days` gives May 30 days.  All other lengths are those of the Gregorian
calendar (`days_run`), and so the 31st of May is the only date that `valid` and
`iso8601` do not know (`valid_run`, `parse_isoText`, `gregorian_iff`).
-/

namespace Brenlib
namespace Bren

open Gregorian

structure NaiveDate where
  day_ : UInt8
  month_ : UInt8
  year_ : UInt16
deriving DecidableEq, Repr

namespace NaiveDate

/-- `NaiveDate()`. -/
def init : NaiveDate :=
  { day_ := 0, month_ := 0, year_ := 0 }

def leap_ (year_i : UInt16) : Bool :=
  if year_i % 400 = 0 then true
  else if year_i % 100 = 0 then false
  else year_i % 4 = 0

def days (year_i : UInt16) (month_i : UInt8) : Except StdException UInt8 := do
  if ¬ (0 < month_i ∧ month_i ≤ 12) then
    throw ⟨.invalidArgument, s!"Given month {month_i.toNat} should be between 1 and 12"⟩
  if month_i = 2 then
    if leap_ year_i then return 29
    else return 28
  else if month_i = 4 ∨ month_i = 6 ∨ month_i = 5 ∨ month_i = 9 ∨ month_i = 11 then
    return 30
  else
    return 31

/-- `valid(year_i, month_i, day_i)`. -/
def valid (year_i : UInt16) (month_i day_i : UInt8) : Except StdException Bool := do
  if year_i < 1900 ∨ month_i < 1 ∨ 12 < month_i ∨ day_i = 0 then
    return false
  let length ← days year_i month_i
  return day_i ≤ length

/-- `valid()`. -/
def isValid (s : NaiveDate) : Except StdException Bool :=
  valid s.year_ s.month_ s.day_

/-- `iso8601(date_i)`. -/
def parse [Raising] (date_i : Bytes) : EStateM StdException NaiveDate Unit := do
  fcet (date_i.length = 10) .invalidArgument
    (s!"ISO8601 date '" ++ date_i.text ++
      s!"' is not exactly 10 characters long, but {date_i.length}")
  let year ← ofExcept (stoi ((date_i.drop 0).take 4))
  fcet (1900 ≤ year ∧ year ≤ 65535) .invalidArgument
    "Year not between 1900 and the max for uint16_t (65535)"
  let mon ← ofExcept (stoi ((date_i.drop 5).take 2))
  fcet (1 ≤ mon ∧ mon ≤ 12) .invalidArgument "Month not between 1 and 12"
  let day ← ofExcept (stoi ((date_i.drop 8).take 2))
  fcet (1 ≤ day ∧ day ≤ 31) .invalidArgument "Day of month not between 1 and 31"
  let known ← ofExcept (valid (UInt16.ofInt year) (UInt8.ofInt mon) (UInt8.ofInt day))
  fcet (known = true) .invalidArgument (s!"Date '" ++ date_i.text ++ s!"' is not valid.")
  set ({ day_ := UInt8.ofInt day, month_ := UInt8.ofInt mon,
         year_ := UInt16.ofInt year } : NaiveDate)

section Calendar

theorem leap_iff
    (year : UInt16) :
    leap_ year = true ↔ IsLeap year.toNat := by
  have hmod (n : UInt16) : year % n = 0 ↔ year.toNat % n.toNat = 0 := by
    rw [← UInt16.toNat_inj, UInt16.toNat_mod]
    rfl
  have h4 : year % 4 = 0 ↔ year.toNat % 4 = 0 := hmod 4
  have h100 : year % 100 = 0 ↔ year.toNat % 100 = 0 := hmod 100
  have h400 : year % 400 = 0 ↔ year.toNat % 400 = 0 := hmod 400
  unfold leap_ IsLeap
  simp only [h4, h100, h400]
  split_ifs with hfour hhundred
  · simp only [true_iff]
    omega
  · simp only [false_iff]
    omega
  · rw [decide_eq_true_eq]
    omega

/-- `days` gives the length of the month, but May has 30 days. -/
theorem days_run
    (year : UInt16) {month : UInt8}
    (h : 1 ≤ month.toNat ∧ month.toNat ≤ 12) :
    ∃ length : UInt8,
      days year month = .ok length ∧
      length.toNat = if month.toNat = 5 then 30 else daysInMonth year.toNat month.toNat := by
  obtain ⟨n, hn⟩ : ∃ n, month.toNat = n := ⟨_, rfl⟩
  have hmonth : month = UInt8.ofNat n := by rw [← hn, UInt8.ofNat_toNat]
  rw [hn] at h ⊢
  subst hmonth
  clear hn
  obtain ⟨hlow, hhigh⟩ := h
  by_cases htwo : n = 2
  · subst htwo
    have hleap := leap_iff year
    cases hcase : leap_ year with
    | true =>
        refine ⟨29, by simp [days, hcase, pure, Except.pure], ?_⟩
        simp [daysInMonth, monthLengths, hleap.mp hcase]
    | false =>
        refine ⟨28, by simp [days, hcase, pure, Except.pure], ?_⟩
        have hno : ¬ IsLeap year.toNat := by
          rw [← hleap, hcase]
          exact Bool.false_ne_true
        simp [daysInMonth, monthLengths, hno]
  · interval_cases n
    case neg.«2» => exact absurd rfl htwo
    all_goals exact ⟨_, rfl, rfl⟩

/-- The 31st of May is the only date from 1900 on that is not valid. -/
theorem valid_run
    (year : UInt16) (month day : UInt8) :
    valid year month day =
      .ok (decide (1900 ≤ year.toNat ∧ IsDate year.toNat month.toNat day.toNat ∧
        ¬ (month.toNat = 5 ∧ day.toNat = 31))) := by
  have hyear : year < 1900 ↔ year.toNat < 1900 := UInt16.lt_iff_toNat_lt
  have hlow : month < 1 ↔ month.toNat < 1 := UInt8.lt_iff_toNat_lt
  have hhigh : 12 < month ↔ 12 < month.toNat := UInt8.lt_iff_toNat_lt
  have hzero : day = 0 ↔ day.toNat = 0 := UInt8.toNat_inj.symm
  unfold valid
  simp only [hyear, hlow, hhigh, hzero]
  split_ifs with hbad
  · rw [decide_eq_false]
    · rfl
    · rintro ⟨hfrom, hdate, -⟩
      have hpos := hdate.1
      have hmonth := hdate.month
      omega
  · have hmonth : 1 ≤ month.toNat ∧ month.toNat ≤ 12 := by omega
    obtain ⟨length, hdays, hlength⟩ := days_run year hmonth
    have hbound := (daysInMonth_bounds year.toNat hmonth).2
    have hmay : month.toNat = 5 → daysInMonth year.toNat month.toNat = 31 := by
      intro hfive
      rw [hfive]
      rfl
    rw [hdays]
    refine congrArg Except.ok (decide_eq_decide.mpr ?_)
    rw [UInt8.le_iff_toNat_le, hlength]
    unfold IsDate
    split_ifs with hfive
    · have hlong := hmay hfive
      omega
    · omega

/-- The lengths of the months of a year together. -/
def yearDays (year : UInt16) : Except StdException Nat := do
  let lengths ← [1, 2, 3, 4, 5, 6, 7, 8, 9, 10, 11, 12].mapM (days year)
  return (lengths.map UInt8.toNat).sum

/-- They are one day short. -/
theorem yearDays_run
    (year : UInt16) :
    yearDays year = .ok (yearLength year.toNat - 1) := by
  have hfeb : days year 2 = .ok (if leap_ year then 29 else 28) := by
    cases hcase : leap_ year <;> simp [days, hcase, pure, Except.pure]
  have hleap := leap_iff year
  unfold yearDays yearLength
  simp only [List.mapM_cons, hfeb, ← hleap]
  cases leap_ year <;> rfl

end Calendar

section Text

/-- The last decimal digits of a number. -/
def digits : Nat → Nat → Bytes
  | 0, _ => []
  | width + 1, n => digits width (n / 10) ++ [UInt8.ofNat (0x30 + n % 10)]

@[simp] theorem length_digits
    (width n : Nat) :
    (digits width n).length = width := by
  induction width generalizing n with
  | zero =>
      rfl
  | succ width ih =>
      rw [digits, List.length_append, ih]
      rfl

theorem toNat_digit
    (n : Nat) :
    (UInt8.ofNat (0x30 + n % 10)).toNat = 0x30 + n % 10 :=
  UInt8.toNat_ofNat_of_lt' (show 0x30 + n % 10 < 256 by omega)

theorem isDigit_of_mem_digits
    {width n : Nat} {c : Byte}
    (h : c ∈ digits width n) :
    isDigit c := by
  induction width generalizing n with
  | zero =>
      cases h
  | succ width ih =>
      rw [digits, List.mem_append, List.mem_singleton] at h
      rcases h with hmem | rfl
      · exact ih hmem
      · unfold isDigit
        rw [UInt8.le_iff_toNat_le, UInt8.le_iff_toNat_le, toNat_digit]
        change 48 ≤ _ ∧ _ ≤ 57
        omega

theorem digitsValue_digits
    (width n : Nat) :
    digitsValue (digits width n) = n % 10 ^ width := by
  induction width generalizing n with
  | zero =>
      rw [Nat.pow_zero, Nat.mod_one]
      rfl
  | succ width ih =>
      rw [digits, digitsValue, List.foldl_append]
      change 10 * digitsValue (digits width (n / 10)) + _ = _
      rw [ih, toNat_digit, Nat.pow_succ', Nat.mod_mul]
      omega

/-- The date in the form YYYY-MM-DD. -/
def isoText (D : Date) : Bytes :=
  digits 4 D.year ++ [0x2D] ++ digits 2 D.month ++ [0x2D] ++ digits 2 D.day

example : isoText ⟨2025, 11, 1, by decide⟩ = literal "2025-11-01" := by decide

/-- The object that holds a date. -/
def ofDate (D : Date) : NaiveDate :=
  { day_ := UInt8.ofNat D.day, month_ := UInt8.ofNat D.month, year_ := UInt16.ofNat D.year }

theorem stoi_digits
    {width n : Nat}
    (hwidth : 0 < width)
    (hfits : n < 10 ^ width)
    (hsmall : n < 2 ^ 31) :
    stoi (digits width n) = .ok (n : Int) := by
  have hvalue : digitsValue (digits width n) = n := by
    rw [digitsValue_digits, Nat.mod_eq_of_lt hfits]
  have hne : digits width n ≠ [] := by
    intro h
    have hlen := length_digits width n
    rw [h] at hlen
    exact absurd hlen (Nat.ne_of_lt hwidth)
  rw [stoi_run hne (fun c hc => isDigit_of_mem_digits hc) (by rw [hvalue]; exact hsmall),
    hvalue]

/-- A date of four digits for the year is read back, but for the 31st of May. -/
theorem parse_isoText
    (s : NaiveDate) {D : Date}
    (hfrom : 1900 ≤ D.year)
    (hto : D.year ≤ 9999) :
    (parse (isoText D)).run s =
      if D.month = 5 ∧ D.day = 31 then
        .error ⟨.invalidArgument, s!"Date '" ++ (isoText D).text ++ s!"' is not valid."⟩ s
      else .ok () (ofDate D) := by
  have hmonth := D.isDate.month
  have hbound := (daysInMonth_bounds D.year hmonth).2
  have hpos := D.isDate.1
  have hday := D.isDate.2
  have hyear : ((isoText D).drop 0).take 4 = digits 4 D.year := by
    simp [isoText, digits]
  have hmon : ((isoText D).drop 5).take 2 = digits 2 D.month := by
    simp [isoText, digits]
  have hdays : ((isoText D).drop 8).take 2 = digits 2 D.day := by
    simp [isoText, digits]
  have hlength : (isoText D).length = 10 := by
    simp [isoText]
  have hknown : valid (UInt16.ofInt D.year) (UInt8.ofInt D.month) (UInt8.ofInt D.day) =
      .ok (decide (¬ (D.month = 5 ∧ D.day = 31))) := by
    rw [ofInt_uint16, ofInt_uint8, ofInt_uint8, valid_run,
      UInt16.toNat_ofNat_of_lt' (show _ < 65536 by omega),
      UInt8.toNat_ofNat_of_lt' (show _ < 256 by omega),
      UInt8.toNat_ofNat_of_lt' (show _ < 256 by omega)]
    exact congrArg Except.ok (decide_eq_decide.mpr ⟨fun h => h.2.2, fun h => ⟨hfrom, D.isDate, h⟩⟩)
  unfold parse
  rw [run_bind_ok (fcet_run hlength _ _ s), hyear,
    stoi_digits (by decide) (by omega) (by omega), run_bind_ok (run_ofExcept _ s),
    run_bind_ok (fcet_run (by omega) _ _ s), hmon,
    stoi_digits (by decide) (by omega) (by omega), run_bind_ok (run_ofExcept _ s),
    run_bind_ok (fcet_run (by omega) _ _ s), hdays,
    stoi_digits (by decide) (by omega) (by omega), run_bind_ok (run_ofExcept _ s),
    run_bind_ok (fcet_run (by omega) _ _ s), hknown, run_bind_ok (run_ofExcept _ s)]
  split_ifs with hmay
  · rw [run_bind_error (fcet_run_throws (by simp [hmay]) _ _ s)]
  · rw [run_bind_ok (fcet_run (by simp [hmay]) _ _ s), ofInt_uint16, ofInt_uint8, ofInt_uint8]
    rfl

end Text

/-- **The Gregorian calendar with one day less.**  A date is judged rightly exactly when
it is not the 31st of May, no year has its length, and the texts of all other dates are
accepted. -/
theorem gregorian_iff
    (year : UInt16) (month day : UInt8) (s : NaiveDate) (D : Date) :
    (valid year month day =
        .ok (decide (1900 ≤ year.toNat ∧ IsDate year.toNat month.toNat day.toNat)) ↔
      ¬ (1900 ≤ year.toNat ∧ month.toNat = 5 ∧ day.toNat = 31)) ∧
    yearDays year ≠ .ok (yearLength year.toNat) ∧
    (1900 ≤ D.year → D.year ≤ 9999 →
      ((∃ t, (parse (isoText D)).run s = .ok () t) ↔ ¬ (D.month = 5 ∧ D.day = 31))) := by
  refine ⟨?_, ?_, ?_⟩
  · rw [valid_run, Except.ok.injEq, decide_eq_decide]
    have hmay : IsDate year.toNat 5 31 := ⟨by decide, Nat.le_refl 31⟩
    constructor
    · rintro h ⟨hfrom, hmonth, hday⟩
      rw [hmonth, hday] at h
      exact (h.mpr ⟨hfrom, hmay⟩).2.2 ⟨rfl, rfl⟩
    · intro h
      exact ⟨fun hv => ⟨hv.1, hv.2.1⟩, fun hv => ⟨hv.1, hv.2, fun hlast => h ⟨hv.1, hlast⟩⟩⟩
  · intro heq
    rw [yearDays_run, Except.ok.injEq] at heq
    have hpos : 365 ≤ yearLength year.toNat := by
      unfold yearLength
      split_ifs <;> decide
    omega
  · intro hfrom hto
    rw [parse_isoText s hfrom hto]
    split_ifs with hmay
    · simp [hmay]
    · simp [hmay]

/-- The leap day of 2024 is accepted. -/
theorem gregorian_leap_day :
    valid 2024 2 29 = .ok true ∧
      ∃ t, (parse (isoText ⟨2024, 2, 29, by decide⟩)).run init = .ok () t := by
  obtain ⟨hvalid, -, hparse⟩ := gregorian_iff 2024 2 29 init ⟨2024, 2, 29, by decide⟩
  refine ⟨?_, (hparse (by decide) (by decide)).mpr (by decide)⟩
  rw [hvalid.mpr (by decide)]
  decide

/-- The 31st of May 2025 is a day of the calendar that is refused. -/
theorem last_of_may_refused :
    IsDate 2025 5 31 ∧ valid 2025 5 31 = .ok false ∧
      yearDays 2025 = .ok 364 ∧ yearLength 2025 = 365 ∧
      answerOf ((parse (literal "2025-05-31")).run init) = .error .invalidArgument := by
  refine ⟨by decide, by decide, by decide, by decide, ?_⟩
  decide +kernel

end NaiveDate
end Bren
end Brenlib
