import Brenlib.Bren.NaiveDate

/-!
# The weekday of a `NaiveDate`

`weekday` converts noon of the date, as local time, to an epoch value with `mktime` and
reads the weekday of that epoch value from `gmtime`, which is the weekday in UTC.  The
two functions of libc are parameters.  `KeepsZone` is what they promise in a zone with a
constant offset.

**Results.**  Noon of the date falls on the same day in UTC for offsets up to twelve
hours to the east and less than twelve hours to the west (`weekday_run`).  Further to the
east it falls on the day before (`weekday_run_before`), and twelve hours to the west on
the day after (`weekday_run_after`), so `weekday` is right exactly between these bounds
(`weekday_iff`).
-/

namespace Brenlib
namespace Bren

open Gregorian

/-- `std::tm`. -/
structure Tm where
  tm_sec : Int
  tm_min : Int
  tm_hour : Int
  tm_mday : Int
  tm_mon : Int
  tm_year : Int
  tm_wday : Int
  tm_yday : Int
  tm_isdst : Int
deriving DecidableEq, Repr

/-- The functions of libc that convert times. -/
structure Libc where
  /-- Local time to the seconds of the epoch. -/
  mktime : Tm → Int
  /-- The seconds of the epoch to UTC. -/
  gmtime : Int → Tm

/-- The days of the week.  A number cast to this type need not be one of them. -/
abbrev weekday_t := UInt8

namespace weekday_t

def Sun : weekday_t := 0
def Mon : weekday_t := 1
def Tue : weekday_t := 2
def Wed : weekday_t := 3
def Thu : weekday_t := 4
def Fri : weekday_t := 5
def Sat : weekday_t := 6

end weekday_t

namespace NaiveDate

def weekday (libc : Libc) (s : NaiveDate) : Except StdException weekday_t := do
  let known ← s.isValid
  if ¬ known then
    throw ⟨.logicError, "Internal date not valid"⟩
  let bdt : Tm :=
    { tm_year := s.year_.toNat - 1900, tm_mon := s.month_.toNat - 1, tm_mday := s.day_.toNat,
      tm_hour := 12, tm_min := 0, tm_sec := 0, tm_isdst := -1, tm_wday := 0, tm_yday := 0 }
  let epoch := libc.mktime bdt
  return UInt8.ofInt (libc.gmtime epoch).tm_wday

end NaiveDate

section Zone

/-- The first day of the epoch. -/
def unixEpoch : Date :=
  ⟨1970, 1, 1, by decide⟩

example : unixEpoch.weekday = weekday_t.Thu.toNat := by decide +kernel

/-- The civil seconds from the start of the epoch to the start of a day. -/
def midnight (D : Date) : Int :=
  ((D.dayNumber : Int) - unixEpoch.dayNumber) * 86400

theorem midnight_next
    (D : Date) :
    midnight D.next = midnight D + 86400 := by
  unfold midnight
  rw [D.dayNumber_next]
  push_cast
  ring

/-- A time of a day that libc is to convert. -/
def brokenDown (D : Date) (hour min sec : Int) : Tm :=
  { tm_year := D.year - 1900, tm_mon := D.month - 1, tm_mday := D.day,
    tm_hour := hour, tm_min := min, tm_sec := sec, tm_isdst := -1, tm_wday := 0, tm_yday := 0 }

/-- What libc promises in a zone whose offset from UTC is constant. -/
structure Libc.KeepsZone (libc : Libc) (offset : Int) : Prop where
  /-- The civil seconds since 1970-01-01, less the offset. -/
  mktime_local : ∀ (D : Date) (hour min sec : Int),
    1900 ≤ D.year → 0 ≤ hour → hour < 24 → 0 ≤ min → min < 60 → 0 ≤ sec → sec < 60 →
      libc.mktime (brokenDown D hour min sec) =
        midnight D + (hour * 3600 + min * 60 + sec) - offset
  /-- The weekday of the day in UTC. -/
  gmtime_wday : ∀ (D : Date) (t : Int),
    midnight D ≤ t → t < midnight D + 86400 → (libc.gmtime t).tm_wday = D.weekday

end Zone

namespace NaiveDate

/-- The date that is stored. -/
structure Holds (s : NaiveDate) (D : Date) : Prop where
  year : s.year_.toNat = D.year
  month : s.month_.toNat = D.month
  day : s.day_.toNat = D.day

theorem exists_holds
    {s : NaiveDate}
    (h : s.isValid = .ok true) :
    ∃ D : Date, s.Holds D ∧ 1900 ≤ D.year := by
  rw [isValid, valid_run, Except.ok.injEq, decide_eq_true_eq] at h
  obtain ⟨hfrom, hdate, -⟩ := h
  exact ⟨⟨_, _, _, hdate⟩, ⟨rfl, rfl, rfl⟩, hfrom⟩

section Weekday

variable {libc : Libc} {offset : Int} {s : NaiveDate} {D : Date}

/-- The weekday is that of the day in UTC on which noon falls. -/
theorem weekday_run
    (hlibc : libc.KeepsZone offset)
    (hvalid : s.isValid = .ok true)
    (hholds : s.Holds D)
    (hfrom : 1900 ≤ D.year)
    {E : Date}
    (hlow : midnight E ≤ midnight D + 43200 - offset)
    (hhigh : midnight D + 43200 - offset < midnight E + 86400) :
    s.weekday libc = .ok (UInt8.ofNat E.weekday) := by
  have hnoon := hlibc.mktime_local D 12 0 0 hfrom (by decide) (by decide) (by decide)
    (by decide) (by decide) (by decide)
  have hepoch : libc.mktime (brokenDown D 12 0 0) = midnight D + 43200 - offset := hnoon
  have hwday := hlibc.gmtime_wday E _ hlow hhigh
  unfold weekday
  rw [hvalid, hholds.year, hholds.month, hholds.day]
  change Except.ok (UInt8.ofInt (libc.gmtime (libc.mktime (brokenDown D 12 0 0))).tm_wday) = _
  rw [hepoch, hwday, ofInt_uint8]

/-- The days of the week are told apart. -/
theorem ofNat_weekday_ne
    {D E : Date}
    (h : D.weekday ≠ E.weekday) :
    UInt8.ofNat D.weekday ≠ UInt8.ofNat E.weekday := by
  have hlt (F : Date) : F.weekday < 256 :=
    Nat.lt_trans (Nat.mod_lt _ (by decide)) (by decide : 7 < 256)
  intro heq
  have hnat := congrArg UInt8.toNat heq
  rw [UInt8.toNat_ofNat_of_lt' (hlt D), UInt8.toNat_ofNat_of_lt' (hlt E)] at hnat
  exact h hnat

/-- More than twelve hours to the east, noon falls on the day before. -/
theorem weekday_run_before
    (hlibc : libc.KeepsZone offset)
    (hvalid : s.isValid = .ok true)
    (hholds : s.Holds D)
    (hfrom : 1900 ≤ D.year)
    (hlow : 43200 < offset)
    (hhigh : offset ≤ 129600) :
    ∃ E : Date, E.next = D ∧ s.weekday libc = .ok (UInt8.ofNat E.weekday) := by
  obtain ⟨E, rfl⟩ := D.exists_next_eq (D.dayNumber_pos (by omega))
  have hnext := midnight_next E
  exact ⟨E, rfl, weekday_run hlibc hvalid hholds hfrom (by omega) (by omega)⟩

/-- From twelve hours to the west on, noon falls on the day after. -/
theorem weekday_run_after
    (hlibc : libc.KeepsZone offset)
    (hvalid : s.isValid = .ok true)
    (hholds : s.Holds D)
    (hfrom : 1900 ≤ D.year)
    (hlow : -129600 < offset)
    (hhigh : offset ≤ -43200) :
    s.weekday libc = .ok (UInt8.ofNat D.next.weekday) := by
  have hnext := midnight_next D
  exact weekday_run hlibc hvalid hholds hfrom (by omega) (by omega)

/-- **The weekday of the date that is stored** is returned exactly in the zones less than
twelve hours to the west of UTC and up to twelve hours to the east. -/
theorem weekday_iff
    (hlibc : libc.KeepsZone offset)
    (hwest : -12 * 3600 ≤ offset)
    (heast : offset ≤ 14 * 3600)
    (hvalid : s.isValid = .ok true) :
    ∃ D : Date, s.Holds D ∧
      (s.weekday libc = .ok (UInt8.ofNat D.weekday) ↔
        -12 * 3600 < offset ∧ offset ≤ 12 * 3600) := by
  obtain ⟨D, hholds, hfrom⟩ := exists_holds hvalid
  refine ⟨D, hholds, ?_⟩
  constructor
  · intro h
    constructor
    · by_contra hafter
      rw [weekday_run_after hlibc hvalid hholds hfrom (by omega) (by omega),
        Except.ok.injEq] at h
      exact ofNat_weekday_ne D.weekday_next_ne h
    · by_contra hbefore
      obtain ⟨E, rfl, hrun⟩ :=
        weekday_run_before hlibc hvalid hholds hfrom (by omega) (by omega)
      rw [hrun, Except.ok.injEq] at h
      exact ofNat_weekday_ne E.weekday_next_ne.symm h
  · rintro ⟨hlow, hhigh⟩
    exact weekday_run hlibc hvalid hholds hfrom (by omega) (by omega)

end Weekday

end NaiveDate

section FixedZone

/-- The date with a day number. -/
def civil (n : Nat) : Date :=
  Date.next^[n] ⟨0, 1, 1, by decide⟩

theorem dayNumber_civil
    (n : Nat) :
    (civil n).dayNumber = n := by
  induction n with
  | zero =>
      rfl
  | succ n ih =>
      rw [civil, Function.iterate_succ_apply', Date.dayNumber_next]
      exact congrArg (· + 1) ih

/-- A libc in a zone with a fixed offset. -/
def Libc.fixed (offset : Int) : Libc where
  mktime := fun bdt =>
    let year := (bdt.tm_year + 1900).toNat
    let day := daysBeforeYear year + daysBeforeMonth year bdt.tm_mon.toNat + (bdt.tm_mday - 1)
    (day - unixEpoch.dayNumber) * 86400 +
      (bdt.tm_hour * 3600 + bdt.tm_min * 60 + bdt.tm_sec) - offset
  gmtime := fun t =>
    let D := civil (t / 86400 + unixEpoch.dayNumber).toNat
    { tm_sec := t % 60
      tm_min := t / 60 % 60
      tm_hour := t / 3600 % 24
      tm_mday := D.day
      tm_mon := D.month - 1
      tm_year := D.year - 1900
      tm_wday := D.weekday
      tm_yday := daysBeforeMonth D.year (D.month - 1) + D.day - 1
      tm_isdst := 0 }

theorem Libc.fixed_keepsZone
    (offset : Int) :
    (Libc.fixed offset).KeepsZone offset := by
  constructor
  · intro D hour min sec hfrom hhour hhour' hmin hmin' hsec hsec'
    have hpos := D.isDate.1
    have hmonth := D.isDate.month.1
    have hyear : ((D.year : Int) - 1900 + 1900).toNat = D.year := by omega
    have hmon : ((D.month : Int) - 1).toNat = D.month - 1 := by omega
    simp only [Libc.fixed, brokenDown, hyear, hmon, midnight, Date.dayNumber]
    push_cast [hpos]
    ring
  · intro D t hlow hhigh
    have hday : (t / 86400 + unixEpoch.dayNumber).toNat = D.dayNumber := by
      unfold midnight at hlow hhigh
      omega
    simp only [Libc.fixed, hday]
    rw [Date.weekday, dayNumber_civil]
    rfl

/-- 2025-11-01 is a Saturday, in UTC as well as in a zone twelve hours to the east. -/
theorem weekday_saturday :
    (∃ D : Date, (⟨1, 11, 2025⟩ : NaiveDate).Holds D ∧
      ((⟨1, 11, 2025⟩ : NaiveDate).weekday (Libc.fixed 43200) = .ok (UInt8.ofNat D.weekday) ↔
        -12 * 3600 < (43200 : Int) ∧ (43200 : Int) ≤ 12 * 3600)) :=
  NaiveDate.weekday_iff (Libc.fixed_keepsZone 43200) (by decide) (by decide) (by decide)

/-- Thirteen hours to the east 2025-11-01, a Saturday, is returned as a Friday. -/
theorem weekday_friday :
    (Libc.fixed (13 * 3600)).KeepsZone (13 * 3600) ∧
      (⟨2025, 11, 1, by decide⟩ : Date).weekday = weekday_t.Sat.toNat ∧
      (⟨1, 11, 2025⟩ : NaiveDate).weekday (Libc.fixed (13 * 3600)) = .ok weekday_t.Fri := by
  have hsat : (⟨2025, 11, 1, by decide⟩ : Date).weekday = 6 := by decide +kernel
  refine ⟨Libc.fixed_keepsZone _, hsat, ?_⟩
  obtain ⟨E, hnext, hrun⟩ := NaiveDate.weekday_run_before (s := ⟨1, 11, 2025⟩)
    (D := ⟨2025, 11, 1, by decide⟩) (Libc.fixed_keepsZone (13 * 3600)) (by decide)
    ⟨rfl, rfl, rfl⟩ (by decide) (by decide) (by decide)
  have hafter := E.weekday_next
  rw [hnext, hsat] at hafter
  have hfri : E.weekday = 5 := by
    have hlt : E.weekday < 7 := Nat.mod_lt _ (by decide)
    omega
  rw [hrun, hfri]
  rfl

end FixedZone

end Bren
end Brenlib
