import Brenlib.Base.Lexicographic
import Brenlib.Bren.NaiveDateOrder
import Brenlib.Bren.NaiveDateText
import Brenlib.Bren.NaiveTimeOrder

/-!
# Texts of times and dates as sort keys

`operator std::string` of `NaiveTime` and `iso8601()` of `NaiveDate` fill columns of fixed
widths with zeros.  Strings are ordered by the codes of their characters.

**Results.**  The texts of two times are ordered as the operators order the times, and so are
the texts of two dates as long as their years have four digits (`texts_sorted`).
-/

namespace Brenlib
namespace Bren

open Gregorian Lexicographic

section Columns

/-- The characters as `unsigned char`s, by which `std::string` orders them. -/
def codes (s : Bytes) : List Nat :=
  s.map UInt8.toNat

theorem numeral_codes
    (ds : Bytes) :
    numeral 10 48 (codes ds) = digitsValue ds :=
  List.foldl_map

theorem areDigits_codes
    {ds : Bytes}
    (h : ∀ c ∈ ds, isDigit c) :
    AreDigits 10 48 (codes ds) := by
  intro n hn
  obtain ⟨c, hc, rfl⟩ := List.mem_map.mp hn
  have hdigit := isDigit_iff.mp (h c hc)
  omega

/-- Two texts that begin with a column of one width. -/
theorem column_lt_iff
    {width a b : Nat} {rest rest' : Bytes}
    (hpos : 0 < width)
    (ha : a < 10 ^ width)
    (hb : b < 10 ^ width) :
    codes (zeroPadded width a ++ rest) < codes (zeroPadded width b ++ rest') ↔
      a < b ∨ a = b ∧ codes rest < codes rest' := by
  have hwidth : (codes (zeroPadded width a)).length = (codes (zeroPadded width b)).length := by
    rw [codes, codes, List.length_map, List.length_map, length_zeroPadded hpos ha,
      length_zeroPadded hpos hb]
  have hdigits (n : Nat) : AreDigits 10 48 (codes (zeroPadded width n)) :=
    areDigits_codes fun _ hc => isDigit_of_mem_zeroPadded hc
  have hvalue (n : Nat) : numeral 10 48 (codes (zeroPadded width n)) = n := by
    rw [numeral_codes, digitsValue_zeroPadded]
  have hcolumn : codes (zeroPadded width a) = codes (zeroPadded width b) ↔ a = b := by
    refine ⟨fun h => ?_, fun h => by rw [h]⟩
    rw [← hvalue a, h, hvalue b]
  have happend (u v : Bytes) : codes (u ++ v) = codes u ++ codes v := List.map_append
  rw [happend, happend, append_lt_append_iff hwidth, hcolumn,
    numeral_lt_iff hwidth (hdigits a) (hdigits b), hvalue, hvalue]

/-- The last column. -/
theorem last_column_lt_iff
    {width a b : Nat}
    (hpos : 0 < width)
    (ha : a < 10 ^ width)
    (hb : b < 10 ^ width) :
    codes (zeroPadded width a) < codes (zeroPadded width b) ↔ a < b := by
  have h : codes (zeroPadded width a ++ []) < codes (zeroPadded width b ++ []) ↔
      a < b ∨ a = b ∧ codes [] < codes [] :=
    column_lt_iff hpos ha hb
  rw [List.append_nil, List.append_nil] at h
  rw [h]
  simp

theorem separator_lt_iff
    (separator : Byte) {rest rest' : Bytes} :
    codes ([separator] ++ rest) < codes ([separator] ++ rest') ↔ codes rest < codes rest' :=
  cons_lt_cons_self_iff

end Columns

theorem clockText_lt_iff
    {h h' m m' : Nat}
    (hh : h < 24) (hh' : h' < 24)
    (hm : m < 60) (hm' : m' < 60) :
    codes (NaiveTime.clockText h m) < codes (NaiveTime.clockText h' m') ↔
      h * 60 + m < h' * 60 + m' := by
  have hcolon : literal ":" = [0x3A] := by decide
  rw [NaiveTime.clockText, NaiveTime.clockText, hcolon, List.append_assoc, List.append_assoc,
    column_lt_iff (by decide) (by omega) (by omega), separator_lt_iff,
    last_column_lt_iff (by decide) (by omega) (by omega)]
  omega

theorem dateText_lt_iff
    {y y' m m' d d' : Nat}
    (hy : y < 10000) (hy' : y' < 10000)
    (hm : m < 100) (hm' : m' < 100)
    (hd : d < 100) (hd' : d' < 100) :
    codes (NaiveDate.dateText y m d) < codes (NaiveDate.dateText y' m' d') ↔
      y < y' ∨ y = y' ∧ (m < m' ∨ m = m' ∧ d < d') := by
  have hhyphen : literal "-" = [0x2D] := by decide
  simp only [NaiveDate.dateText, hhyphen, List.append_assoc]
  rw [column_lt_iff (by decide) hy hy', separator_lt_iff, column_lt_iff (by decide) hm hm',
    separator_lt_iff, last_column_lt_iff (by decide) hd hd']

/-- A map that keeps the order of the two values keeps the answers. -/
theorem NaiveDate.Compares.of_lt_iff
    {α β : Type} [LinearOrder α] [LinearOrder β]
    {s t : NaiveDate} {a b : α} {a' b' : β}
    (h : NaiveDate.Compares s t a b)
    (hlt : a' < b' ↔ a < b)
    (hgt : b' < a' ↔ b < a) :
    NaiveDate.Compares s t a' b' := by
  have hle : a' ≤ b' ↔ a ≤ b := by rw [← not_lt, hgt, not_lt]
  have hge : b' ≤ a' ↔ b ≤ a := by rw [← not_lt, hlt, not_lt]
  have heq : a' = b' ↔ a = b := by rw [le_antisymm_iff, hle, hge, ← le_antisymm_iff]
  constructor
  · simp only [hlt, h.lt]
  · simp only [hle, h.le]
  · simp only [heq, h.eq]
  · simp only [ne_eq, heq, h.ne]
  · simp only [ge_iff_le, hge, h.ge]
  · simp only [gt_iff_lt, hgt, h.gt]

theorem ValidTime.text_sorted
    (x y : ValidTime) :
    ∃ a b, x.1.text = .ok a ∧ y.1.text = .ok b ∧
      NaiveTime.Compares x.1 y.1 (codes a) (codes b) := by
  have hlt (x y : ValidTime) :
      codes (NaiveTime.clockText x.1.hour_.toNat x.1.min_.toNat) <
          codes (NaiveTime.clockText y.1.hour_.toNat y.1.min_.toNat) ↔
        x.1.minutes < y.1.minutes := by
    obtain ⟨hh, hm⟩ := NaiveTime.valid_iff.mp x.2
    obtain ⟨hh', hm'⟩ := NaiveTime.valid_iff.mp y.2
    exact clockText_lt_iff hh hh' hm hm'
  exact ⟨_, _, NaiveTime.text_run x.2, NaiveTime.text_run y.2,
    (NaiveTime.compares_minutes x y).map (hlt x y) (hlt y x)⟩

theorem ValidDate.text_sorted
    (x y : ValidDate)
    (hx : x.1.year_.toNat ≤ 9999)
    (hy : y.1.year_.toNat ≤ 9999) :
    ∃ a b, x.1.render = .ok a ∧ y.1.render = .ok b ∧
      NaiveDate.Compares x.1 y.1 (codes a) (codes b) := by
  have hparts (x : ValidDate) : x.1.month_.toNat < 100 ∧ x.1.day_.toNat < 100 := by
    have hmonth := x.isDate.2.month
    have hbound := (daysInMonth_bounds x.1.year_.toNat hmonth).2
    have hday := x.isDate.2.2
    omega
  have hlt (x y : ValidDate) (hx : x.1.year_.toNat ≤ 9999) (hy : y.1.year_.toNat ≤ 9999) :
      codes (NaiveDate.dateText x.1.year_.toNat x.1.month_.toNat x.1.day_.toNat) <
          codes (NaiveDate.dateText y.1.year_.toNat y.1.month_.toNat y.1.day_.toNat) ↔
        x.date < y.date := by
    rw [dateText_lt_iff (by omega) (by omega) (hparts x).1 (hparts y).1 (hparts x).2 (hparts y).2,
      Date.lt_iff]
    rfl
  exact ⟨_, _, NaiveDate.render_run (NaiveDate.initialized_of_isValid x.2),
    NaiveDate.render_run (NaiveDate.initialized_of_isValid y.2),
    (x.compares_date y).of_lt_iff (hlt x y hx hy) (hlt y x hy hx)⟩

/-- **Texts are sorted like what they say.** -/
theorem texts_sorted :
    (∀ x y : ValidTime, ∃ a b, x.1.text = .ok a ∧ y.1.text = .ok b ∧
      NaiveTime.Compares x.1 y.1 (codes a) (codes b)) ∧
    ∀ x y : ValidDate, x.1.year_.toNat ≤ 9999 → y.1.year_.toNat ≤ 9999 →
      ∃ a b, x.1.render = .ok a ∧ y.1.render = .ok b ∧
        NaiveDate.Compares x.1 y.1 (codes a) (codes b) :=
  ⟨ValidTime.text_sorted, ValidDate.text_sorted⟩

/-- A year of five digits is sorted in front of 1900. -/
example : codes (NaiveDate.dateText 10000 1 1) < codes (NaiveDate.dateText 1900 1 1) := by
  decide

end Bren
end Brenlib
