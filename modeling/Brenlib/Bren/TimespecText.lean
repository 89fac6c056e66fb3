import Brenlib.Bren.StdNumbers
import Brenlib.Bren.TimespecOps

/-!
# The text of a `struct timespec`

`print` is `operator<<` of `src/timespecops.cpp` on a stream in its default format: the
two fields with a point between them, the nanoseconds filled up with zeros to nine
digits.

* `Denotes text x`: the decimal number in the text is the time of `x` nanoseconds.
* `Produced t`: the value is computed from values with their nanoseconds in place.

**Results.**  The sign of a negative time is in the seconds only.  In front of the point
it is read as the sign of the whole number, so the nanoseconds count the wrong way
(`print_denotes`): the text of a value that is produced denotes its time exactly where
the seconds are not negative or there are no nanoseconds (`printed_iff`).
-/

namespace Brenlib
namespace Bren

namespace Byte

/-- The minus sign. -/
def minus : Byte := 0x2D

/-- The decimal point. -/
def point : Byte := 0x2E

end Byte

namespace Timespec

/-- `std::setw(width) << std::setfill('0')` in front of a text. -/
def filled (width : Nat) (text : Bytes) : Bytes :=
  List.replicate (width - text.length) 0x30 ++ text

/-- `operator<<`. -/
def print (ts : Timespec) : Bytes :=
  decimal ts.tv_sec.toInt ++ Byte.point :: filled 9 (decimal ts.tv_nsec.toInt)

/-- A sign, the digits of the seconds, a point, and nine digits behind it. -/
structure DenotesAs
    (text : Bytes) (x : Int) (negative : Bool) (secs nanos : Bytes) : Prop where
  split : text = (if negative then [Byte.minus] else []) ++ (secs ++ Byte.point :: nanos)
  nonempty : secs ≠ []
  secs_digits : ∀ c ∈ secs, isDigit c
  nine : nanos.length = 9
  nanos_digits : ∀ c ∈ nanos, isDigit c
  value : x = (if negative then -1 else 1) * (digitsValue secs * 10 ^ 9 + digitsValue nanos)

/-- The text is a decimal number that stands for the given nanoseconds. -/
def Denotes (text : Bytes) (x : Int) : Prop :=
  ∃ negative secs nanos, DenotesAs text x negative secs nanos

section Text

variable {text : Bytes} {x y : Int} {t a b : Timespec}

theorem point_not_mem
    {ds : Bytes}
    (h : ∀ c ∈ ds, isDigit c) :
    Byte.point ∉ ds :=
  fun hmem => absurd (h _ hmem) (by decide)

theorem minus_ne_of_digits
    {ds : Bytes}
    (hne : ds ≠ [])
    (h : ∀ c ∈ ds, isDigit c)
    (rest : Bytes) :
    (ds ++ rest).head? ≠ some Byte.minus := by
  obtain ⟨c, ds, rfl⟩ := List.exists_cons_of_ne_nil hne
  intro hhead
  obtain rfl := Option.some.inj hhead
  exact absurd (h _ List.mem_cons_self) (by decide)

/-- A text denotes one number. -/
theorem Denotes.unique
    (h : Denotes text x)
    (h' : Denotes text y) :
    x = y := by
  obtain ⟨negative, secs, nanos, h⟩ := h
  obtain ⟨negative', secs', nanos', h'⟩ := h'
  have hsplit := h.split.symm.trans h'.split
  have hhead := minus_ne_of_digits h.nonempty h.secs_digits (Byte.point :: nanos)
  have hhead' := minus_ne_of_digits h'.nonempty h'.secs_digits (Byte.point :: nanos')
  -- the sign is that of the first byte
  obtain rfl : negative = negative' := by
    cases negative with
    | true =>
        cases negative' with
        | true => rfl
        | false => exact absurd (congrArg List.head? hsplit).symm hhead'
    | false =>
        cases negative' with
        | true => exact absurd (congrArg List.head? hsplit) hhead
        | false => rfl
  obtain ⟨rfl, rfl⟩ := append_cons_inj (point_not_mem h.secs_digits)
    (point_not_mem h'.secs_digits) (List.append_cancel_left hsplit)
  rw [h.value, h'.value]

/-- The nanoseconds that the text of a value stands for. -/
def printed (t : Timespec) : Int :=
  if 0 ≤ t.tv_sec.toInt then t.total
  else t.tv_sec.toInt * 10 ^ 9 - t.tv_nsec.toInt

theorem print_denotes
    (h : Normal t) :
    Denotes (print t) (printed t) := by
  obtain ⟨h0, h1⟩ := h
  obtain ⟨n, hn⟩ := Int.eq_ofNat_of_zero_le h0
  rw [hn] at h1
  have hnanos : filled 9 (decimal t.tv_nsec.toInt) = zeroPadded 9 n := by
    rw [hn]
    rfl
  have hnine : (zeroPadded 9 n).length = 9 :=
    length_zeroPadded (by decide) (show n < 10 ^ 9 by omega)
  unfold print printed total
  rw [hnanos, hn]
  by_cases hsign : 0 ≤ t.tv_sec.toInt
  · obtain ⟨s, hs⟩ := Int.eq_ofNat_of_zero_le hsign
    rw [if_pos hsign, hs]
    refine ⟨false, decimal s, zeroPadded 9 n, rfl, decimal_ne_nil s,
      fun c hc => isDigit_of_mem_decimal hc, hnine,
      fun c hc => isDigit_of_mem_zeroPadded hc, ?_⟩
    rw [digitsValue_decimal, digitsValue_zeroPadded]
    exact (Int.one_mul _).symm
  · obtain ⟨s, hs⟩ := Int.eq_ofNat_of_zero_le (show 0 ≤ -t.tv_sec.toInt by omega)
    obtain hs : t.tv_sec.toInt = -(s : Int) := by omega
    rw [if_neg hsign, hs, decimal_neg (by omega)]
    refine ⟨true, decimal s, zeroPadded 9 n, rfl, decimal_ne_nil s,
      fun c hc => isDigit_of_mem_decimal hc, hnine,
      fun c hc => isDigit_of_mem_zeroPadded hc, ?_⟩
    rw [digitsValue_decimal, digitsValue_zeroPadded]
    simp only [if_true]
    omega

end Text

section Produced

variable {t : Timespec}

/-- The values that `+` and `-=` compute without an overflow from values with their
nanoseconds in place. -/
inductive Produced : Timespec → Prop
  | normal
      {t : Timespec}
      (hnormal : Normal t) :
      Produced t
  | add
      {a b : Timespec}
      (ha : Produced a)
      (hb : Produced b)
      (hfits : Fits (a.total + b.total)) :
      Produced (add a b)
  | subAssign
      {a b : Timespec}
      (ha : Produced a)
      (hb : Produced b)
      (hfits : Fits (a.total - b.total)) :
      Produced (subAssign a b)

theorem Produced.toNormal
    (h : Produced t) :
    Normal t := by
  induction h with
  | normal hnormal =>
      exact hnormal
  | add ha hb hfits iha ihb =>
      exact (add_spec iha ihb).1
  | subAssign ha hb hfits iha ihb =>
      exact (subAssign_spec iha ihb).1

theorem printed_eq_total_iff
    (t : Timespec) :
    printed t = t.total ↔ 0 ≤ t.tv_sec.toInt ∨ t.tv_nsec.toInt = 0 := by
  unfold printed total
  split_ifs with hsign
  · exact ⟨fun _ => .inl hsign, fun _ => rfl⟩
  · omega

/-- **A printed value denotes its time** exactly if it is not negative or has no
nanoseconds. -/
theorem printed_iff
    (h : Produced t) :
    Denotes (print t) t.total ↔ 0 ≤ t.tv_sec.toInt ∨ t.tv_nsec.toInt = 0 := by
  rw [← printed_eq_total_iff]
  have hprinted := print_denotes h.toNormal
  constructor
  · intro hdenotes
    exact hprinted.unique hdenotes
  · intro heq
    rwa [heq] at hprinted

theorem printed_iff_second_half :
    Produced ⟨1, 500000000⟩ ∧ Denotes (print ⟨1, 500000000⟩) 1500000000 := by
  have h : Produced ⟨1, 500000000⟩ := .normal ⟨by decide, by decide⟩
  exact ⟨h, (printed_iff h).mpr (.inl (by decide))⟩

/-- Half a second less two seconds is printed as -2.500000000. -/
theorem prints_wrong_time :
    Produced (subAssign ⟨0, 500000000⟩ ⟨2, 0⟩) ∧
    (subAssign ⟨0, 500000000⟩ ⟨2, 0⟩).total = -1500000000 ∧
    Denotes (print (subAssign ⟨0, 500000000⟩ ⟨2, 0⟩)) (-2500000000) ∧
    ¬ Denotes (print (subAssign ⟨0, 500000000⟩ ⟨2, 0⟩))
      (subAssign ⟨0, 500000000⟩ ⟨2, 0⟩).total := by
  have ha : Normal ⟨0, 500000000⟩ := ⟨by decide, by decide⟩
  have hb : Normal ⟨2, 0⟩ := ⟨by decide, by decide⟩
  have hprinted := print_denotes (subAssign_spec ha hb).1
  refine ⟨.subAssign (.normal ha) (.normal hb) (by decide), by decide, hprinted, ?_⟩
  intro h
  exact absurd (hprinted.unique h) (by decide)

end Produced

end Timespec
end Bren
end Brenlib
