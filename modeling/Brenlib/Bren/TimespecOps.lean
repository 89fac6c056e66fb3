import Mathlib.Tactic

/-!
# `timespecops`: the comparison and the arithmetic of `struct timespec`

The model follows `src/timespecops.cpp`.  `tv_sec` and `tv_nsec` are signed 64-bit
integers.  Their sums and differences wrap around here where C++ leaves the result open;
the exact results are about the others.

`operator>`, `operator>=` and `operator!=` apply `~` to a `bool`.  The `bool` is promoted
to `int` before, so the operand is 0 or 1, the result is -1 or -2, and both are true when
they are converted back (`complement_eq_true`).

**Results.**  `<`, `<=` and `==` compare the times that the values denote (`lt_iff`,
`le_iff`, `eq_iff`).  The other three are true for all values (`gt_eq_true`,
`ge_eq_true`, `ne_eq_true`), and so the six agree with one order exactly where the left
time is the later one (`ordered_iff`).  Addition and subtraction are those of the
nanoseconds modulo the range of all times (`add_spec`, `subAssign_spec`), in which every
time has one value (`eq_of_modEq`); where nothing overflows they are exact
(`arithmetic_exact`).
-/

namespace Brenlib
namespace Bren

structure Timespec where
  tv_sec : Int64
  tv_nsec : Int64
deriving DecidableEq, Repr

namespace Timespec

/-- A `bool` as an `int`. -/
def promote (b : Bool) : Int32 :=
  if b then 1 else 0

/-- `~b` where a `bool` is expected. -/
def complement (b : Bool) : Bool :=
  ~~~ promote b ≠ 0

/-- `operator<`. -/
def lt (lhs rhs : Timespec) : Bool :=
  lhs.tv_sec < rhs.tv_sec || (lhs.tv_sec == rhs.tv_sec && lhs.tv_nsec < rhs.tv_nsec)

/-- `operator==`. -/
def eq (lhs rhs : Timespec) : Bool :=
  lhs.tv_sec == rhs.tv_sec && lhs.tv_nsec == rhs.tv_nsec

/-- `operator<=`. -/
def le (lhs rhs : Timespec) : Bool :=
  eq lhs rhs || lt lhs rhs

/-- `operator>`. -/
def gt (lhs rhs : Timespec) : Bool :=
  complement (le lhs rhs)

/-- `operator>=`. -/
def ge (lhs rhs : Timespec) : Bool :=
  complement (lt lhs rhs)

/-- `operator!=`. -/
def ne (lhs rhs : Timespec) : Bool :=
  complement (eq lhs rhs)

/-- `operator-=`. -/
def subAssign (lhs rhs : Timespec) : Timespec :=
  let tv_sec := lhs.tv_sec - rhs.tv_sec
  if lhs.tv_nsec < rhs.tv_nsec then
    { tv_sec := tv_sec - 1, tv_nsec := lhs.tv_nsec + 1000000000 - rhs.tv_nsec }
  else
    { tv_sec := tv_sec, tv_nsec := lhs.tv_nsec - rhs.tv_nsec }

/-- `operator+`. -/
def add (lhs rhs : Timespec) : Timespec :=
  let rv : Timespec :=
    { tv_sec := lhs.tv_sec + rhs.tv_sec, tv_nsec := lhs.tv_nsec + rhs.tv_nsec }
  if 1000000000 ≤ rv.tv_nsec then
    { tv_sec := rv.tv_sec + 1, tv_nsec := rv.tv_nsec - 1000000000 }
  else rv

section Order

/-- The nanoseconds are less than a second. -/
structure Normal (t : Timespec) : Prop where
  nonneg : 0 ≤ t.tv_nsec.toInt
  small : t.tv_nsec.toInt ≤ 999999999

/-- The time in nanoseconds. -/
def total (t : Timespec) : Int :=
  t.tv_sec.toInt * 10 ^ 9 + t.tv_nsec.toInt

variable {a b : Timespec}

theorem lt_iff
    (ha : Normal a)
    (hb : Normal b) :
    lt a b = true ↔ a.total < b.total := by
  obtain ⟨ha0, ha1⟩ := ha
  obtain ⟨hb0, hb1⟩ := hb
  simp only [lt, total, Bool.or_eq_true, Bool.and_eq_true, decide_eq_true_eq, beq_iff_eq,
    Int64.lt_iff_toInt_lt, ← Int64.toInt_inj]
  omega

theorem eq_iff
    (ha : Normal a)
    (hb : Normal b) :
    eq a b = true ↔ a.total = b.total := by
  obtain ⟨ha0, ha1⟩ := ha
  obtain ⟨hb0, hb1⟩ := hb
  simp only [eq, total, Bool.and_eq_true, beq_iff_eq, ← Int64.toInt_inj]
  omega

theorem le_iff
    (ha : Normal a)
    (hb : Normal b) :
    le a b = true ↔ a.total ≤ b.total := by
  rw [le, Bool.or_eq_true, eq_iff ha hb, lt_iff ha hb]
  omega

/-- Neither -1 nor -2 is zero. -/
theorem complement_eq_true
    (b : Bool) :
    complement b = true := by
  cases b <;> decide

theorem gt_eq_true
    (a b : Timespec) :
    gt a b = true :=
  complement_eq_true _

theorem ge_eq_true
    (a b : Timespec) :
    ge a b = true :=
  complement_eq_true _

theorem ne_eq_true
    (a b : Timespec) :
    ne a b = true :=
  complement_eq_true _

/-- The six operators agree with the order of the times. -/
structure Ordered (a b : Timespec) : Prop where
  lt_iff : lt a b = true ↔ a.total < b.total
  le_iff : le a b = true ↔ a.total ≤ b.total
  gt_iff : gt a b = true ↔ a.total > b.total
  ge_iff : ge a b = true ↔ a.total ≥ b.total
  eq_iff : eq a b = true ↔ a.total = b.total
  ne_iff : ne a b = true ↔ a.total ≠ b.total
  gt_not : gt a b = !le a b
  ge_not : ge a b = !lt a b
  ne_not : ne a b = !eq a b

/-- **The operators form one order** exactly on pairs whose left time is the later
one. -/
theorem ordered_iff
    (ha : Normal a)
    (hb : Normal b) :
    Ordered a b ↔ b.total < a.total := by
  constructor
  · intro h
    exact h.gt_iff.mp (gt_eq_true a b)
  · intro h
    have hlt : lt a b = false := by
      rw [← Bool.not_eq_true, lt_iff ha hb]
      omega
    have hle : le a b = false := by
      rw [← Bool.not_eq_true, le_iff ha hb]
      omega
    have heq : eq a b = false := by
      rw [← Bool.not_eq_true, eq_iff ha hb]
      omega
    refine ⟨lt_iff ha hb, le_iff ha hb, ?_, ?_, eq_iff ha hb, ?_, ?_, ?_, ?_⟩
    · exact iff_of_true (gt_eq_true a b) h
    · exact iff_of_true (ge_eq_true a b) (Int.le_of_lt h)
    · exact iff_of_true (ne_eq_true a b) (Int.ne_of_gt h)
    · rw [gt_eq_true, hle]
      rfl
    · rw [ge_eq_true, hlt]
      rfl
    · rw [ne_eq_true, heq]
      rfl

theorem ordered_second_half :
    Ordered ⟨1, 500000000⟩ ⟨1, 0⟩ :=
  (ordered_iff ⟨by decide, by decide⟩ ⟨by decide, by decide⟩).mpr (by decide)

/-- A time is reported to be different from itself, and later than itself. -/
theorem differs_from_itself :
    Normal ⟨1, 0⟩ ∧ ne ⟨1, 0⟩ ⟨1, 0⟩ = true ∧ gt ⟨1, 0⟩ ⟨1, 0⟩ = true ∧
      ¬ Ordered ⟨1, 0⟩ ⟨1, 0⟩ := by
  refine ⟨⟨by decide, by decide⟩, by decide, by decide, ?_⟩
  intro h
  exact absurd (h.ne_iff.mp (by decide)) (fun hne => hne rfl)

end Order

section Arithmetic

variable {a b s t : Timespec}

/-- The nanoseconds that the values of the type range over. -/
def range : Int :=
  2 ^ 64 * 10 ^ 9

/-- The seconds of a time in nanoseconds fit in `tv_sec`. -/
def Fits (x : Int) : Prop :=
  -2 ^ 63 ≤ x / 10 ^ 9 ∧ x / 10 ^ 9 < 2 ^ 63

instance (x : Int) : Decidable (Fits x) :=
  inferInstanceAs (Decidable (_ ∧ _))

theorem Normal.fits
    (h : Normal t) :
    Fits t.total := by
  obtain ⟨h0, h1⟩ := h
  have hlow := t.tv_sec.le_toInt
  have hhigh := t.tv_sec.toInt_lt
  unfold Fits total
  omega

/-- Two times of the range that differ by a multiple of it are equal. -/
theorem Fits.eq_of_modEq
    {x y : Int}
    (hx : Fits x)
    (hy : Fits y)
    (h : x ≡ y [ZMOD range]) :
    x = y := by
  obtain ⟨k, hk⟩ := h.dvd
  unfold range at hk
  unfold Fits at hx hy
  omega

/-- A value is determined by its time. -/
theorem eq_of_total
    (hs : Normal s)
    (ht : Normal t)
    (h : s.total = t.total) :
    s = t := by
  have heq := (eq_iff hs ht).mpr h
  rw [eq, Bool.and_eq_true, beq_iff_eq, beq_iff_eq] at heq
  obtain ⟨sec, nsec⟩ := s
  obtain ⟨sec', nsec'⟩ := t
  obtain ⟨rfl, rfl⟩ := heq
  rfl

theorem eq_of_modEq
    (hs : Normal s)
    (ht : Normal t)
    (h : s.total ≡ t.total [ZMOD range]) :
    s = t :=
  eq_of_total hs ht (hs.fits.eq_of_modEq ht.fits h)

theorem toInt_add_modEq
    (x y : Int64) :
    (x + y).toInt ≡ x.toInt + y.toInt [ZMOD 2 ^ 64] := by
  rw [Int64.toInt_add]
  exact Int.bmod_emod

theorem toInt_sub_modEq
    (x y : Int64) :
    (x - y).toInt ≡ x.toInt - y.toInt [ZMOD 2 ^ 64] := by
  rw [Int64.toInt_sub]
  exact Int.bmod_emod

theorem toInt_second :
    Int64.toInt 1000000000 = 1000000000 := rfl

/-- Seconds that are right up to an overflow give a time that is right in the range. -/
theorem total_modEq
    {sec nsec : Int}
    (hsec : t.tv_sec.toInt ≡ sec [ZMOD 2 ^ 64])
    (hnsec : t.tv_nsec.toInt = nsec) :
    t.total ≡ sec * 10 ^ 9 + nsec [ZMOD range] := by
  rw [total, hnsec]
  exact (hsec.mul_right' (c := 10 ^ 9)).add_right nsec

theorem add_spec
    (ha : Normal a)
    (hb : Normal b) :
    Normal (add a b) ∧ (add a b).total ≡ a.total + b.total [ZMOD range] := by
  obtain ⟨ha0, ha1⟩ := ha
  obtain ⟨hb0, hb1⟩ := hb
  have hsec := toInt_add_modEq a.tv_sec b.tv_sec
  have hnsec : (a.tv_nsec + b.tv_nsec).toInt = a.tv_nsec.toInt + b.tv_nsec.toInt := by
    rw [Int64.toInt_add]
    exact Int.bmod_eq_of_le (by omega) (by omega)
  by_cases hcarry : 1000000000 ≤ a.tv_nsec + b.tv_nsec
  · have hadd : add a b =
        ⟨a.tv_sec + b.tv_sec + 1, a.tv_nsec + b.tv_nsec - 1000000000⟩ := if_pos hcarry
    rw [Int64.le_iff_toInt_le, hnsec] at hcarry
    rw [toInt_second] at hcarry
    have hless : (a.tv_nsec + b.tv_nsec - 1000000000).toInt =
        a.tv_nsec.toInt + b.tv_nsec.toInt - 1000000000 := by
      rw [Int64.toInt_sub, hnsec, toInt_second]
      exact Int.bmod_eq_of_le (by omega) (by omega)
    rw [hadd]
    refine ⟨⟨by rw [hless]; omega, by rw [hless]; omega⟩, ?_⟩
    have hmore := (toInt_add_modEq (a.tv_sec + b.tv_sec) 1).trans (hsec.add_right 1)
    convert total_modEq (t := ⟨_, _⟩) hmore hless using 1
    unfold total
    omega
  · have hadd : add a b = ⟨a.tv_sec + b.tv_sec, a.tv_nsec + b.tv_nsec⟩ := if_neg hcarry
    rw [Int64.le_iff_toInt_le, hnsec] at hcarry
    rw [toInt_second] at hcarry
    rw [hadd]
    refine ⟨⟨by rw [hnsec]; omega, by rw [hnsec]; omega⟩, ?_⟩
    convert total_modEq (t := ⟨_, _⟩) hsec hnsec using 1
    unfold total
    omega

theorem subAssign_spec
    (ha : Normal a)
    (hb : Normal b) :
    Normal (subAssign a b) ∧ (subAssign a b).total ≡ a.total - b.total [ZMOD range] := by
  obtain ⟨ha0, ha1⟩ := ha
  obtain ⟨hb0, hb1⟩ := hb
  have hsec := toInt_sub_modEq a.tv_sec b.tv_sec
  by_cases hborrow : a.tv_nsec < b.tv_nsec
  · have hsub : subAssign a b =
        ⟨a.tv_sec - b.tv_sec - 1, a.tv_nsec + 1000000000 - b.tv_nsec⟩ := if_pos hborrow
    rw [Int64.lt_iff_toInt_lt] at hborrow
    have hmore : (a.tv_nsec + 1000000000).toInt = a.tv_nsec.toInt + 1000000000 := by
      rw [Int64.toInt_add, toInt_second]
      exact Int.bmod_eq_of_le (by omega) (by omega)
    have hnsec : (a.tv_nsec + 1000000000 - b.tv_nsec).toInt =
        a.tv_nsec.toInt + 1000000000 - b.tv_nsec.toInt := by
      rw [Int64.toInt_sub, hmore]
      exact Int.bmod_eq_of_le (by omega) (by omega)
    rw [hsub]
    refine ⟨⟨by rw [hnsec]; omega, by rw [hnsec]; omega⟩, ?_⟩
    have hless := (toInt_sub_modEq (a.tv_sec - b.tv_sec) 1).trans (hsec.sub_right 1)
    convert total_modEq (t := ⟨_, _⟩) hless hnsec using 1
    unfold total
    omega
  · have hsub : subAssign a b =
        ⟨a.tv_sec - b.tv_sec, a.tv_nsec - b.tv_nsec⟩ := if_neg hborrow
    rw [Int64.lt_iff_toInt_lt] at hborrow
    have hnsec : (a.tv_nsec - b.tv_nsec).toInt = a.tv_nsec.toInt - b.tv_nsec.toInt := by
      rw [Int64.toInt_sub]
      exact Int.bmod_eq_of_le (by omega) (by omega)
    rw [hsub]
    refine ⟨⟨by rw [hnsec]; omega, by rw [hnsec]; omega⟩, ?_⟩
    convert total_modEq (t := ⟨_, _⟩) hsec hnsec using 1
    unfold total
    omega

theorem add_comm
    (ha : Normal a)
    (hb : Normal b) :
    add a b = add b a := by
  obtain ⟨hnormal, htotal⟩ := add_spec ha hb
  obtain ⟨hnormal', htotal'⟩ := add_spec hb ha
  refine eq_of_modEq hnormal hnormal' (htotal.trans ?_)
  rw [Int.add_comm]
  exact htotal'.symm

theorem add_assoc
    {c : Timespec}
    (ha : Normal a)
    (hb : Normal b)
    (hc : Normal c) :
    add (add a b) c = add a (add b c) := by
  obtain ⟨hab, htotal⟩ := add_spec ha hb
  obtain ⟨hbc, htotal'⟩ := add_spec hb hc
  obtain ⟨hleft, hsum⟩ := add_spec hab hc
  obtain ⟨hright, hsum'⟩ := add_spec ha hbc
  refine eq_of_modEq hleft hright ?_
  calc (add (add a b) c).total
      ≡ (add a b).total + c.total [ZMOD range] := hsum
    _ ≡ a.total + b.total + c.total [ZMOD range] := htotal.add_right _
    _ ≡ a.total + (b.total + c.total) [ZMOD range] := by rw [Int.add_assoc]
    _ ≡ a.total + (add b c).total [ZMOD range] := (htotal'.add_left _).symm
    _ ≡ (add a (add b c)).total [ZMOD range] := hsum'.symm

theorem subAssign_add
    (ha : Normal a)
    (hb : Normal b) :
    subAssign (add a b) b = a := by
  obtain ⟨hnormal, htotal⟩ := add_spec ha hb
  obtain ⟨hdiff, hback⟩ := subAssign_spec hnormal hb
  refine eq_of_modEq hdiff ha (hback.trans ?_)
  have hsum := htotal.sub_right b.total
  rwa [Int.add_sub_cancel] at hsum

/-- **The arithmetic is exact.**  The values that are computed denote the sum and the
difference, and have their nanoseconds in place. -/
theorem arithmetic_exact
    (ha : Normal a)
    (hb : Normal b)
    (hsum : Fits (a.total + b.total))
    (hdiff : Fits (a.total - b.total)) :
    Normal (add a b) ∧ (add a b).total = a.total + b.total ∧
    Normal (subAssign a b) ∧ (subAssign a b).total = a.total - b.total ∧
    subAssign (add a b) b = a ∧
    add a b = add b a ∧
    ∀ c, Normal c → add (add a b) c = add a (add b c) := by
  obtain ⟨hnormal, htotal⟩ := add_spec ha hb
  obtain ⟨hnormal', htotal'⟩ := subAssign_spec ha hb
  exact ⟨hnormal, hnormal.fits.eq_of_modEq hsum htotal,
    hnormal', hnormal'.fits.eq_of_modEq hdiff htotal',
    subAssign_add ha hb, add_comm ha hb, fun c hc => add_assoc ha hb hc⟩

/-- A difference of minus one and a half seconds. -/
theorem arithmetic_exact_negative :
    Normal ⟨0, 500000000⟩ ∧ subAssign ⟨0, 500000000⟩ ⟨2, 0⟩ = ⟨-2, 500000000⟩ ∧
      (subAssign ⟨0, 500000000⟩ ⟨2, 0⟩).total = -1500000000 := by
  refine ⟨⟨by decide, by decide⟩, by decide, ?_⟩
  have hexact := arithmetic_exact (a := ⟨0, 500000000⟩) (b := ⟨2, 0⟩)
    ⟨by decide, by decide⟩ ⟨by decide, by decide⟩ (by decide) (by decide)
  rw [hexact.2.2.2.1]
  decide

end Arithmetic

end Timespec
end Bren
end Brenlib
