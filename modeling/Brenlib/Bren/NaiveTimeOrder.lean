import Brenlib.Bren.NaiveTime

/-!
# The comparison operators of `NaiveTime`

The model follows `src/NaiveTime.cpp`.  Each operator compares hour and minute by a formula of
its own, after the left-hand side and then the right-hand side have been found valid.

* `ValidTime`: a time that is valid.
* `Compares`: the answers of the five operators are those of a linear order.

**Results.**  The formulas compare the minutes since midnight (`compares_minutes`), and the
difference that `operator-` returns has the sign that they tell.  All six operators refuse a
time that is not valid, with one exception for each side (`comparisons_agree`).
-/

namespace Brenlib
namespace Bren
namespace NaiveTime

section Operators

/-- A comparison operator with its formula. -/
def compareBy
    (formula : NaiveTime → NaiveTime → Bool) (s rhs : NaiveTime) :
    Except StdException Bool := do
  if ¬ s.valid_ then
    throw ⟨.logicError, "Lefthand-side object is not valid"⟩
  if ¬ rhs.valid_ then
    throw ⟨.invalidArgument, "Righthand-side object is not valid"⟩
  return formula s rhs

/-- `operator<`. -/
def lt : NaiveTime → NaiveTime → Except StdException Bool :=
  compareBy fun s rhs =>
    s.hour_ < rhs.hour_ || (s.hour_ == rhs.hour_ && s.min_ < rhs.min_)

/-- `operator<=`. -/
def le : NaiveTime → NaiveTime → Except StdException Bool :=
  compareBy fun s rhs =>
    s.hour_ < rhs.hour_ || (s.hour_ == rhs.hour_ && s.min_ ≤ rhs.min_)

/-- `operator>`. -/
def gt : NaiveTime → NaiveTime → Except StdException Bool :=
  compareBy fun s rhs =>
    s.hour_ > rhs.hour_ || (s.hour_ == rhs.hour_ && s.min_ > rhs.min_)

/-- `operator>=`. -/
def ge : NaiveTime → NaiveTime → Except StdException Bool :=
  compareBy fun s rhs =>
    s.hour_ > rhs.hour_ || (s.hour_ == rhs.hour_ && s.min_ ≥ rhs.min_)

/-- `operator==`. -/
def eq : NaiveTime → NaiveTime → Except StdException Bool :=
  compareBy fun s rhs =>
    s.hour_ == rhs.hour_ && s.min_ == rhs.min_

variable {formula : NaiveTime → NaiveTime → Bool} {s t : NaiveTime}

theorem compareBy_valid
    (hs : s.valid_ = true)
    (ht : t.valid_ = true) :
    compareBy formula s t = .ok (formula s t) := by
  rw [compareBy, if_neg (not_not.mpr hs), if_neg (not_not.mpr ht)]
  rfl

theorem compareBy_left
    (hs : ¬ s.valid_ = true) :
    compareBy formula s t = .error ⟨.logicError, "Lefthand-side object is not valid"⟩ := by
  rw [compareBy, if_pos hs]
  rfl

theorem compareBy_right
    (hs : s.valid_ = true)
    (ht : ¬ t.valid_ = true) :
    compareBy formula s t =
      .error ⟨.invalidArgument, "Righthand-side object is not valid"⟩ := by
  rw [compareBy, if_neg (not_not.mpr hs), if_pos ht]
  rfl

theorem sub_left
    (hs : ¬ s.valid_ = true) :
    s.sub t = .error ⟨.logicError, "Lefthand-side object is not valid"⟩ := by
  rw [sub, if_pos hs]
  rfl

theorem sub_right
    (hs : s.valid_ = true)
    (ht : ¬ t.valid_ = true) :
    s.sub t = .error ⟨.invalidArgument, "Righthand-side object is not valid"⟩ := by
  rw [sub, if_neg (not_not.mpr hs), if_pos ht]
  rfl

end Operators

/-- The answers of the operators are those of an order. -/
structure Compares
    {α : Type} [LinearOrder α] (s t : NaiveTime) (a b : α) : Prop where
  lt : lt s t = .ok (decide (a < b))
  le : le s t = .ok (decide (a ≤ b))
  gt : gt s t = .ok (decide (a > b))
  ge : ge s t = .ok (decide (a ≥ b))
  eq : eq s t = .ok (decide (a = b))

/-- A map that keeps the order of the two values keeps the answers. -/
theorem Compares.map
    {α β : Type} [LinearOrder α] [LinearOrder β]
    {s t : NaiveTime} {a b : α} {a' b' : β}
    (h : Compares s t a b)
    (hlt : a' < b' ↔ a < b)
    (hgt : b' < a' ↔ b < a) :
    Compares s t a' b' := by
  have hle : a' ≤ b' ↔ a ≤ b := by rw [← not_lt, hgt, not_lt]
  have hge : b' ≤ a' ↔ b ≤ a := by rw [← not_lt, hlt, not_lt]
  have heq : a' = b' ↔ a = b := by rw [le_antisymm_iff, hle, hge, ← le_antisymm_iff]
  constructor
  · simp only [hlt, h.lt]
  · simp only [hle, h.le]
  · simp only [gt_iff_lt, hgt, h.gt]
  · simp only [ge_iff_le, hge, h.ge]
  · simp only [heq, h.eq]

end NaiveTime

/-- A time that is valid. -/
def ValidTime : Type :=
  { s : NaiveTime // s.valid_ = true }

namespace NaiveTime

/-- The operators compare the minutes since midnight. -/
theorem compares_minutes
    (x y : ValidTime) :
    Compares x.1 y.1 x.1.minutes y.1.minutes := by
  have hrun (formula : NaiveTime → NaiveTime → Bool) :
      compareBy formula x.1 y.1 = .ok (formula x.1 y.1) :=
    compareBy_valid x.2 y.2
  have hx := (valid_iff.mp x.2).2
  have hy := (valid_iff.mp y.2).2
  constructor <;>
    refine (hrun _).trans (congrArg Except.ok ?_) <;>
    rw [Bool.eq_iff_iff, decide_eq_true_eq] <;>
    simp only [Bool.or_eq_true, Bool.and_eq_true, decide_eq_true_eq, beq_iff_eq, gt_iff_lt,
      ge_iff_le, minutes, UInt8.lt_iff_toNat_lt, UInt8.le_iff_toNat_le, ← UInt8.toNat_inj] <;>
    omega

/-- The difference has the sign that the comparisons tell. -/
theorem sub_compares
    (x y : ValidTime) :
    ∃ d, x.1.sub y.1 = .ok d ∧ d.toInt = (x.1.minutes : Int) - y.1.minutes ∧
      Compares x.1 y.1 d.toInt 0 := by
  obtain ⟨d, hsub, hd⟩ := sub_run y.2 x.2
  refine ⟨d, hsub, hd, (compares_minutes x y).map ?_ ?_⟩ <;> omega

/-- **The comparisons and the difference agree.** -/
theorem comparisons_agree :
    (∀ x y : ValidTime, Compares x.1 y.1 x.1.minutes y.1.minutes ∧
      ∃ d, x.1.sub y.1 = .ok d ∧ d.toInt = (x.1.minutes : Int) - y.1.minutes ∧
        Compares x.1 y.1 d.toInt 0) ∧
    (∀ s t : NaiveTime, s.valid_ = false →
      s.sub t = .error ⟨.logicError, "Lefthand-side object is not valid"⟩ ∧
      ∀ operator ∈ [lt, le, gt, ge, eq],
        operator s t = .error ⟨.logicError, "Lefthand-side object is not valid"⟩) ∧
    ∀ (x : ValidTime) (t : NaiveTime), t.valid_ = false →
      x.1.sub t = .error ⟨.invalidArgument, "Righthand-side object is not valid"⟩ ∧
      ∀ operator ∈ [lt, le, gt, ge, eq],
        operator x.1 t = .error ⟨.invalidArgument, "Righthand-side object is not valid"⟩ := by
  refine ⟨fun x y => ⟨compares_minutes x y, sub_compares x y⟩, ?_, ?_⟩
  · intro s t h
    have hs : ¬ s.valid_ = true := by rw [h]; decide
    refine ⟨sub_left hs, fun operator hmem => ?_⟩
    simp only [List.mem_cons, List.not_mem_nil, or_false] at hmem
    rcases hmem with rfl | rfl | rfl | rfl | rfl <;> exact compareBy_left hs
  · intro x t h
    have ht : ¬ t.valid_ = true := by rw [h]; decide
    refine ⟨sub_right x.2 ht, fun operator hmem => ?_⟩
    simp only [List.mem_cons, List.not_mem_nil, or_false] at hmem
    rcases hmem with rfl | rfl | rfl | rfl | rfl <;> exact compareBy_right x.2 ht

end NaiveTime
end Bren
end Brenlib
