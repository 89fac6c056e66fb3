import Brenlib.Base.WhileLoop
import Brenlib.Bren.StdLibrary

/-!
# `toRoman`

The model follows `src/roman.cpp`.  `rem` is never less than what is taken from it, so it
is a natural number here.

* `numeral num`: the standard numeral of a number, digit by digit.
* `Regular num`: no stage of the conversion comes to a prefix that is smaller than the
  next power of ten.
* `ShortCut num text`: what is written of the other numbers below 1000.

**Results.**  The thousands are written first, whatever the rest is (`toRoman_eq`).  The
inner loop subtracts the smallest of I, X and C that is enough, from any larger symbol; for
regular numbers this is the digit in front, and the conversion writes the digits one by
one (`decade_run`, `below_eq_numeral`); the others get one short cut (`below_shortCut`).
-/

namespace Brenlib
namespace Bren

namespace Roman

def I : Byte := 0x49

def V : Byte := 0x56

def X : Byte := 0x58

def L : Byte := 0x4C

def C : Byte := 0x43

def D : Byte := 0x44

def M : Byte := 0x4D

/-- An entry of `rn`. -/
structure Numeral where
  first : Nat
  second : Byte
  pos : 0 < first

namespace Numeral

def one : Numeral := ⟨1, I, by decide⟩

def five : Numeral := ⟨5, V, by decide⟩

def ten : Numeral := ⟨10, X, by decide⟩

def fifty : Numeral := ⟨50, L, by decide⟩

def hundred : Numeral := ⟨100, C, by decide⟩

def fiveHundred : Numeral := ⟨500, D, by decide⟩

def thousand : Numeral := ⟨1000, M, by decide⟩

end Numeral

open Numeral

/-- `rn`, in the order of its keys. -/
def rn : List Numeral :=
  [one, five, ten, fifty, hundred, fiveHundred, thousand]

/-- The variables of the conversion. -/
structure Conversion where
  rem : Nat
  out : Bytes
deriving DecidableEq, Repr

/-- `while (rem >= i->first)`. -/
def fill (i : Numeral) : WhileLoop Conversion where
  body σ :=
    if i.first ≤ σ.rem then
      some { rem := σ.rem - i.first, out := σ.out ++ [i.second] }
    else none
  measure := Conversion.rem
  lowers := by
    intro σ τ h
    have hpos := i.pos
    split_ifs at h with hle
    obtain rfl := Option.some.inj h
    exact Nat.sub_lt (Nat.lt_of_lt_of_le hpos hle) hpos

/-- `for (auto j = rn.begin(); j->first != i->first; j++)`. -/
def subtract (i : Numeral) (σ : Conversion) : List Numeral → Conversion
  | [] => σ
  | j :: js =>
      if j.first = i.first then σ
      else if j.first ≠ 100 ∧ j.first ≠ 10 ∧ j.first ≠ 1 then subtract i σ js
      else if i.first - j.first ≤ σ.rem then
        { rem := σ.rem - (i.first - j.first), out := σ.out ++ [j.second, i.second] }
      else subtract i σ js

/-- One iteration of the outer loop. -/
def stage (σ : Conversion) (i : Numeral) : Conversion :=
  subtract i ((fill i).run σ) rn

def toRoman (num : UInt16) : Bytes :=
  (rn.reverse.foldl stage { rem := num.toNat, out := [] }).out

/-- A decimal digit, with the symbols for one, five and ten. -/
def digit (one five ten : Byte) : Nat → Bytes
  | 4 => [one, five]
  | 9 => [one, ten]
  | d => List.replicate (d / 5) five ++ List.replicate (d % 5) one

/-- The standard numeral of a number. -/
def numeral (num : Nat) : Bytes :=
  List.replicate (num / 1000) M ++ (digit C D M (num / 100 % 10) ++
    (digit X L C (num / 10 % 10) ++ digit I V X (num % 10)))

section Stages

variable {i : Numeral} {σ : Conversion} {k r : Nat}

/-- The loop that fills up, in one step. -/
def filled (i : Numeral) (σ : Conversion) : Conversion where
  rem := σ.rem % i.first
  out := σ.out ++ List.replicate (σ.rem / i.first) i.second

theorem fill_run
    (i : Numeral) (σ : Conversion) :
    (fill i).run σ = filled i σ := by
  induction hn : σ.rem using Nat.strong_induction_on generalizing σ with
  | _ n ih =>
      have hpos := i.pos
      by_cases hle : i.first ≤ σ.rem
      · have hbody : (fill i).body σ =
            some { rem := σ.rem - i.first, out := σ.out ++ [i.second] } := if_pos hle
        have hdiv : σ.rem / i.first = (σ.rem - i.first) / i.first + 1 :=
          Nat.div_eq_sub_div hpos hle
        rw [WhileLoop.run_next _ hbody, ih (σ.rem - i.first) (by omega) _ rfl]
        simp only [filled, ← Nat.mod_eq_sub_mod hle, hdiv, List.replicate_succ,
          List.append_assoc, List.singleton_append]
      · have hbody : (fill i).body σ = none := if_neg hle
        rw [Nat.not_le] at hle
        rw [WhileLoop.run_left _ hbody, filled, Nat.mod_eq_of_lt hle,
          Nat.div_eq_of_lt hle, List.replicate_zero, List.append_nil]

/-- A symbol that fits in `k` times. -/
theorem filled_mul_add
    (hrem : σ.rem = k * i.first + r)
    (hr : r < i.first) :
    filled i σ = { rem := r, out := σ.out ++ List.replicate k i.second } := by
  have hdiv : σ.rem / i.first = k := by
    rw [hrem, Nat.add_comm, Nat.add_mul_div_right _ _ i.pos, Nat.div_eq_of_lt hr,
      Nat.zero_add]
  have hmod : σ.rem % i.first = r := by
    rw [hrem, Nat.add_comm, Nat.add_mul_mod_self_right, Nat.mod_eq_of_lt hr]
  rw [filled, hdiv, hmod]

theorem filled_of_lt
    (hlt : σ.rem < i.first) :
    filled i σ = σ := by
  rw [filled_mul_add (k := 0) (r := σ.rem) (by rw [Nat.zero_mul, Nat.zero_add]) hlt,
    List.replicate_zero, List.append_nil]

/-- Text in front of what has been written. -/
def Conversion.behind (before : Bytes) (σ : Conversion) : Conversion :=
  { σ with out := before ++ σ.out }

theorem behind_rem
    (before : Bytes) (σ : Conversion) :
    (σ.behind before).rem = σ.rem := rfl

theorem subtract_behind
    (i : Numeral) (before : Bytes) (σ : Conversion) (js : List Numeral) :
    subtract i (σ.behind before) js = (subtract i σ js).behind before := by
  induction js with
  | nil =>
      rfl
  | cons j js ih =>
      rw [subtract, subtract, ih, behind_rem]
      split_ifs
      · rfl
      · rfl
      · simp only [Conversion.behind, List.append_assoc]
      · rfl

theorem stage_behind
    (before : Bytes) (σ : Conversion) (i : Numeral) :
    stage (σ.behind before) i = (stage σ i).behind before := by
  have hfilled : filled i (σ.behind before) = (filled i σ).behind before := by
    simp only [filled, Conversion.behind, List.append_assoc]
  rw [stage, stage, fill_run, fill_run, hfilled, subtract_behind]

theorem foldl_behind
    (before : Bytes) (σ : Conversion) (is : List Numeral) :
    is.foldl stage (σ.behind before) = (is.foldl stage σ).behind before := by
  induction is generalizing σ with
  | nil =>
      rfl
  | cons i is ih =>
      rw [List.foldl_cons, stage_behind, ih, List.foldl_cons]

/-- A symbol that is written as often as it fits in. -/
theorem filled_mod
    (i : Numeral) (num : Nat) :
    filled i { rem := num, out := [] } =
      (filled i { rem := num % i.first, out := [] }).behind
        (List.replicate (num / i.first) i.second) := by
  have hrest : filled i { rem := num % i.first, out := [] } = _ :=
    filled_of_lt (Nat.mod_lt num i.pos)
  rw [hrest, Conversion.behind, List.append_nil]
  exact filled_mul_add (Nat.div_add_mod' _ _).symm (Nat.mod_lt num i.pos)

/-- The conversion of the part of a number below 1000. -/
def below (num : Nat) : Bytes :=
  (rn.reverse.foldl (fun σ i => subtract i (filled i σ) rn) { rem := num, out := [] }).out

theorem below_eq
    (num : Nat) :
    below num = (rn.reverse.foldl stage { rem := num, out := [] }).out := by
  have hstage : stage = fun σ i => subtract i (filled i σ) rn := by
    funext σ i
    rw [stage, fill_run]
  rw [hstage, below]

/-- The thousands are written first. -/
theorem toRoman_eq
    (num : UInt16) :
    toRoman num = List.replicate (num.toNat / 1000) M ++ below (num.toNat % 1000) := by
  have hstage :
      stage { rem := num.toNat, out := [] } thousand =
        (stage { rem := num.toNat % 1000, out := [] } thousand).behind
          (List.replicate (num.toNat / 1000) M) := by
    rw [stage, stage, fill_run, fill_run, filled_mod, subtract_behind]
    rfl
  have hrn : rn.reverse = thousand :: [fiveHundred, hundred, fifty, ten, five, one] := rfl
  rw [below_eq, toRoman, hrn, List.foldl_cons, hstage, foldl_behind]
  rfl

end Stages

section Decades

variable {σ : Conversion} {u v w : Numeral} {d k r : Nat}

/-- A larger symbol with the power of ten in front that belongs to it, where that is
enough. -/
def prefixed (u i : Numeral) (σ : Conversion) : Conversion :=
  if i.first - u.first ≤ σ.rem then
    { rem := σ.rem - (i.first - u.first), out := σ.out ++ [u.second, i.second] }
  else σ

/-- The stages that write one decimal digit. -/
def decade (u v w : Numeral) (σ : Conversion) : Conversion :=
  filled u (prefixed u v (filled v (prefixed u w σ)))

theorem prefixed_of_lt
    (hlt : σ.rem < w.first - u.first) :
    prefixed u w σ = σ :=
  if_neg (Nat.not_le.mpr hlt)

theorem prefixed_of_eq
    (hw : w.first = (k + 1) * u.first)
    (hrem : σ.rem = k * u.first + r) :
    prefixed u w σ = { rem := r, out := σ.out ++ [u.second, w.second] } := by
  have hdiff : w.first - u.first = k * u.first := by
    rw [hw, Nat.succ_mul, Nat.add_sub_cancel]
  rw [prefixed, hdiff, if_pos (by omega), hrem, Nat.add_sub_cancel_left]

theorem digit_small
    (one five ten : Byte)
    (hk : k < 4) :
    digit one five ten k = List.replicate k one ∧
      digit one five ten (k + 5) = five :: List.replicate k one := by
  interval_cases k <;> exact ⟨rfl, rfl⟩

/-- Less than four symbols of the unit. -/
theorem units_run
    (hv : v.first = 5 * u.first)
    (hk : k < 4)
    (hr : r < u.first)
    (hrem : σ.rem = k * u.first + r) :
    filled u (prefixed u v σ) =
      { rem := r, out := σ.out ++ List.replicate k u.second } := by
  have hle : k * u.first ≤ 3 * u.first := Nat.mul_le_mul_right _ (by omega)
  rw [prefixed_of_lt (by omega), filled_mul_add hrem hr]

/-- The digit in front is written, and the digits behind it remain. -/
theorem decade_run
    (hv : v.first = 5 * u.first)
    (hw : w.first = 10 * u.first)
    (hd : d < 10)
    (hr : r < u.first)
    (hrem : σ.rem = d * u.first + r) :
    decade u v w σ =
      { rem := r, out := σ.out ++ digit u.second v.second w.second d } := by
  have hcases : d < 4 ∨ d = 4 ∨ (∃ k, k < 4 ∧ d = k + 5) ∨ d = 9 := by
    by_cases hsmall : d < 5
    · omega
    · by_cases hnine : d = 9
      · omega
      · exact .inr (.inr (.inl ⟨d - 5, by omega, by omega⟩))
  rw [decade]
  rcases hcases with hsmall | rfl | ⟨k, hk, rfl⟩ | rfl
  · have hle : d * u.first ≤ 3 * u.first := Nat.mul_le_mul_right _ (by omega)
    have hten : prefixed u w σ = σ := prefixed_of_lt (by omega)
    have hfive : filled v σ = σ := filled_of_lt (by omega)
    rw [hten, hfive, units_run hv hsmall hr hrem, (digit_small _ _ _ hsmall).1]
  · have hten : prefixed u w σ = σ := prefixed_of_lt (by omega)
    have hfive : filled v σ = σ := filled_of_lt (by omega)
    rw [hten, hfive, prefixed_of_eq hv hrem]
    exact filled_of_lt hr
  · have hle : k * u.first ≤ 3 * u.first := Nat.mul_le_mul_right _ (by omega)
    have hrem' : σ.rem = 1 * v.first + (k * u.first + r) := by
      rw [hrem, hv, Nat.add_mul]
      omega
    have hten : prefixed u w σ = σ := prefixed_of_lt (by omega)
    have hfive : filled v σ = _ := filled_mul_add hrem' (by omega)
    rw [hten, hfive, units_run hv hk hr rfl, (digit_small _ _ _ hk).2, List.append_assoc]
    rfl
  · have hten := prefixed_of_eq (w := w) hw hrem
    generalize hτ : Conversion.mk r (σ.out ++ [u.second, w.second]) = τ at hten
    have hr' : τ.rem = r := by rw [← hτ]
    have hfive : filled v τ = τ := filled_of_lt (by omega)
    have hfour : prefixed u v τ = τ := prefixed_of_lt (by omega)
    rw [hten, hfive, hfour, filled_of_lt (by omega), ← hτ]
    rfl

/-- No prefix is smaller than the power of ten in front. -/
def Regular (num : Nat) : Prop :=
  num % 50 ≠ 49 ∧ num % 500 < 490

instance (num : Nat) : Decidable (Regular num) :=
  inferInstanceAs (Decidable (_ ∧ _))

/-- The prefixes of M that are tried, from the smallest one on. -/
theorem subtract_thousand
    (hrem : σ.rem < 990) :
    subtract thousand σ rn = prefixed hundred thousand σ := by
  change (if 999 ≤ σ.rem then _ else if 990 ≤ σ.rem then _ else prefixed hundred thousand σ) = _
  rw [if_neg (by omega), if_neg (by omega)]

theorem subtract_fiveHundred
    (hrem : σ.rem < 490) :
    subtract fiveHundred σ rn = prefixed hundred fiveHundred σ := by
  change (if 499 ≤ σ.rem then _ else if 490 ≤ σ.rem then _ else
    prefixed hundred fiveHundred σ) = _
  rw [if_neg (by omega), if_neg (by omega)]

theorem subtract_hundred
    (hrem : σ.rem < 99) :
    subtract hundred σ rn = prefixed ten hundred σ := by
  change (if 99 ≤ σ.rem then _ else prefixed ten hundred σ) = _
  rw [if_neg (by omega)]

theorem subtract_fifty
    (hrem : σ.rem < 49) :
    subtract fifty σ rn = prefixed ten fifty σ := by
  change (if 49 ≤ σ.rem then _ else prefixed ten fifty σ) = _
  rw [if_neg (by omega)]

theorem rem_prefixed
    (u w : Numeral) (σ : Conversion) :
    (prefixed u w σ).rem =
      if w.first - u.first ≤ σ.rem then σ.rem - (w.first - u.first) else σ.rem := by
  unfold prefixed
  split_ifs <;> rfl

/-- The stages that write the hundreds, without a prefix I or X. -/
theorem hundreds_run
    (hrem : σ.rem < 1000)
    (hregular : σ.rem % 500 < 490) :
    filled hundred (subtract fiveHundred (filled fiveHundred (subtract thousand σ rn)) rn) =
      decade hundred fiveHundred thousand σ := by
  have hthousand : subtract thousand σ rn = prefixed hundred thousand σ :=
    subtract_thousand (by omega)
  have hrem' : (filled fiveHundred (prefixed hundred thousand σ)).rem < 490 := by
    change (prefixed hundred thousand σ).rem % 500 < 490
    rw [rem_prefixed]
    change (if 900 ≤ σ.rem then σ.rem - 900 else σ.rem) % 500 < 490
    split_ifs <;> omega
  rw [hthousand, subtract_fiveHundred hrem', decade]

/-- The stages that write the tens, without a prefix I. -/
theorem tens_run
    (hrem : σ.rem < 100)
    (hregular : σ.rem % 50 ≠ 49) :
    filled ten (subtract fifty (filled fifty (subtract hundred σ rn)) rn) =
      decade ten fifty hundred σ := by
  have hhundred : subtract hundred σ rn = prefixed ten hundred σ :=
    subtract_hundred (by omega)
  have hrem' : (filled fifty (prefixed ten hundred σ)).rem < 49 := by
    change (prefixed ten hundred σ).rem % 50 < 49
    rw [rem_prefixed]
    change (if 90 ≤ σ.rem then σ.rem - 90 else σ.rem) % 50 < 49
    split_ifs <;> omega
  rw [hhundred, subtract_fifty hrem', decade]

theorem decade_hundreds
    {num : Nat}
    (hnum : num < 1000) :
    decade hundred fiveHundred thousand { rem := num, out := [] } =
      { rem := num % 100, out := digit C D M (num / 100) } :=
  decade_run rfl rfl (by omega) (Nat.mod_lt num (by decide)) (Nat.div_add_mod' num 100).symm

theorem decade_tens
    {num : Nat}
    (hnum : num < 100)
    (out : Bytes) :
    decade ten fifty hundred { rem := num, out := out } =
      { rem := num % 10, out := out ++ digit X L C (num / 10) } :=
  decade_run rfl rfl (by omega) (Nat.mod_lt num (by decide)) (Nat.div_add_mod' num 10).symm

theorem decade_units
    {num : Nat}
    (hnum : num < 10)
    (out : Bytes) :
    decade one five ten { rem := num, out := out } =
      { rem := 0, out := out ++ digit I V X num } :=
  decade_run rfl rfl hnum (by decide) (Nat.mul_one num).symm

/-- The stages behind the hundreds. -/
def tail (σ : Conversion) : Conversion :=
  filled one (subtract five (filled five (subtract ten (filled ten (subtract fifty
    (filled fifty (subtract hundred σ rn)) rn)) rn)) rn)

/-- The stages of the hundreds, and those behind them. -/
theorem below_eq_tail
    {num : Nat}
    (hnum : num < 1000) :
    below num =
      (tail (filled hundred (subtract fiveHundred (filled fiveHundred
        (subtract thousand { rem := num, out := [] } rn)) rn))).out := by
  have hthousand : filled thousand { rem := num, out := [] } = { rem := num, out := [] } :=
    filled_of_lt hnum
  rw [← hthousand]
  rfl

/-- The tens and the units are written, without a prefix I. -/
theorem tail_run
    {num : Nat}
    (hnum : num < 100)
    (hregular : num % 50 ≠ 49)
    (out : Bytes) :
    tail { rem := num, out := out } =
      { rem := 0, out := out ++ (digit X L C (num / 10) ++ digit I V X (num % 10)) } := by
  rw [tail, tens_run hnum hregular, decade_tens hnum]
  change decade one five ten { rem := num % 10, out := _ } = _
  rw [decade_units (Nat.mod_lt _ (by decide)), List.append_assoc]

/-- A regular number is written digit by digit. -/
theorem below_eq_numeral
    {num : Nat}
    (hnum : num < 1000)
    (h : Regular num) :
    below num = numeral num := by
  obtain ⟨hfifty, hfiveHundred⟩ := h
  have htens : num % 100 / 10 = num / 10 % 10 := by omega
  have hunits : num % 100 % 10 = num % 10 := by omega
  have hhundreds : num / 100 % 10 = num / 100 := by omega
  have hnone : num / 1000 = 0 := by omega
  rw [below_eq_tail hnum, hundreds_run hnum hfiveHundred, decade_hundreds hnum,
    tail_run (Nat.mod_lt num (by decide)) (by omega), numeral, htens, hunits, hhundreds, hnone,
    List.replicate_zero, List.nil_append]

end Decades

section ShortCuts

/-- What is written of a number below 1000 for which a prefix is smaller than the next power
of ten. -/
inductive ShortCut : Nat → Bytes → Prop where
  | fifty {h : Nat} (hh : h < 10) : ShortCut (100 * h + 49) (digit C D M h ++ [I, L])
  | hundred {h : Nat} (hh : h < 10) : ShortCut (100 * h + 99) (digit C D M h ++ [I, C])
  | fiveHundred {u : Nat} (hu : u < 9) : ShortCut (490 + u) ([X, D] ++ digit I V X u)
  | thousand {u : Nat} (hu : u < 9) : ShortCut (990 + u) ([X, M] ++ digit I V X u)
  | fiveHundredLessOne : ShortCut 499 [I, D]
  | thousandLessOne : ShortCut 999 [I, M]

theorem filled_behind
    (i : Numeral) (before : Bytes) (σ : Conversion) :
    filled i (σ.behind before) = (filled i σ).behind before := by
  simp only [filled, Conversion.behind, List.append_assoc]

theorem tail_behind
    (before : Bytes) (σ : Conversion) :
    tail (σ.behind before) = (tail σ).behind before := by
  simp only [tail, subtract_behind, filled_behind]

/-- Behind the hundreds, a prefix I. -/
theorem below_of_tens
    {num : Nat}
    (hnum : num < 1000)
    (hregular : num % 500 < 490)
    (hirregular : num % 50 = 49) :
    ShortCut num (below num) := by
  have hbehind :
      ({ rem := num % 100, out := digit C D M (num / 100) } : Conversion) =
        ({ rem := num % 100, out := [] } : Conversion).behind (digit C D M (num / 100)) := by
    rw [Conversion.behind, List.append_nil]
  have hdigit : num / 100 < 10 := by omega
  rw [below_eq_tail hnum, hundreds_run hnum hregular, decade_hundreds hnum, hbehind,
    tail_behind]
  have hcases : num % 100 = 49 ∨ num % 100 = 99 := by omega
  rcases hcases with hrem | hrem
  · have htail : (tail { rem := 49, out := [] }).out = [I, L] := rfl
    have hshort := ShortCut.fifty hdigit
    have hsum : 100 * (num / 100) + 49 = num := by omega
    rwa [hsum, ← htail, ← hrem] at hshort
  · have htail : (tail { rem := 99, out := [] }).out = [I, C] := rfl
    have hshort := ShortCut.hundred hdigit
    have hsum : 100 * (num / 100) + 99 = num := by omega
    rwa [hsum, ← htail, ← hrem] at hshort

/-- What is left behind a prefix X is a digit at most. -/
theorem tail_units
    {u : Nat}
    (hu : u < 9)
    (out : Bytes) :
    (tail (filled hundred { rem := u, out := out })).out = out ++ digit I V X u := by
  have hfilled : filled hundred { rem := u, out := out } = { rem := u, out := out } :=
    filled_of_lt (Nat.lt_trans hu (by decide))
  have htens : u / 10 = 0 := by omega
  have hunits : u % 10 = u := by omega
  rw [hfilled, tail_run (by omega) (by omega), htens, hunits]
  rfl

/-- In place of the hundreds, a prefix X or I. -/
theorem below_of_hundreds
    {num : Nat}
    (hnum : num < 1000)
    (hirregular : 490 ≤ num % 500) :
    ShortCut num (below num) := by
  have hcases :
      (∃ u < 9, num = 490 + u) ∨ num = 499 ∨ (∃ u < 9, num = 990 + u) ∨ num = 999 := by
    by_cases hlow : num < 500
    · by_cases hone : num = 499
      · exact .inr (.inl hone)
      · exact .inl ⟨num - 490, by omega, by omega⟩
    · by_cases hone : num = 999
      · exact .inr (.inr (.inr hone))
      · exact .inr (.inr (.inl ⟨num - 990, by omega, by omega⟩))
  rcases hcases with ⟨u, hu, rfl⟩ | rfl | ⟨u, hu, rfl⟩ | rfl
  · have hthousand :
        subtract thousand { rem := 490 + u, out := [] } rn = { rem := 490 + u, out := [] } := by
      rw [subtract_thousand (show 490 + u < 990 by omega)]
      exact prefixed_of_lt (show 490 + u < 900 by omega)
    have hfilled :
        filled fiveHundred { rem := 490 + u, out := [] } = { rem := 490 + u, out := [] } :=
      filled_of_lt (show 490 + u < 500 by omega)
    have hfiveHundred :
        subtract fiveHundred { rem := 490 + u, out := [] } rn = { rem := u, out := [X, D] } := by
      have hrest : 490 + u - 490 = u := Nat.add_sub_cancel_left 490 u
      change (if 499 ≤ 490 + u then _ else if 490 ≤ 490 + u then _ else _) = _
      rw [if_neg (by omega), if_pos (by omega)]
      exact congrArg (Conversion.mk · [X, D]) hrest
    rw [below_eq_tail hnum, hthousand, hfilled, hfiveHundred, tail_units hu]
    exact .fiveHundred hu
  · exact .fiveHundredLessOne
  · have hthousand :
        subtract thousand { rem := 990 + u, out := [] } rn = { rem := u, out := [X, M] } := by
      have hrest : 990 + u - 990 = u := Nat.add_sub_cancel_left 990 u
      change (if 999 ≤ 990 + u then _ else if 990 ≤ 990 + u then _ else _) = _
      rw [if_neg (by omega), if_pos (by omega)]
      exact congrArg (Conversion.mk · [X, M]) hrest
    have hfilled :
        filled fiveHundred { rem := u, out := [X, M] } = { rem := u, out := [X, M] } :=
      filled_of_lt (Nat.lt_trans hu (by decide))
    have hfiveHundred :
        subtract fiveHundred { rem := u, out := [X, M] } rn = { rem := u, out := [X, M] } := by
      rw [subtract_fiveHundred (Nat.lt_trans hu (by decide))]
      exact prefixed_of_lt (Nat.lt_trans hu (by decide))
    rw [below_eq_tail hnum, hthousand, hfilled, hfiveHundred, tail_units hu]
    exact .thousand hu
  · exact .thousandLessOne

/-- A number that is not regular is written with a short cut. -/
theorem below_shortCut
    {num : Nat}
    (hnum : num < 1000)
    (h : ¬ Regular num) :
    ShortCut num (below num) := by
  by_cases hhundreds : 490 ≤ num % 500
  · exact below_of_hundreds hnum hhundreds
  · refine below_of_tens hnum (Nat.not_le.mp hhundreds) ?_
    by_contra hfifty
    exact h ⟨hfifty, Nat.not_le.mp hhundreds⟩

end ShortCuts

end Roman

end Bren
end Brenlib
