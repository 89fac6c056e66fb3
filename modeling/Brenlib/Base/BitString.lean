import Mathlib.Tactic

/-!
# Digits of different widths over one bit string

A list of `w`-bit digits is a string of bits: the digits one after another, the most
significant bit of each first.  Cutting the same string into digits of another width is
what base 16, 32 and 64 encodings do with bytes.

* `bitAt xs p`: bit `p` of the string, and `false` beyond its end.
* `digit v f k`: the `k`-th digit of `v` bits of a string.
* `place s x`: the string that holds the digit `x` at position `s` and nothing else.
* `regroup v m xs`: the first `m` digits of `v` bits, filled up with zeros.

**Results.**
* `regroup_cancel`: regrouping can be undone as long as the bits that are left out are
  zero.
* `regroup_append`: a further digit changes nothing in the digits before it;
  `regroup_blocks`: parts that fill whole digits are regrouped apart.
-/

namespace Brenlib
namespace BitString

variable {w v : Nat}

/-- Bit `p` of the digits written one after another. -/
def bitAt (xs : List (BitVec w)) (p : Nat) : Bool :=
  (BitVec.flattenList xs).getMsbD p

/-- The bits from `v * k` on as a number of `v` bits. -/
def digit (v : Nat) (f : Nat → Bool) (k : Nat) : BitVec v :=
  (BitVec.ofBoolListBE ((List.range v).map fun i => f (v * k + i))).cast (by simp)

/-- The first `m` digits of `v` bits. -/
def regroup (v m : Nat) (xs : List (BitVec w)) : List (BitVec v) :=
  (List.range m).map (digit v (bitAt xs))

variable {xs ys : List (BitVec w)}

theorem bitAt_eq
    (xs : List (BitVec w)) (p : Nat) :
    bitAt xs p = (xs[p / w]?.getD 0#w).getMsbD (p % w) :=
  BitVec.getMsbD_flattenList xs p

@[simp] theorem bitAt_nil
    (p : Nat) :
    bitAt ([] : List (BitVec w)) p = false := by
  simp [bitAt_eq]

/-- Bit `i` of digit `k`. -/
theorem bitAt_mul_add
    (xs : List (BitVec w)) (k : Nat) {i : Nat} (hi : i < w) :
    bitAt xs (w * k + i) = (xs[k]?.getD 0#w).getMsbD i := by
  rw [bitAt_eq, Nat.mul_add_div (by omega), Nat.div_eq_of_lt hi, Nat.add_zero,
    Nat.mul_add_mod, Nat.mod_eq_of_lt hi]

theorem bitAt_of_le
    {p : Nat} (hp : w * xs.length ≤ p) :
    bitAt xs p = false := by
  by_cases hw : w = 0
  · subst hw
    rw [bitAt_eq, BitVec.getMsbD_zero_length]
  · have hle : xs.length ≤ p / w := by
      rw [Nat.le_div_iff_mul_le (Nat.pos_of_ne_zero hw), Nat.mul_comm]
      exact hp
    rw [bitAt_eq, List.getElem?_eq_none hle, Option.getD_none, BitVec.getMsbD_zero]

/-- Leaving digits out moves the bits. -/
theorem bitAt_drop
    (hw : 0 < w) (xs : List (BitVec w)) (k p : Nat) :
    bitAt (xs.drop k) p = bitAt xs (w * k + p) := by
  rw [bitAt_eq, bitAt_eq, List.getElem?_drop, Nat.mul_add_div hw, Nat.mul_add_mod]

/-- Digits with the same bits are the same. -/
theorem eq_of_bitAt_eq
    (hlen : xs.length = ys.length)
    (hbits : ∀ p < w * xs.length, bitAt xs p = bitAt ys p) :
    xs = ys := by
  refine List.ext_getElem hlen fun k hk hk' => BitVec.eq_of_getMsbD_eq fun i hi => ?_
  have hlt : w * k + i < w * xs.length := by
    have hle : w * (k + 1) ≤ w * xs.length := Nat.mul_le_mul_left _ hk
    rw [Nat.mul_succ] at hle
    omega
  have hbit := hbits _ hlt
  rw [bitAt_mul_add xs k hi, bitAt_mul_add ys k hi, List.getElem?_eq_getElem hk,
    List.getElem?_eq_getElem hk'] at hbit
  exact hbit

/-- The last bits of a multiple of a power of two. -/
theorem getMsbD_of_dvd
    {x : BitVec w} {k i : Nat} (h : 2 ^ k ∣ x.toNat) (hi : w ≤ i + k) :
    x.getMsbD i = false := by
  by_cases hw : i < w
  · obtain ⟨c, hc⟩ := h
    rw [BitVec.getMsbD_eq_getLsbD, decide_eq_true hw, Bool.true_and, BitVec.getLsbD, hc,
      Nat.testBit_two_pow_mul, decide_eq_false (by omega), Bool.false_and]
  · exact BitVec.getMsbD_of_ge _ _ (Nat.le_of_not_lt hw)

section Digits

@[simp] theorem getMsbD_digit
    (f : Nat → Bool) (k : Nat) {i : Nat} (hi : i < v) :
    (digit v f k).getMsbD i = f (v * k + i) := by
  rw [digit, BitVec.getMsbD_cast, BitVec.getMsbD_ofBoolListBE, List.getD_eq_getElem?_getD,
    List.getElem?_map, List.getElem?_range hi]
  rfl

theorem digit_congr
    {f g : Nat → Bool} {k : Nat}
    (h : ∀ i < v, f (v * k + i) = g (v * k + i)) :
    digit v f k = digit v g k := by
  refine BitVec.eq_of_getMsbD_eq fun i hi => ?_
  rw [getMsbD_digit f k hi, getMsbD_digit g k hi, h i hi]

/-- A digit whose bits are those of a number is that number. -/
theorem eq_digit_iff
    {x : BitVec v} {f : Nat → Bool} {k : Nat} :
    x = digit v f k ↔ ∀ i < v, x.getMsbD i = f (v * k + i) := by
  constructor
  · rintro rfl i hi
    exact getMsbD_digit f k hi
  · intro h
    refine BitVec.eq_of_getMsbD_eq fun i hi => ?_
    rw [getMsbD_digit f k hi, h i hi]

/-- Digit `k + l` of a string is digit `l` of the string from digit `k` on. -/
theorem digit_add
    (v : Nat) (f : Nat → Bool) (k l : Nat) :
    digit v f (k + l) = digit v (fun p => f (v * k + p)) l := by
  refine BitVec.eq_of_getMsbD_eq fun i hi => ?_
  rw [getMsbD_digit _ _ hi, getMsbD_digit _ _ hi, Nat.mul_add, Nat.add_assoc]

theorem digit_eq_zero
    {f : Nat → Bool} {k : Nat}
    (h : ∀ i < v, f (v * k + i) = false) :
    digit v f k = 0#v := by
  refine BitVec.eq_of_getMsbD_eq fun i hi => ?_
  rw [getMsbD_digit f k hi, h i hi, BitVec.getMsbD_zero]

theorem digit_or
    (v : Nat) (f g : Nat → Bool) (k : Nat) :
    digit v (fun p => f p || g p) k = digit v f k ||| digit v g k := by
  refine BitVec.eq_of_getMsbD_eq fun i hi => ?_
  rw [BitVec.getMsbD_or, getMsbD_digit _ _ hi, getMsbD_digit _ _ hi, getMsbD_digit _ _ hi]

end Digits

section Place

/-- The string that holds a digit from position `s` on and zeros elsewhere. -/
def place (s : Nat) (x : BitVec w) (p : Nat) : Bool :=
  decide (s ≤ p) && x.getMsbD (p - s)

theorem place_of_lt
    {s p : Nat} (x : BitVec w) (hp : p < s) :
    place s x p = false := by
  rw [place, decide_eq_false (Nat.not_le.mpr hp), Bool.false_and]

theorem place_of_le
    {s p : Nat} (x : BitVec w) (hp : s + w ≤ p) :
    place s x p = false := by
  rw [place, BitVec.getMsbD_of_ge _ _ (by omega), Bool.and_false]

theorem place_add
    (s t : Nat) (x : BitVec w) (p : Nat) :
    place (t + s) x (t + p) = place s x p := by
  rw [place, place, Nat.add_sub_add_left]
  simp only [Nat.add_le_add_iff_left]

/-- A digit of another width, counted from a place that is a multiple of that width. -/
theorem digit_place_add
    (v k s : Nat) (x : BitVec w) (l : Nat) :
    digit v (place (v * k + s) x) (k + l) = digit v (place s x) l := by
  rw [digit_add]
  exact digit_congr fun i _ => place_add s (v * k) x _

/-- The part of `x` in a digit that ends before `x` does. -/
theorem digit_place_shiftRight
    {s k n : Nat} (x : BitVec w) (h : v * (k + 1) + n = s + w) :
    digit v (place s x) k = (x >>> n).setWidth v := by
  symm
  rw [eq_digit_iff]
  intro i hi
  rw [Nat.mul_succ] at h
  rw [BitVec.getMsbD_eq_getLsbD, BitVec.getLsbD_setWidth, BitVec.getLsbD_ushiftRight, place,
    BitVec.getMsbD_eq_getLsbD, decide_eq_true hi, decide_eq_true (by omega : v - 1 - i < v),
    Bool.true_and, Bool.true_and]
  by_cases hs : s ≤ v * k + i
  · have hlt : v * k + i - s < w := by omega
    have hindex : n + (v - 1 - i) = w - 1 - (v * k + i - s) := by omega
    rw [decide_eq_true hs, decide_eq_true hlt, Bool.true_and, Bool.true_and, hindex]
  · rw [decide_eq_false hs, Bool.false_and, BitVec.getLsbD_of_ge _ _ (by omega)]

/-- The part of `x` in a digit that ends behind `x`. -/
theorem digit_place_shiftLeft
    {s k n : Nat} (x : BitVec w) (h : v * (k + 1) = s + w + n) :
    digit v (place s x) k = x.setWidth v <<< n := by
  symm
  rw [eq_digit_iff]
  intro i hi
  rw [Nat.mul_succ] at h
  rw [BitVec.getMsbD_eq_getLsbD, BitVec.getLsbD_shiftLeft, BitVec.getLsbD_setWidth, place,
    BitVec.getMsbD_eq_getLsbD, decide_eq_true hi, decide_eq_true (by omega : v - 1 - i < v),
    Bool.true_and, Bool.true_and]
  by_cases hn : v - 1 - i < n
  · rw [decide_eq_true hn, decide_eq_false (by omega : ¬ v * k + i - s < w)]
    simp
  · rw [decide_eq_false hn, decide_eq_true (by omega : v - 1 - i - n < v)]
    by_cases hs : s ≤ v * k + i
    · have hlt : v * k + i - s < w := by omega
      have hindex : v - 1 - i - n = w - 1 - (v * k + i - s) := by omega
      rw [decide_eq_true hs, decide_eq_true hlt, hindex]
      simp
    · rw [decide_eq_false hs, BitVec.getLsbD_of_ge _ _ (by omega)]
      simp

/-- The first digit is put at the beginning, and the others behind it. -/
theorem bitAt_cons
    (x : BitVec w) (xs : List (BitVec w)) (p : Nat) :
    bitAt (x :: xs) p = (place 0 x p || (decide (w ≤ p) && bitAt xs (p - w))) := by
  by_cases hw : w = 0
  · subst hw
    simp [bitAt_eq, place]
  · have hpos := Nat.pos_of_ne_zero hw
    by_cases hp : p < w
    · rw [bitAt_eq, Nat.div_eq_of_lt hp, Nat.mod_eq_of_lt hp,
        decide_eq_false (Nat.not_le.mpr hp), Bool.false_and, Bool.or_false]
      simp [place]
    · have hle := Nat.le_of_not_lt hp
      rw [place_of_le x (by omega), Bool.false_or, decide_eq_true hle, Bool.true_and,
        bitAt_eq, bitAt_eq, Nat.div_eq_sub_div hpos hle, Nat.mod_eq_sub_mod hle,
        List.getElem?_cons_succ]

/-- A further digit is put behind the others. -/
theorem bitAt_concat
    (xs : List (BitVec w)) (x : BitVec w) (p : Nat) :
    bitAt (xs ++ [x]) p = (bitAt xs p || place (w * xs.length) x p) := by
  induction xs generalizing p with
  | nil =>
      rw [List.nil_append, bitAt_cons, bitAt_nil, bitAt_nil, Bool.and_false, Bool.or_false,
        Bool.false_or, List.length_nil, Nat.mul_zero]
  | cons y ys ih =>
      rw [List.cons_append, bitAt_cons, bitAt_cons, ih, List.length_cons, Nat.mul_succ,
        Nat.add_comm _ w]
      by_cases hp : w ≤ p
      · obtain ⟨q, rfl⟩ := Nat.exists_eq_add_of_le hp
        rw [place_add, Nat.add_sub_cancel_left, decide_eq_true hp, Bool.true_and,
          Bool.true_and, Bool.or_assoc]
      · have hlt : p < w + w * ys.length := by omega
        rw [place_of_lt x hlt, decide_eq_false hp, Bool.false_and, Bool.false_and,
          Bool.or_false (_ || false)]

theorem digit_concat
    (v : Nat) (xs : List (BitVec w)) (x : BitVec w) (k : Nat) :
    digit v (bitAt (xs ++ [x])) k =
      digit v (bitAt xs) k ||| digit v (place (w * xs.length) x) k := by
  rw [← digit_or]
  exact digit_congr fun i _ => bitAt_concat xs x _

/-- A digit behind the end of the string. -/
theorem digit_of_le
    {k : Nat} (h : w * xs.length ≤ v * k) :
    digit v (bitAt xs) k = 0#v :=
  digit_eq_zero fun _ _ => bitAt_of_le (by omega)

/-- What a further digit adds to the digit it begins in, which starts at `v * k`. -/
theorem digit_concat_begin
    {k r : Nat} (xs : List (BitVec w)) (x : BitVec w)
    (h : w * xs.length = v * k + r) :
    digit v (bitAt (xs ++ [x])) k =
      digit v (bitAt xs) k ||| digit v (place r x) 0 := by
  rw [digit_concat, h]
  exact congrArg _ (digit_place_add v k r x 0)

/-- What it adds to the digit behind that one, in which nothing was before. -/
theorem digit_concat_next
    {k r : Nat} (xs : List (BitVec w)) (x : BitVec w)
    (h : w * xs.length = v * k + r) (hr : r ≤ v) :
    digit v (bitAt (xs ++ [x])) (k + 1) = digit v (place r x) 1 := by
  have hle : w * xs.length ≤ v * (k + 1) := by
    rw [Nat.mul_succ]
    omega
  rw [digit_concat, digit_of_le hle, BitVec.zero_or, h, digit_place_add]

end Place

section Regroup

variable {m n : Nat}

@[simp] theorem length_regroup
    (v m : Nat) (xs : List (BitVec w)) :
    (regroup v m xs).length = m := by
  rw [regroup, List.length_map, List.length_range]

theorem getElem?_regroup
    {k : Nat} (hk : k < m) :
    (regroup v m xs)[k]? = some (digit v (bitAt xs) k) := by
  rw [regroup, List.getElem?_map, List.getElem?_range hk, Option.map_some]

theorem regroup_succ
    (v m : Nat) (xs : List (BitVec w)) :
    regroup v (m + 1) xs = regroup v m xs ++ [digit v (bitAt xs) m] := by
  rw [regroup, List.range_succ, List.map_append]
  rfl

/-- The bits of the digits are those of the string, as far as they go. -/
theorem bitAt_regroup
    (xs : List (BitVec w)) (p : Nat) :
    bitAt (regroup v m xs) p = (decide (p < v * m) && bitAt xs p) := by
  by_cases hp : p < v * m
  · have hv : 0 < v := Nat.pos_of_mul_pos_right (Nat.zero_lt_of_lt hp)
    have hk : p / v < m := by
      rw [Nat.div_lt_iff_lt_mul hv, Nat.mul_comm]
      exact hp
    rw [bitAt_eq, getElem?_regroup hk, Option.getD_some,
      getMsbD_digit _ _ (Nat.mod_lt p hv), Nat.div_add_mod, decide_eq_true hp,
      Bool.true_and]
  · have hle : v * (regroup v m xs).length ≤ p := by
      rw [length_regroup]
      exact Nat.le_of_not_lt hp
    rw [bitAt_of_le hle, decide_eq_false hp, Bool.false_and]

theorem regroup_congr
    {u : Nat} {zs : List (BitVec u)}
    (h : ∀ p < v * m, bitAt xs p = bitAt zs p) :
    regroup v m xs = regroup v m zs := by
  refine List.map_congr_left fun k hk => digit_congr fun i hi => h _ ?_
  have hle : v * (k + 1) ≤ v * m := Nat.mul_le_mul_left _ (List.mem_range.mp hk)
  rw [Nat.mul_succ] at hle
  omega

/-- Cutting a string into digits of its own width gives its digits. -/
theorem regroup_self
    (xs : List (BitVec w)) :
    regroup w xs.length xs = xs := by
  refine eq_of_bitAt_eq (length_regroup _ _ _) fun p hp => ?_
  rw [length_regroup] at hp
  rw [bitAt_regroup, decide_eq_true hp, Bool.true_and]

/-- Regrouping is undone by regrouping, if the bits that were left out are zero. -/
theorem regroup_cancel
    (h : ∀ p, v * m ≤ p → bitAt xs p = false) :
    regroup w xs.length (regroup v m xs) = xs := by
  have hbits (p : Nat) : bitAt (regroup v m xs) p = bitAt xs p := by
    rw [bitAt_regroup]
    by_cases hp : p < v * m
    · rw [decide_eq_true hp, Bool.true_and]
    · rw [decide_eq_false hp, h p (Nat.le_of_not_lt hp), Bool.false_and]
  have hsame : regroup w xs.length (regroup v m xs) = regroup w xs.length xs :=
    regroup_congr fun p _ => hbits p
  rw [hsame, regroup_self]

/-- A further digit changes nothing in the digits that are complete before it. -/
theorem regroup_append
    (xs : List (BitVec w)) (x : BitVec w)
    (h : v * m ≤ w * xs.length) :
    regroup v m (xs ++ [x]) = regroup v m xs := by
  refine regroup_congr fun p hp => ?_
  rw [bitAt_concat, place_of_lt x (Nat.lt_of_lt_of_le hp h), Bool.or_false]

/-- The bits of two lists of digits, one behind the other. -/
theorem bitAt_append
    (xs ys : List (BitVec w)) (p : Nat) :
    bitAt (xs ++ ys) p =
      if p < w * xs.length then bitAt xs p else bitAt ys (p - w * xs.length) := by
  by_cases hw : w = 0
  · subst hw
    simp [bitAt_eq]
  · have hpos := Nat.pos_of_ne_zero hw
    split_ifs with hp
    · have hlt : p / w < xs.length := (Nat.div_lt_iff_lt_mul hpos).mpr (by rwa [Nat.mul_comm])
      rw [bitAt_eq, bitAt_eq, List.getElem?_append_left hlt]
    · have hle := Nat.le_of_not_lt hp
      obtain ⟨q, rfl⟩ := Nat.exists_eq_add_of_le hle
      rw [← bitAt_drop hpos, List.drop_left, Nat.add_sub_cancel_left]

/-- Where the first digits fill whole digits of the other width, both parts are regrouped
apart. -/
theorem regroup_blocks
    (ys : List (BitVec w))
    (h : w * xs.length = v * m) :
    regroup v (m + n) (xs ++ ys) = regroup v m xs ++ regroup v n ys := by
  have hsecond (k : Nat) : digit v (bitAt (xs ++ ys)) (m + k) = digit v (bitAt ys) k := by
    rw [digit_add]
    refine digit_congr fun i _ => ?_
    rw [bitAt_append, if_neg (by omega), h, Nat.add_sub_cancel_left]
  rw [regroup, List.range_add, List.map_append, List.map_map]
  refine congrArg₂ (· ++ ·) ?_ (List.map_congr_left fun k _ => hsecond k)
  refine regroup_congr fun p hp => ?_
  rw [bitAt_append, if_pos (by omega)]

end Regroup

end BitString
end Brenlib
