import Brenlib.Bren.RomanNumerals

/-!
# Every numeral of `toRoman` can be read back

The numerals that are not standard break one rule only, that of the pairs in which a
symbol is subtracted (`Roman.subtractive`).  `Readable num text` collects the other rules.

* `ShortCut.readable`: the numerals below 1000 that are not standard.
* `toRoman_reads_back`: for every number, standard or not.
-/

namespace Brenlib
namespace Bren

namespace Roman

/-- A numeral that is read as a number, without a rule about pairs. -/
structure Readable (num : Nat) (text : Bytes) : Prop where
  reading_eq : reading text = num
  once : ∀ c ∈ [V, L, D], text.count c ≤ 1
  thrice : ∀ c ∈ [I, X, C], ¬ List.replicate 4 c <:+: text

instance (num : Nat) (text : Bytes) : Decidable (Readable num text) :=
  letI : Decidable (∀ c ∈ [V, L, D], text.count c ≤ 1) := List.decidableBAll _ _
  letI : Decidable (∀ c ∈ [I, X, C], ¬ List.replicate 4 c <:+: text) := List.decidableBAll _ _
  decidable_of_iff
    (reading text = num ∧ (∀ c ∈ [V, L, D], text.count c ≤ 1) ∧
      ∀ c ∈ [I, X, C], ¬ List.replicate 4 c <:+: text)
    ⟨fun ⟨h, h', h''⟩ => ⟨h, h', h''⟩, fun h => ⟨h.1, h.2, h.3⟩⟩

theorem Standard.readable
    {num : Nat} {text : Bytes}
    (h : Standard num text) :
    Readable num text :=
  ⟨h.reading_eq, h.once, h.thrice⟩

/-- A numeral behind symbols that are larger than its first one, without a common symbol that
may stand once only. -/
theorem Readable.append
    {a b : Bytes} {x y mid : Nat}
    (ha : Readable x a)
    (hb : Readable y b)
    (hmid : ∀ c ∈ a, mid ≤ symbolValue c)
    (hhead : ∀ c ∈ b.head?, symbolValue c < mid)
    (honce : ∀ c ∈ [V, L, D], c ∈ a → c ∉ b) :
    Readable (x + y) (a ++ b) where
  reading_eq := by
    rw [reading_append hmid hhead, ha.reading_eq, hb.reading_eq, Nat.cast_add]
  once := by
    intro c hc
    rw [List.count_append]
    by_cases hmem : c ∈ a
    · rw [List.count_eq_zero.mpr (honce c hc hmem), Nat.add_zero]
      exact ha.once c hc
    · rw [List.count_eq_zero.mpr hmem, Nat.zero_add]
      exact hb.once c hc
  thrice := by
    intro c hc h
    rcases replicate_infix_append hmid hhead h with h | h
    · exact ha.thrice c hc h
    · exact hb.thrice c hc h

section ShortCuts

variable {h u v num : Nat} {text : Bytes}

/-- Behind the digit of the hundreds, whose symbol for a five is D. -/
theorem readable_hundreds
    (hh : h < 10)
    (htext : Readable v text)
    (hhead : ∀ c ∈ text.head?, symbolValue c < 100)
    (hfive : D ∉ text) :
    Readable (100 * h + v) (digit C D M h ++ text) := by
  have hpart := part_hundreds h hh
  refine hpart.standard.readable.append htext hpart.from_low hhead fun c hc hmem => ?_
  have hlow := hpart.from_low c hmem
  rcases List.mem_cons.mp hc with rfl | hc
  · exact absurd hlow (by decide)
  rcases List.mem_cons.mp hc with rfl | hc
  · exact absurd hlow (by decide)
  obtain rfl := List.mem_singleton.mp hc
  exact hfive

/-- In front of the digit of the units, with symbols from X on. -/
theorem readable_units
    (hu : u < 9)
    (htext : Readable v text)
    (hlow : ∀ c ∈ text, 10 ≤ symbolValue c) :
    Readable (v + u) (text ++ digit I V X u) := by
  have hpart := part_units u (Nat.lt_trans hu (by decide))
  refine htext.append hpart.standard.readable hlow hpart.head_lt fun c hc hmem hmem' => ?_
  have hlt := hpart.once_lt c hc hmem'
  exact absurd (hlow c hmem) (Nat.not_le.mpr hlt)

/-- Every rule but that of the pairs is kept. -/
theorem ShortCut.readable
    (h : ShortCut num text) :
    Readable num text := by
  have hlow {c : Byte} (hc : 10 ≤ symbolValue c) : ∀ b ∈ [X, c], 10 ≤ symbolValue b :=
    List.forall_mem_cons.mpr ⟨by decide, List.forall_mem_singleton.mpr hc⟩
  cases h with
  | fifty hh =>
      exact readable_hundreds hh (by decide) (head_lt_of_cons (by decide)) (by decide)
  | hundred hh =>
      exact readable_hundreds hh (by decide) (head_lt_of_cons (by decide)) (by decide)
  | fiveHundred hu => exact readable_units hu (by decide) (hlow (by decide))
  | thousand hu => exact readable_units hu (by decide) (hlow (by decide))
  | fiveHundredLessOne => decide
  | thousandLessOne => decide

/-- The digits of a number below 1000. -/
theorem numeral_digits
    {t : Nat}
    (hh : h < 10)
    (ht : t < 10)
    (hu : u < 10) :
    numeral (100 * h + (10 * t + u)) =
      digit C D M h ++ (digit X L C t ++ digit I V X u) := by
  have hthousands : (100 * h + (10 * t + u)) / 1000 = 0 := by omega
  have hhundreds : (100 * h + (10 * t + u)) / 100 % 10 = h := by omega
  have htens : (100 * h + (10 * t + u)) / 10 % 10 = t := by omega
  have hunits : (100 * h + (10 * t + u)) % 10 = u := by omega
  rw [numeral, hthousands, hhundreds, htens, hunits, List.replicate_zero, List.nil_append]

/-- A short cut is never longer than the standard numeral. -/
theorem ShortCut.length_le
    (h : ShortCut num text) :
    text.length ≤ (numeral num).length := by
  have hpair {before after : Bytes} (c d : Byte) (hafter : 2 ≤ after.length) :
      (before ++ [c, d]).length ≤ (before ++ after).length := by
    rw [List.length_append, List.length_append]
    exact Nat.add_le_add_left hafter _
  have hfront {before middle after : Bytes} (c d : Byte) (hbefore : 2 ≤ before.length) :
      ([c, d] ++ after).length ≤ (before ++ (middle ++ after)).length := by
    simp only [List.length_append, List.length_cons, List.length_nil]
    omega
  cases h with
  | @fifty h hh =>
      have hdigits := numeral_digits hh (show 4 < 10 by decide) (show 9 < 10 by decide)
      exact hdigits ▸ hpair I L (by decide)
  | @hundred h hh =>
      have hdigits := numeral_digits hh (show 9 < 10 by decide) (show 9 < 10 by decide)
      exact hdigits ▸ hpair I C (by decide)
  | @fiveHundred u hu =>
      have hdigits := numeral_digits (show 4 < 10 by decide) (show 9 < 10 by decide)
        (Nat.lt_trans hu (by decide))
      rw [show 490 + u = 100 * 4 + (10 * 9 + u) by omega, hdigits]
      exact hfront X D (by decide)
  | @thousand u hu =>
      have hdigits := numeral_digits (show 9 < 10 by decide) (show 9 < 10 by decide)
        (Nat.lt_trans hu (by decide))
      rw [show 990 + u = 100 * 9 + (10 * 9 + u) by omega, hdigits]
      exact hfront X M (by decide)
  | fiveHundredLessOne => decide
  | thousandLessOne => decide

end ShortCuts

theorem irregular_mod
    {num : Nat}
    (h : ¬ Regular num) :
    ¬ Regular (num % 1000) := by
  rintro ⟨hfifty, hfiveHundred⟩
  exact h ⟨by omega, by omega⟩

theorem readable_toRoman
    (num : UInt16) :
    Readable num.toNat (toRoman num) := by
  by_cases hregular : Regular num.toNat
  · rw [toRoman_regular hregular]
    exact (numeral_standard num.toNat).readable
  · have hshort :=
      below_shortCut (Nat.mod_lt num.toNat (Nat.succ_pos 999)) (irregular_mod hregular)
    have hpart := part_thousands (num.toNat / 1000)
    have hall :=
      hpart.standard.readable.append hshort.readable hpart.from_low hshort.head_lt
        fun c hc hmem => by
          obtain rfl := List.eq_of_mem_replicate hmem
          exact absurd hc (by decide)
    rwa [Nat.div_add_mod, ← toRoman_eq] at hall

theorem length_toRoman_le
    (num : UInt16) :
    (toRoman num).length ≤ (numeral num.toNat).length := by
  by_cases hregular : Regular num.toNat
  · rw [toRoman_regular hregular]
  · have hlength :=
      (below_shortCut (Nat.mod_lt num.toNat (Nat.succ_pos 999))
        (irregular_mod hregular)).length_le
    have hnone : num.toNat % 1000 / 1000 = 0 := Nat.div_eq_of_lt (Nat.mod_lt _ (by decide))
    have hhundreds : num.toNat % 1000 / 100 % 10 = num.toNat / 100 % 10 := by omega
    have htens : num.toNat % 1000 / 10 % 10 = num.toNat / 10 % 10 := by omega
    have hunits : num.toNat % 1000 % 10 = num.toNat % 10 := by omega
    rw [numeral, hnone, hhundreds, htens, hunits, List.replicate_zero,
      List.nil_append] at hlength
    rw [toRoman_eq, numeral, List.length_append, List.length_append]
    exact Nat.add_le_add_left hlength _

/-- **Every numeral can be read back.**  Whatever the number, the usual rule reads its
numeral as the number, the symbols that stand for fives stand alone, and no other symbol
below M stands four times in a row; so different numbers have different numerals.  A
numeral that is not standard is never longer than the standard one. -/
theorem toRoman_reads_back :
    (∀ num : UInt16, Readable num.toNat (toRoman num)) ∧
    Function.Injective toRoman ∧
    ∀ num : UInt16, (toRoman num).length ≤ (numeral num.toNat).length := by
  refine ⟨readable_toRoman, fun a b h => ?_, length_toRoman_le⟩
  have ha := (readable_toRoman a).reading_eq
  rw [h, (readable_toRoman b).reading_eq] at ha
  exact UInt16.toNat_inj.mp (Nat.cast_injective ha.symm)

end Roman

end Bren
end Brenlib
