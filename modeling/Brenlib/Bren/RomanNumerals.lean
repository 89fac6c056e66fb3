import Brenlib.Bren.Roman

/-!
# Standard numerals

`Standard num text` is what a numeral has to meet.  `Part low high num text` is a part of
a numeral: the symbols of one or more decimal digits.  Parts are put together from the
left to the right, from the larger digits to the smaller ones (`Part.append`).

**Results.**
* `numeral_standard`: the numeral that is written digit by digit is standard.
* `toRoman_iff`: `toRoman` writes it for the regular numbers, and the numerals of the other
  ones are not standard.
-/

namespace Brenlib
namespace Bren

namespace Roman

/-- What a symbol counts. -/
def symbolValue (c : Byte) : Nat :=
  ((rn.find? (·.second = c)).map Numeral.first).getD 0

/-- A numeral read with the usual rule: a symbol in front of a larger one is
subtracted. -/
def reading : Bytes → Int
  | [] => 0
  | [c] => symbolValue c
  | c :: d :: rest =>
      (if symbolValue c < symbolValue d then -(symbolValue c : Int) else symbolValue c) +
        reading (d :: rest)

/-- The pairs in which a symbol is subtracted. -/
def subtractive : List (Byte × Byte) :=
  [(I, V), (I, X), (X, L), (X, C), (C, D), (C, M)]

/-- A symbol may stand in front of another one. -/
def MayPrecede (c d : Byte) : Prop :=
  symbolValue c < symbolValue d → (c, d) ∈ subtractive

instance (c d : Byte) : Decidable (MayPrecede c d) :=
  inferInstanceAs (Decidable (_ → _))

/-- A standard numeral of a number. -/
structure Standard (num : Nat) (text : Bytes) : Prop where
  reading_eq : reading text = num
  pairs : text.IsChain MayPrecede
  once : ∀ c ∈ [V, L, D], text.count c ≤ 1
  thrice : ∀ c ∈ [I, X, C], ¬ List.replicate 4 c <:+: text

instance (num : Nat) (text : Bytes) : Decidable (Standard num text) :=
  letI : Decidable (∀ c ∈ [V, L, D], text.count c ≤ 1) := List.decidableBAll _ _
  letI : Decidable (∀ c ∈ [I, X, C], ¬ List.replicate 4 c <:+: text) := List.decidableBAll _ _
  decidable_of_iff
    (reading text = num ∧ text.IsChain MayPrecede ∧
      (∀ c ∈ [V, L, D], text.count c ≤ 1) ∧
      ∀ c ∈ [I, X, C], ¬ List.replicate 4 c <:+: text)
    ⟨fun ⟨h, h', h'', h'''⟩ => ⟨h, h', h'', h'''⟩, fun h => ⟨h.1, h.2, h.3, h.4⟩⟩

section Parts

variable {a b : Bytes} {low mid high x y : Nat}

/-- A part of a numeral: it begins with a symbol below one bound, and all its symbols are
from another bound on. -/
structure Part (low high num : Nat) (text : Bytes) : Prop where
  standard : Standard num text
  from_low : ∀ c ∈ text, low ≤ symbolValue c
  head_lt : ∀ c ∈ text.head?, symbolValue c < high
  once_lt : ∀ c ∈ [V, L, D], c ∈ text → symbolValue c < high

instance (low high num : Nat) (text : Bytes) : Decidable (Part low high num text) :=
  letI : Decidable (∀ c ∈ text, low ≤ symbolValue c) := List.decidableBAll _ _
  letI : Decidable (∀ c ∈ text.head?, symbolValue c < high) :=
    Option.decidableForallMem _
  letI : Decidable (∀ c ∈ [V, L, D], c ∈ text → symbolValue c < high) := List.decidableBAll _ _
  decidable_of_iff
    (Standard num text ∧ (∀ c ∈ text, low ≤ symbolValue c) ∧
      (∀ c ∈ text.head?, symbolValue c < high) ∧
      ∀ c ∈ [V, L, D], c ∈ text → symbolValue c < high)
    ⟨fun ⟨h, h', h'', h'''⟩ => ⟨h, h', h'', h'''⟩, fun h => ⟨h.1, h.2, h.3, h.4⟩⟩

/-- Where no symbol is subtracted from the next part, the readings are added. -/
theorem reading_append
    (ha : ∀ c ∈ a, mid ≤ symbolValue c)
    (hb : ∀ c ∈ b.head?, symbolValue c < mid) :
    reading (a ++ b) = reading a + reading b := by
  induction a with
  | nil =>
      exact (Int.zero_add _).symm
  | cons c a ih =>
      have hc := ha c List.mem_cons_self
      have hrest := ih fun d hd => ha d (List.mem_cons_of_mem c hd)
      cases a with
      | nil =>
          cases b with
          | nil =>
              exact (Int.add_zero _).symm
          | cons d b =>
              have hd := hb d rfl
              change (if _ then _ else _) + _ = _
              rw [if_neg (by omega)]
              rfl
      | cons d a =>
          change (if _ then _ else _) + reading (d :: a ++ b) = ((if _ then _ else _) + _) + _
          rw [hrest, Int.add_assoc]

/-- Four equal symbols are in one of the parts. -/
theorem replicate_infix_append
    (ha : ∀ c ∈ a, mid ≤ symbolValue c)
    (hb : ∀ c ∈ b.head?, symbolValue c < mid)
    {c : Byte} {n : Nat}
    (h : List.replicate n c <:+: a ++ b) :
    List.replicate n c <:+: a ∨ List.replicate n c <:+: b := by
  rcases List.infix_append_iff_ne_nil.mp h with h | h | ⟨l, l', hl, hl', heq, hends, hbegins⟩
  · exact .inl h
  · exact .inr h
  · -- the symbol would be the last one of the first part and the first one of the second
    have hmem {d : Byte} (hd : d ∈ l ++ l') : d = c := by
      rw [← heq] at hd
      exact List.eq_of_mem_replicate hd
    obtain ⟨d, l, rfl⟩ := List.exists_cons_of_ne_nil hl
    obtain ⟨d', l', rfl⟩ := List.exists_cons_of_ne_nil hl'
    obtain rfl := hmem (d := d) (by simp)
    obtain rfl := hmem (d := d') (by simp)
    have hle := ha d' (hends.subset List.mem_cons_self)
    obtain ⟨rest, rfl⟩ := hbegins
    have hlt := hb d' rfl
    omega

theorem Part.append
    (ha : Part mid high x a)
    (hb : Part low mid y b)
    (hlow : low ≤ mid)
    (hhigh : mid ≤ high) :
    Part low high (x + y) (a ++ b) where
  standard :=
    { reading_eq := by
        rw [reading_append ha.from_low hb.head_lt, ha.standard.reading_eq,
          hb.standard.reading_eq, Nat.cast_add]
      pairs := by
        refine ha.standard.pairs.append hb.standard.pairs fun c hc d hd hlt => ?_
        have hle := ha.from_low c (List.mem_of_getLast? hc)
        have hlt' := hb.head_lt d hd
        omega
      once := by
        intro c hc
        rw [List.count_append]
        have hcount := ha.standard.once c hc
        have hcount' := hb.standard.once c hc
        by_cases hmem : c ∈ b
        · have hlt := hb.once_lt c hc hmem
          have hnot : c ∉ a := fun hmem' => absurd (ha.from_low c hmem') (by omega)
          rw [List.count_eq_zero.mpr hnot]
          omega
        · rw [List.count_eq_zero.mpr hmem]
          omega
      thrice := by
        intro c hc h
        rcases replicate_infix_append ha.from_low hb.head_lt h with h | h
        · exact ha.standard.thrice c hc h
        · exact hb.standard.thrice c hc h }
  from_low := by
    intro c hc
    rcases List.mem_append.mp hc with hc | hc
    · exact hlow.trans (ha.from_low c hc)
    · exact hb.from_low c hc
  head_lt := by
    intro c hc
    cases a with
    | nil => exact (hb.head_lt c hc).trans_le hhigh
    | cons d a => exact ha.head_lt c hc
  once_lt := by
    intro c hc hmem
    rcases List.mem_append.mp hmem with hmem | hmem
    · exact ha.once_lt c hc hmem
    · exact (hb.once_lt c hc hmem).trans_le hhigh

/-- What remains of a standard numeral when its first part is taken off. -/
theorem Standard.of_append
    (h : Standard (x + y) (a ++ b))
    (ha : Part mid high x a)
    (hb : ∀ c ∈ b.head?, symbolValue c < mid) :
    Standard y b where
  reading_eq := by
    have hreading := h.reading_eq
    rw [reading_append ha.from_low hb, ha.standard.reading_eq, Nat.cast_add] at hreading
    exact Int.add_left_cancel hreading
  pairs := (List.isChain_append.mp h.pairs).2.1
  once := by
    intro c hc
    have hcount := h.once c hc
    rw [List.count_append] at hcount
    omega
  thrice := fun c hc hfour => h.thrice c hc (List.infix_append_of_infix_right hfour)

end Parts

section Digits

theorem part_hundreds :
    ∀ d < 10, Part 100 1000 (100 * d) (digit C D M d) := by
  decide +kernel

theorem part_tens :
    ∀ d < 10, Part 10 100 (10 * d) (digit X L C d) := by
  decide +kernel

theorem part_units :
    ∀ d < 10, Part 1 10 d (digit I V X d) := by
  decide +kernel

theorem reading_thousands
    (k : Nat) :
    reading (List.replicate k M) = 1000 * k := by
  induction k with
  | zero =>
      rfl
  | succ k ih =>
      cases k with
      | zero =>
          rfl
      | succ k =>
          change (if _ then _ else _) + reading (List.replicate (k + 1) M) = _
          rw [if_neg (Nat.lt_irrefl _), ih]
          change (1000 : Int) + _ = _
          omega

theorem part_thousands
    (k : Nat) :
    Part 1000 1001 (1000 * k) (List.replicate k M) where
  standard :=
    { reading_eq := by
        rw [reading_thousands, Nat.cast_mul]
        rfl
      pairs := List.isChain_replicate_of_rel k (by decide)
      once := by
        intro c hc
        rw [List.count_eq_zero.mpr]
        · exact Nat.zero_le 1
        · intro hmem
          obtain rfl := List.eq_of_mem_replicate hmem
          exact absurd hc (by decide)
      thrice := by
        intro c hc hfour
        obtain rfl := List.eq_of_mem_replicate (hfour.subset List.mem_cons_self)
        exact absurd hc (by decide) }
  from_low := by
    intro c hc
    rw [List.eq_of_mem_replicate hc]
    decide
  head_lt := by
    intro c hc
    rw [List.eq_of_mem_replicate (List.mem_of_head? hc)]
    decide
  once_lt := by
    intro c hc hmem
    rw [List.eq_of_mem_replicate hmem]
    decide

theorem mod_ten_lt
    (n : Nat) :
    n % 10 < 10 :=
  Nat.mod_lt n (Nat.succ_pos 9)

/-- The numeral that is written digit by digit is standard. -/
theorem numeral_standard
    (num : Nat) :
    Standard num (numeral num) := by
  have hunits := part_units (num % 10) (mod_ten_lt num)
  have htens := (part_tens (num / 10 % 10) (mod_ten_lt _)).append hunits
    (by omega) (by omega)
  have hhundreds := (part_hundreds (num / 100 % 10) (mod_ten_lt _)).append htens
    (by omega) (by omega)
  have hall := (part_thousands (num / 1000)).append hhundreds
    (by omega) (by omega)
  have hsum :
      1000 * (num / 1000) + (100 * (num / 100 % 10) +
        (10 * (num / 10 % 10) + num % 10)) = num := by
    omega
  rw [hsum] at hall
  exact hall.standard

/-- In a short cut, a symbol is subtracted from one that it may not stand in front of. -/
theorem ShortCut.not_standard
    {num : Nat} {text : Bytes}
    (h : ShortCut num text) (n : Nat) :
    ¬ Standard n text := by
  have hbehind {before : Bytes} {c d : Byte}
      (hnot : ¬ MayPrecede c d) :
      ¬ (before ++ [c, d]).IsChain MayPrecede := by
    rw [List.isChain_append]
    rintro ⟨-, hpair, -⟩
    exact hnot (List.isChain_pair.mp hpair)
  have hfront {after : Bytes} {c d : Byte}
      (hnot : ¬ MayPrecede c d) :
      ¬ ([c, d] ++ after).IsChain MayPrecede := by
    rw [List.isChain_append]
    rintro ⟨hpair, -⟩
    exact hnot (List.isChain_pair.mp hpair)
  intro hstandard
  have hpairs := hstandard.pairs
  cases h with
  | fifty => exact hbehind (by decide) hpairs
  | hundred => exact hbehind (by decide) hpairs
  | fiveHundred => exact hfront (by decide) hpairs
  | thousand => exact hfront (by decide) hpairs
  | fiveHundredLessOne => exact absurd hpairs (by decide)
  | thousandLessOne => exact absurd hpairs (by decide)

theorem head_lt_of_cons
    {c : Byte} {text : Bytes} {high : Nat}
    (h : symbolValue c < high) :
    ∀ b ∈ (c :: text).head?, symbolValue b < high := by
  intro b hb
  exact Option.some.inj hb ▸ h

/-- A short cut begins with a symbol below M. -/
theorem ShortCut.head_lt
    {num : Nat} {text : Bytes}
    (h : ShortCut num text) :
    ∀ c ∈ text.head?, symbolValue c < 1000 := by
  have hdigit {h : Nat} (hh : h < 10) {c d : Byte} (hc : symbolValue c < 1000) :
      ∀ b ∈ (digit C D M h ++ [c, d]).head?, symbolValue b < 1000 := by
    intro b hb
    rw [List.head?_append, Option.mem_def, Option.or_eq_some_iff] at hb
    rcases hb with hb | ⟨-, hb⟩
    · exact (part_hundreds h hh).head_lt b hb
    · exact Option.some.inj hb ▸ hc
  cases h with
  | fifty hh => exact hdigit hh (by decide)
  | hundred hh => exact hdigit hh (by decide)
  | fiveHundred => exact head_lt_of_cons (by decide)
  | thousand => exact head_lt_of_cons (by decide)
  | fiveHundredLessOne => exact head_lt_of_cons (by decide)
  | thousandLessOne => exact head_lt_of_cons (by decide)

end Digits

section ToRoman

variable {num : UInt16}

theorem toRoman_regular
    (h : Regular num.toNat) :
    toRoman num = numeral num.toNat := by
  have hregular : Regular (num.toNat % 1000) := by
    obtain ⟨hfifty, hfiveHundred⟩ := h
    exact ⟨by omega, by omega⟩
  have hhundreds : num.toNat % 1000 / 100 % 10 = num.toNat / 100 % 10 := by omega
  have htens : num.toNat % 1000 / 10 % 10 = num.toNat / 10 % 10 := by omega
  have hunits : num.toNat % 1000 % 10 = num.toNat % 10 := by omega
  rw [toRoman_eq, below_eq_numeral (Nat.mod_lt _ (by decide)) hregular, numeral, numeral,
    Nat.div_eq_of_lt (Nat.mod_lt _ (by decide)), hhundreds, htens, hunits]
  rfl

theorem not_standard_of_irregular
    (h : ¬ Regular num.toNat) :
    ¬ Standard num.toNat (toRoman num) := by
  have hirregular : ¬ Regular (num.toNat % 1000) := by
    rintro ⟨hfifty, hfiveHundred⟩
    exact h ⟨by omega, by omega⟩
  have hshort := below_shortCut (Nat.mod_lt num.toNat (by decide)) hirregular
  intro hstandard
  have hparts : Standard (1000 * (num.toNat / 1000) + num.toNat % 1000)
      (List.replicate (num.toNat / 1000) M ++ below (num.toNat % 1000)) := by
    rw [Nat.div_add_mod, ← toRoman_eq]
    exact hstandard
  exact hshort.not_standard _ (hparts.of_append (part_thousands _) hshort.head_lt)

/-- **`toRoman` writes a standard numeral** exactly of the numbers that lack neither
one to a multiple of 50 nor up to ten to a multiple of 500, and then the one that is written
digit by digit. -/
theorem toRoman_iff
    (num : UInt16) :
    (Standard num.toNat (toRoman num) ↔
      num.toNat % 50 ≠ 49 ∧ num.toNat % 500 < 490) ∧
    (num.toNat % 50 ≠ 49 ∧ num.toNat % 500 < 490 →
      toRoman num = numeral num.toNat) := by
  refine ⟨⟨fun hstandard => ?_, fun h => ?_⟩, toRoman_regular⟩
  · by_contra h
    exact not_standard_of_irregular h hstandard
  · rw [toRoman_regular h]
    exact numeral_standard num.toNat

/-- 49 is written as IL. -/
theorem writes_il :
    toRoman 49 = [I, L] ∧ ¬ Standard 49 (toRoman 49) := by
  refine ⟨?_, @not_standard_of_irregular 49 (by decide)⟩
  rw [toRoman_eq]
  decide

end ToRoman

end Roman

end Bren
end Brenlib
