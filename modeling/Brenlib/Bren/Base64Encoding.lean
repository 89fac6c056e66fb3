import Brenlib.Base.BitString
import Brenlib.Bren.Base64

/-!
# What `base64encode` writes

The bytes are a string of bits, and the text is that string in digits of six bits, each
written as a symbol of the standard alphabet, with equal signs behind the last one.

* `symbol`, `sextets d`, `encoding d`: the standard encoding.
* `BitsUsed T x`: the shifted and masked values of a byte, which do not depend on `T`.
* `letter_first` to `letter_fourth`: the characters of one quad.

**Result.**  `base64encode_eq`: the loop and the `switch` behind it write the encoding,
for both element types; `base64encode_conforms` says it character by character.
-/

namespace Brenlib
namespace Bren
namespace Base64

open BitString ElementType

section Encoding

/-- The symbol of the standard alphabet for a value of six bits. -/
def symbol (x : BitVec 6) : Byte :=
  if x.toNat < 26 then UInt8.ofNat (0x41 + x.toNat)
  else if x.toNat < 52 then UInt8.ofNat (0x61 + (x.toNat - 26))
  else if x.toNat < 62 then UInt8.ofNat (0x30 + (x.toNat - 52))
  else if x.toNat = 62 then 0x2B
  else 0x2F

def octets (d : Bytes) : List (BitVec 8) :=
  d.map UInt8.toBitVec

/-- The bits of the bytes in groups of six, the last one filled up with zeros. -/
def sextets (d : Bytes) : List (BitVec 6) :=
  regroup 6 ((8 * d.length + 5) / 6) (octets d)

/-- The symbols of the groups, with equal signs up to a multiple of four. -/
def encoding (d : Bytes) : Bytes :=
  (sextets d).map symbol ++ List.replicate ((3 - d.length % 3) % 3) Byte.equalSign

@[simp] theorem length_octets
    (d : Bytes) :
    (octets d).length = d.length :=
  List.length_map _

@[simp] theorem length_sextets
    (d : Bytes) :
    (sextets d).length = (8 * d.length + 5) / 6 :=
  length_regroup _ _ _

theorem length_encoding
    (d : Bytes) :
    (encoding d).length = 4 * ((d.length + 2) / 3) := by
  rw [encoding, List.length_append, List.length_map, length_sextets, List.length_replicate]
  omega

end Encoding

section Bits

/-- A value of six bits as an `int`. -/
def widen (x : BitVec 6) : Int32 :=
  .ofBitVec (x.setWidth 32)

theorem widen_or
    (x y : BitVec 6) :
    widen x ||| widen y = widen (x ||| y) := by
  apply Int32.toBitVec.inj
  simp [widen, BitVec.setWidth_or]

/-- The table holds the standard alphabet. -/
theorem letter_widen
    (x : BitVec 6) :
    letter (widen x) = symbol x := by
  revert x
  decide +kernel

/-- The masks cut off the bits in which the element types differ. -/
theorem promote_masked
    (T : ElementType) (x : BitVec 8) :
    (promote T (.ofBitVec x) >>> 2) &&& (0x3F : Int32) =
        widen (BitVec.setWidth 6 (x >>> 2)) ∧
      (promote T (.ofBitVec x) &&& (0x03 : Int32)) <<< 4 =
        widen (BitVec.setWidth 6 x <<< 4) ∧
      (promote T (.ofBitVec x) >>> 4) &&& (0x0F : Int32) =
        widen (BitVec.setWidth 6 (x >>> 4)) ∧
      (promote T (.ofBitVec x) &&& (0x0F : Int32)) <<< 2 =
        widen (BitVec.setWidth 6 x <<< 2) ∧
      (promote T (.ofBitVec x) >>> 6) &&& (0x03 : Int32) =
        widen (BitVec.setWidth 6 (x >>> 6)) ∧
      promote T (.ofBitVec x) &&& (0x3F : Int32) =
        widen (BitVec.setWidth 6 (x >>> 0)) := by
  revert x
  cases T <;> decide +kernel

/-- The values that the encoder computes from a byte in one of the three places of a
block: what the byte contributes to the four groups of six bits. -/
structure BitsUsed (T : ElementType) (x : Byte) : Prop where
  first_high : (promote T x >>> 2) &&& 0x3F = widen (digit 6 (place 0 x.toBitVec) 0)
  first_low : (promote T x &&& 0x03) <<< 4 = widen (digit 6 (place 0 x.toBitVec) 1)
  second_high : (promote T x >>> 4) &&& 0x0F = widen (digit 6 (place 8 x.toBitVec) 1)
  second_low : (promote T x &&& 0x0F) <<< 2 = widen (digit 6 (place 8 x.toBitVec) 2)
  third_high : (promote T x >>> 6) &&& 0x03 = widen (digit 6 (place 16 x.toBitVec) 2)
  third_low : promote T x &&& 0x3F = widen (digit 6 (place 16 x.toBitVec) 3)

theorem bitsUsed
    (T : ElementType) (x : Byte) :
    BitsUsed T x := by
  obtain ⟨h₁, h₂, h₃, h₄, h₅, h₆⟩ := promote_masked T x.toBitVec
  exact {
    first_high := h₁.trans (congrArg widen (digit_place_shiftRight _ (by rfl)).symm)
    first_low := h₂.trans (congrArg widen (digit_place_shiftLeft _ (by rfl)).symm)
    second_high := h₃.trans (congrArg widen (digit_place_shiftRight _ (by rfl)).symm)
    second_low := h₄.trans (congrArg widen (digit_place_shiftLeft _ (by rfl)).symm)
    third_high := h₅.trans (congrArg widen (digit_place_shiftRight _ (by rfl)).symm)
    third_low := h₆.trans (congrArg widen (digit_place_shiftRight _ (by rfl)).symm) }

/-- The first bits of a string of bytes are those of the first three bytes, the missing
ones taken as zero. -/
theorem bitAt_block
    (xs : List (BitVec 8)) {p : Nat} (hp : p < 24) :
    bitAt xs p =
      (place 0 (xs.getD 0 0) p || place 8 (xs.getD 1 0) p || place 16 (xs.getD 2 0) p) := by
  have hcases : p < 8 ∨ (8 ≤ p ∧ p < 16) ∨ 16 ≤ p := by omega
  rcases hcases with hfirst | ⟨hlow, hhigh⟩ | hthird
  · rw [place_of_lt (s := 8) _ hfirst, place_of_lt (s := 16) _ (by omega), bitAt_eq,
      Nat.div_eq_of_lt hfirst, Nat.mod_eq_of_lt hfirst]
    simp [place, List.getD_eq_getElem?_getD]
  · have hdiv : p / 8 = 1 := by omega
    have hmod : p % 8 = p - 8 := by omega
    rw [place_of_le (s := 0) _ hlow, place_of_lt (s := 16) _ hhigh, bitAt_eq, hdiv, hmod]
    simp [place, List.getD_eq_getElem?_getD, hlow]
  · have hdiv : p / 8 = 2 := by omega
    have hmod : p % 8 = p - 16 := by omega
    rw [place_of_le (s := 0) _ (by omega), place_of_le (s := 8) _ hthird, bitAt_eq, hdiv,
      hmod]
    simp [place, List.getD_eq_getElem?_getD, hthird]

/-- The groups of a block. -/
theorem digit_block
    (xs : List (BitVec 8)) :
    digit 6 (bitAt xs) 0 = digit 6 (place 0 (xs.getD 0 0)) 0 ∧
      digit 6 (bitAt xs) 1 =
        digit 6 (place 0 (xs.getD 0 0)) 1 ||| digit 6 (place 8 (xs.getD 1 0)) 1 ∧
      digit 6 (bitAt xs) 2 =
        digit 6 (place 8 (xs.getD 1 0)) 2 ||| digit 6 (place 16 (xs.getD 2 0)) 2 ∧
      digit 6 (bitAt xs) 3 = digit 6 (place 16 (xs.getD 2 0)) 3 := by
  refine ⟨?_, ?_, ?_, ?_⟩
  · refine digit_congr fun i hi => ?_
    rw [bitAt_block xs (by omega), place_of_lt (s := 8) _ (by omega),
      place_of_lt (s := 16) _ (by omega), Bool.or_false, Bool.or_false]
  · rw [← digit_or]
    refine digit_congr fun i hi => ?_
    rw [bitAt_block xs (by omega), place_of_lt (s := 16) _ (by omega), Bool.or_false]
  · rw [← digit_or]
    refine digit_congr fun i hi => ?_
    rw [bitAt_block xs (by omega), place_of_le (s := 0) _ (by omega), Bool.false_or]
  · refine digit_congr fun i hi => ?_
    rw [bitAt_block xs (by omega), place_of_le (s := 0) _ (by omega),
      place_of_le (s := 8) _ (by omega), Bool.false_or, Bool.false_or]

end Bits

section Letters

variable (T : ElementType) (d : Bytes) (j : Nat)

/-- The byte that is read at an index, or zero behind the end. -/
theorem read_eq
    (i k : Nat) :
    read T d (i + k) = promote T (.ofBitVec (((octets d).drop i).getD k 0)) := by
  have hbyte : d.getD (i + k) 0x00 = .ofBitVec (((octets d).drop i).getD k 0) := by
    rw [octets, List.getD_eq_getElem?_getD, List.getD_eq_getElem?_getD, List.getElem?_drop,
      List.getElem?_map]
    cases d[i + k]? <;> rfl
  rw [read, hbyte]

/-- The groups from byte `3 * j` on. -/
theorem digit_from
    (l : Nat) :
    digit 6 (bitAt (octets d)) (4 * j + l) =
      digit 6 (bitAt ((octets d).drop (3 * j))) l := by
  rw [digit_add]
  refine digit_congr fun i _ => ?_
  have hpos : 6 * (4 * j) = 8 * (3 * j) := by omega
  rw [bitAt_drop (by decide), hpos]

theorem letter_first :
    letter ((read T d (3 * j) >>> 2) &&& 0x3F) =
      symbol (digit 6 (bitAt (octets d)) (4 * j)) := by
  have hbits := bitsUsed T (.ofBitVec (((octets d).drop (3 * j)).getD 0 0))
  have hgroup := (digit_block ((octets d).drop (3 * j))).1
  have hread := read_eq T d (3 * j) 0
  rw [← digit_from d j 0, Nat.add_zero] at hgroup
  rw [Nat.add_zero] at hread
  rw [hread, hbits.first_high, letter_widen, hgroup]

theorem letter_second :
    letter (((read T d (3 * j) &&& 0x03) <<< 4) |||
        ((read T d (3 * j + 1) >>> 4) &&& 0x0F)) =
      symbol (digit 6 (bitAt (octets d)) (4 * j + 1)) := by
  have hbits₀ := bitsUsed T (.ofBitVec (((octets d).drop (3 * j)).getD 0 0))
  have hbits₁ := bitsUsed T (.ofBitVec (((octets d).drop (3 * j)).getD 1 0))
  have hgroup := (digit_block ((octets d).drop (3 * j))).2.1
  have hread := read_eq T d (3 * j) 0
  rw [← digit_from d j 1] at hgroup
  rw [Nat.add_zero] at hread
  rw [hread, read_eq, hbits₀.first_low, hbits₁.second_high, widen_or, letter_widen, hgroup]

theorem letter_third :
    letter (((read T d (3 * j + 1) &&& 0x0F) <<< 2) |||
        ((read T d (3 * j + 2) >>> 6) &&& 0x03)) =
      symbol (digit 6 (bitAt (octets d)) (4 * j + 2)) := by
  have hbits₁ := bitsUsed T (.ofBitVec (((octets d).drop (3 * j)).getD 1 0))
  have hbits₂ := bitsUsed T (.ofBitVec (((octets d).drop (3 * j)).getD 2 0))
  have hgroup := (digit_block ((octets d).drop (3 * j))).2.2.1
  rw [← digit_from d j 2] at hgroup
  rw [read_eq, read_eq, hbits₁.second_low, hbits₂.third_high, widen_or, letter_widen, hgroup]

theorem letter_fourth :
    letter (read T d (3 * j + 2) &&& 0x3F) =
      symbol (digit 6 (bitAt (octets d)) (4 * j + 3)) := by
  have hbits := bitsUsed T (.ofBitVec (((octets d).drop (3 * j)).getD 2 0))
  have hgroup := (digit_block ((octets d).drop (3 * j))).2.2.2
  rw [← digit_from d j 3] at hgroup
  rw [read_eq, hbits.third_low, letter_widen, hgroup]

/-- A byte behind the end has no bits. -/
theorem read_of_le
    {i : Nat} (hi : d.length ≤ i) :
    read T d i = 0 := by
  rw [read, List.getD_eq_getElem?_getD, List.getElem?_eq_none hi]
  cases T <;> rfl

/-- The second character, if the block has one byte. -/
theorem letter_second_last
    (h : d.length ≤ 3 * j + 1) :
    letter ((read T d (3 * j) &&& 0x03) <<< 4) =
      symbol (digit 6 (bitAt (octets d)) (4 * j + 1)) := by
  rw [← letter_second T d j, read_of_le T d h]
  congr 1
  exact (Int32.or_zero).symm

/-- The third character, if the block has two bytes. -/
theorem letter_third_last
    (h : d.length ≤ 3 * j + 2) :
    letter ((read T d (3 * j + 1) &&& 0x0F) <<< 2) =
      symbol (digit 6 (bitAt (octets d)) (4 * j + 2)) := by
  rw [← letter_third T d j, read_of_le T d h]
  congr 1
  exact (Int32.or_zero).symm

end Letters

section Loop

variable (T : ElementType) (d : Bytes)

/-- The symbols of the first `m` groups. -/
def symbols (d : Bytes) (m : Nat) : Bytes :=
  (regroup 6 m (octets d)).map symbol

theorem symbols_succ
    (m : Nat) :
    symbols d (m + 1) = symbols d m ++ [symbol (digit 6 (bitAt (octets d)) m)] := by
  rw [symbols, regroup_succ, List.map_append]
  rfl

/-- The encoding, given the number of groups and that of the equal signs. -/
theorem encoding_eq
    {m k : Nat} (hm : (8 * d.length + 5) / 6 = m) (hk : (3 - d.length % 3) % 3 = k) :
    encoding d = symbols d m ++ List.replicate k Byte.equalSign := by
  rw [encoding, sextets, hm, hk]
  rfl

/-- The loop writes the groups of all complete blocks. -/
theorem encodeQuads_eq
    {j : Nat} (hj : 3 * j ≤ d.length) :
    encodeQuads T d d.length (symbols d (4 * j)) (3 * j) =
      (symbols d (4 * (d.length / 3)), 3 * (d.length / 3)) := by
  induction hn : d.length / 3 - j generalizing j with
  | zero =>
      obtain rfl : j = d.length / 3 := by omega
      rw [encodeQuads, if_neg (by omega)]
  | succ n ih =>
      have hquad :
          symbols d (4 * (j + 1)) =
            symbols d (4 * j) ++ [
              symbol (digit 6 (bitAt (octets d)) (4 * j)),
              symbol (digit 6 (bitAt (octets d)) (4 * j + 1)),
              symbol (digit 6 (bitAt (octets d)) (4 * j + 2)),
              symbol (digit 6 (bitAt (octets d)) (4 * j + 3))] := by
        rw [Nat.mul_succ, symbols_succ, symbols_succ, symbols_succ, symbols_succ]
        simp only [List.append_assoc, List.cons_append, List.nil_append]
      rw [encodeQuads, if_pos (by omega), letter_first, letter_second, letter_third,
        letter_fourth, ← hquad, ← Nat.mul_succ]
      exact ih (by omega) (by omega)

/-- The `switch` writes the groups of the last block and the equal signs. -/
theorem encodeTail_eq :
    encodeTail T d d.length (symbols d (4 * (d.length / 3))) (3 * (d.length / 3)) =
      .ok (encoding d) := by
  have hcases : d.length % 3 = 0 ∨ d.length % 3 = 1 ∨ d.length % 3 = 2 := by omega
  rcases hcases with hrest | hrest | hrest
  · have hleft : d.length - 3 * (d.length / 3) = 0 := by omega
    rw [encodeTail, hleft, encoding_eq d (m := 4 * (d.length / 3)) (k := 0) (by omega)
      (by omega), List.replicate_zero, List.append_nil]
    rfl
  · have hleft : d.length - 3 * (d.length / 3) = 1 := by omega
    rw [encodeTail, hleft, encoding_eq d (m := 4 * (d.length / 3) + 2) (k := 2) (by omega)
      (by omega), symbols_succ, symbols_succ]
    simp only [letter_first, letter_second_last T d (d.length / 3) (by omega),
      List.append_assoc, List.cons_append, List.nil_append]
    rfl
  · have hleft : d.length - 3 * (d.length / 3) = 2 := by omega
    rw [encodeTail, hleft, encoding_eq d (m := 4 * (d.length / 3) + 3) (k := 1) (by omega)
      (by omega), symbols_succ, symbols_succ, symbols_succ]
    simp only [letter_first, letter_second, letter_third_last T d (d.length / 3) (by omega),
      List.append_assoc, List.cons_append, List.nil_append]
    rfl

/-- The encoder writes the standard encoding. -/
theorem base64encode_eq :
    base64encode T d d.length = .ok (encoding d) := by
  by_cases hd : d.length = 0
  · rw [base64encode, if_pos hd, List.length_eq_zero_iff.mp hd]
    rfl
  · have hzero : 3 * 0 ≤ d.length := by omega
    have hloop := encodeQuads_eq T d hzero
    have hstart : symbols d (4 * 0) = [] := rfl
    rw [hstart, Nat.mul_zero] at hloop
    rw [base64encode, if_neg hd, hloop]
    exact encodeTail_eq T d

end Loop

/-- **Conformance.**  For every byte sequence and both element types the encoder returns
a text of four characters for every three bytes begun.  Character `k` is the symbol of
the bits `6 * k` to `6 * k + 5` of the bytes, as far as there are such bits, and the one
or two characters behind them are equal signs. -/
theorem base64encode_conforms
    (T : ElementType) (d : Bytes) :
    ∃ text, base64encode T d d.length = .ok text ∧
      text.length = 4 * ((d.length + 2) / 3) ∧
      (∀ k < (8 * d.length + 5) / 6,
        text[k]? = some (symbol (digit 6 (bitAt (octets d)) k))) ∧
      (∀ k, (8 * d.length + 5) / 6 ≤ k → k < text.length →
        text[k]? = some Byte.equalSign) ∧
      text.length - (8 * d.length + 5) / 6 ≤ 2 := by
  have hlen := length_encoding d
  refine ⟨encoding d, base64encode_eq T d, hlen, ?_, ?_, by omega⟩
  · intro k hk
    have hlt : k < ((sextets d).map symbol).length := by
      rw [List.length_map, length_sextets]
      exact hk
    rw [encoding, List.getElem?_append_left hlt, List.getElem?_map, sextets,
      getElem?_regroup hk, Option.map_some]
  · intro k hk hlt
    have hle : ((sextets d).map symbol).length ≤ k := by
      rw [List.length_map, length_sextets]
      exact hk
    have hrest : k - ((sextets d).map symbol).length < (3 - d.length % 3) % 3 := by
      rw [encoding, List.length_append, List.length_replicate] at hlt
      omega
    rw [encoding, List.getElem?_append_right hle, List.getElem?_replicate, if_pos hrest]

/-- Two bytes with the sign bit set. -/
example : encoding [0xFB, 0xFF] = literal "+/8=" := rfl

end Base64
end Bren
end Brenlib
