import Mathlib.Tactic

/-!
# Bytes of UTF-8 encoded text

Which bytes the encoding of a character consists of: none of them is `0xF8` or
above, and the first one is in the upper half of the byte range for the
characters outside ASCII.  `isValid` decides whether bytes are encoded text.
-/

namespace Brenlib
namespace Utf8

/-- The encoding of a text. -/
def encode (cs : List Char) : List UInt8 :=
  cs.flatMap String.utf8EncodeChar

theorem encode_append
    (cs cs' : List Char) :
    encode (cs ++ cs') = encode cs ++ encode cs' :=
  List.flatMap_append

theorem toNat_ofNat_of_lt
    {n : Nat} (h : n < 256) :
    (UInt8.ofNat n).toNat = n :=
  UInt8.toNat_ofNat_of_lt' h

/-- No byte of an encoded character reaches `0xF8`. -/
theorem toNat_lt_of_mem_encodeChar
    {c : Char} {b : UInt8}
    (h : b ∈ String.utf8EncodeChar c) :
    b.toNat < 0xF8 := by
  unfold String.utf8EncodeChar at h
  simp only at h
  split_ifs at h <;> simp only [List.mem_cons, List.not_mem_nil, or_false] at h
  · rw [h, toNat_ofNat_of_lt (by omega)]
    omega
  · rcases h with rfl | rfl <;> rw [toNat_ofNat_of_lt (by omega)] <;> omega
  · rcases h with rfl | rfl | rfl <;>
      rw [toNat_ofNat_of_lt (by omega)] <;> omega
  · rcases h with rfl | rfl | rfl | rfl <;>
      rw [toNat_ofNat_of_lt (by omega)] <;> omega

theorem toNat_lt_of_mem_encode
    {cs : List Char} {b : UInt8}
    (h : b ∈ encode cs) :
    b.toNat < 0xF8 := by
  obtain ⟨c, -, hb⟩ := List.mem_flatMap.mp h
  exact toNat_lt_of_mem_encodeChar hb

/-- The encoding of a character outside ASCII starts in the upper half. -/
theorem head_encodeChar_of_not_ascii
    {c : Char} (h : 0x80 ≤ c.toNat) :
    ∃ b bs, String.utf8EncodeChar c = b :: bs ∧ 0x80 ≤ b.toNat := by
  have hval : 0x80 ≤ c.val.toNat := h
  unfold String.utf8EncodeChar
  simp only
  split_ifs
  · omega
  · exact ⟨_, _, rfl, by rw [toNat_ofNat_of_lt (by omega)]; omega⟩
  · exact ⟨_, _, rfl, by rw [toNat_ofNat_of_lt (by omega)]; omega⟩
  · exact ⟨_, _, rfl, by rw [toNat_ofNat_of_lt (by omega)]; omega⟩

/-- Every byte of a character outside ASCII is in the upper half. -/
theorem le_toNat_of_mem_encodeChar
    {c : Char} {b : UInt8}
    (h : 0x80 ≤ c.toNat)
    (hb : b ∈ String.utf8EncodeChar c) :
    0x80 ≤ b.toNat := by
  have hval : 0x80 ≤ c.val.toNat := h
  unfold String.utf8EncodeChar at hb
  simp only at hb
  split_ifs at hb <;> simp only [List.mem_cons, List.not_mem_nil, or_false] at hb
  · omega
  · rcases hb with rfl | rfl <;> rw [toNat_ofNat_of_lt (by omega)] <;> omega
  · rcases hb with rfl | rfl | rfl <;>
      rw [toNat_ofNat_of_lt (by omega)] <;> omega
  · rcases hb with rfl | rfl | rfl | rfl <;>
      rw [toNat_ofNat_of_lt (by omega)] <;> omega

/-- A character of ASCII is encoded as one byte. -/
theorem encodeChar_of_ascii
    {c : Char} (h : c.toNat < 0x80) :
    ∃ b, String.utf8EncodeChar c = [b] ∧ b.toNat < 0x80 := by
  have hval : c.val.toNat < 0x80 := h
  refine ⟨UInt8.ofNat c.val.toNat, ?_, by rw [toNat_ofNat_of_lt (by omega)]; exact hval⟩
  unfold String.utf8EncodeChar
  simp only
  rw [if_pos (by omega)]

/-- ASCII bytes are the encoding of the characters with their numbers. -/
theorem encodeChar_ofNat
    {b : UInt8} (h : b.toNat < 0x80) :
    String.utf8EncodeChar (Char.ofNat b.toNat) = [b] := by
  have hvalid : b.toNat.isValidChar := Or.inl (by omega)
  have hval : (Char.ofNat b.toNat).val.toNat = b.toNat := by
    rw [Char.ofNat, dif_pos hvalid]
    rfl
  unfold String.utf8EncodeChar
  simp only [hval]
  rw [if_pos (by omega), UInt8.ofNat_toNat]

theorem exists_encode_of_ascii
    {s : List UInt8} (h : ∀ b ∈ s, b.toNat < 0x80) :
    ∃ cs, s = encode cs := by
  induction s with
  | nil =>
      exact ⟨[], rfl⟩
  | cons b s ih =>
      obtain ⟨cs, hcs⟩ := ih fun c hc => h c (by simp [hc])
      refine ⟨Char.ofNat b.toNat :: cs, ?_⟩
      rw [encode, List.flatMap_cons, encodeChar_ofNat (h b (by simp)), hcs]
      rfl

/-- A decision procedure for encoded text. -/
def isValid (s : List UInt8) : Bool :=
  s.toByteArray.validateUTF8

theorem isValid_iff
    (s : List UInt8) :
    isValid s = true ↔ ∃ cs, s = encode cs := by
  rw [isValid, ByteArray.validateUTF8_eq_true_iff]
  constructor
  · rintro ⟨cs, hcs⟩
    refine ⟨cs, ?_⟩
    have hdata := congrArg (fun b : ByteArray => b.data.toList) hcs
    simpa [List.utf8Encode, encode] using hdata
  · rintro ⟨cs, rfl⟩
    exact ⟨cs, rfl⟩

end Utf8
end Brenlib
