import Brenlib.Bren.Base64Encoding

/-!
# What `base64decode` reads

The decoder builds up the bytes of the string of bits whose groups of six it looks up.
Behind every character its data are the complete bytes, and `b` holds the bits of the
next one that are there already.

* `Decoder.after xs`: the variables behind the characters for the groups `xs`.
* `take_after`: one character, in each of the four phases.
* `Transported text s`: line ends and backslashes have got into the text.

**Results.**
* `base64decode_transported`, `decode_undoes_encode`: decoding undoes encoding, also behind a
  transport.
* `encode_undoes_decode`: encoding undoes decoding on canonical texts.
-/

namespace Brenlib
namespace Bren
namespace Base64

open BitString ElementType

section Value

/-- The index of a symbol in the table, as a value of type `T`. -/
def value (x : BitVec 6) : Byte :=
  .ofNat x.toNat

@[simp] theorem ofInt_promote
    (T : ElementType) (b : Byte) :
    ofInt (promote T b) = b := by
  cases T with
  | char =>
      simp [promote, ofInt]
  | unsignedChar =>
      apply UInt8.toBitVec_inj.mp
      change b.toUInt32.toBitVec.signExtend 8 = b.toBitVec
      rw [BitVec.signExtend_eq_setWidth_of_le _ (by decide)]
      simp

@[simp] theorem ofInt_or
    (m n : Int32) :
    ofInt (m ||| n) = ofInt m ||| ofInt n := by
  simp [ofInt]

/-- The values of the symbols have the sign bit clear for both element types. -/
theorem promote_value
    (T : ElementType) (x : BitVec 6) :
    promote T (value x) &&& (0xC0 : Int32) = 0 ∧
      ofInt ((promote T (value x) <<< 2) &&& (0xFC : Int32)) =
        .ofBitVec (BitVec.setWidth 8 x <<< 2) ∧
      ofInt ((promote T (value x) >>> 4) &&& (0x03 : Int32)) =
        .ofBitVec (BitVec.setWidth 8 (x >>> 4)) ∧
      ofInt ((promote T (value x) <<< 4) &&& (0xF0 : Int32)) =
        .ofBitVec (BitVec.setWidth 8 x <<< 4) ∧
      ofInt ((promote T (value x) >>> 2) &&& (0x0F : Int32)) =
        .ofBitVec (BitVec.setWidth 8 (x >>> 2)) ∧
      ofInt ((promote T (value x) <<< 6) &&& (0xC0 : Int32)) =
        .ofBitVec (BitVec.setWidth 8 x <<< 6) ∧
      ofInt (promote T (value x) &&& (0x3F : Int32)) =
        .ofBitVec (BitVec.setWidth 8 (x >>> 0)) := by
  revert x
  cases T <;> decide +kernel

/-- What the decoder takes from a value in each phase: its contribution to the byte that
is built up, and to the one behind it. -/
structure BitsTaken (T : ElementType) (x : BitVec 6) : Prop where
  in_range : promote T (value x) &&& 0xC0 = 0
  first : ofInt ((promote T (value x) <<< 2) &&& 0xFC) = .ofBitVec (digit 8 (place 0 x) 0)
  second : ofInt ((promote T (value x) >>> 4) &&& 0x03) = .ofBitVec (digit 8 (place 6 x) 0)
  second_next :
    ofInt ((promote T (value x) <<< 4) &&& 0xF0) = .ofBitVec (digit 8 (place 6 x) 1)
  third : ofInt ((promote T (value x) >>> 2) &&& 0x0F) = .ofBitVec (digit 8 (place 4 x) 0)
  third_next :
    ofInt ((promote T (value x) <<< 6) &&& 0xC0) = .ofBitVec (digit 8 (place 4 x) 1)
  fourth : ofInt (promote T (value x) &&& 0x3F) = .ofBitVec (digit 8 (place 2 x) 0)

theorem bitsTaken
    (T : ElementType) (x : BitVec 6) :
    BitsTaken T x := by
  obtain ⟨h₀, h₁, h₂, h₃, h₄, h₅, h₆⟩ := promote_value T x
  exact {
    in_range := h₀
    first := h₁.trans (congrArg _ (digit_place_shiftLeft _ (by rfl)).symm)
    second := h₂.trans (congrArg _ (digit_place_shiftRight _ (by rfl)).symm)
    second_next := h₃.trans (congrArg _ (digit_place_shiftLeft _ (by rfl)).symm)
    third := h₄.trans (congrArg _ (digit_place_shiftRight _ (by rfl)).symm)
    third_next := h₅.trans (congrArg _ (digit_place_shiftLeft _ (by rfl)).symm)
    fourth := h₆.trans (congrArg _ (digit_place_shiftRight _ (by rfl)).symm) }

end Value

section Phases

/-- The bytes that a list of groups of six bits holds. -/
def bytes (xs : List (BitVec 6)) : Bytes :=
  (regroup 8 (6 * xs.length / 8) xs).map .ofBitVec

/-- The variables of the decoder behind the characters of some groups. -/
def Decoder.after (xs : List (BitVec 6)) : Decoder :=
  { data := bytes xs
    offset := .ofNat (xs.length % 4)
    b := .ofBitVec (digit 8 (bitAt xs) (6 * xs.length / 8)) }

variable (T : ElementType) (xs : List (BitVec 6)) (x : BitVec 6)

theorem after_nil :
    Decoder.after [] = .start := by
  rfl

theorem length_concat :
    (xs ++ [x]).length = xs.length + 1 := by
  rw [List.length_append, List.length_singleton]

variable {xs x}

/-- The offset says in which place of a byte the next group begins. -/
theorem offset_after
    {k : Nat} (h : xs.length % 4 = k) :
    (Decoder.after xs).offset = .ofNat k := by
  rw [Decoder.after, h]

theorem b_after
    {q r : Nat} (h : 6 * xs.length = 8 * q + r) (hr : r < 8) :
    (Decoder.after xs).b = .ofBitVec (digit 8 (bitAt xs) q) := by
  have hq : 6 * xs.length / 8 = q := by omega
  rw [Decoder.after, hq]

/-- A group that begins a byte, with which no byte gets complete. -/
theorem after_concat_begin
    {q : Nat} (h : 6 * xs.length = 8 * q) :
    bytes (xs ++ [x]) = bytes xs ∧
      (Decoder.after (xs ++ [x])).b = .ofBitVec (digit 8 (place 0 x) 0) := by
  have hbefore : 6 * xs.length / 8 = q := by omega
  have hafter : 6 * (xs ++ [x]).length / 8 = q := by
    rw [length_concat]
    omega
  constructor
  · rw [bytes, bytes, hbefore, hafter, regroup_append xs x (Nat.le_of_eq h.symm)]
  · have hzero : digit 8 (bitAt xs) q = 0#8 := digit_of_le (Nat.le_of_eq h)
    rw [Decoder.after, hafter, digit_concat_begin (r := 0) xs x h, hzero, BitVec.zero_or]

/-- A group with which a byte gets complete. -/
theorem after_concat_next
    {q r : Nat} (h : 6 * xs.length = 8 * q + r) (hlow : 2 ≤ r) (hhigh : r < 8) :
    bytes (xs ++ [x]) =
        bytes xs ++ [(Decoder.after xs).b ||| .ofBitVec (digit 8 (place r x) 0)] ∧
      (Decoder.after (xs ++ [x])).b = .ofBitVec (digit 8 (place r x) 1) := by
  have hbefore : 6 * xs.length / 8 = q := by omega
  have hafter : 6 * (xs ++ [x]).length / 8 = q + 1 := by
    rw [length_concat]
    omega
  constructor
  · rw [b_after h hhigh, bytes, bytes, hbefore, hafter, regroup_succ,
      regroup_append xs x (by omega), List.map_append, digit_concat_begin xs x h]
    rfl
  · rw [Decoder.after, hafter, digit_concat_next xs x h (Nat.le_of_lt hhigh)]

/-- The `switch` over `offset`: the complete bytes behind the next group, and what is
there of the byte to build up. -/
theorem buildUp_after :
    (Decoder.after xs).buildUp T (value x) =
      .ok (bytes (xs ++ [x]), (Decoder.after (xs ++ [x])).b) := by
  have hbits := bitsTaken T x
  have hcases :
      xs.length % 4 = 0 ∨ xs.length % 4 = 1 ∨ xs.length % 4 = 2 ∨ xs.length % 4 = 3 := by
    omega
  have hplace : 6 * xs.length = 8 * (6 * xs.length / 8) + 6 * xs.length % 8 := by omega
  rcases hcases with hphase | hphase | hphase | hphase
  · have hrest : 6 * xs.length % 8 = 0 := by omega
    rw [hrest] at hplace
    obtain ⟨hbytes, hb⟩ := after_concat_begin (x := x) hplace
    rw [Decoder.buildUp, offset_after hphase, if_neg (by decide), if_neg (by decide),
      if_neg (by decide), if_pos (by decide), hbits.first, hbytes, hb]
    rfl
  · have hrest : 6 * xs.length % 8 = 6 := by omega
    rw [hrest] at hplace
    obtain ⟨hbytes, hb⟩ := after_concat_next (x := x) hplace (by decide) (by decide)
    rw [Decoder.buildUp, offset_after hphase, if_neg (by decide), if_neg (by decide),
      if_pos (by decide), ofInt_or, ofInt_promote, hbits.second, hbits.second_next, hbytes,
      hb]
    rfl
  · have hrest : 6 * xs.length % 8 = 4 := by omega
    rw [hrest] at hplace
    obtain ⟨hbytes, hb⟩ := after_concat_next (x := x) hplace (by decide) (by decide)
    rw [Decoder.buildUp, offset_after hphase, if_neg (by decide), if_pos (by decide), ofInt_or,
      ofInt_promote, hbits.third, hbits.third_next, hbytes, hb]
    rfl
  · have hrest : 6 * xs.length % 8 = 2 := by omega
    rw [hrest] at hplace
    obtain ⟨hbytes, hb⟩ := after_concat_next (x := x) hplace (by decide) (by decide)
    have hzero : digit 8 (place 2 x) 1 = 0#8 :=
      digit_eq_zero fun i _ => place_of_le x (by omega)
    rw [Decoder.buildUp, offset_after hphase, if_pos (by decide), ofInt_or, ofInt_promote,
      hbits.fourth, hbytes, hb, hzero]
    rfl

/-- One character of the alphabet. -/
theorem take_after :
    (Decoder.after xs).take T (value x) = .ok (Decoder.after (xs ++ [x])) := by
  have hoffset :
      ((Decoder.after xs).offset + 1) % 4 = (Decoder.after (xs ++ [x])).offset := by
    rw [offset_after rfl, offset_after rfl, length_concat, ← UInt8.toNat_inj]
    simp
    omega
  rw [Decoder.take, if_neg (not_not.mpr (bitsTaken T x).in_range), buildUp_after, hoffset]
  rfl

end Phases

section Text

/-- A text with characters in it that the decoder skips: line ends and backslashes. -/
inductive Transported : Bytes → Bytes → Prop
  | nil :
      Transported [] []
  | kept
      (c : Byte) {text s : Bytes}
      (h : Transported text s) :
      Transported (c :: text) (c :: s)
  | inserted
      {c : Byte} {text s : Bytes}
      (hc : c = Byte.cr ∨ c = Byte.lf ∨ c = Byte.backslash)
      (h : Transported text s) :
      Transported text (c :: s)

theorem Transported.refl
    (text : Bytes) :
    Transported text text := by
  induction text with
  | nil =>
      exact .nil
  | cons c text ih =>
      exact .kept c ih

/-- A symbol stands in the table at its value. -/
theorem index_symbol
    (x : BitVec 6) :
    index b64 (symbol x) = some x.toNat := by
  revert x
  decide +kernel

/-- The characters that the decoder knows beside those of the table. -/
theorem index_outside :
    ∀ c ∈ [Byte.equalSign, Byte.cr, Byte.lf, Byte.backslash], index b64 c = none := by
  decide +kernel

theorem index_equalSign :
    index b64 Byte.equalSign = none :=
  index_outside _ List.mem_cons_self

theorem index_skipped
    {c : Byte} (hc : c = Byte.cr ∨ c = Byte.lf ∨ c = Byte.backslash) :
    index b64 c = none := by
  apply index_outside
  rcases hc with rfl | rfl | rfl
  · simp
  · simp
  · simp

variable (T : ElementType) (i : Nat) (s : Decoder) (rest : Bytes)

theorem decodeFrom_symbol
    (xs : List (BitVec 6)) (x : BitVec 6) :
    decodeFrom T i (Decoder.after xs) (symbol x :: rest) =
      decodeFrom T (i + 1) (Decoder.after (xs ++ [x])) rest := by
  rw [decodeFrom, index_symbol]
  change (do
    let s' ← (Decoder.after xs).take T (value x)
    decodeFrom T (i + 1) s' rest) = _
  rw [take_after]
  rfl

theorem decodeFrom_skipped
    {c : Byte} (hc : c = Byte.cr ∨ c = Byte.lf ∨ c = Byte.backslash) :
    decodeFrom T i s (c :: rest) = decodeFrom T (i + 1) s rest := by
  rw [decodeFrom, index_skipped hc]
  rcases hc with rfl | rfl | rfl <;> rfl

/-- An equal sign ends the text, unless it stands in the first half of a quad. -/
theorem decodeFrom_equalSign
    {xs : List (BitVec 6)} (hphase : 2 ≤ xs.length % 4) :
    decodeFrom T i (Decoder.after xs) (Byte.equalSign :: rest) = .ok (bytes xs) := by
  have hoffset : ¬ ((Decoder.after xs).offset = 0 ∨ (Decoder.after xs).offset = 1) := by
    rw [offset_after rfl, ← UInt8.toNat_inj, ← UInt8.toNat_inj, UInt8.toNat_ofNat',
      UInt8.toNat_zero, UInt8.toNat_one]
    omega
  rw [decodeFrom, index_equalSign]
  simp only [if_neg hoffset]
  rfl

/-- The loop decodes what is left of a transported text. -/
theorem decodeFrom_transported
    {text t : Bytes} (h : Transported text t)
    {xs ys : List (BitVec 6)} {k : Nat}
    (htext : text = ys.map symbol ++ List.replicate k Byte.equalSign)
    (hpad : k ≠ 0 → 2 ≤ (xs ++ ys).length % 4) :
    decodeFrom T i (Decoder.after xs) t = .ok (bytes (xs ++ ys)) := by
  induction h generalizing i xs ys with
  | nil =>
      obtain ⟨hys, -⟩ := List.append_eq_nil_iff.mp htext.symm
      rw [List.map_eq_nil_iff.mp hys, List.append_nil]
      rfl
  | @kept c text t h ih =>
      cases ys with
      | nil =>
          cases k with
          | zero =>
              exact absurd htext (by simp)
          | succ k =>
              obtain ⟨rfl, -⟩ := List.cons.inj htext
              rw [List.append_nil] at hpad ⊢
              exact decodeFrom_equalSign T i t (hpad (Nat.succ_ne_zero k))
      | cons y ys =>
          obtain ⟨rfl, hrest⟩ := List.cons.inj htext
          rw [List.append_cons] at hpad ⊢
          rw [decodeFrom_symbol]
          exact ih (i + 1) hrest hpad
  | inserted hc h ih =>
      rw [decodeFrom_skipped T i _ _ hc]
      exact ih (i + 1) htext hpad

end Text

section RoundTrips

variable (T : ElementType)

theorem octets_bytes
    (xs : List (BitVec 6)) :
    octets (bytes xs) = regroup 8 (6 * xs.length / 8) xs := by
  rw [octets, bytes, List.map_map]
  exact List.map_id _

@[simp] theorem length_bytes
    (xs : List (BitVec 6)) :
    (bytes xs).length = 6 * xs.length / 8 := by
  rw [bytes, List.length_map, length_regroup]

/-- The groups of some bytes hold these bytes and zeros. -/
theorem bytes_sextets
    (d : Bytes) :
    bytes (sextets d) = d := by
  have hcount : 6 * (sextets d).length / 8 = (octets d).length := by
    rw [length_sextets, length_octets]
    omega
  have hpad (p : Nat) (hp : 6 * ((8 * d.length + 5) / 6) ≤ p) : bitAt (octets d) p = false := by
    refine bitAt_of_le ?_
    rw [length_octets]
    omega
  rw [bytes, hcount, sextets, regroup_cancel hpad, octets, List.map_map]
  exact List.map_id _

theorem base64decode_transported
    {d s : Bytes} (h : Transported (encoding d) s) :
    base64decode T s = .ok d := by
  have hpad : (3 - d.length % 3) % 3 ≠ 0 → 2 ≤ ([] ++ sextets d).length % 4 := by
    intro hequals
    rw [List.nil_append, length_sextets]
    have hcases : d.length % 3 = 1 ∨ d.length % 3 = 2 := by omega
    rcases hcases with hrest | hrest <;> omega
  have hloop := decodeFrom_transported T 0 h rfl hpad
  rwa [after_nil, List.nil_append, bytes_sextets] at hloop

/-- **Decoding undoes encoding.**  The encoder returns the same text for both element
types, and the decoder returns the bytes again, whatever line ends and backslashes have
got into the text. -/
theorem decode_undoes_encode
    (d : Bytes) :
    ∃ text, (∀ T, base64encode T d d.length = .ok text) ∧
      ∀ T s, Transported text s → base64decode T s = .ok d :=
  ⟨encoding d, fun T => base64encode_eq T d, fun T _ h => base64decode_transported T h⟩

/-- A slash that was escaped and a line end before the equal sign. -/
theorem decode_undoes_encode_example :
    base64decode .char (literal "+\\/8\r\n=") = .ok [0xFB, 0xFF] := by
  obtain ⟨text, hencode, hdecode⟩ := decode_undoes_encode [0xFB, 0xFF]
  have htext : text = literal "+/8=" :=
    Except.ok.inj ((hencode .char).symm.trans (base64encode_eq .char _))
  subst htext
  exact hdecode _ _ (.kept _ (.inserted (by decide) (.kept _ (.kept _ (.inserted (by decide)
    (.inserted (by decide) (.kept _ .nil)))))))

/-- A text without line ends: symbols up to a multiple of four, the last of which may be
equal signs.  The last bits, which no byte holds, are zero. -/
structure CanonicalFor (s : Bytes) (xs : List (BitVec 6)) (pad : Nat) : Prop where
  text : s = xs.map symbol ++ List.replicate pad Byte.equalSign
  pad_le : pad ≤ 2
  aligned : 4 ∣ s.length
  unused : ∀ x ∈ xs.getLast?, 2 ^ (2 * pad) ∣ x.toNat

def Canonical (s : Bytes) : Prop :=
  ∃ xs pad, CanonicalFor s xs pad

namespace CanonicalFor

variable {s : Bytes} {xs : List (BitVec 6)} {pad : Nat}

theorem phase
    (h : CanonicalFor s xs pad) :
    (xs.length + pad) % 4 = 0 := by
  have hlen := congrArg List.length h.text
  have haligned := h.aligned
  rw [List.length_append, List.length_map, List.length_replicate] at hlen
  omega

/-- The bits that no byte holds are those of the last group that are zero. -/
theorem bitAt_unused
    (h : CanonicalFor s xs pad)
    {p : Nat} (hp : 8 * (6 * xs.length / 8) ≤ p) :
    bitAt xs p = false := by
  have hphase := h.phase
  have hle := h.pad_le
  rcases xs.eq_nil_or_concat' with rfl | ⟨init, x, rfl⟩
  · exact bitAt_nil p
  · have hlast : 2 ^ (2 * pad) ∣ x.toNat := h.unused x (by simp)
    rw [length_concat] at hp hphase
    rw [bitAt_concat, bitAt_of_le (by omega), Bool.false_or, place,
      getMsbD_of_dvd hlast (by omega), Bool.and_false]

theorem decode
    (h : CanonicalFor s xs pad) :
    base64decode T s = .ok (bytes xs) := by
  have hphase := h.phase
  have hle := h.pad_le
  have hpad : pad ≠ 0 → 2 ≤ ([] ++ xs).length % 4 := by
    rw [List.nil_append]
    omega
  have hloop := decodeFrom_transported T 0 (.refl s) h.text hpad
  rwa [after_nil, List.nil_append] at hloop

theorem encoding_eq
    (h : CanonicalFor s xs pad) :
    encoding (bytes xs) = s := by
  have hphase := h.phase
  have hle := h.pad_le
  have hcount : (8 * (bytes xs).length + 5) / 6 = xs.length := by
    rw [length_bytes]
    omega
  have hequals : (3 - (bytes xs).length % 3) % 3 = pad := by
    rw [length_bytes]
    have hcases : pad = 0 ∨ pad = 1 ∨ pad = 2 := by omega
    rcases hcases with rfl | rfl | rfl <;> omega
  have hgroups : sextets (bytes xs) = xs := by
    rw [sextets, hcount, octets_bytes]
    exact regroup_cancel fun p hp => h.bitAt_unused hp
  rw [encoding, hgroups, hequals, ← h.text]

end CanonicalFor

/-- **Encoding undoes decoding.**  A canonical text decodes to bytes that are encoded as
that text, and no other canonical text decodes to them. -/
theorem encode_undoes_decode
    {s : Bytes} (h : Canonical s) :
    ∃ d, base64decode T s = .ok d ∧ base64encode T d d.length = .ok s ∧
      ∀ T' s', Canonical s' → base64decode T' s' = .ok d → s' = s := by
  obtain ⟨xs, pad, hs⟩ := h
  refine ⟨bytes xs, hs.decode T, ?_, ?_⟩
  · rw [base64encode_eq, hs.encoding_eq]
  · rintro T' s' ⟨xs', pad', hs'⟩ hdecode
    have hsame : bytes xs' = bytes xs := Except.ok.inj ((hs'.decode T').symm.trans hdecode)
    rw [← hs'.encoding_eq, hsame, hs.encoding_eq]

theorem encode_undoes_decode_example :
    ∃ d, base64decode .char (literal "/9g=") = .ok d ∧
      base64encode .char d d.length = .ok (literal "/9g=") := by
  have hcanonical : Canonical (literal "/9g=") :=
    ⟨[63, 61, 32], 1, ⟨by decide, by decide, by decide, by decide⟩⟩
  obtain ⟨d, hdecode, hencode, -⟩ := encode_undoes_decode .char hcanonical
  exact ⟨d, hdecode, hencode⟩

end RoundTrips

end Base64
end Bren
end Brenlib
