import Brenlib.Bren.Base64Rejection

/-!
# What `base64decode` answers, and Base64 block by block

The decoder reads a front of symbols and of characters that it skips, and the character
behind it decides the answer: the end or an equal sign, or which exception is thrown.

* `Ends`: the answer for a front and what stands behind it.

**Results.**
* `decode_outcome`: every text has such a front, and the answer is as `Ends` says, to the
  text of the exception and the position in it.
* `coded_in_blocks`: blocks of whole triples of bytes can be encoded one after the other, and
  fronts of whole quads of symbols can be decoded one after the other.
-/

namespace Brenlib
namespace Bren
namespace Base64

open BitString

section Outcome

/-- The answer of the decoder when `rest` is behind a front with the groups `xs`. -/
inductive Ends (front : Bytes) (xs : List (BitVec 6)) :
    Bytes → Except StdException Bytes → Prop
  | finished :
      Ends front xs [] (.ok (bytes xs))
  | padded
      (rest : Bytes)
      (hphase : 2 ≤ xs.length % 4) :
      Ends front xs (Byte.equalSign :: rest) (.ok (bytes xs))
  | early
      (rest : Bytes)
      (hphase : xs.length % 4 < 2) :
      Ends front xs (Byte.equalSign :: rest)
        (.error ⟨.runtimeError, "Equal sign encountered while decoding first or second" ++
          " character in base64 quad"⟩)
  | null
      (rest : Bytes) :
      Ends front xs (0x00 :: rest)
        (.error ⟨.logicError, "Base64 character has index value larger than 64?"⟩)
  | unknown
      (c : Byte) (rest : Bytes)
      (hsymbol : ¬ IsSymbol c)
      (hskipped : ¬ Skipped c)
      (hequal : c ≠ Byte.equalSign)
      (hnull : c ≠ 0x00) :
      Ends front xs (c :: rest)
        (.error ⟨.runtimeError, "Unknown Base64 character \"" ++ Bytes.text [c] ++
          s!"\" encountered at position {front.length}"⟩)

variable (T : ElementType)

/-- The loop reads the front. -/
theorem decodeFrom_front
    {front : Bytes} {ys : List (BitVec 6)}
    (hfront : strip front = ys.map symbol)
    (i : Nat) (xs : List (BitVec 6)) (rest : Bytes) :
    decodeFrom T i (Decoder.after xs) (front ++ rest) =
      decodeFrom T (i + front.length) (Decoder.after (xs ++ ys)) rest := by
  induction front generalizing i xs ys with
  | nil =>
      obtain rfl : ys = [] := List.map_eq_nil_iff.mp hfront.symm
      rw [List.append_nil]
      rfl
  | cons c front ih =>
      have hlength : i + (c :: front).length = i + 1 + front.length := by
        rw [List.length_cons]
        omega
      rw [strip_cons] at hfront
      rw [List.cons_append, hlength]
      by_cases hskipped : Skipped c
      · rw [if_pos hskipped] at hfront
        rw [decodeFrom_skipped T i _ _ hskipped, ih hfront]
      · rw [if_neg hskipped] at hfront
        cases ys with
        | nil => cases hfront
        | cons y ys =>
            obtain ⟨rfl, hbehind⟩ := List.cons.inj hfront
            rw [decodeFrom_symbol, ih hbehind, List.append_assoc]
            rfl

/-- What stands behind the front decides. -/
theorem decodeFrom_ends
    {front rest : Bytes} {xs : List (BitVec 6)} {answer : Except StdException Bytes}
    (h : Ends front xs rest answer) :
    decodeFrom T front.length (Decoder.after xs) rest = answer := by
  cases h with
  | finished => rfl
  | padded rest hphase => exact decodeFrom_equalSign T _ rest hphase
  | early rest hphase =>
      have hoffset : (Decoder.after xs).offset = 0 ∨ (Decoder.after xs).offset = 1 := by
        have hcases : xs.length % 4 = 0 ∨ xs.length % 4 = 1 := by omega
        exact hcases.imp offset_after offset_after
      rw [decodeFrom, index_equalSign]
      simp only [if_pos hoffset]
      rfl
  | null rest =>
      have hindex : index b64 0x00 = some 64 := by decide +kernel
      have hmask : ElementType.promote T (UInt8.ofNat 64) &&& 0xC0 ≠ 0 := by
        cases T <;> decide
      have htake : (Decoder.after xs).take T (UInt8.ofNat 64) =
          .error ⟨.logicError, "Base64 character has index value larger than 64?"⟩ := by
        rw [Decoder.take, if_pos hmask]
        rfl
      rw [decodeFrom, hindex]
      simp only [htake]
      rfl
  | unknown c rest hsymbol hskipped hequal hnull =>
      have hindex : index b64 c = none := by
        rcases index_cases c with hnone | hlast | ⟨x, rfl⟩
        · exact hnone
        · have hc := index_eq_some hlast
          have hzero : (b64 ++ [0x00])[64]? = some 0x00 := by decide +kernel
          exact absurd (Option.some.inj (hc.symm.trans hzero)) hnull
        · exact absurd ⟨x, rfl⟩ hsymbol
      have hends : ¬ (c = Byte.cr ∨ c = Byte.lf) := fun h => hskipped (h.imp_right .inl)
      have hbackslash : c ≠ Byte.backslash := fun h => hskipped (.inr (.inr h))
      rw [decodeFrom, hindex]
      simp only [if_neg hends, if_neg hbackslash, if_neg hequal]
      rfl

/-- The answer for a text with a given front. -/
theorem base64decode_front
    {front rest : Bytes} {xs : List (BitVec 6)} {answer : Except StdException Bytes}
    (hfront : strip front = xs.map symbol)
    (h : Ends front xs rest answer) :
    base64decode T (front ++ rest) = answer := by
  have hloop := decodeFrom_front T hfront 0 [] rest
  rw [after_nil, List.nil_append, Nat.zero_add, decodeFrom_ends T h] at hloop
  exact hloop

/-- Every text is a front and something that is neither read nor skipped. -/
theorem exists_front
    (s : Bytes) :
    ∃ (front rest : Bytes) (xs : List (BitVec 6)),
      s = front ++ rest ∧ strip front = xs.map symbol ∧
      ∀ c ∈ rest.head?, ¬ IsSymbol c ∧ ¬ Skipped c := by
  induction s with
  | nil => exact ⟨[], [], [], rfl, rfl, by simp⟩
  | cons c s ih =>
      obtain ⟨front, rest, xs, rfl, hfront, hrest⟩ := ih
      by_cases hskipped : Skipped c
      · exact ⟨c :: front, rest, xs, rfl, by rw [strip_cons, if_pos hskipped, hfront], hrest⟩
      · by_cases hsymbol : IsSymbol c
        · obtain ⟨x, rfl⟩ := hsymbol
          exact ⟨symbol x :: front, rest, x :: xs, rfl,
            by rw [strip_cons, if_neg hskipped, hfront]; rfl, hrest⟩
        · refine ⟨[], c :: (front ++ rest), [], rfl, rfl, ?_⟩
          rintro _ ⟨⟩
          exact ⟨hsymbol, hskipped⟩

theorem exists_ends
    (front : Bytes) (xs : List (BitVec 6)) {rest : Bytes}
    (hrest : ∀ c ∈ rest.head?, ¬ IsSymbol c ∧ ¬ Skipped c) :
    ∃ answer, Ends front xs rest answer := by
  cases rest with
  | nil => exact ⟨_, .finished⟩
  | cons c rest =>
      obtain ⟨hsymbol, hskipped⟩ := hrest c rfl
      by_cases hequal : c = Byte.equalSign
      · subst hequal
        rcases Nat.lt_or_ge (xs.length % 4) 2 with hphase | hphase
        · exact ⟨_, .early rest hphase⟩
        · exact ⟨_, .padded rest hphase⟩
      · by_cases hnull : c = 0x00
        · subst hnull
          exact ⟨_, .null rest⟩
        · exact ⟨_, .unknown c rest hsymbol hskipped hequal hnull⟩

/-- **The first character that cannot be decoded decides.** -/
theorem decode_outcome
    (T : ElementType) (s : Bytes) :
    ∃ front rest xs, s = front ++ rest ∧ strip front = xs.map symbol ∧
      Ends front xs rest (base64decode T s) := by
  obtain ⟨front, rest, xs, rfl, hfront, hrest⟩ := exists_front s
  obtain ⟨answer, hends⟩ := exists_ends front xs hrest
  refine ⟨front, rest, xs, rfl, hfront, ?_⟩
  rw [base64decode_front T hfront hends]
  exact hends

/-- The position counts the line end. -/
example : base64decode .char (literal "QU\nJ*") =
    .error ⟨.runtimeError, "Unknown Base64 character \"*\" encountered at position 4"⟩ := by
  have hfront : strip (literal "QU\nJ") = List.map symbol [16, 20, 9] := by decide
  have hsymbol : ¬ IsSymbol 0x2A := not_isSymbol_of_index (by decide +kernel)
  exact base64decode_front .char hfront
    (.unknown 0x2A [] hsymbol (by decide) (by decide) (by decide))

end Outcome

section Blocks

/-- The groups of a block of whole triples are followed by those of the rest. -/
theorem sextets_append
    {d : Bytes} (e : Bytes)
    (hd : 3 ∣ d.length) :
    sextets (d ++ e) = sextets d ++ sextets e := by
  obtain ⟨q, hq⟩ := hd
  have hcount : (8 * (d ++ e).length + 5) / 6 =
      (8 * d.length + 5) / 6 + (8 * e.length + 5) / 6 := by
    rw [List.length_append]
    omega
  have hbits : 8 * (octets d).length = 6 * ((8 * d.length + 5) / 6) := by
    rw [length_octets]
    omega
  rw [sextets, hcount, octets, List.map_append]
  exact regroup_blocks _ hbits

theorem encoding_append
    {d : Bytes} (e : Bytes)
    (hd : 3 ∣ d.length) :
    encoding (d ++ e) = encoding d ++ encoding e := by
  obtain ⟨q, hq⟩ := id hd
  have hpad : (3 - (d ++ e).length % 3) % 3 = (3 - e.length % 3) % 3 := by
    rw [List.length_append]
    omega
  have hnone : (3 - d.length % 3) % 3 = 0 := by omega
  rw [encoding, encoding, encoding, sextets_append e hd, hpad, hnone, List.map_append,
    List.replicate_zero, List.append_nil, List.append_assoc]

theorem encoding_flatten
    {ds : List Bytes} (last : Bytes)
    (hds : ∀ d ∈ ds, 3 ∣ d.length) :
    encoding (ds.flatten ++ last) = (ds.map encoding).flatten ++ encoding last := by
  induction ds with
  | nil => rfl
  | cons d ds ih =>
      obtain ⟨hd, hds⟩ := List.forall_mem_cons.mp hds
      rw [List.flatten_cons, List.append_assoc, encoding_append _ hd, ih hds, List.map_cons,
        List.flatten_cons, List.append_assoc]

/-- The bytes of whole quads are followed by those of the rest. -/
theorem bytes_append
    {xs : List (BitVec 6)} (ys : List (BitVec 6))
    (hxs : 4 ∣ xs.length) :
    bytes (xs ++ ys) = bytes xs ++ bytes ys := by
  obtain ⟨q, hq⟩ := hxs
  have hcount : 6 * (xs ++ ys).length / 8 = 6 * xs.length / 8 + 6 * ys.length / 8 := by
    rw [List.length_append]
    omega
  have hbits : 6 * xs.length = 8 * (6 * xs.length / 8) := by omega
  rw [bytes, hcount, regroup_blocks _ hbits, List.map_append]
  rfl

/-- A front of whole quads. -/
def Quads (front : Bytes) : Prop :=
  ∃ xs : List (BitVec 6), strip front = xs.map symbol ∧ 4 ∣ xs.length

/-- Behind whole quads the decoder begins anew. -/
theorem Ends.behind_quads
    (front : Bytes) {front' rest : Bytes} {xs ys : List (BitVec 6)}
    {answer : Except StdException Bytes}
    (hxs : 4 ∣ xs.length)
    (h : Ends front' ys rest answer) :
    ∃ answer', Ends (front ++ front') (xs ++ ys) rest answer' ∧
      answer'.toOption = answer.toOption.map (bytes xs ++ ·) := by
  obtain ⟨q, hq⟩ := id hxs
  have hphase : (xs ++ ys).length % 4 = ys.length % 4 := by
    rw [List.length_append]
    omega
  have hbytes := bytes_append ys hxs
  cases h with
  | finished => exact ⟨_, .finished, by rw [hbytes]; rfl⟩
  | padded rest h => exact ⟨_, .padded rest (hphase ▸ h), by rw [hbytes]; rfl⟩
  | early rest h => exact ⟨_, .early rest (hphase ▸ h), rfl⟩
  | null rest => exact ⟨_, .null rest, rfl⟩
  | unknown c rest hsymbol hskipped hequal hnull =>
      exact ⟨_, .unknown c rest hsymbol hskipped hequal hnull, rfl⟩

/-- A front of whole quads is decoded, and what follows is decoded as without it. -/
theorem decode_quads
    (T : ElementType) {front : Bytes} (t : Bytes) {xs : List (BitVec 6)}
    (hfront : strip front = xs.map symbol)
    (hxs : 4 ∣ xs.length) :
    base64decode T front = .ok (bytes xs) ∧
      (base64decode T (front ++ t)).toOption =
        (base64decode T t).toOption.map (bytes xs ++ ·) := by
  have halone := base64decode_front T hfront .finished
  rw [List.append_nil] at halone
  refine ⟨halone, ?_⟩
  obtain ⟨front', rest, ys, rfl, hfront', hends⟩ := decode_outcome T t
  obtain ⟨answer, hbehind, hanswer⟩ := hends.behind_quads front hxs
  have hboth : strip (front ++ front') = (xs ++ ys).map symbol := by
    rw [strip, List.filter_append, List.map_append, ← hfront, ← hfront']
    rfl
  rw [← List.append_assoc, base64decode_front T hboth hbehind, hanswer]

/-- **Base64 can be coded block by block.**  Blocks of whole triples are encoded one after the
other, and fronts of whole quads are decoded one after the other. -/
theorem coded_in_blocks
    (T : ElementType) :
    (∀ (ds : List Bytes) (last : Bytes), (∀ d ∈ ds, 3 ∣ d.length) →
      ∃ texts text, List.Forall₂ (fun d text => base64encode T d d.length = .ok text) ds texts ∧
        base64encode T last last.length = .ok text ∧
        base64encode T (ds.flatten ++ last) (ds.flatten ++ last).length =
          .ok (texts.flatten ++ text)) ∧
    ∀ (fronts : List Bytes) (last : Bytes), (∀ front ∈ fronts, Quads front) →
      ∃ ds, List.Forall₂ (fun front d => base64decode T front = .ok d) fronts ds ∧
        (base64decode T (fronts.flatten ++ last)).toOption =
          (base64decode T last).toOption.map (ds.flatten ++ ·) := by
  refine ⟨fun ds last hds => ?_, fun fronts last hfronts => ?_⟩
  · refine ⟨ds.map encoding, encoding last, ?_, base64encode_eq T last, ?_⟩
    · rw [List.forall₂_map_right_iff]
      exact List.forall₂_same.mpr fun d _ => base64encode_eq T d
    · rw [base64encode_eq, encoding_flatten last hds]
  · induction fronts with
    | nil =>
        refine ⟨[], .nil, ?_⟩
        rw [List.flatten_nil, List.nil_append]
        exact (congrFun Option.map_id _).symm
    | cons front fronts ih =>
        obtain ⟨⟨xs, hfront, hxs⟩, hfronts⟩ := List.forall_mem_cons.mp hfronts
        obtain ⟨ds, hds, hrest⟩ := ih hfronts
        obtain ⟨hfirst, hboth⟩ := decode_quads T (fronts.flatten ++ last) hfront hxs
        refine ⟨bytes xs :: ds, .cons hfirst hds, ?_⟩
        rw [List.flatten_cons, List.append_assoc, hboth, hrest, Option.map_map]
        refine congrArg (Option.map · _) (funext fun d => ?_)
        rw [List.flatten_cons, List.append_assoc]
        rfl

end Blocks

end Base64
end Bren
end Brenlib
