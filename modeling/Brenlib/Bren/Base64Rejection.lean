import Brenlib.Bren.Base64Decoding

/-!
# What `base64decode` drops

The decoder stops at the first equal sign behind the second character of a quad and does
not look at what is behind it, and at the end of the text it does not look at the phase.

* `strip s`: the text without the characters that the decoder skips.
* `Behind`: what ends the symbols of a text, and what the decoder makes of it.

**Results.**  Every text is symbols and something behind them that decides the answer
(`decode_cases`).  Nothing is dropped exactly when the text is not cut off behind the
first symbol of a quad and has no more than one equal sign behind the first one
(`faithful_iff`).
-/

namespace Brenlib
namespace Bren
namespace Base64

section Symbols

/-- What is found in a string stands where it is found. -/
theorem index_eq_some
    {s : Bytes} {c : Byte} {i : Nat}
    (h : index s c = some i) :
    (s ++ [0x00])[i]? = some c := by
  obtain ⟨hlt, hmem, -⟩ := List.findIdx?_eq_some_iff_getElem.mp h
  rw [List.getElem?_eq_getElem hlt]
  exact congrArg some (of_decide_eq_true hmem)

/-- The characters of the table, found at their values. -/
theorem index_cases
    (c : Byte) :
    index b64 c = none ∨ index b64 c = some 64 ∨ ∃ x : BitVec 6, c = symbol x := by
  cases hindex : index b64 c with
  | none =>
      exact .inl rfl
  | some i =>
      have hlength : (b64 ++ [0x00]).length = 65 := by decide +kernel
      have hc := index_eq_some hindex
      have hlt : i < 65 := hlength ▸ (List.getElem?_eq_some_iff.mp hc).1
      by_cases hlast : i = 64
      · exact .inr (.inl (congrArg some hlast))
      · have hx : (BitVec.ofNat 6 i).toNat = i := by
          rw [BitVec.toNat_ofNat, Nat.mod_eq_of_lt (by omega)]
        have hsymbol := index_eq_some (index_symbol (BitVec.ofNat 6 i))
        rw [hx] at hsymbol
        exact .inr (.inr ⟨_, Option.some.inj (hc.symm.trans hsymbol)⟩)

theorem symbol_injective :
    Function.Injective symbol := by
  intro x y h
  have hindex := (index_symbol x).symm.trans ((congrArg (index b64) h).trans (index_symbol y))
  exact BitVec.eq_of_toNat_eq (Option.some.inj hindex)

/-- The character is one of the alphabet. -/
def IsSymbol (c : Byte) : Prop :=
  ∃ x : BitVec 6, symbol x = c

theorem not_isSymbol_of_index
    {c : Byte}
    (h : index b64 c = none) :
    ¬ IsSymbol c := by
  rintro ⟨x, rfl⟩
  rw [index_symbol] at h
  cases h

/-- Where the symbols end, a text says which ones they are. -/
theorem symbols_unique
    {xs ys : List (BitVec 6)} {rest rest' : Bytes}
    (hrest : ∀ c ∈ rest.head?, ¬ IsSymbol c)
    (hrest' : ∀ c ∈ rest'.head?, ¬ IsSymbol c)
    (h : xs.map symbol ++ rest = ys.map symbol ++ rest') :
    xs = ys ∧ rest = rest' := by
  induction xs generalizing ys with
  | nil =>
      cases ys with
      | nil =>
          exact ⟨rfl, h⟩
      | cons y ys =>
          rw [List.map_nil, List.nil_append] at h
          exact absurd ⟨y, rfl⟩ (hrest _ (by rw [h]; rfl))
  | cons x xs ih =>
      cases ys with
      | nil =>
          rw [List.map_nil, List.nil_append] at h
          exact absurd ⟨x, rfl⟩ (hrest' _ (by rw [← h]; rfl))
      | cons y ys =>
          obtain ⟨hsymbol, htail⟩ := List.cons.inj h
          obtain ⟨rfl, hrests⟩ := ih htail
          rw [symbol_injective hsymbol]
          exact ⟨rfl, hrests⟩

end Symbols

section Answers

/-- A line end or a backslash. -/
def Skipped (c : Byte) : Prop :=
  c = Byte.cr ∨ c = Byte.lf ∨ c = Byte.backslash

instance : DecidablePred Skipped :=
  fun _ => inferInstanceAs (Decidable (_ ∨ _))

/-- The text without the characters that are skipped. -/
def strip (s : Bytes) : Bytes :=
  s.filter (¬ Skipped ·)

/-- What is behind the symbols of the groups `xs`, and what the decoder returns. -/
inductive Behind (xs : List (BitVec 6)) : Bytes → Except StdException Bytes → Prop
  | finished :
      Behind xs [] (.ok (bytes xs))
  | padded
      (rest : Bytes)
      (hphase : 2 ≤ xs.length % 4) :
      Behind xs (Byte.equalSign :: rest) (.ok (bytes xs))
  | early
      (rest : Bytes) (e : StdException)
      (hphase : xs.length % 4 < 2) :
      Behind xs (Byte.equalSign :: rest) (.error e)
  | unknown
      (c : Byte) (rest : Bytes) (e : StdException)
      (hequal : c ≠ Byte.equalSign)
      (hsymbol : ¬ IsSymbol c) :
      Behind xs (c :: rest) (.error e)

variable {T : ElementType} {xs : List (BitVec 6)} {rest : Bytes}
  {answer : Except StdException Bytes}

theorem Behind.not_isSymbol
    (h : Behind xs rest answer) :
    ∀ c ∈ rest.head?, ¬ IsSymbol c := by
  intro c hc
  cases h with
  | finished =>
      cases hc
  | padded | early =>
      cases hc
      exact not_isSymbol_of_index index_equalSign
  | unknown c rest e hequal hsymbol =>
      cases hc
      exact hsymbol

/-- An equal sign in the first half of a quad. -/
theorem decodeFrom_early
    (i : Nat) (rest : Bytes)
    (hphase : xs.length % 4 < 2) :
    ∃ e, decodeFrom T i (Decoder.after xs) (Byte.equalSign :: rest) = .error e := by
  have hoffset : (Decoder.after xs).offset = 0 ∨ (Decoder.after xs).offset = 1 := by
    have hcases : xs.length % 4 = 0 ∨ xs.length % 4 = 1 := by omega
    rcases hcases with hzero | hone
    · exact .inl (offset_after hzero)
    · exact .inr (offset_after hone)
  rw [decodeFrom, index_equalSign]
  simp only [if_pos hoffset]
  exact ⟨_, rfl⟩

/-- The terminating null is found at the end of the table. -/
theorem decodeFrom_null
    {c : Byte} (i : Nat) (s : Decoder) (rest : Bytes)
    (h : index b64 c = some 64) :
    ∃ e, decodeFrom T i s (c :: rest) = .error e := by
  have hmask : ElementType.promote T (UInt8.ofNat 64) &&& 0xC0 ≠ 0 := by
    cases T <;> decide
  have htake : s.take T (UInt8.ofNat 64) =
      .error ⟨.logicError, "Base64 character has index value larger than 64?"⟩ := by
    rw [Decoder.take, if_pos hmask]
    rfl
  rw [decodeFrom, h]
  simp only [htake]
  exact ⟨_, rfl⟩

theorem decodeFrom_unknown
    {c : Byte} (i : Nat) (s : Decoder) (rest : Bytes)
    (h : index b64 c = none)
    (hskipped : ¬ Skipped c)
    (hequal : c ≠ Byte.equalSign) :
    ∃ e, decodeFrom T i s (c :: rest) = .error e := by
  have hends : ¬ (c = Byte.cr ∨ c = Byte.lf) := fun hends =>
    hskipped (hends.imp_right .inl)
  have hbackslash : c ≠ Byte.backslash := fun hbackslash => hskipped (.inr (.inr hbackslash))
  rw [decodeFrom, h]
  simp only [if_neg hends, if_neg hbackslash, if_neg hequal]
  exact ⟨_, rfl⟩

theorem strip_cons
    (c : Byte) (s : Bytes) :
    strip (c :: s) = if Skipped c then strip s else c :: strip s := by
  rw [strip, List.filter_cons]
  split_ifs with hkeep hskipped hskipped
  · exact absurd hskipped (by simpa using hkeep)
  · rfl
  · rfl
  · exact absurd hskipped (by simpa using hkeep)

theorem not_skipped_of_index
    {c : Byte}
    (h : index b64 c ≠ none) :
    ¬ Skipped c :=
  fun hskipped => h (index_skipped hskipped)

/-- The loop reads symbols up to what decides its answer. -/
theorem decodeFrom_cases
    (s : Bytes) (i : Nat) (xs : List (BitVec 6)) :
    ∃ ys rest, strip s = ys.map symbol ++ rest ∧
      Behind (xs ++ ys) rest (decodeFrom T i (Decoder.after xs) s) := by
  induction s generalizing i xs with
  | nil =>
      refine ⟨[], [], rfl, ?_⟩
      rw [List.append_nil]
      exact .finished
  | cons c s ih =>
      rw [strip_cons]
      rcases index_cases c with hnone | hnull | ⟨x, rfl⟩
      · by_cases hskipped : Skipped c
        · rw [if_pos hskipped, decodeFrom_skipped T i _ s hskipped]
          exact ih (i + 1) xs
        · rw [if_neg hskipped]
          refine ⟨[], _, rfl, ?_⟩
          rw [List.append_nil]
          by_cases hequal : c = Byte.equalSign
          · subst hequal
            by_cases hphase : 2 ≤ xs.length % 4
            · rw [decodeFrom_equalSign T i s hphase]
              exact .padded _ hphase
            · obtain ⟨e, herror⟩ := decodeFrom_early (T := T) i s (Nat.lt_of_not_le hphase)
              rw [herror]
              exact .early _ e (Nat.lt_of_not_le hphase)
          · obtain ⟨e, herror⟩ :=
              decodeFrom_unknown (T := T) i (Decoder.after xs) s hnone hskipped hequal
            rw [herror]
            exact .unknown c _ e hequal (not_isSymbol_of_index hnone)
      · obtain ⟨e, herror⟩ := decodeFrom_null (T := T) i (Decoder.after xs) s hnull
        rw [if_neg (not_skipped_of_index (by rw [hnull]; simp)), herror]
        refine ⟨[], _, rfl, ?_⟩
        rw [List.append_nil]
        refine .unknown c _ e ?_ ?_
        · rintro rfl
          rw [index_equalSign] at hnull
          cases hnull
        · rintro ⟨x, rfl⟩
          rw [index_symbol] at hnull
          exact absurd (Option.some.inj hnull) (Nat.ne_of_lt x.isLt)
      · obtain ⟨ys, rest, hstrip, hbehind⟩ := ih (i + 1) (xs ++ [x])
        rw [if_neg (not_skipped_of_index (by rw [index_symbol]; simp)), decodeFrom_symbol,
          hstrip]
        refine ⟨x :: ys, rest, rfl, ?_⟩
        rw [List.append_cons]
        exact hbehind

theorem decode_cases
    (T : ElementType) (s : Bytes) :
    ∃ xs rest, strip s = xs.map symbol ++ rest ∧ Behind xs rest (base64decode T s) := by
  obtain ⟨xs, rest, hstrip, hbehind⟩ := decodeFrom_cases (T := T) s 0 []
  rw [after_nil, List.nil_append] at hbehind
  exact ⟨xs, rest, hstrip, hbehind⟩

end Answers

section Faithful

/-- Nothing is dropped: a text that is not refused has symbols, whose number is not one
more than a multiple of four, at most two equal signs behind them and nothing else, and
it is decoded to all bytes that the symbols hold. -/
def Faithful (T : ElementType) (s : Bytes) : Prop :=
  ∀ d, base64decode T s = .ok d →
    ∃ (xs : List (BitVec 6)) (pad : Nat),
      strip s = xs.map symbol ++ List.replicate pad Byte.equalSign ∧
        xs.length % 4 ≠ 1 ∧ pad ≤ 2 ∧ d.length = 6 * xs.length / 8

/-- The text is cut off behind the first symbol of a quad. -/
def CutOff (s : Bytes) : Prop :=
  ∃ xs : List (BitVec 6), strip s = xs.map symbol ∧ xs.length % 4 = 1

/-- Something other than one more equal sign stands behind an equal sign that ends the
text. -/
def Followed (s : Bytes) : Prop :=
  ∃ (xs : List (BitVec 6)) (rest : Bytes),
    strip s = xs.map symbol ++ Byte.equalSign :: rest ∧ 2 ≤ xs.length % 4 ∧
      rest ≠ [] ∧ rest ≠ [Byte.equalSign]

theorem not_isSymbol_equals
    {rest : Bytes}
    (h : ∀ c ∈ rest.head?, c = Byte.equalSign) :
    ∀ c ∈ rest.head?, ¬ IsSymbol c := by
  intro c hc
  rw [h c hc]
  exact not_isSymbol_of_index index_equalSign

theorem head_replicate
    (pad : Nat) :
    ∀ c ∈ (List.replicate pad Byte.equalSign).head?, c = Byte.equalSign :=
  fun _ hc => List.eq_of_mem_replicate (List.mem_of_mem_head? hc)

variable {T : ElementType} {s rest : Bytes} {xs : List (BitVec 6)}

theorem cutOff_iff
    (hstrip : strip s = xs.map symbol ++ rest)
    (hrest : ∀ c ∈ rest.head?, ¬ IsSymbol c) :
    CutOff s ↔ rest = [] ∧ xs.length % 4 = 1 := by
  constructor
  · rintro ⟨ys, hys, hphase⟩
    rw [hstrip, ← List.append_nil (ys.map symbol)] at hys
    obtain ⟨rfl, rfl⟩ := symbols_unique hrest (by simp) hys
    exact ⟨rfl, hphase⟩
  · rintro ⟨rfl, hphase⟩
    exact ⟨xs, by rw [hstrip, List.append_nil], hphase⟩

theorem followed_iff
    (hstrip : strip s = xs.map symbol ++ rest)
    (hrest : ∀ c ∈ rest.head?, ¬ IsSymbol c) :
    Followed s ↔ ∃ behind, rest = Byte.equalSign :: behind ∧ 2 ≤ xs.length % 4 ∧
      behind ≠ [] ∧ behind ≠ [Byte.equalSign] := by
  constructor
  · rintro ⟨ys, behind, hys, hphase, hmore⟩
    rw [hstrip] at hys
    obtain ⟨rfl, rfl⟩ := symbols_unique hrest (not_isSymbol_equals (by simp)) hys
    exact ⟨behind, rfl, hphase, hmore⟩
  · rintro ⟨behind, rfl, hphase, hmore⟩
    exact ⟨xs, behind, hstrip, hphase, hmore⟩

/-- Of a text that is decoded to the bytes of its symbols nothing is dropped if at most
two equal signs are left. -/
theorem faithful_of_ok
    (hstrip : strip s = xs.map symbol ++ rest)
    (hrest : ∀ c ∈ rest.head?, ¬ IsSymbol c)
    (hok : base64decode T s = .ok (bytes xs)) :
    Faithful T s ↔
      xs.length % 4 ≠ 1 ∧ ∃ pad ≤ 2, rest = List.replicate pad Byte.equalSign := by
  constructor
  · intro h
    obtain ⟨ys, pad, hys, hphase, hpad, -⟩ := h _ hok
    rw [hstrip] at hys
    obtain ⟨rfl, rfl⟩ := symbols_unique hrest (not_isSymbol_equals (head_replicate pad)) hys
    exact ⟨hphase, pad, hpad, rfl⟩
  · rintro ⟨hphase, pad, hpad, rfl⟩ d hd
    obtain rfl := Except.ok.inj (hok.symm.trans hd)
    exact ⟨xs, pad, hstrip, hphase, hpad, length_bytes xs⟩

/-- **Nothing is dropped** exactly when the text is neither cut off behind the first
symbol of a quad nor followed by more than a second equal sign. -/
theorem faithful_iff
    (T : ElementType) (s : Bytes) :
    Faithful T s ↔ ¬ CutOff s ∧ ¬ Followed s := by
  obtain ⟨xs, rest, hstrip, hbehind⟩ := decode_cases T s
  have hrest := hbehind.not_isSymbol
  rw [cutOff_iff hstrip hrest, followed_iff hstrip hrest]
  generalize hanswer : base64decode T s = answer at hbehind
  have hthrows (e : StdException) (h : base64decode T s = .error e) : Faithful T s := by
    intro d hd
    rw [h] at hd
    cases hd
  cases hbehind with
  | finished =>
      rw [faithful_of_ok hstrip hrest hanswer]
      constructor
      · rintro ⟨hphase, -⟩
        exact ⟨fun hcut => hphase hcut.2, by rintro ⟨behind, ⟨⟩, -⟩⟩
      · rintro ⟨hcut, -⟩
        exact ⟨fun hphase => hcut ⟨rfl, hphase⟩, 0, by decide, rfl⟩
  | padded behind hphase =>
      rw [faithful_of_ok hstrip hrest hanswer]
      constructor
      · rintro ⟨-, pad, hpad, hequals⟩
        refine ⟨by rintro ⟨⟨⟩, -⟩, ?_⟩
        rintro ⟨_, ⟨⟩, -, hsome, hmore⟩
        have hcases : pad = 0 ∨ pad = 1 ∨ pad = 2 := by omega
        rcases hcases with rfl | rfl | rfl
        · cases hequals
        · exact hsome (List.cons.inj hequals).2
        · exact hmore (List.cons.inj hequals).2
      · rintro ⟨-, hfollowed⟩
        refine ⟨by omega, ?_⟩
        by_cases hsome : behind = []
        · exact ⟨1, by decide, by rw [hsome]; rfl⟩
        · by_cases hmore : behind = [Byte.equalSign]
          · exact ⟨2, by decide, by rw [hmore]; rfl⟩
          · exact absurd ⟨behind, rfl, hphase, hsome, hmore⟩ hfollowed
  | early behind e hphase =>
      refine iff_of_true (hthrows e hanswer) ⟨by rintro ⟨⟨⟩, -⟩, ?_⟩
      rintro ⟨_, -, hlate, -⟩
      omega
  | unknown c behind e hequal hsymbol =>
      refine iff_of_true (hthrows e hanswer) ⟨by rintro ⟨⟨⟩, -⟩, ?_⟩
      rintro ⟨_, hcons, -⟩
      exact hequal (List.cons.inj hcons).1

/-- The second of two padded texts is dropped, and so are the bits of a single symbol and
a character that is none. -/
theorem dropped_examples :
    base64decode .char (literal "QQ==QQ==") = .ok [0x41] ∧
      ¬ Faithful .char (literal "QQ==QQ==") ∧
      base64decode .char (literal "QUJDR") = .ok [0x41, 0x42, 0x43] ∧
      ¬ Faithful .char (literal "QUJDR") ∧
      base64decode .char (literal "QQ=*") = .ok [0x41] ∧
      ¬ Faithful .char (literal "QQ=*") := by
  have hblocks : base64decode .char (literal "QQ==QQ==") = .ok [0x41] := by decide +kernel
  have hcut : base64decode .char (literal "QUJDR") = .ok [0x41, 0x42, 0x43] := by
    decide +kernel
  have hstar : base64decode .char (literal "QQ=*") = .ok [0x41] := by decide +kernel
  have hblocks' : strip (literal "QQ==QQ==") = [16, 16].map symbol ++ literal "==QQ==" := by
    decide
  have hcut' : strip (literal "QUJDR") = [16, 20, 9, 3, 17].map symbol ++ [] := by decide
  have hstar' : strip (literal "QQ=*") = [16, 16].map symbol ++ literal "=*" := by decide
  refine ⟨hblocks, ?_, hcut, ?_, hstar, ?_⟩
  · rw [faithful_of_ok hblocks' (not_isSymbol_equals (by decide +kernel)) hblocks]
    rintro ⟨-, pad, hpad, h⟩
    have hlength := congrArg List.length h
    rw [List.length_replicate] at hlength
    exact absurd (hlength ▸ hpad) (by decide)
  · rw [faithful_of_ok hcut' (by simp) hcut]
    exact fun h => h.1 rfl
  · rw [faithful_of_ok hstar' (not_isSymbol_equals (by decide +kernel)) hstar]
    rintro ⟨-, pad, hpad, h⟩
    have hmem : (0x2A : Byte) ∈ literal "=*" := by decide
    rw [h] at hmem
    exact absurd (List.eq_of_mem_replicate hmem) (by decide)

end Faithful

end Base64
end Bren
end Brenlib
