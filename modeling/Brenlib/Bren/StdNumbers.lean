import Brenlib.Bren.StdLibrary

/-!
# Numbers in texts: `{:0wd}` and `std::stoi`

A number formatted with `{:0wd}` has the digits of the number behind zeros
(`digitsValue_zeroPadded`).  `stoi` reads more than that: white space and a sign in front
are passed over, and so is everything behind the digits (`stoi_eq_ok_iff`).
-/

namespace Brenlib
namespace Bren

theorem isDigit_iff
    {c : Byte} :
    isDigit c ↔ 48 ≤ c.toNat ∧ c.toNat ≤ 57 := by
  rw [isDigit, UInt8.le_iff_toNat_le, UInt8.le_iff_toNat_le]
  exact Iff.rfl

theorem ofInt_uint8
    (n : Nat) :
    UInt8.ofInt (n : Int) = UInt8.ofNat n :=
  UInt8.ofNat_mod_size

theorem ofInt_uint16
    (n : Nat) :
    UInt16.ofInt (n : Int) = UInt16.ofNat n :=
  UInt16.ofNat_mod_size

section Formatted

variable {width n : Nat}

theorem isDigit_of_mem_decimal
    {c : Byte}
    (h : c ∈ decimal n) :
    isDigit c := by
  rw [decimal_natCast, List.mem_map] at h
  obtain ⟨d, hd, rfl⟩ := h
  have hdigit := toNat_of_mem_toDigits hd
  rw [isDigit_iff, UInt8.toNat_ofNat_of_lt' (show d.toNat < 256 by omega)]
  exact hdigit

theorem digitsValue_decimal
    (n : Nat) :
    digitsValue (decimal n) = n := by
  have hfold (l : List Char) (hl : ∀ c ∈ l, 48 ≤ c.toNat ∧ c.toNat ≤ 57) (init : Nat) :
      (l.map fun c => UInt8.ofNat c.toNat).foldl
          (fun n (c : Byte) => 10 * n + (c.toNat - 0x30)) init =
        Nat.ofDigitChars 10 l init := by
    rw [List.foldl_map, Nat.ofDigitChars]
    refine List.foldl_ext _ _ _ fun value c hc => ?_
    have hdigit := hl c hc
    rw [UInt8.toNat_ofNat_of_lt' (show c.toNat < 256 by omega)]
    rfl
  rw [decimal_natCast, digitsValue, hfold _ (fun c hc => toNat_of_mem_toDigits hc),
    Nat.ofDigitChars_ten_toDigits]

theorem decimal_ne_nil
    (n : Nat) :
    decimal n ≠ [] := by
  rw [decimal_natCast, Ne, List.map_eq_nil_iff]
  exact Nat.toDigits_ne_nil

/-- A negative number has a minus in front of its digits. -/
theorem decimal_neg
    (hpos : 0 < n) :
    decimal (-(n : Int)) = 0x2D :: decimal n := by
  obtain ⟨m, rfl⟩ := Nat.exists_eq_succ_of_ne_zero (Nat.ne_of_gt hpos)
  have htext : (toString (-((m + 1 : Nat) : Int))).toList =
      '-' :: (toString (m + 1)).toList :=
    String.toList_append
  exact congrArg (List.map _) htext

theorem length_decimal_le_iff
    (hpos : 0 < width) :
    (decimal n).length ≤ width ↔ n < 10 ^ width := by
  rw [decimal_natCast, List.length_map]
  exact Nat.length_toDigits_le_iff (by decide) hpos

/-- Zeros fill up the width.  A longer number is not cut. -/
theorem length_zeroPadded_eq
    (width n : Nat) :
    (zeroPadded width n).length = max width (decimal n).length := by
  rw [zeroPadded, List.length_append, List.length_replicate]
  omega

theorem length_zeroPadded
    (hpos : 0 < width)
    (hfits : n < 10 ^ width) :
    (zeroPadded width n).length = width := by
  rw [length_zeroPadded_eq]
  exact Nat.max_eq_left ((length_decimal_le_iff hpos).mpr hfits)

theorem isDigit_of_mem_zeroPadded
    {c : Byte}
    (h : c ∈ zeroPadded width n) :
    isDigit c := by
  rw [zeroPadded, List.mem_append] at h
  rcases h with hzero | hdigit
  · rw [List.eq_of_mem_replicate hzero]
    decide
  · exact isDigit_of_mem_decimal hdigit

theorem digitsValue_zeroPadded
    (width n : Nat) :
    digitsValue (zeroPadded width n) = n := by
  have hzeros (k : Nat) :
      digitsValue (List.replicate k 0x30) = 0 := by
    induction k with
    | zero =>
        rfl
    | succ k ih =>
        exact ih
  have hnumber := digitsValue_decimal n
  unfold digitsValue at hzeros hnumber ⊢
  rw [zeroPadded, List.foldl_append, hzeros, hnumber]

end Formatted

section Read

theorem digitsValue_append_digit
    (ds : Bytes) (c : Byte) :
    digitsValue (ds ++ [c]) = 10 * digitsValue ds + (c.toNat - 48) := by
  rw [digitsValue, List.foldl_append]
  rfl

theorem digitsValue_lt
    {ds : Bytes}
    (h : ∀ c ∈ ds, isDigit c) :
    digitsValue ds < 10 ^ ds.length := by
  induction ds using List.reverseRecOn with
  | nil =>
      decide
  | append_singleton ds c ih =>
      have hds := ih fun x hx => h x (List.mem_append_left _ hx)
      have hc := isDigit_iff.mp (h c (List.mem_append_right _ List.mem_cons_self))
      rw [digitsValue_append_digit, List.length_append, List.length_singleton, Nat.pow_succ']
      omega

/-- White space, a plus or nothing, the digits of a number, and something else behind
them. -/
structure ReadsAs (s : Bytes) (n : Nat) (spaces sign ds rest : Bytes) : Prop where
  split : s = spaces ++ (sign ++ (ds ++ rest))
  spaces : ∀ c ∈ spaces, isSpace c
  sign : sign = [] ∨ sign = [0x2B]
  nonempty : ds ≠ []
  digits : ∀ c ∈ ds, isDigit c
  stops : ∀ c ∈ rest.head?, ¬ isDigit c
  value : digitsValue ds = n

/-- The text starts with the number. -/
def Reads (s : Bytes) (n : Nat) : Prop :=
  ∃ spaces sign ds rest, ReadsAs s n spaces sign ds rest

theorem not_isSpace_of_isDigit
    {c : Byte}
    (h : isDigit c) :
    ¬ isSpace c := by
  rw [isDigit_iff] at h
  rintro (rfl | ⟨-, hle⟩)
  · exact absurd h (by decide)
  · rw [UInt8.le_iff_toNat_le] at hle
    change c.toNat ≤ 13 at hle
    omega

theorem takeSign_digit
    {c : Byte} (rest : Bytes)
    (h : isDigit c) :
    takeSign (c :: rest) = (false, c :: rest) := by
  rw [isDigit_iff] at h
  have hminus : c ≠ 0x2D := by
    rintro rfl
    exact absurd h (by decide)
  have hplus : c ≠ 0x2B := by
    rintro rfl
    exact absurd h (by decide)
  rw [takeSign, if_neg hminus, if_neg hplus]

/-- What stands in front of a number that is not negative. -/
theorem takeSign_eq_false
    {t r : Bytes}
    (h : takeSign t = (false, r)) :
    ∃ sign, (sign = [] ∨ sign = [0x2B]) ∧ t = sign ++ r := by
  cases t with
  | nil =>
      cases h
      exact ⟨[], .inl rfl, rfl⟩
  | cons c t =>
      rw [takeSign] at h
      split_ifs at h with hminus hplus
      · cases h
      · cases h
        exact ⟨[0x2B], .inr rfl, by rw [hplus]; rfl⟩
      · cases h
        exact ⟨[], .inl rfl, rfl⟩

/-- What `stoi` returns, by the sign and the digits behind it. -/
theorem stoi_eq
    {s r ds : Bytes} {negative : Bool}
    (hsign : takeSign (s.dropWhile (isSpace ·)) = (negative, r))
    (hdigits : r.takeWhile (isDigit ·) = ds) :
    stoi s =
      if ds = [] then .error ⟨.invalidArgument, "stoi"⟩
      else if (if negative then 2 ^ 31 < digitsValue ds else 2 ^ 31 ≤ digitsValue ds) then
        .error ⟨.outOfRange, "stoi"⟩
      else .ok (if negative then -(digitsValue ds : Int) else digitsValue ds) := by
  unfold stoi
  simp only [hsign, hdigits]
  by_cases hne : ds = []
  · rw [if_pos hne, if_pos hne]
    rfl
  · rw [if_neg hne, if_neg hne]
    cases negative with
    | true =>
        simp only [if_true]
        by_cases hlarge : 2 ^ 31 < digitsValue ds
        · rw [if_pos hlarge, if_pos (by omega)]
          rfl
        · rw [if_neg hlarge, if_neg (by omega)]
          rfl
    | false =>
        simp only [Bool.false_eq_true, if_false]
        by_cases hlarge : 2 ^ 31 ≤ digitsValue ds
        · rw [if_pos hlarge, if_pos (by omega)]
          rfl
        · rw [if_neg hlarge, if_neg (by omega)]
          rfl

theorem ReadsAs.stoi
    {s spaces sign ds rest : Bytes} {n : Nat}
    (h : ReadsAs s n spaces sign ds rest)
    (hsmall : n < 2 ^ 31) :
    stoi s = .ok (n : Int) := by
  obtain ⟨hsplit, hspaces, hsign, hne, hdigits, hstops, hvalue⟩ := h
  obtain ⟨c, ds, rfl⟩ := List.exists_cons_of_ne_nil hne
  have hc : isDigit c := hdigits c List.mem_cons_self
  have hdrop : s.dropWhile (isSpace ·) = sign ++ ((c :: ds) ++ rest) := by
    rw [hsplit, List.dropWhile_append_of_pos (by simpa using hspaces)]
    rcases hsign with rfl | rfl
    · exact List.dropWhile_cons_of_neg (by simpa using not_isSpace_of_isDigit hc)
    · rfl
  have htake : takeSign (s.dropWhile (isSpace ·)) = (false, (c :: ds) ++ rest) := by
    rw [hdrop]
    rcases hsign with rfl | rfl
    · exact takeSign_digit _ hc
    · rfl
  have hread : ((c :: ds) ++ rest).takeWhile (isDigit ·) = c :: ds := by
    have hnone : rest.takeWhile (isDigit ·) = [] := by
      cases rest with
      | nil =>
          rfl
      | cons x rest =>
          exact List.takeWhile_cons_of_neg (by simpa using hstops x rfl)
    rw [List.takeWhile_append_of_pos (by simpa using hdigits), hnone, List.append_nil]
  rw [stoi_eq htake hread, if_neg hne, hvalue]
  simp only [Bool.false_eq_true, if_false]
  rw [if_neg (Nat.not_le.mpr hsmall)]

/-- The positive numbers that `stoi` returns. -/
theorem stoi_eq_ok_iff
    {s : Bytes} {n : Nat}
    (hpos : 0 < n)
    (hsmall : n < 2 ^ 31) :
    stoi s = .ok (n : Int) ↔ Reads s n := by
  constructor
  · intro h
    rcases hsign : takeSign (s.dropWhile (isSpace ·)) with ⟨negative, r⟩
    rw [stoi_eq hsign rfl] at h
    cases negative with
    | true =>
      simp only [if_true] at h
      split_ifs at h with hne hlarge
      have hvalue := Except.ok.inj h
      omega
    | false =>
      simp only [Bool.false_eq_true, if_false] at h
      split_ifs at h with hne hlarge
      have hvalue := Except.ok.inj h
      obtain ⟨sign, hsign, ht⟩ := takeSign_eq_false hsign
      refine ⟨s.takeWhile (isSpace ·), sign, r.takeWhile (isDigit ·), r.dropWhile (isDigit ·),
        ?_, ?_, hsign, hne, ?_, ?_, by omega⟩
      · rw [List.takeWhile_append_dropWhile, ← ht, List.takeWhile_append_dropWhile]
      · intro c hc
        simpa using List.mem_takeWhile_imp hc
      · intro c hc
        simpa using List.mem_takeWhile_imp hc
      · intro c hc
        have hstop := List.head?_dropWhile_not (isDigit ·) r
        rw [Option.mem_def.mp hc] at hstop
        simpa using hstop
  · rintro ⟨spaces, sign, ds, rest, h⟩
    exact h.stoi hsmall

/-- The number that a text starts with is not longer than the text. -/
theorem Reads.lt
    {s : Bytes} {n : Nat}
    (h : Reads s n) :
    n < 10 ^ s.length := by
  obtain ⟨spaces, sign, ds, rest, h⟩ := h
  have hlength := congrArg List.length h.split
  simp only [List.length_append] at hlength
  calc n = digitsValue ds := h.value.symm
    _ < 10 ^ ds.length := digitsValue_lt h.digits
    _ ≤ 10 ^ s.length := Nat.pow_le_pow_right (by decide) (by omega)

theorem length_takeSign_le
    (t : Bytes) :
    (takeSign t).2.length ≤ t.length := by
  cases t with
  | nil =>
      exact Nat.le_refl _
  | cons c t =>
      rw [takeSign]
      split_ifs
      · exact Nat.le_succ _
      · exact Nat.le_succ _
      · exact Nat.le_refl _

/-- There is no digit behind white space and a sign. -/
def NoNumber (s : Bytes) : Prop :=
  (takeSign (s.dropWhile (isSpace ·))).2.takeWhile (isDigit ·) = []

/-- On a short text `stoi` returns a small number, or finds no digit. -/
theorem stoi_short
    {s : Bytes}
    (hshort : s.length ≤ 9) :
    NoNumber s ∧ stoi s = .error ⟨.invalidArgument, "stoi"⟩ ∨
      ¬ NoNumber s ∧ ∃ n : Int, stoi s = .ok n ∧ n < 10 ^ s.length := by
  rcases hsign : takeSign (s.dropWhile (isSpace ·)) with ⟨negative, r⟩
  have hvalue : digitsValue (r.takeWhile (isDigit ·)) < 10 ^ s.length := by
    have hlength : (r.takeWhile (isDigit ·)).length ≤ s.length := by
      have hrest := length_takeSign_le (s.dropWhile (isSpace ·))
      rw [hsign] at hrest
      change r.length ≤ _ at hrest
      have hdigits := (List.takeWhile_sublist (l := r) (isDigit ·)).length_le
      have hspaces := (List.dropWhile_sublist (l := s) (isSpace ·)).length_le
      omega
    calc digitsValue (r.takeWhile (isDigit ·))
        < 10 ^ (r.takeWhile (isDigit ·)).length :=
          digitsValue_lt fun c hc => by simpa using List.mem_takeWhile_imp hc
      _ ≤ 10 ^ s.length := Nat.pow_le_pow_right (by decide) hlength
  have hsmall : 10 ^ s.length < 2 ^ 31 :=
    Nat.lt_of_le_of_lt (Nat.pow_le_pow_right (by decide) hshort) (by decide)
  have hnone : NoNumber s ↔ r.takeWhile (isDigit ·) = [] := by rw [NoNumber, hsign]
  rw [stoi_eq hsign rfl, hnone]
  split_ifs with hne hnegative hlarge hlarge
  · exact .inl ⟨hne, rfl⟩
  · omega
  · have hpos : (0 : Int) < 10 ^ s.length := Int.pow_pos (by decide)
    exact .inr ⟨hne, _, rfl, by omega⟩
  · omega
  · exact .inr ⟨hne, _, rfl, by exact_mod_cast hvalue⟩

end Read

end Bren
end Brenlib
