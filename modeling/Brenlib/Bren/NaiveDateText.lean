import Brenlib.Bren.Logger
import Brenlib.Bren.NaiveDate

/-!
# The texts of a `NaiveDate`

`render` is `iso8601() const`.  `parse` cuts its text by position and leaves the parts to
`stoi`: the characters at the positions of the two hyphens are not looked at, and a part
may have white space or a plus in front and anything behind its digits.

* `IsoForm`: the form YYYY-MM-DD; `ReadsDate`: what `parse` reads.

**Results.**  A text is accepted exactly when its three parts read as a valid date from
1900 on (`parse_iff`), so `parse` accepts exactly its format but for the texts of
`Lenient` (`parse_format_iff`).  What is stored is rendered in the form YYYY-MM-DD, and
this text stores the same date again (`render_after_parse`).
-/

namespace Brenlib
namespace Bren

open Gregorian

namespace NaiveDate

def initialized_ (s : NaiveDate) : Bool :=
  s.day_ != 0 && s.month_ != 0 && s.year_ != 0

/-- `iso8601()`. -/
def render (s : NaiveDate) : Except StdException Bytes := do
  if ¬ s.initialized_ then
    throw ⟨.logicError, "Internal date is not valid"⟩
  return zeroPadded 4 s.year_.toNat ++ literal "-" ++ zeroPadded 2 s.month_.toNat ++
    literal "-" ++ zeroPadded 2 s.day_.toNat

section Parse

variable {s : Bytes} {t : NaiveDate} {y m d : Nat}

/-- The numbers that are read from a text of ten characters. -/
structure ReadsDate (s : Bytes) (y m d : Nat) : Prop where
  length : s.length = 10
  year : Reads ((s.drop 0).take 4) y
  month : Reads ((s.drop 5).take 2) m
  day : Reads ((s.drop 8).take 2) d

/-- The numbers are those of a date that is known, from 1900 on. -/
def Known (y m d : Nat) : Prop :=
  1900 ≤ y ∧ valid (UInt16.ofNat y) (UInt8.ofNat m) (UInt8.ofNat d) = .ok true

instance (y m d : Nat) : Decidable (Known y m d) :=
  inferInstanceAs (Decidable (_ ∧ _))

/-- The object that holds the numbers. -/
def ofParts (y m d : Nat) : NaiveDate :=
  { day_ := UInt8.ofNat d, month_ := UInt8.ofNat m, year_ := UInt16.ofNat y }

theorem ReadsDate.lt
    (h : ReadsDate s y m d) :
    y < 10000 ∧ m < 100 ∧ d < 100 := by
  have hlength := h.length
  have hy := h.year.lt
  have hm := h.month.lt
  have hd := h.day.lt
  simp only [List.length_take, List.length_drop, hlength] at hy hm hd
  exact ⟨hy, hm, hd⟩

theorem Known.isDate
    (h : Known y m d)
    (hy : y < 10000)
    (hm : m < 100)
    (hd : d < 100) :
    IsDate y m d := by
  have hvalid := h.2
  rw [valid_run, Except.ok.injEq, decide_eq_true_eq,
    UInt16.toNat_ofNat_of_lt' (show y < 65536 by omega),
    UInt8.toNat_ofNat_of_lt' (show m < 256 by omega),
    UInt8.toNat_ofNat_of_lt' (show d < 256 by omega)] at hvalid
  exact hvalid.2.1

/-- A part has no number, and the parts in front of it are in their ranges. -/
def Unnumbered (s : Bytes) : Prop :=
  s.length = 10 ∧
    (NoNumber ((s.drop 0).take 4) ∨
      (∃ y, Reads ((s.drop 0).take 4) y ∧ 1900 ≤ y) ∧
        (NoNumber ((s.drop 5).take 2) ∨
          (∃ m, Reads ((s.drop 5).take 2) m ∧ 1 ≤ m ∧ m ≤ 12) ∧
            NoNumber ((s.drop 8).take 2)))

/-- One part of the text: `stoi` or the check refuses it, or it is read as a number of its
range. -/
theorem part_run
    [Raising]
    {P : EStateM.Result StdException NaiveDate Unit → Prop}
    {p : Bytes} {low high : Int} {message : String}
    {f : Int → EStateM StdException NaiveDate Unit}
    (hshort : p.length ≤ 9)
    (hlow : 0 < low)
    (hstoi : NoNumber p → ∀ what, P (.error ⟨.invalidArgument, what⟩ t))
    (hcheck :
      ¬ NoNumber p → (∀ n : Nat, Reads p n → low ≤ n → ¬ (n : Int) ≤ high) →
        ∀ what, P (.error (Raising.raised .invalidArgument what) t))
    (hok : ¬ NoNumber p → ∀ n : Nat, Reads p n → low ≤ n → n ≤ high → P ((f n).run t)) :
    P ((do
      let n ← ofExcept (stoi p)
      fcet (low ≤ n ∧ n ≤ high) .invalidArgument message
      f n : EStateM StdException NaiveDate Unit).run t) := by
  have hsmall : (10 : Int) ^ p.length ≤ 10 ^ 9 := pow_le_pow_right₀ (by decide) hshort
  rcases stoi_short hshort with ⟨hnone, hn⟩ | ⟨hsome, n, hn, hlt⟩
  · rw [hn]
    exact hstoi hnone _
  · rw [hn, run_bind_ok (run_ofExcept _ t)]
    by_cases hrange : low ≤ n ∧ n ≤ high
    · obtain ⟨n, rfl⟩ := Int.eq_ofNat_of_zero_le (show 0 ≤ n by omega)
      have hreads : Reads p n := (stoi_eq_ok_iff (by omega) (by omega)).mp hn
      rw [run_bind_ok (fcet_run hrange _ _ t)]
      exact hok hsome n hreads hrange.1 hrange.2
    · rw [run_bind_error (fcet_run_raises hrange _ _ t)]
      refine hcheck hsome (fun k hk hfrom hto => hrange ?_) _
      obtain ⟨_, _, _, _, hreads⟩ := hk
      have hk : k < 10 ^ p.length := Reads.lt ⟨_, _, _, _, hreads⟩
      have hkInt : (k : Int) < 10 ^ p.length := by exact_mod_cast hk
      have hstoi := hreads.stoi (by omega)
      obtain rfl := Except.ok.inj (hn.symm.trans hstoi)
      exact ⟨hfrom, hto⟩

/-- A text that reads as a known date is accepted. -/
theorem parse_run
    [Raising]
    (hreads : ReadsDate s y m d)
    (hknown : Known y m d)
    (t : NaiveDate) :
    (parse s).run t = .ok () (ofParts y m d) := by
  obtain ⟨hy, hm, hd⟩ := hreads.lt
  have hdate := hknown.isDate hy hm hd
  have hmonth := hdate.month
  have hpos := hdate.1
  have hbound := (daysInMonth_bounds y hmonth).2
  have hday := hdate.2
  have hfrom := hknown.1
  obtain ⟨_, _, _, _, hyear⟩ := hreads.year
  obtain ⟨_, _, _, _, hmon⟩ := hreads.month
  obtain ⟨_, _, _, _, hdays⟩ := hreads.day
  unfold parse
  rw [run_bind_ok (fcet_run hreads.length _ _ t), hyear.stoi (by omega),
    run_bind_ok (run_ofExcept _ t), run_bind_ok (fcet_run (by omega) _ _ t),
    hmon.stoi (by omega), run_bind_ok (run_ofExcept _ t),
    run_bind_ok (fcet_run (by omega) _ _ t), hdays.stoi (by omega),
    run_bind_ok (run_ofExcept _ t), run_bind_ok (fcet_run (by omega) _ _ t),
    ofInt_uint16, ofInt_uint8, ofInt_uint8, hknown.2, run_bind_ok (run_ofExcept _ t),
    run_bind_ok (fcet_run rfl _ _ t)]
  rfl

/-- What `parse` does: it stores a known date that is read from the text, or changes nothing
and throws, which `stoi` does where a part has no number. -/
def Parsed
    [Raising] (s : Bytes) (t : NaiveDate) (result : EStateM.Result StdException NaiveDate Unit) :
    Prop :=
  (∃ y m d, ReadsDate s y m d ∧ Known y m d ∧ result = .ok () (ofParts y m d)) ∨
    (Unnumbered s ∧ ∃ what, result = .error ⟨.invalidArgument, what⟩ t) ∨
    ¬ Unnumbered s ∧ ∃ what, result = .error (Raising.raised .invalidArgument what) t

theorem parse_cases
    [Raising] (s : Bytes) (t : NaiveDate) :
    Parsed s t ((parse s).run t) := by
  have hstoi (hpart : Unnumbered s) (what : String) :
      Parsed s t (.error ⟨.invalidArgument, what⟩ t) :=
    .inr (.inl ⟨hpart, what, rfl⟩)
  have hcheck (hpart : ¬ Unnumbered s) (what : String) :
      Parsed s t (.error (Raising.raised .invalidArgument what) t) :=
    .inr (.inr ⟨hpart, what, rfl⟩)
  have hshort {i n : Nat} (hn : n ≤ 9) : ((s.drop i).take n).length ≤ 9 :=
    Nat.le_trans (List.length_take_le _ _) hn
  unfold parse
  by_cases hlength : s.length = 10
  · rw [run_bind_ok (fcet_run hlength _ _ t)]
    refine part_run (hshort (by decide)) (by decide) (fun hnone => hstoi ⟨hlength, .inl hnone⟩)
      (fun hy hout => hcheck ?_) fun hny y hy hfrom hto => ?_
    · rintro ⟨-, hnone | ⟨⟨y, hreads, hlow⟩, -⟩⟩
      · exact hy hnone
      · have hlt := hreads.lt
        have hfour : ((s.drop 0).take 4).length ≤ 4 := List.length_take_le _ _
        have hpow : 10 ^ ((s.drop 0).take 4).length ≤ 10 ^ 4 :=
          Nat.pow_le_pow_right (by decide) hfour
        exact hout y hreads (by omega) (by omega)
    have hyear : ∃ y, Reads ((s.drop 0).take 4) y ∧ 1900 ≤ y := ⟨y, hy, by omega⟩
    refine part_run (hshort (by decide)) (by decide)
      (fun hnone => hstoi ⟨hlength, .inr ⟨hyear, .inl hnone⟩⟩)
      (fun hm hout => hcheck ?_) fun hnm m hm hlow hhigh => ?_
    · rintro ⟨-, hnone | ⟨-, hnone | ⟨⟨m, hreads, hlow, hhigh⟩, -⟩⟩⟩
      · exact hny hnone
      · exact hm hnone
      · exact hout m hreads (by omega) (by omega)
    have hmonth : ∃ m, Reads ((s.drop 5).take 2) m ∧ 1 ≤ m ∧ m ≤ 12 :=
      ⟨m, hm, by omega, by omega⟩
    -- Behind the first two parts only the third can lack a number.
    have hlast (hnd : ¬ NoNumber ((s.drop 8).take 2)) : ¬ Unnumbered s := by
      rintro ⟨-, hnone | ⟨-, hnone | ⟨-, hnone⟩⟩⟩
      · exact hny hnone
      · exact hnm hnone
      · exact hnd hnone
    refine part_run (hshort (by decide)) (by decide)
      (fun hnone => hstoi ⟨hlength, .inr ⟨hyear, .inr ⟨hmonth, hnone⟩⟩⟩)
      (fun hnd _ => hcheck (hlast hnd)) fun hnd d hd _ _ => ?_
    rw [ofInt_uint16, ofInt_uint8, ofInt_uint8]
    rcases hvalid : valid (UInt16.ofNat y) (UInt8.ofNat m) (UInt8.ofNat d) with _ | known
    · rw [valid_run] at hvalid
      cases hvalid
    · rw [run_bind_ok (run_ofExcept _ t)]
      cases known with
      | false =>
          rw [run_bind_error (fcet_run_raises Bool.false_ne_true _ _ t)]
          exact hcheck (hlast hnd) _
      | true =>
          rw [run_bind_ok (fcet_run rfl _ _ t)]
          exact .inl ⟨y, m, d, ⟨hlength, hy, hm, hd⟩, ⟨by omega, hvalid⟩, rfl⟩
  · rw [run_bind_error (fcet_run_raises hlength _ _ t)]
    exact hcheck (fun h => hlength h.1) _

/-- **What is accepted.** -/
theorem parse_iff
    [Raising] (s : Bytes) (t : NaiveDate) :
    (∃ t', (parse s).run t = .ok () t') ↔ ∃ y m d, ReadsDate s y m d ∧ Known y m d := by
  constructor
  · rintro ⟨t', h⟩
    rcases parse_cases s t with ⟨y, m, d, hreads, hknown, -⟩ | ⟨-, what, herror⟩ | ⟨-, what, herror⟩
    · exact ⟨y, m, d, hreads, hknown⟩
    · rw [herror] at h
      cases h
    · rw [herror] at h
      cases h
  · rintro ⟨y, m, d, hreads, hknown⟩
    exact ⟨_, parse_run hreads hknown t⟩

end Parse

section Format

variable {s year month day : Bytes}

/-- The form YYYY-MM-DD. -/
structure IsoForm (s year month day : Bytes) : Prop where
  split : s = year ++ 0x2D :: (month ++ 0x2D :: day)
  year_length : year.length = 4
  month_length : month.length = 2
  day_length : day.length = 2
  year_digits : ∀ c ∈ year, isDigit c
  month_digits : ∀ c ∈ month, isDigit c
  day_digits : ∀ c ∈ day, isDigit c

/-- A date in the form YYYY-MM-DD. -/
def WellFormed (s : Bytes) : Prop :=
  ∃ year month day, IsoForm s year month day ∧
    Known (digitsValue year) (digitsValue month) (digitsValue day)

/-- A date that is written in another way, and still read. -/
def Lenient (s : Bytes) : Prop :=
  (∃ y m d, ReadsDate s y m d ∧ Known y m d) ∧ ¬ ∃ year month day, IsoForm s year month day

theorem reads_digits
    {ds : Bytes}
    (hne : ds ≠ [])
    (h : ∀ c ∈ ds, isDigit c) :
    Reads ds (digitsValue ds) := by
  refine ⟨[], [], ds, [], ?_, by simp, .inl rfl, hne, h, by simp, rfl⟩
  rw [List.append_nil]
  rfl

theorem IsoForm.parts
    (h : IsoForm s year month day) :
    s.length = 10 ∧ (s.drop 0).take 4 = year ∧ (s.drop 5).take 2 = month ∧
      (s.drop 8).take 2 = day := by
  obtain ⟨hsplit, hy, hm, hd, -, -, -⟩ := h
  have hbehind : s.drop 5 = month ++ 0x2D :: day := by
    rw [hsplit, List.drop_append, hy]
    simp [hy]
  have hlast : s.drop 8 = day := by
    have hdrop : s.drop 8 = (s.drop 5).drop 3 := by rw [List.drop_drop]
    rw [hdrop, hbehind, List.drop_append, hm]
    simp [hm]
  refine ⟨?_, ?_, ?_, ?_⟩
  · rw [hsplit]
    simp [hy, hm, hd]
  · rw [hsplit, List.drop_zero, List.take_left' hy]
  · rw [hbehind, List.take_left' hm]
  · rw [hlast, ← hd, List.take_length]

/-- The numbers of a text in the form are read. -/
theorem IsoForm.readsDate
    (h : IsoForm s year month day) :
    ReadsDate s (digitsValue year) (digitsValue month) (digitsValue day) := by
  have hne {ds : Bytes} {n : Nat} (hlength : ds.length = n) (hn : 0 < n) : ds ≠ [] :=
    List.ne_nil_of_length_pos (by rw [hlength]; exact hn)
  obtain ⟨hlength, hyear, hmonth, hday⟩ := h.parts
  refine ⟨hlength, ?_, ?_, ?_⟩
  · rw [hyear]
    exact reads_digits (hne h.year_length (by decide)) h.year_digits
  · rw [hmonth]
    exact reads_digits (hne h.month_length (by decide)) h.month_digits
  · rw [hday]
    exact reads_digits (hne h.day_length (by decide)) h.day_digits

theorem ReadsDate.unique
    {y y' m m' d d' : Nat}
    (h : ReadsDate s y m d)
    (h' : ReadsDate s y' m' d') :
    y = y' ∧ m = m' ∧ d = d' := by
  have hlt := h.lt
  have hlt' := h'.lt
  have hread {p : Bytes} {n n' : Nat} (hn : Reads p n) (hn' : Reads p n')
      (hsmall : n < 2 ^ 31) (hsmall' : n' < 2 ^ 31) : n = n' := by
    obtain ⟨_, _, _, _, hn⟩ := hn
    obtain ⟨_, _, _, _, hn'⟩ := hn'
    have heq := (hn.stoi hsmall).symm.trans (hn'.stoi hsmall')
    exact Int.ofNat.inj (Except.ok.inj heq)
  exact ⟨hread h.year h'.year (by omega) (by omega),
    hread h.month h'.month (by omega) (by omega), hread h.day h'.day (by omega) (by omega)⟩

/-- Exactly the dates of the form are accepted, and what else is given is refused. -/
def AcceptsFormat (raising : Raising) (t : NaiveDate) (s : Bytes) : Prop :=
  ((∃ t', (parse s).run t = .ok () t') ↔ WellFormed s) ∧
    (¬ WellFormed s → ∃ what, (parse s).run t = .error ⟨.invalidArgument, what⟩ t)

theorem WellFormed.readsDate
    (h : WellFormed s) :
    ∃ y m d, ReadsDate s y m d ∧ Known y m d := by
  obtain ⟨year, month, day, hiso, hknown⟩ := h
  exact ⟨_, _, _, hiso.readsDate, hknown⟩

/-- What is read is a date of the form, or a date that is written in another way. -/
theorem wellFormed_of_not_lenient
    (h : ¬ Lenient s)
    (hreads : ∃ y m d, ReadsDate s y m d ∧ Known y m d) :
    WellFormed s := by
  by_contra hill
  refine h ⟨hreads, ?_⟩
  rintro ⟨year, month, day, hiso⟩
  obtain ⟨y, m, d, hreads, hknown⟩ := hreads
  obtain ⟨rfl, rfl, rfl⟩ := hreads.unique hiso.readsDate
  exact hill ⟨year, month, day, hiso, hknown⟩

theorem acceptsFormat_iff
    [Raising] {setUp : Prop}
    (hdeclares : Raising.DeclaresIf .invalidArgument setUp)
    (t : NaiveDate) (s : Bytes) :
    AcceptsFormat ‹_› t s ↔ ¬ Lenient s ∧ (WellFormed s ∨ Unnumbered s ∨ setUp) := by
  constructor
  · rintro ⟨hiff, hrefused⟩
    rw [parse_iff] at hiff
    refine ⟨fun ⟨hreads, hnone⟩ => ?_, ?_⟩
    · obtain ⟨year, month, day, hiso, -⟩ := hiff.mp hreads
      exact hnone ⟨year, month, day, hiso⟩
    · by_cases hwell : WellFormed s
      · exact .inl hwell
      · obtain ⟨what, hrun⟩ := hrefused hwell
        rcases parse_cases s t with hread | ⟨hpart, -⟩ | ⟨-, message, hraised⟩
        · obtain ⟨y, m, d, hreads, hknown, -⟩ := hread
          exact absurd (hiff.mp ⟨y, m, d, hreads, hknown⟩) hwell
        · exact .inr (.inl hpart)
        · have hexc := EStateM.Result.error.inj (hraised.symm.trans hrun)
          exact .inr (.inr ((hdeclares.iff message).mp ⟨what, hexc.1⟩))
  · rintro ⟨hstrict, hgood⟩
    refine ⟨?_, fun hill => ?_⟩
    · rw [parse_iff]
      exact ⟨wellFormed_of_not_lenient hstrict, WellFormed.readsDate⟩
    · rcases parse_cases s t with ⟨y, m, d, hreads, hknown, -⟩ | ⟨-, hrun⟩ | ⟨hpart, message, hrun⟩
      · exact absurd (wellFormed_of_not_lenient hstrict ⟨y, m, d, hreads, hknown⟩) hill
      · exact hrun
      · have hsetUp := (hgood.resolve_left hill).resolve_left hpart
        obtain ⟨what, hraised⟩ := (hdeclares.iff message).mpr hsetUp
        exact ⟨what, by rw [hrun, hraised]⟩

/-- **Only the format is accepted**, but for dates that are written in another way, and the
exception is the promised one where `stoi` throws it or the logger is set up. -/
theorem parse_format_iff
    (calls : List Logger.ConfigCall) (now : Now) (here : Site) (t : NaiveDate) (s : Bytes) :
    AcceptsFormat (.ofLogger (Logger.configured calls) now here) t s ↔
      ¬ Lenient s ∧
        (WellFormed s ∨ Unnumbered s ∨ (Logger.configured calls).SetUp here) :=
  @acceptsFormat_iff (.ofLogger (Logger.configured calls) now here) _
    (Logger.raised_kind_iff (by decide)) t s

/-- A date with other separators and a sign is accepted, though it has not the form. -/
theorem parse_format_lenient :
    answerOf ((parse (literal "2025/ 1x+1")).run init) = .ok () ∧
      ¬ WellFormed (literal "2025/ 1x+1") := by
  refine ⟨by decide +kernel, ?_⟩
  rintro ⟨year, month, day, hiso, -⟩
  have hhyphen : ((literal "2025/ 1x+1").drop 4).head? = some 0x2D := by
    rw [hiso.split, List.drop_left' hiso.year_length]
    rfl
  exact absurd hhyphen (by decide)

end Format

section Render

variable {s t : NaiveDate} {y m d : Nat}

/-- The text YYYY-MM-DD of numbers. -/
def dateText (y m d : Nat) : Bytes :=
  zeroPadded 4 y ++ literal "-" ++ zeroPadded 2 m ++ literal "-" ++ zeroPadded 2 d

theorem isoForm_dateText
    (hy : y < 10000)
    (hm : m < 100)
    (hd : d < 100) :
    IsoForm (dateText y m d) (zeroPadded 4 y) (zeroPadded 2 m) (zeroPadded 2 d) := by
  have hhyphen : literal "-" = [0x2D] := by decide
  refine ⟨?_, length_zeroPadded (by decide) hy, length_zeroPadded (by decide) hm,
    length_zeroPadded (by decide) hd, fun _ hc => isDigit_of_mem_zeroPadded hc,
    fun _ hc => isDigit_of_mem_zeroPadded hc, fun _ hc => isDigit_of_mem_zeroPadded hc⟩
  rw [dateText, hhyphen]
  simp only [List.append_assoc, List.cons_append, List.nil_append]

/-- The text of a known date is read back. -/
theorem parse_dateText
    (hy : y < 10000)
    (hm : m < 100)
    (hd : d < 100)
    (hknown : Known y m d)
    (t : NaiveDate) :
    (parse (dateText y m d)).run t = .ok () (ofParts y m d) := by
  have hreads := (isoForm_dateText hy hm hd).readsDate
  simp only [digitsValue_zeroPadded] at hreads
  exact parse_run hreads hknown t

theorem initialized_iff :
    s.initialized_ = true ↔ s.day_ ≠ 0 ∧ s.month_ ≠ 0 ∧ s.year_ ≠ 0 := by
  simp only [initialized_, Bool.and_eq_true, bne_iff_ne, and_assoc]

theorem render_run
    (h : s.initialized_ = true) :
    s.render = .ok (dateText s.year_.toNat s.month_.toNat s.day_.toNat) := by
  rw [render, h]
  rfl

/-- A valid date is initialized. -/
theorem initialized_of_isValid
    (h : s.isValid = .ok true) :
    s.initialized_ = true := by
  rw [isValid, valid_run, Except.ok.injEq, decide_eq_true_eq] at h
  obtain ⟨hfrom, hdate, -⟩ := h
  have hmonth := hdate.month
  have hday := hdate.1
  rw [initialized_iff]
  refine ⟨?_, ?_, ?_⟩
  · intro hzero
    rw [hzero] at hday
    exact absurd hday (by decide)
  · intro hzero
    rw [hzero] at hmonth
    exact absurd hmonth (by decide)
  · intro hzero
    rw [hzero] at hfrom
    exact absurd hfrom (by decide)

/-- The date that is stored is read back from its text up to the year 9999. -/
theorem parse_render
    (hvalid : s.isValid = .ok true)
    (hto : s.year_.toNat ≤ 9999) :
    ∃ out, s.render = .ok out ∧ (∃ year month day, IsoForm out year month day) ∧
      ∀ t, (parse out).run t = .ok () s := by
  have hdate := hvalid
  rw [isValid, valid_run, Except.ok.injEq, decide_eq_true_eq] at hdate
  obtain ⟨hfrom, hdate, -⟩ := hdate
  have hmonth := hdate.month
  have hbound := (daysInMonth_bounds s.year_.toNat hmonth).2
  have hday := hdate.2
  have hknown : Known s.year_.toNat s.month_.toNat s.day_.toNat := by
    refine ⟨hfrom, ?_⟩
    rw [UInt16.ofNat_toNat, UInt8.ofNat_toNat, UInt8.ofNat_toNat]
    exact hvalid
  have hparts : ofParts s.year_.toNat s.month_.toNat s.day_.toNat = s := by
    rw [ofParts, UInt16.ofNat_toNat, UInt8.ofNat_toNat, UInt8.ofNat_toNat]
  refine ⟨_, render_run (initialized_of_isValid hvalid),
    ⟨_, _, _, isoForm_dateText (by omega) (by omega) (by omega)⟩, fun t => ?_⟩
  rw [parse_dateText (by omega) (by omega) (by omega) hknown, hparts]

/-- **Parsing a date normalises it.**  A text is refused without a change, or it stores a
valid date whose text has the form YYYY-MM-DD and stores the same date again. -/
theorem render_after_parse
    (s : Bytes) (t : NaiveDate) :
    (∃ e, (parse s).run t = .error e t) ∨
      ∃ t', (parse s).run t = .ok () t' ∧ t'.isValid = .ok true ∧
        ∃ out, t'.render = .ok out ∧ out.length = 10 ∧
          (∃ year month day, IsoForm out year month day) ∧
          ∀ u, (parse out).run u = .ok () t' := by
  rcases parse_cases s t with ⟨y, m, d, hreads, hknown, hrun⟩ | ⟨-, what, hrun⟩ | ⟨-, what, hrun⟩
  · have hyear : (ofParts y m d).year_.toNat = y :=
      UInt16.toNat_ofNat_of_lt' (Nat.lt_trans hreads.lt.1 (by decide))
    have hto : (ofParts y m d).year_.toNat ≤ 9999 := by
      have hlt := hreads.lt.1
      omega
    have hvalid : (ofParts y m d).isValid = .ok true := hknown.2
    obtain ⟨out, hrender, ⟨year, month, day, hiso⟩, hback⟩ := parse_render hvalid hto
    exact .inr ⟨_, hrun, hvalid, out, hrender, hiso.parts.1, ⟨year, month, day, hiso⟩, hback⟩
  · exact .inl ⟨_, hrun⟩
  · exact .inl ⟨_, hrun⟩

end Render

end NaiveDate
end Bren
end Brenlib
