import Brenlib.Base.Matching
import Brenlib.Bren.Logger
import Brenlib.Bren.StdNumbers

/-!
# `NaiveTime`: a time of day without a time zone

The model follows `hdr/bren/NaiveTime.hpp` and `src/NaiveTime.cpp`.  Hour and minute are
`uint8_t`, and 0xFF stands for a part that is not set.  The regular expression of
`operator=` is matched against the whole text.

* `tre`: the groups of the ways to match a text.
* `assign`: `operator=`; `text`: `operator std::string`.
* `addMinutes`: `operator+=`; `sub`: `operator-`.

**Results.**  `assign` accepts one or two digits on both sides of a colon if they denote
a time, and changes nothing otherwise, with the promised exception if the logger is set up;
the text of the time that is stored is one of them (`assign_consistent_iff`).  Minutes are
added as numbers up to the end of the day (`addMinutes_run`), and so only the sum of several
additions matters (`addMinutes_exact`).
-/

namespace Brenlib
namespace Bren

open Matching

structure NaiveTime where
  hour_ : UInt8
  min_ : UInt8
deriving DecidableEq, Repr

namespace NaiveTime

/-- `NaiveTime()`. -/
def init : NaiveTime :=
  { hour_ := 0xFF, min_ := 0xFF }

def valid_ (s : NaiveTime) : Bool :=
  s.hour_ ≤ 23 && s.min_ ≤ 59

section Regex

/-- `[012]`. -/
def isTensOfHours (c : Byte) : Prop :=
  c = 0x30 ∨ c = 0x31 ∨ c = 0x32

instance : DecidablePred isTensOfHours :=
  fun _ => inferInstanceAs (Decidable (_ ∨ _))

/-- `[0-5]`. -/
def isTensOfMinutes (c : Byte) : Prop :=
  0x30 ≤ c ∧ c ≤ 0x35

instance : DecidablePred isTensOfMinutes :=
  fun _ => inferInstanceAs (Decidable (_ ∧ _))

/-- `[012]?[0-9]`. -/
def hourGroup : Matcher Byte :=
  seq (opt (cls isTensOfHours)) (cls isDigit)

/-- `[0-5]?[0-9]`. -/
def minuteGroup : Matcher Byte :=
  seq (opt (cls isTensOfMinutes)) (cls isDigit)

/-- The two groups of the matches of `^([012]?[0-9]):([0-5]?[0-9])$`. -/
def tre (time_i : Bytes) : List (Bytes × Bytes) :=
  (hourGroup time_i).flatMap fun (hour, behind) =>
    (cls (· = 0x3A) behind).flatMap fun (_, minutes) =>
      (minuteGroup minutes).flatMap fun (min, rest) =>
        if rest = [] then [(hour, min)] else []

/-- `std::regex_search`: the text that is matched and its groups. -/
def regexSearch (time_i : Bytes) : List Bytes :=
  match tre time_i with
  | [] => []
  | (hour, min) :: _ => [time_i, hour, min]

end Regex

/-- `operator=`. -/
def assign [Raising] (time_i : Bytes) : EStateM StdException NaiveTime Unit := do
  fcet (3 ≤ time_i.length ∧ time_i.length ≤ 5) .invalidArgument
    (s!"String length of given time '" ++ time_i.text ++
      s!"' should be 3, 4 or 5 characters, not {time_i.length}")
  let groups := regexSearch time_i
  fcet (groups.length = 3) .invalidArgument
    s!"Found {groups.length} regex matches for time instead of 3"
  let hour ← ofExcept (stoi (groups.getD 1 []))
  let min ← ofExcept (stoi (groups.getD 2 []))
  fcet (hour ≤ 23 ∧ min ≤ 59) .invalidArgument
    (s!"Unable to parse '" ++ time_i.text ++ s!"' as a valid 24-hour time")
  set ({ hour_ := UInt8.ofInt hour, min_ := UInt8.ofInt min } : NaiveTime)

/-- `operator std::string`. -/
def text [Raising] (s : NaiveTime) : Except StdException Bytes := do
  if ¬ s.valid_ then
    throw (Raising.raised .logicError "Internal time not (fully) initialized")
  return zeroPadded 2 s.hour_.toNat ++ literal ":" ++ zeroPadded 2 s.min_.toNat

/-- `operator-`. -/
def sub (s rhs : NaiveTime) : Except StdException Int16 := do
  if ¬ s.valid_ then
    throw ⟨.logicError, "Lefthand-side object is not valid"⟩
  if ¬ rhs.valid_ then
    throw ⟨.invalidArgument, "Righthand-side object is not valid"⟩
  return Int16.ofInt
    ((s.hour_.toNat * 60 + s.min_.toNat : Int) - (rhs.hour_.toNat * 60 + rhs.min_.toNat))

/-- `operator+=`. -/
def addMinutes [Raising] (min_i : UInt16) : EStateM StdException NaiveTime Unit := do
  let s ← get
  fcet (s.valid_ = true) .logicError "Internal time not (fully) initialized"
  if min_i = 0 then
    return
  let minutes := s.hour_.toNat * 60 + s.min_.toNat + min_i.toNat
  let quot := minutes / 60
  let rem := minutes % 60
  if 23 < quot then
    throw ⟨.overflowError, "Minutes addition would exceed midnight"⟩
  set ({ hour_ := UInt8.ofNat quot, min_ := UInt8.ofNat rem } : NaiveTime)

section Text

/-- One or two digits. -/
structure IsPart (part : Bytes) : Prop where
  digits : ∀ c ∈ part, isDigit c
  length : part.length = 1 ∨ part.length = 2

/-- A text in the form HH:MM, HH:M, H:MM or H:M. -/
structure Spells (time_i : Bytes) (hour min : Bytes) : Prop where
  split : time_i = hour ++ 0x3A :: min
  hour : IsPart hour
  min : IsPart min

theorem IsPart.ne_nil
    {part : Bytes}
    (h : IsPart part) :
    part ≠ [] := by
  rintro rfl
  exact absurd h.length (by decide)

theorem IsPart.stoi
    {part : Bytes}
    (h : IsPart part) :
    stoi part = .ok (digitsValue part) := by
  refine stoi_run h.ne_nil h.digits ?_
  have hlength := h.length
  calc digitsValue part
      < 10 ^ part.length := digitsValue_lt h.digits
    _ ≤ 10 ^ 2 := Nat.pow_le_pow_right (by decide) (by omega)
    _ < 2 ^ 31 := by decide

theorem digitsValue_pair
    (a b : Byte) :
    digitsValue [a, b] = 10 * (a.toNat - 48) + (b.toNat - 48) := by
  change 10 * (10 * 0 + (a.toNat - 48)) + (b.toNat - 48) = _
  omega

theorem isPart_pair
    {a b : Byte}
    (ha : isDigit a)
    (hb : isDigit b) :
    IsPart [a, b] :=
  ⟨by simpa using ⟨ha, hb⟩, .inr rfl⟩

theorem isPart_single
    {a : Byte}
    (ha : isDigit a) :
    IsPart [a] :=
  ⟨by simpa using ha, .inl rfl⟩

/-- A part of one or two digits of which the first one is in a class. -/
def InGroup (tens : Byte → Prop) (part : Bytes) : Prop :=
  (∃ a b, part = [a, b] ∧ tens a ∧ isDigit b) ∨ ∃ a, part = [a] ∧ isDigit a

theorem means_group
    (tens : Byte → Prop) [DecidablePred tens] :
    Means (seq (opt (cls tens)) (cls isDigit)) (InGroup tens) := by
  have hmeans := (means_cls tens).opt.seq (means_cls isDigit)
  refine ⟨fun {s part rest} => hmeans.mem_iff.trans (and_congr_right fun _ => ⟨?_, ?_⟩)⟩
  · rintro ⟨first, second, rfl, ⟨a, rfl, ha⟩ | rfl, b, rfl, hb⟩
    · exact .inl ⟨a, b, rfl, ha, hb⟩
    · exact .inr ⟨b, rfl, hb⟩
  · rintro (⟨a, b, rfl, ha, hb⟩ | ⟨b, rfl, hb⟩)
    · exact ⟨[a], [b], rfl, .inl ⟨a, rfl, ha⟩, b, rfl, hb⟩
    · exact ⟨[], [b], rfl, .inr rfl, b, rfl, hb⟩

theorem mem_tre
    {time_i hour min : Bytes} :
    (hour, min) ∈ tre time_i ↔
      time_i = hour ++ 0x3A :: min ∧ InGroup isTensOfHours hour ∧ InGroup isTensOfMinutes min := by
  have hhours := means_group isTensOfHours
  have hcolon := means_cls (α := Byte) (· = 0x3A)
  have hminutes := means_group isTensOfMinutes
  simp only [tre, List.mem_flatMap]
  constructor
  · rintro ⟨⟨hour', behind⟩, hhour, ⟨colon, minutes⟩, hmem, ⟨min', rest⟩, hmin, h⟩
    obtain ⟨hsplit, hhour⟩ := hhours.mem_iff.mp hhour
    obtain ⟨hbehind : behind = _ ++ minutes, a, rfl, rfl⟩ := hcolon.mem_iff.mp hmem
    obtain ⟨hminutes : minutes = min' ++ rest, hmin⟩ := hminutes.mem_iff.mp hmin
    split_ifs at h with hrest
    · obtain ⟨rfl, rfl⟩ := Prod.mk.inj (List.mem_singleton.mp h)
      change rest = [] at hrest
      rw [hrest, List.append_nil] at hminutes
      exact ⟨by rw [hsplit, hbehind, hminutes]; rfl, hhour, hmin⟩
    · cases h
  · rintro ⟨hsplit, hhour, hmin⟩
    refine ⟨(hour, 0x3A :: min), hhours.mem_iff.mpr ⟨hsplit, hhour⟩, ([0x3A], min),
      hcolon.mem_iff.mpr ⟨rfl, _, rfl, rfl⟩, (min, []),
      hminutes.mem_iff.mpr ⟨(List.append_nil min).symm, hmin⟩, ?_⟩
    exact List.mem_singleton_self _

theorem isDigit_of_isTensOfHours
    {c : Byte}
    (h : isTensOfHours c) :
    isDigit c := by
  rcases h with rfl | rfl | rfl <;> decide

theorem isTensOfHours_of_le
    {c : Byte}
    (hdigit : isDigit c)
    (h : c.toNat ≤ 50) :
    isTensOfHours c := by
  have hlow := (isDigit_iff.mp hdigit).1
  have hc : c = UInt8.ofNat c.toNat := (UInt8.ofNat_toNat).symm
  rw [hc]
  generalize c.toNat = n at h hlow
  interval_cases n <;> decide

theorem isTensOfMinutes_iff
    {c : Byte} :
    isTensOfMinutes c ↔ 48 ≤ c.toNat ∧ c.toNat ≤ 53 := by
  rw [isTensOfMinutes, UInt8.le_iff_toNat_le, UInt8.le_iff_toNat_le]
  exact Iff.rfl

theorem InGroup.isPart
    {tens : Byte → Prop} {part : Bytes}
    (h : InGroup tens part)
    (hdigit : ∀ c, tens c → isDigit c) :
    IsPart part := by
  rcases h with ⟨a, b, rfl, ha, hb⟩ | ⟨a, rfl, ha⟩
  · exact isPart_pair (hdigit a ha) hb
  · exact isPart_single ha

/-- Parts up to a bound match if the class of the tens has all digits that it needs. -/
theorem IsPart.inGroup
    {tens : Byte → Prop} {part : Bytes} {bound : Nat}
    (hpart : IsPart part)
    (h : digitsValue part ≤ bound)
    (htens : ∀ c, isDigit c → c.toNat ≤ 48 + bound / 10 → tens c) :
    InGroup tens part := by
  obtain ⟨hdigits, hlength | hlength⟩ := hpart
  · obtain ⟨a, rfl⟩ := List.length_eq_one_iff.mp hlength
    exact .inr ⟨a, rfl, hdigits a List.mem_cons_self⟩
  · obtain ⟨a, b, rfl⟩ := List.length_eq_two.mp hlength
    have ha := hdigits a List.mem_cons_self
    have hb := hdigits b (List.mem_cons_of_mem _ List.mem_cons_self)
    rw [digitsValue_pair] at h
    exact .inl ⟨a, b, rfl, htens a ha (by omega), hb⟩

theorem spells_of_mem_tre
    {time_i hour min : Bytes}
    (h : (hour, min) ∈ tre time_i) :
    Spells time_i hour min := by
  obtain ⟨hsplit, hhour, hmin⟩ := mem_tre.mp h
  refine ⟨hsplit, hhour.isPart fun c hc => isDigit_of_isTensOfHours hc,
    hmin.isPart fun c hc => ?_⟩
  rw [isTensOfMinutes_iff] at hc
  rw [isDigit_iff]
  omega

theorem Spells.mem_tre
    {time_i hour min : Bytes}
    (h : Spells time_i hour min)
    (hhour : digitsValue hour ≤ 23)
    (hmin : digitsValue min ≤ 59) :
    (hour, min) ∈ tre time_i := by
  refine NaiveTime.mem_tre.mpr ⟨h.split, ?_, ?_⟩
  · exact h.hour.inGroup hhour fun c hc hle => isTensOfHours_of_le hc hle
  · exact h.min.inGroup hmin fun c hc hle =>
      isTensOfMinutes_iff.mpr ⟨(isDigit_iff.mp hc).1, hle⟩

/-- The parts of a text are determined by it. -/
theorem Spells.unique
    {time_i hour hour' min min' : Bytes}
    (h : Spells time_i hour min)
    (h' : Spells time_i hour' min') :
    hour' = hour ∧ min' = min := by
  have htake {hour min : Bytes} (h : Spells time_i hour min) :
      time_i.takeWhile (isDigit ·) = hour := by
    rw [h.split, List.takeWhile_append_of_pos (by simpa using h.hour.digits),
      List.takeWhile_cons_of_neg (by decide), List.append_nil]
  have hhour : hour' = hour := (htake h').symm.trans (htake h)
  subst hhour
  have hrest := List.append_cancel_left (h'.split.symm.trans h.split)
  exact ⟨rfl, (List.cons.inj hrest).2⟩

theorem regexSearch_cases
    (time_i : Bytes) :
    (tre time_i = [] ∧ regexSearch time_i = []) ∨
      ∃ hour min, (hour, min) ∈ tre time_i ∧ regexSearch time_i = [time_i, hour, min] := by
  unfold regexSearch
  cases htre : tre time_i with
  | nil =>
      exact .inl ⟨rfl, rfl⟩
  | cons found more =>
      exact .inr ⟨found.1, found.2, List.mem_cons_self, rfl⟩

/-- A text that denotes a time is accepted. -/
theorem assign_run
    [Raising] {time_i hour min : Bytes} (s : NaiveTime)
    (h : Spells time_i hour min)
    (hhour : digitsValue hour ≤ 23)
    (hmin : digitsValue min ≤ 59) :
    (assign time_i).run s =
      .ok () ⟨UInt8.ofNat (digitsValue hour), UInt8.ofNat (digitsValue min)⟩ := by
  have hmem := h.mem_tre hhour hmin
  have hsearch : regexSearch time_i = [time_i, hour, min] := by
    rcases regexSearch_cases time_i with ⟨hnone, -⟩ | ⟨hour', min', hmem', hsearch⟩
    · rw [hnone] at hmem
      cases hmem
    · obtain ⟨rfl, rfl⟩ := h.unique (spells_of_mem_tre hmem')
      exact hsearch
  have hlength : 3 ≤ time_i.length ∧ time_i.length ≤ 5 := by
    have hhourLength := h.hour.length
    have hminLength := h.min.length
    rw [h.split, List.length_append, List.length_cons]
    omega
  unfold assign
  rw [run_bind_ok (fcet_run hlength _ _ s), hsearch]
  refine (run_bind_ok (fcet_run (by rfl) _ _ s) _).trans ?_
  change EStateM.run (ofExcept (stoi hour) >>= fun _ => ofExcept (stoi min) >>= _) s = _
  rw [h.hour.stoi, run_bind_ok (run_ofExcept _ s), h.min.stoi, run_bind_ok (run_ofExcept _ s),
    run_bind_ok (fcet_run (by omega) _ _ s), ofInt_uint8, ofInt_uint8]
  rfl

/-- All other texts are refused, and the time that is stored stays. -/
theorem assign_throws
    [Raising] {time_i : Bytes} (s : NaiveTime)
    (h : ∀ hour min, Spells time_i hour min →
      ¬ (digitsValue hour ≤ 23 ∧ digitsValue min ≤ 59)) :
    ∃ what, (assign time_i).run s = .error (Raising.raised .invalidArgument what) s := by
  unfold assign
  by_cases hlength : 3 ≤ time_i.length ∧ time_i.length ≤ 5
  · rw [run_bind_ok (fcet_run hlength _ _ s)]
    rcases regexSearch_cases time_i with ⟨-, hsearch⟩ | ⟨hour, min, hmem, hsearch⟩
    · rw [hsearch]
      exact ⟨_, run_bind_error (fcet_run_raises (by decide) _ _ s) _⟩
    · have hspells := spells_of_mem_tre hmem
      have hrange := h hour min hspells
      rw [hsearch]
      refine ⟨s!"Unable to parse '" ++ time_i.text ++ s!"' as a valid 24-hour time",
        (run_bind_ok (fcet_run (by rfl) _ _ s) _).trans ?_⟩
      change EStateM.run (ofExcept (stoi hour) >>= fun _ => ofExcept (stoi min) >>= _) s = _
      rw [hspells.hour.stoi, run_bind_ok (run_ofExcept _ s), hspells.min.stoi,
        run_bind_ok (run_ofExcept _ s), run_bind_error (fcet_run_raises (by omega) _ _ s)]
  · rw [run_bind_error (fcet_run_raises hlength _ _ s)]
    exact ⟨_, rfl⟩

end Text

section Parsing

variable {s t : NaiveTime}

/-- The text HH:MM of an hour and a minute. -/
def clockText (hour min : Nat) : Bytes :=
  zeroPadded 2 hour ++ literal ":" ++ zeroPadded 2 min

example : clockText 9 5 = literal "09:05" := by decide

theorem isPart_zeroPadded
    {n : Nat}
    (h : n < 60) :
    IsPart (zeroPadded 2 n) :=
  ⟨fun _ hc => isDigit_of_mem_zeroPadded hc,
    .inr (length_zeroPadded (by decide) (Nat.lt_trans h (by decide)))⟩

theorem spells_clockText
    {hour min : Nat}
    (hhour : hour < 24)
    (hmin : min < 60) :
    Spells (clockText hour min) (zeroPadded 2 hour) (zeroPadded 2 min) := by
  have hcolon : literal ":" = [0x3A] := by decide
  refine ⟨?_, isPart_zeroPadded (by omega), isPart_zeroPadded hmin⟩
  rw [clockText, hcolon, List.append_assoc, List.singleton_append]

theorem valid_iff :
    s.valid_ = true ↔ s.hour_.toNat < 24 ∧ s.min_.toNat < 60 := by
  rw [valid_, Bool.and_eq_true, decide_eq_true_eq, decide_eq_true_eq, UInt8.le_iff_toNat_le,
    UInt8.le_iff_toNat_le]
  exact and_congr Nat.lt_succ_iff.symm Nat.lt_succ_iff.symm

theorem text_run
    [Raising] (h : s.valid_ = true) :
    s.text = .ok (clockText s.hour_.toNat s.min_.toNat) := by
  rw [text, h]
  rfl

/-- The text of a valid time is read back. -/
theorem assign_clockText
    [Raising] (h : s.valid_ = true) (s' : NaiveTime) :
    (assign (clockText s.hour_.toNat s.min_.toNat)).run s' = .ok () s := by
  obtain ⟨hhour, hmin⟩ := valid_iff.mp h
  have hrun := assign_run s' (spells_clockText hhour hmin)
    (by rw [digitsValue_zeroPadded]; omega) (by rw [digitsValue_zeroPadded]; omega)
  rw [digitsValue_zeroPadded, digitsValue_zeroPadded, UInt8.ofNat_toNat,
    UInt8.ofNat_toNat] at hrun
  exact hrun

/-- The text has the form HH:MM. -/
structure IsClock (out : Bytes) : Prop where
  length : out.length = 5
  spells : ∃ hour min, Spells out hour min ∧ hour.length = 2 ∧ min.length = 2

theorem isClock_clockText
    {hour min : Nat}
    (hhour : hour < 24)
    (hmin : min < 60) :
    IsClock (clockText hour min) := by
  have hhourLength : (zeroPadded 2 hour).length = 2 :=
    length_zeroPadded (by decide) (by omega)
  have hminLength : (zeroPadded 2 min).length = 2 :=
    length_zeroPadded (by decide) (by omega)
  refine ⟨?_, _, _, spells_clockText hhour hmin, hhourLength, hminLength⟩
  rw [clockText, List.length_append, List.length_append, hhourLength, hminLength]
  rfl

/-- Exactly the four spellings of the times of a day are accepted, all other texts are
refused without a change, and the text of the time that has been stored stores it again. -/
def Consistent (raising : Raising) (s : NaiveTime) (time_i : Bytes) : Prop :=
  ((∃ t, (assign time_i).run s = .ok () t) ↔
      ∃ hour min, Spells time_i hour min ∧ digitsValue hour ≤ 23 ∧ digitsValue min ≤ 59) ∧
    (∀ e t, (assign time_i).run s = .error e t → e.kind = .invalidArgument ∧ t = s) ∧
    ∀ t, (assign time_i).run s = .ok () t →
      (∃ hour min, Spells time_i hour min ∧
        t.hour_.toNat = digitsValue hour ∧ t.min_.toNat = digitsValue min) ∧
      ∃ out, t.text = .ok out ∧ IsClock out ∧ ∀ s', (assign out).run s' = .ok () t

/-- A spelling of a time of the day is accepted and stored. -/
theorem consistent_of_spells
    [Raising] {time_i hour min : Bytes}
    (hspells : Spells time_i hour min)
    (hhour : digitsValue hour ≤ 23)
    (hmin : digitsValue min ≤ 59)
    (s : NaiveTime) :
    Consistent ‹_› s time_i := by
  have hrun := assign_run s hspells hhour hmin
  unfold Consistent
  rw [hrun]
  refine ⟨iff_of_true ⟨_, rfl⟩ ⟨hour, min, hspells, hhour, hmin⟩, ?_, ?_⟩
  · rintro e t ⟨⟩
  · rintro t ⟨⟩
    have hhour' : (UInt8.ofNat (digitsValue hour)).toNat = digitsValue hour :=
      UInt8.toNat_ofNat_of_lt' (show _ < 256 by omega)
    have hmin' : (UInt8.ofNat (digitsValue min)).toNat = digitsValue min :=
      UInt8.toNat_ofNat_of_lt' (show _ < 256 by omega)
    have hvalid : (⟨UInt8.ofNat (digitsValue hour), UInt8.ofNat (digitsValue min)⟩ :
        NaiveTime).valid_ = true :=
      valid_iff.mpr ⟨by rw [hhour']; omega, by rw [hmin']; omega⟩
    obtain ⟨hlow, hhigh⟩ := valid_iff.mp hvalid
    exact ⟨⟨hour, min, hspells, hhour', hmin'⟩, _, text_run hvalid,
      isClock_clockText hlow hhigh, assign_clockText hvalid⟩

theorem consistent_iff
    [Raising] {setUp : Prop}
    (hdeclares : Raising.DeclaresIf .invalidArgument setUp)
    (s : NaiveTime) (time_i : Bytes) :
    Consistent ‹_› s time_i ↔
      (∃ hour min, Spells time_i hour min ∧ digitsValue hour ≤ 23 ∧ digitsValue min ≤ 59) ∨
        setUp := by
  by_cases h : ∃ hour min, Spells time_i hour min ∧
      digitsValue hour ≤ 23 ∧ digitsValue min ≤ 59
  · obtain ⟨hour, min, hspells, hhour, hmin⟩ := id h
    exact iff_of_true (consistent_of_spells hspells hhour hmin s) (.inl h)
  · obtain ⟨what, hrun⟩ := assign_throws s fun hour min hspells hrange =>
      h ⟨hour, min, hspells, hrange⟩
    rw [or_iff_right h, ← hdeclares what]
    unfold Consistent
    rw [hrun]
    constructor
    · rintro ⟨-, hrefused, -⟩
      exact (hrefused _ _ rfl).1
    · intro hkind
      refine ⟨iff_of_false ?_ h, ?_, ?_⟩
      · rintro ⟨t, ⟨⟩⟩
      · rintro e t ⟨⟩
        exact ⟨hkind, rfl⟩
      · rintro t ⟨⟩

/-- **Parsing and printing are consistent** for a text that denotes a time, and for other
texts exactly if the logger is set up. -/
theorem assign_consistent_iff
    (calls : List Logger.ConfigCall) (now : Now) (here : Site) (s : NaiveTime) (time_i : Bytes) :
    Consistent (.ofLogger (Logger.configured calls) now here) s time_i ↔
      (∃ hour min, Spells time_i hour min ∧ digitsValue hour ≤ 23 ∧ digitsValue min ≤ 59) ∨
        (Logger.configured calls).SetUp here :=
  @consistent_iff (.ofLogger (Logger.configured calls) now here) _
    (Logger.raised_kind_iff (by decide)) s time_i

/-- The first check of `operator=`. -/
def lengthSite : Site where
  file := ⟨literal "src/NaiveTime.cpp", by decide⟩
  line := 104

/-- With a new logger a text that is too short is refused with another exception. -/
theorem assign_without_logger :
    (@assign (.ofLogger (Logger.configured []) Logger.checkNow lengthSite) (literal "9")).run
        init =
      .error ⟨.logicError, "Asked to log to stream, but stream is NULL"⟩ init ∧
    ¬ Consistent (.ofLogger (Logger.configured []) Logger.checkNow lengthSite) init
      (literal "9") := by
  have hrun :
      (@assign (.ofLogger (Logger.configured []) Logger.checkNow lengthSite) (literal "9")).run
          init =
        .error ⟨.logicError, "Asked to log to stream, but stream is NULL"⟩ init := by
    have hshort (hour min : Bytes) (h : Spells (literal "9") hour min) : False := by
      have hlength := congrArg List.length h.split
      have hhour := h.hour.length
      rw [List.length_append, List.length_cons] at hlength
      change 1 = _ at hlength
      omega
    obtain ⟨what, hthrows⟩ :=
      @assign_throws (.ofLogger (Logger.configured []) Logger.checkNow lengthSite) _ init
        fun hour min h _ => hshort hour min h
    rw [hthrows, Logger.raised_init]
  refine ⟨hrun, fun h => ?_⟩
  cases (h.2.1 _ _ hrun).1

end Parsing

section Minutes

variable {s t : NaiveTime}

/-- The minutes since midnight. -/
def minutes (s : NaiveTime) : Nat :=
  s.hour_.toNat * 60 + s.min_.toNat

/-- Minutes that are added one after the other. -/
def addAll (mins : List UInt16) : EStateM StdException NaiveTime Unit :=
  mins.forM addMinutes

/-- The minutes together. -/
def sum (mins : List UInt16) : Nat :=
  (mins.map UInt16.toNat).sum

/-- A valid time is determined by its minutes. -/
theorem eq_of_minutes
    (hs : s.valid_ = true)
    (ht : t.valid_ = true)
    (h : s.minutes = t.minutes) :
    s = t := by
  have hs := valid_iff.mp hs
  have ht := valid_iff.mp ht
  obtain ⟨hour, min⟩ := s
  obtain ⟨hour', min'⟩ := t
  unfold minutes at h
  simp only at hs ht h
  have hhour : hour = hour' := UInt8.toNat_inj.mp (by omega)
  have hmin : min = min' := UInt8.toNat_inj.mp (by omega)
  rw [hhour, hmin]

theorem minutes_lt
    (h : s.valid_ = true) :
    s.minutes < 1440 := by
  obtain ⟨hhour, hmin⟩ := valid_iff.mp h
  unfold minutes
  omega

/-- The time with the given minutes. -/
theorem ofMinutes_spec
    {n : Nat}
    (h : n < 1440)
    (ht : t = ⟨UInt8.ofNat (n / 60), UInt8.ofNat (n % 60)⟩) :
    t.valid_ = true ∧ t.minutes = n := by
  have hhour : t.hour_.toNat = n / 60 := by
    rw [ht]
    exact UInt8.toNat_ofNat_of_lt' (show _ < 256 by omega)
  have hmin : t.min_.toNat = n % 60 := by
    rw [ht]
    exact UInt8.toNat_ofNat_of_lt' (show _ < 256 by omega)
  rw [valid_iff, minutes, hhour, hmin]
  omega

theorem addMinutes_eq
    [Raising] (min_i : UInt16)
    (hvalid : s.valid_ = true) :
    (addMinutes min_i).run s =
      if min_i = 0 then .ok () s
      else if 1440 ≤ s.minutes + min_i.toNat then
        .error ⟨.overflowError, "Minutes addition would exceed midnight"⟩ s
      else
        .ok () ⟨UInt8.ofNat ((s.minutes + min_i.toNat) / 60),
          UInt8.ofNat ((s.minutes + min_i.toNat) % 60)⟩ := by
  have hget : (get : EStateM StdException NaiveTime NaiveTime).run s = .ok s s := rfl
  have hquot : 23 < (s.minutes + min_i.toNat) / 60 ↔ 1440 ≤ s.minutes + min_i.toNat := by
    omega
  unfold addMinutes
  rw [run_bind_ok hget, run_bind_ok (fcet_run hvalid _ _ s)]
  change (if min_i = 0 then _ else if 23 < (s.minutes + min_i.toNat) / 60 then _ else _ :
    EStateM StdException NaiveTime Unit).run s = _
  simp only [hquot]
  split_ifs <;> rfl

/-- Minutes within the day are added. -/
theorem addMinutes_run
    [Raising] {min_i : UInt16}
    (hvalid : s.valid_ = true)
    (h : s.minutes + min_i.toNat < 1440) :
    ∃ t, (addMinutes min_i).run s = .ok () t ∧ t.valid_ = true ∧
      t.minutes = s.minutes + min_i.toNat := by
  rw [addMinutes_eq min_i hvalid]
  split_ifs with hzero hover
  · subst hzero
    exact ⟨s, rfl, hvalid, rfl⟩
  · omega
  · exact ⟨_, rfl, ofMinutes_spec h rfl⟩

/-- Minutes beyond the day are refused. -/
theorem addMinutes_throws
    [Raising] {min_i : UInt16}
    (hvalid : s.valid_ = true)
    (h : 1440 ≤ s.minutes + min_i.toNat) :
    (addMinutes min_i).run s =
      .error ⟨.overflowError, "Minutes addition would exceed midnight"⟩ s := by
  have hlt := minutes_lt hvalid
  have hzero : min_i ≠ 0 := by
    rintro rfl
    rw [UInt16.toNat_zero] at h
    omega
  rw [addMinutes_eq min_i hvalid, if_neg hzero, if_pos h]

/-- All additions within the day succeed. -/
theorem addAll_run
    {mins : List UInt16}
    (hvalid : s.valid_ = true)
    (h : s.minutes + sum mins < 1440) :
    ∃ t, (addAll mins).run s = .ok () t ∧ t.valid_ = true ∧
      t.minutes = s.minutes + sum mins := by
  induction mins generalizing s with
  | nil =>
      exact ⟨s, rfl, hvalid, rfl⟩
  | cons min_i mins ih =>
      have hsum : sum (min_i :: mins) = min_i.toNat + sum mins := List.sum_cons
      rw [hsum] at h ⊢
      have hfirst : s.minutes + min_i.toNat < 1440 := by omega
      obtain ⟨u, hrun, hu, hminutes⟩ := addMinutes_run hvalid hfirst
      obtain ⟨t, hrun', ht, hminutes'⟩ := ih hu (by omega)
      refine ⟨t, ?_, ht, by omega⟩
      change (addMinutes min_i >>= fun _ => addAll mins).run s = _
      rw [run_bind_ok hrun, hrun']

theorem sub_run
    (hs : s.valid_ = true)
    (ht : t.valid_ = true) :
    ∃ d, t.sub s = .ok d ∧ d.toInt = (t.minutes : Int) - s.minutes := by
  have hslt := minutes_lt hs
  have htlt := minutes_lt ht
  refine ⟨Int16.ofInt ((t.minutes : Int) - s.minutes), ?_, ?_⟩
  · rw [sub, hs, ht]
    rfl
  · exact Int16.toInt_ofInt_of_le (by change (-32768 : Int) ≤ _; omega)
      (by change _ < (32768 : Int); omega)

/-- **Additions are exact up to midnight.**  As long as their sum stays within the day,
only the sum matters, and the first one that leaves the day is refused. -/
theorem addMinutes_exact
    {t0 : NaiveTime} (mins : List UInt16)
    (hvalid : t0.valid_ = true)
    (h : t0.minutes + sum mins < 1440) :
    ∃ t, (addAll mins).run t0 = .ok () t ∧ t.valid_ = true ∧
      (∃ d, t.sub t0 = .ok d ∧ d.toInt = sum mins) ∧
      (∀ mins', sum mins' = sum mins → (addAll mins').run t0 = .ok () t) ∧
      ∀ min_i : UInt16, 1440 ≤ t0.minutes + sum mins + min_i.toNat →
        ∃ what, (addMinutes min_i).run t = .error ⟨.overflowError, what⟩ t := by
  obtain ⟨t, hrun, ht, hminutes⟩ := addAll_run hvalid h
  refine ⟨t, hrun, ht, ?_, ?_, ?_⟩
  · obtain ⟨d, hsub, hd⟩ := sub_run hvalid ht
    exact ⟨d, hsub, by rw [hd, hminutes]; omega⟩
  · intro mins' hsum
    have hday : t0.minutes + sum mins' < 1440 := by omega
    obtain ⟨u, hrun', hu, hminutes'⟩ := addAll_run hvalid hday
    rw [hrun', eq_of_minutes hu ht (by omega)]
  · intro min_i hover
    exact ⟨_, addMinutes_throws ht (by omega)⟩

/-- Fifty-nine minutes after 23:00 the next addition is refused. -/
theorem addMinutes_exact_evening :
    ∃ t, (addAll [30, 0, 29]).run ⟨23, 0⟩ = .ok () t ∧ t = ⟨23, 59⟩ ∧
      ∃ what, (addMinutes 1).run t = .error ⟨.overflowError, what⟩ t := by
  have hvalid : (⟨23, 0⟩ : NaiveTime).valid_ = true := by decide
  obtain ⟨t, hrun, -, -, -, hover⟩ := addMinutes_exact [30, 0, 29] hvalid (by decide)
  have heq : t = ⟨23, 59⟩ := by
    have hfinal : (addAll [30, 0, 29]).run ⟨23, 0⟩ = .ok () ⟨23, 59⟩ := by rfl
    rw [hfinal] at hrun
    injection hrun with _ hrun
    exact hrun.symm
  exact ⟨t, hrun, heq, hover 1 (by decide)⟩

end Minutes

end NaiveTime
end Bren
end Brenlib
