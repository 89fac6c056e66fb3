import Brenlib.Base.TransitionSystem
import Brenlib.Bren.NaiveTime

/-!
# A `NaiveTime` over several calls

Hour and minute are set together or apart, and `reset()` unsets them.  A `Clock` says what the
object is for: an hour and a minute of the day, each of which may be missing.

**Results.**
* `clock_refined`: behind any calls, thrown exceptions included, the object is a clock, and
  its getters answer like the clock, if the logger is set up.
-/

namespace Brenlib
namespace Bren
namespace NaiveTime

open TransitionSystem

section Methods

variable [Raising]

/-- `hour()`. -/
def hour (s : NaiveTime) : Except StdException UInt8 := do
  if ¬ s.hour_ ≤ 23 then
    throw (Raising.raised .logicError "Internal hour not initialized yet")
  return s.hour_

/-- `hour(hour_i)`. -/
def setHour (hour_i : UInt8) : EStateM StdException NaiveTime Unit := do
  fcet (hour_i ≤ 23) .invalidArgument s!"Given hour {hour_i.toNat} should be <= 23"
  modify fun s => { s with hour_ := hour_i }

/-- `minute()`. -/
def minute (s : NaiveTime) : Except StdException UInt8 := do
  if ¬ s.min_ ≤ 59 then
    throw (Raising.raised .logicError "Internal minute not initialized yet")
  return s.min_

/-- `minute(minute_i)`. -/
def setMinute (minute_i : UInt8) : EStateM StdException NaiveTime Unit := do
  fcet (minute_i ≤ 59) .invalidArgument s!"Given minute {minute_i.toNat} should be <= 59"
  modify fun s => { s with min_ := minute_i }

/-- `reset()`. -/
def reset : EStateM StdException NaiveTime Unit :=
  set init

/-- A call on an object. -/
inductive Call where
  | hour (hour_i : UInt8)
  | minute (minute_i : UInt8)
  | assign (time_i : Bytes)
  | add (min_i : UInt16)
  | reset

/-- The method of a call. -/
def Call.method : Call → EStateM StdException NaiveTime Unit
  | .hour hour_i => setHour hour_i
  | .minute minute_i => setMinute minute_i
  | .assign time_i => NaiveTime.assign time_i
  | .add min_i => addMinutes min_i
  | .reset => NaiveTime.reset

end Methods

/-- A call with its outcome: it returns, or it throws an exception of a class. -/
abbrev Label := Call × Except ExceptionClass Unit

/-- A call as a step of the object. -/
def Calls (raising : Raising) (s : NaiveTime) (l : Label) (t : NaiveTime) : Prop :=
  match l.1.method.run s with
  | .ok _ s' => l.2 = .ok () ∧ t = s'
  | .error e s' => l.2 = .error e.kind ∧ t = s'

/-- An hour and a minute of the day, as far as they are known. -/
structure Clock where
  hour : Option (Fin 24)
  minute : Option (Fin 60)
deriving DecidableEq, Repr

namespace Clock

/-- Neither is known. -/
def unset : Clock :=
  { hour := none, minute := none }

/-- The hour and the minute that begin a number of minutes after midnight. -/
def ofMinutes (n : Nat) (h : n < 1440) : Clock where
  hour := some ⟨n / 60, by omega⟩
  minute := some ⟨n % 60, by omega⟩

/-- What a call does to a clock. -/
inductive Step : Clock → Label → Clock → Prop
  | hour
      (c : Clock) (h : Fin 24) :
      Step c (.hour (UInt8.ofNat h), .ok ()) { c with hour := some h }
  | minute
      (c : Clock) (m : Fin 60) :
      Step c (.minute (UInt8.ofNat m), .ok ()) { c with minute := some m }
  | assign
      (c : Clock) {time_i hour min : Bytes} (h : Fin 24) (m : Fin 60)
      (hspells : Spells time_i hour min)
      (hhour : digitsValue hour = h)
      (hmin : digitsValue min = m) :
      Step c (.assign time_i, .ok ()) { hour := some h, minute := some m }
  | add
      (h : Fin 24) (m : Fin 60) (min_i : UInt16)
      (hday : h.val * 60 + m.val + min_i.toNat < 1440) :
      Step { hour := some h, minute := some m } (.add min_i, .ok ())
        (ofMinutes (h.val * 60 + m.val + min_i.toNat) hday)
  | reset
      (c : Clock) :
      Step c (.reset, .ok ()) unset
  | hourRefused
      (c : Clock) {hour_i : UInt8}
      (h : 24 ≤ hour_i.toNat) :
      Step c (.hour hour_i, .error .invalidArgument) c
  | minuteRefused
      (c : Clock) {minute_i : UInt8}
      (h : 60 ≤ minute_i.toNat) :
      Step c (.minute minute_i, .error .invalidArgument) c
  | assignRefused
      (c : Clock) {time_i : Bytes}
      (h : ∀ hour min, Spells time_i hour min →
        ¬ (digitsValue hour ≤ 23 ∧ digitsValue min ≤ 59)) :
      Step c (.assign time_i, .error .invalidArgument) c
  | addOver
      (h : Fin 24) (m : Fin 60) (min_i : UInt16)
      (hday : 1440 ≤ h.val * 60 + m.val + min_i.toNat) :
      Step { hour := some h, minute := some m } (.add min_i, .error .overflowError)
        { hour := some h, minute := some m }
  | addUnset
      {c : Clock} (min_i : UInt16)
      (h : c.hour = none ∨ c.minute = none) :
      Step c (.add min_i, .error .logicError) c

end Clock

section Refinement

variable {s t : NaiveTime} {c : Clock}

/-- The object holds the clock; 0xFF stands for what is not known. -/
structure Represents (s : NaiveTime) (c : Clock) : Prop where
  hour : s.hour_ = c.hour.elim 0xFF fun h => UInt8.ofNat h
  minute : s.min_ = c.minute.elim 0xFF fun m => UInt8.ofNat m

theorem represents_init :
    Represents init Clock.unset :=
  ⟨rfl, rfl⟩

theorem Represents.hour_le_iff
    (hrep : Represents s c) :
    s.hour_ ≤ 23 ↔ c.hour.isSome := by
  rw [hrep.hour]
  cases c.hour with
  | none => exact iff_of_false (by decide) (by decide)
  | some h =>
      refine iff_of_true ?_ rfl
      rw [UInt8.le_iff_toNat_le, Option.elim_some,
        UInt8.toNat_ofNat_of_lt' (Nat.lt_trans h.isLt (by decide))]
      exact Nat.le_of_lt_succ h.isLt

theorem Represents.minute_le_iff
    (hrep : Represents s c) :
    s.min_ ≤ 59 ↔ c.minute.isSome := by
  rw [hrep.minute]
  cases c.minute with
  | none => exact iff_of_false (by decide) (by decide)
  | some m =>
      refine iff_of_true ?_ rfl
      rw [UInt8.le_iff_toNat_le, Option.elim_some,
        UInt8.toNat_ofNat_of_lt' (Nat.lt_trans m.isLt (by decide))]
      exact Nat.le_of_lt_succ m.isLt

theorem Represents.valid_iff
    (hrep : Represents s c) :
    s.valid_ = true ↔ ∃ h m, c = { hour := some h, minute := some m } := by
  rw [valid_, Bool.and_eq_true, decide_eq_true_eq, decide_eq_true_eq, hrep.hour_le_iff,
    hrep.minute_le_iff]
  obtain ⟨hour, minute⟩ := c
  cases hour <;> cases minute <;> simp

theorem Represents.minutes
    {h : Fin 24} {m : Fin 60}
    (hrep : Represents s { hour := some h, minute := some m }) :
    s.minutes = h.val * 60 + m.val := by
  rw [NaiveTime.minutes, hrep.hour, hrep.minute, Option.elim_some, Option.elim_some,
    UInt8.toNat_ofNat_of_lt' (Nat.lt_trans h.isLt (by decide)),
    UInt8.toNat_ofNat_of_lt' (Nat.lt_trans m.isLt (by decide))]

variable [raising : Raising]

/-- What a call makes of an object is what it makes of the clock. -/
def Refined (c : Clock) (call : Call) : EStateM.Result StdException NaiveTime Unit → Prop
  | .ok _ t => ∃ d, Clock.Step c (call, .ok ()) d ∧ Represents t d
  | .error e t => ∃ d, Clock.Step c (call, .error e.kind) d ∧ Represents t d

theorem setHour_refined
    (hclass : ∀ exc message, (Raising.raised exc message).kind = exc)
    (hrep : Represents s c) (hour_i : UInt8) :
    Refined c (.hour hour_i) ((setHour hour_i).run s) := by
  unfold setHour
  by_cases h : hour_i ≤ 23
  · have hlt : hour_i.toNat < 24 := Nat.lt_succ_of_le (UInt8.le_iff_toNat_le.mp h)
    have hcast : UInt8.ofNat hour_i.toNat = hour_i := UInt8.ofNat_toNat
    have hstep := Clock.Step.hour c ⟨hour_i.toNat, hlt⟩
    rw [hcast] at hstep
    rw [run_bind_ok (fcet_run h _ _ s)]
    exact ⟨_, hstep, hcast.symm, hrep.minute⟩
  · rw [run_bind_error (fcet_run_raises h _ _ s)]
    rw [UInt8.le_iff_toNat_le, not_le] at h
    refine ⟨c, ?_, hrep⟩
    rw [hclass]
    exact .hourRefused c h

theorem setMinute_refined
    (hclass : ∀ exc message, (Raising.raised exc message).kind = exc)
    (hrep : Represents s c) (minute_i : UInt8) :
    Refined c (.minute minute_i) ((setMinute minute_i).run s) := by
  unfold setMinute
  by_cases h : minute_i ≤ 59
  · have hlt : minute_i.toNat < 60 := Nat.lt_succ_of_le (UInt8.le_iff_toNat_le.mp h)
    have hcast : UInt8.ofNat minute_i.toNat = minute_i := UInt8.ofNat_toNat
    have hstep := Clock.Step.minute c ⟨minute_i.toNat, hlt⟩
    rw [hcast] at hstep
    rw [run_bind_ok (fcet_run h _ _ s)]
    exact ⟨_, hstep, hrep.hour, hcast.symm⟩
  · rw [run_bind_error (fcet_run_raises h _ _ s)]
    rw [UInt8.le_iff_toNat_le, not_le] at h
    refine ⟨c, ?_, hrep⟩
    rw [hclass]
    exact .minuteRefused c h

theorem assign_refined
    (hclass : ∀ exc message, (Raising.raised exc message).kind = exc)
    (hrep : Represents s c) (time_i : Bytes) :
    Refined c (.assign time_i) ((assign time_i).run s) := by
  by_cases h : ∃ hour min, Spells time_i hour min ∧
      digitsValue hour ≤ 23 ∧ digitsValue min ≤ 59
  · obtain ⟨hour, min, hspells, hhour, hmin⟩ := h
    rw [assign_run s hspells hhour hmin]
    exact ⟨_, .assign c ⟨digitsValue hour, by omega⟩ ⟨digitsValue min, by omega⟩ hspells rfl rfl,
      rfl, rfl⟩
  · have hrefused (hour min : Bytes) (hspells : Spells time_i hour min) :
        ¬ (digitsValue hour ≤ 23 ∧ digitsValue min ≤ 59) :=
      fun hrange => h ⟨hour, min, hspells, hrange⟩
    obtain ⟨what, hrun⟩ := assign_throws s hrefused
    rw [hrun]
    refine ⟨c, ?_, hrep⟩
    rw [hclass]
    exact .assignRefused c hrefused

/-- Minutes are added to a clock that is set, up to midnight. -/
theorem addMinutes_refined
    (hclass : ∀ exc message, (Raising.raised exc message).kind = exc)
    (hrep : Represents s c) (min_i : UInt16) :
    Refined c (.add min_i) ((addMinutes min_i).run s) := by
  by_cases hvalid : s.valid_ = true
  · obtain ⟨h, m, rfl⟩ := hrep.valid_iff.mp hvalid
    have hminutes := hrep.minutes
    by_cases hday : h.val * 60 + m.val + min_i.toNat < 1440
    · obtain ⟨t, hrun, ht, htotal⟩ := addMinutes_run hvalid (hminutes ▸ hday)
      rw [hrun]
      rw [hminutes] at htotal
      refine ⟨_, .add h m min_i hday, ?_⟩
      have hspec := ofMinutes_spec hday (Eq.refl (⟨UInt8.ofNat _, UInt8.ofNat _⟩ : NaiveTime))
      rw [eq_of_minutes ht hspec.1 (htotal.trans hspec.2.symm)]
      exact ⟨rfl, rfl⟩
    · rw [addMinutes_throws hvalid (by rw [hminutes]; omega)]
      exact ⟨_, .addOver h m min_i (by omega), hrep⟩
  · have hunset : c.hour = none ∨ c.minute = none := by
      by_contra hset
      rw [not_or, ← ne_eq, ← ne_eq, Option.ne_none_iff_exists', Option.ne_none_iff_exists'] at hset
      obtain ⟨⟨h, hh⟩, m, hm⟩ := hset
      refine hvalid (hrep.valid_iff.mpr ⟨h, m, ?_⟩)
      rw [← hh, ← hm]
    have hget : (get : EStateM StdException NaiveTime NaiveTime).run s = .ok s s := rfl
    unfold addMinutes
    rw [run_bind_ok hget, run_bind_error (fcet_run_raises hvalid _ _ s)]
    refine ⟨c, ?_, hrep⟩
    rw [hclass]
    exact .addUnset min_i hunset

theorem calls_ok
    (call : Call)
    (h : call.method.run s = .ok () t) :
    Calls raising s (call, .ok ()) t := by
  rw [Calls, h]
  exact ⟨rfl, rfl⟩

theorem calls_error
    (call : Call) {e : StdException}
    (h : call.method.run s = .error e t) :
    Calls raising s (call, .error e.kind) t := by
  rw [Calls, h]
  exact ⟨rfl, rfl⟩

theorem calls_minute_refused
    (hclass : ∀ exc message, (Raising.raised exc message).kind = exc)
    {minute_i : UInt8}
    (h : ¬ minute_i ≤ 59) :
    Calls raising s (.minute minute_i, .error .invalidArgument) s := by
  have hrun : (setMinute minute_i).run s = _ := run_bind_error (fcet_run_raises h _ _ s) _
  rw [← hclass .invalidArgument]
  exact calls_error (.minute minute_i) hrun

/-- A call on an object is a step of its clock. -/
theorem calls_refined
    (hclass : ∀ exc message, (Raising.raised exc message).kind = exc)
    {l : Label}
    (hrep : Represents s c)
    (hstep : Calls raising s l t) :
    ∃ d, Clock.Step c l d ∧ Represents t d := by
  have hrefined : Refined c l.1 (l.1.method.run s) := by
    obtain ⟨call, outcome⟩ := l
    cases call with
    | hour hour_i => exact setHour_refined hclass hrep hour_i
    | minute minute_i => exact setMinute_refined hclass hrep minute_i
    | assign time_i => exact assign_refined hclass hrep time_i
    | add min_i => exact addMinutes_refined hclass hrep min_i
    | reset => exact ⟨Clock.unset, .reset c, represents_init⟩
  obtain ⟨call, outcome⟩ := l
  unfold Calls at hstep
  split at hstep
  · rename_i s' hrun
    obtain ⟨rfl, rfl⟩ := hstep
    rw [hrun] at hrefined
    exact hrefined
  · rename_i e s' hrun
    obtain ⟨rfl, rfl⟩ := hstep
    rw [hrun] at hrefined
    exact hrefined

/-- The getters answer like the clock. -/
structure Answers (raising : Raising) (s : NaiveTime) (c : Clock) : Prop where
  hour : ∀ h : Fin 24, c.hour = some h → s.hour = .ok (UInt8.ofNat h)
  no_hour : c.hour = none → ∃ what, s.hour = .error ⟨.logicError, what⟩
  minute : ∀ m : Fin 60, c.minute = some m → s.minute = .ok (UInt8.ofNat m)
  no_minute : c.minute = none → ∃ what, s.minute = .error ⟨.logicError, what⟩
  text : ∀ (h : Fin 24) (m : Fin 60), c = { hour := some h, minute := some m } →
    s.text = .ok (clockText h m)
  no_text : c.hour = none ∨ c.minute = none → ∃ what, s.text = .error ⟨.logicError, what⟩

theorem hour_run
    (h : s.hour_ ≤ 23) :
    s.hour = .ok s.hour_ := by
  rw [NaiveTime.hour, if_neg (not_not.mpr h)]
  rfl

theorem minute_run
    (h : s.min_ ≤ 59) :
    s.minute = .ok s.min_ := by
  rw [NaiveTime.minute, if_neg (not_not.mpr h)]
  rfl

theorem text_throws
    (hclass : ∀ exc message, (Raising.raised exc message).kind = exc)
    (h : ¬ s.valid_ = true) :
    ∃ what, s.text = .error ⟨.logicError, what⟩ := by
  rw [text, if_pos h]
  exact ⟨_, congrArg Except.error (congrArg (StdException.mk · _) (hclass _ _))⟩

theorem Represents.answers
    (hclass : ∀ exc message, (Raising.raised exc message).kind = exc)
    (hrep : Represents s c) :
    Answers raising s c where
  hour h hc := by
    rw [hour_run (hrep.hour_le_iff.mpr (by rw [hc]; rfl)), hrep.hour, hc]
    rfl
  no_hour hc := by
    have hlarge : ¬ s.hour_ ≤ 23 := by
      rw [hrep.hour_le_iff, hc]
      decide
    rw [NaiveTime.hour, if_pos hlarge]
    exact ⟨_, congrArg Except.error (congrArg (StdException.mk · _) (hclass _ _))⟩
  minute m hc := by
    rw [minute_run (hrep.minute_le_iff.mpr (by rw [hc]; rfl)), hrep.minute, hc]
    rfl
  no_minute hc := by
    have hlarge : ¬ s.min_ ≤ 59 := by
      rw [hrep.minute_le_iff, hc]
      decide
    rw [NaiveTime.minute, if_pos hlarge]
    exact ⟨_, congrArg Except.error (congrArg (StdException.mk · _) (hclass _ _))⟩
  text h m hc := by
    subst hc
    rw [text_run (hrep.valid_iff.mpr ⟨h, m, rfl⟩), hrep.hour, hrep.minute, Option.elim_some,
      Option.elim_some, UInt8.toNat_ofNat_of_lt' (Nat.lt_trans h.isLt (by decide)),
      UInt8.toNat_ofNat_of_lt' (Nat.lt_trans m.isLt (by decide))]
  no_text hc := by
    refine text_throws hclass fun hvalid => ?_
    obtain ⟨h, m, rfl⟩ := hrep.valid_iff.mp hvalid
    rcases hc with hc | hc <;> cases hc

/-- The calls of an object are steps of a clock, if every check throws what it declares. -/
theorem run_refined
    (hclass : ∀ exc message, (Raising.raised exc message).kind = exc)
    {labels : List Label}
    (hrun : Run (Calls raising) init labels s) :
    ∃ c, Run Clock.Step Clock.unset labels c ∧ Represents s c ∧ Answers raising s c := by
  obtain ⟨c, hclock, hrep⟩ := hrun.simulates Represents
    (fun hrep hstep => calls_refined hclass hrep hstep) represents_init
  exact ⟨c, hclock, hrep, hrep.answers hclass⟩

end Refinement

/-- **Behind any calls the object is a clock**, in a program whose logger is set up. -/
theorem clock_refined
    {config : List Logger.ConfigCall} {now : Now} {here : Site}
    {s : NaiveTime} {labels : List Label}
    (hsetUp : (Logger.configured config).SetUp here)
    (hrun : Run (Calls (.ofLogger (Logger.configured config) now here)) init labels s) :
    ∃ c, Run Clock.Step Clock.unset labels c ∧ Represents s c ∧
      Answers (.ofLogger (Logger.configured config) now here) s c :=
  @run_refined _ (.ofLogger (Logger.configured config) now here) (Logger.raised_kind hsetUp) _ hrun

/-- The logger that a call of `stderror` sets up. -/
abbrev loggedRaising : Raising :=
  .ofLogger (Logger.configured [.stderror 0]) Logger.checkNow lengthSite

theorem setUp_stderror :
    (Logger.configured [.stderror 0]).SetUp lengthSite :=
  ⟨by decide, Nat.zero_le _, .inr nofun⟩

/-- The hour stays when a minute is refused, and two minutes are added to 23:05. -/
theorem clock_refined_evening :
    ∃ c, Run Clock.Step Clock.unset
        [(.hour 23, .ok ()), (.minute 60, .error .invalidArgument), (.minute 5, .ok ()),
          (.add 2, .ok ()), (.add 53, .error .overflowError)] c ∧
      Represents ⟨23, 7⟩ c ∧ Answers loggedRaising ⟨23, 7⟩ c := by
  have hrefused :=
    @calls_minute_refused ⟨23, 0xFF⟩ loggedRaising (Logger.raised_kind setUp_stderror) 60
      (by decide)
  have hover := @addMinutes_throws ⟨23, 7⟩ loggedRaising 53 (by decide) (by decide)
  have hadd := @calls_error _ _ loggedRaising (.add 53) _ hover
  exact clock_refined setUp_stderror <|
    .cons (@calls_ok _ ⟨23, 0xFF⟩ loggedRaising (.hour 23) rfl) <| .cons hrefused <|
    .cons (@calls_ok _ ⟨23, 5⟩ loggedRaising (.minute 5) rfl) <|
    .cons (@calls_ok _ ⟨23, 7⟩ loggedRaising (.add 2) rfl) <| .single hadd

end NaiveTime
end Bren
end Brenlib
