import Mathlib.Data.Fintype.Card
import Mathlib.Data.Fintype.Pi
import Brenlib.Base.TransitionSystem
import Brenlib.Bren.StdLibrary

/-!
# `Semaphore`

The model follows `hdr/bren/Semaphore.hpp` and `src/Semaphore.cpp`.  The methods are
cut where another thread can take a step: at the test of `destructing_a` in front of
the mutex, where the mutex is taken or given back, and where `convar_a.wait` begins
or ends.  A thread that holds the mutex between two steps is in the phase `waiting`
(the loop test has sent it to sleep) or `passed` (it has left the loop).

`convar_a` is the set of threads in the phase `asleep`.  Sleeping begins and the
mutex is given back in one step, as a condition variable guarantees; `notify_one`
wakes any one of the sleepers, and a sleeper can wake up unasked.

* `advance`: one step of one thread.
* `step`: one step of a thread or of the destructor.
* `step_cases`: what one step can do.
-/

namespace Brenlib
namespace Bren

/-- The members that the methods test and change. -/
structure Semaphore where
  count_a : UInt16
  destructing_a : Bool
deriving DecidableEq, Repr

namespace Semaphore

/-- `Semaphore(count_i)`. -/
def init (count_i : UInt16) : Semaphore where
  count_a := count_i
  destructing_a := false

/-- The exception of a method that finds the semaphore being destroyed. -/
def destroyed (doing : String) : StdException :=
  ⟨.logicError, s!"Semaphore is being destroyed while {doing} counter"⟩

/-- `count()`. -/
def count (s : Semaphore) : Except StdException UInt16 :=
  if s.destructing_a then .error (destroyed "checking") else .ok s.count_a

/-- The loop test of `dec()`. -/
def mustWait (s : Semaphore) : Bool :=
  s.destructing_a == false && s.count_a == 0

/-- `dec()` behind its loop. -/
def finishDec (s : Semaphore) : Except StdException Semaphore :=
  if s.destructing_a then .error (destroyed "decreasing")
  else .ok { s with count_a := s.count_a - 1 }

theorem finishDec_alive
    {s : Semaphore} (h : s.destructing_a = false) :
    s.finishDec = .ok { s with count_a := s.count_a - 1 } := by
  simp [finishDec, h]

theorem finishDec_destroyed
    {s : Semaphore} (h : s.destructing_a = true) :
    s.finishDec = .error (destroyed "decreasing") := by
  simp [finishDec, h]

/-- `inc()` under the mutex, up to the notification. -/
def incCount (s : Semaphore) : Semaphore :=
  { s with count_a := s.count_a + 1 }

/-- `try_dec()` under the mutex. -/
def tryDecCount (s : Semaphore) : Bool × Semaphore :=
  if s.count_a = 0 then (false, s)
  else (true, { s with count_a := s.count_a - 1 })

/-- What a thread is doing. -/
inductive Phase where
  | idle
  | decreasing
  | waiting
  | asleep
  | woken (notified : Bool)
  | passed
  | increasing
  | trying
  | threw (e : StdException)
deriving DecidableEq, Repr

namespace Phase

/-- No method is being executed. -/
def isOutside : Phase → Bool
  | .idle => true
  | .threw _ => true
  | _ => false

/-- In `dec()`, about to take the mutex. -/
def wantsMutex : Phase → Bool
  | .decreasing => true
  | .woken _ => true
  | _ => false

/-- In `dec()`, with the mutex. -/
def holdsMutex : Phase → Bool
  | .waiting => true
  | .passed => true
  | _ => false

/-- Inside `dec()`. -/
def InDec (p : Phase) : Prop :=
  p.wantsMutex = true ∨ p.holdsMutex = true ∨ p = .asleep

/-- What `notify_all` does to a thread. -/
def notified : Phase → Phase
  | .asleep => .woken true
  | p => p

end Phase

/-- The methods that test `destructing_a` and then take the mutex. -/
inductive Method where
  | dec
  | inc
  | tryDec
deriving DecidableEq, Repr

namespace Method

/-- What the exception says about the method. -/
def doing : Method → String
  | .dec => "decreasing"
  | .inc => "increasing"
  | .tryDec => "decreasing"

/-- Behind the test, about to take the mutex. -/
def entered : Method → Phase
  | .dec => .decreasing
  | .inc => .increasing
  | .tryDec => .trying

end Method

/-- How far the body of the destructor has been executed. -/
inductive Destructor where
  | notCalled
  | flagged
  | done
deriving DecidableEq, Repr

/-- The semaphore, its mutex, the threads, and how many calls have been completed
(of `try_dec()`: those that returned true). -/
structure System (THREAD : Type) where
  sem : Semaphore
  mux_a : Bool
  destructor : Destructor
  phase : THREAD → Phase
  incs : Nat
  decs : Nat
  tryDecs : Nat

/-- A new semaphore. -/
def System.init {THREAD : Type} (count_i : UInt16) : System THREAD where
  sem := Semaphore.init count_i
  mux_a := false
  destructor := .notCalled
  phase := fun _ => .idle
  incs := 0
  decs := 0
  tryDecs := 0

/-- A step of a thread.  `inc` names the thread that `notify_one` wakes up. -/
inductive Action (THREAD : Type) where
  | call (m : Method)
  | test
  | sleep
  | wake
  | leave
  | inc (wakes : Option THREAD)
  | tryDec
deriving DecidableEq, Repr

/-- A step of a thread or of the destructor. -/
inductive Label (THREAD : Type) where
  | thread (i : THREAD) (a : Action THREAD)
  | setDestructing
  | notifyAll
deriving DecidableEq, Repr

section Steps

variable {THREAD : Type} [DecidableEq THREAD]

/-- The thread `i` goes to the phase `p`. -/
def System.goto (s : System THREAD) (i : THREAD) (p : Phase) : System THREAD :=
  { s with phase := Function.update s.phase i p }

@[simp] theorem goto_self
    (s : System THREAD) (i : THREAD) (p : Phase) :
    (s.goto i p).phase i = p := by
  simp [System.goto]

theorem goto_of_ne
    {i j : THREAD} (hj : j ≠ i)
    (s : System THREAD) (p : Phase) :
    (s.goto i p).phase j = s.phase j := by
  simp [System.goto, hj]

/-- The test of `destructing_a` at the start of a method. -/
def enter (s : System THREAD) (i : THREAD) (m : Method) : Option (System THREAD) :=
  if (s.phase i).isOutside then
    some (s.goto i
      (if s.sem.destructing_a then .threw (destroyed m.doing) else m.entered))
  else none

variable [Fintype THREAD]

/-- `convar_a.notify_one()`, which wakes the named thread. -/
def notifyOne (s : System THREAD) (wakes : Option THREAD) : Option (System THREAD) :=
  match wakes with
  | some j => if s.phase j = .asleep then some (s.goto j (.woken true)) else none
  | none => if ∃ j, s.phase j = .asleep then none else some s

/-- One step of a thread, if it can take it. -/
def advance (s : System THREAD) (i : THREAD) : Action THREAD → Option (System THREAD)
  | .call m => enter s i m
  | .test =>
      if (s.phase i).wantsMutex ∧ s.mux_a = false then
        some { s.goto i (if s.sem.mustWait then .waiting else .passed) with mux_a := true }
      else none
  | .sleep =>
      if s.phase i = .waiting then some { s.goto i .asleep with mux_a := false }
      else none
  | .wake =>
      if s.phase i = .asleep then some (s.goto i (.woken false)) else none
  | .leave =>
      if s.phase i = .passed then
        match s.sem.finishDec with
        | .error e => some { s.goto i (.threw e) with mux_a := false }
        | .ok sem =>
            some { s.goto i .idle with sem := sem, mux_a := false, decs := s.decs + 1 }
      else none
  | .inc wakes =>
      if s.phase i = .increasing ∧ s.mux_a = false then
        notifyOne { s.goto i .idle with sem := s.sem.incCount, incs := s.incs + 1 } wakes
      else none
  | .tryDec =>
      if s.phase i = .trying ∧ s.mux_a = false then
        some { s.goto i .idle with
          sem := s.sem.tryDecCount.2
          tryDecs := if s.sem.tryDecCount.1 then s.tryDecs + 1 else s.tryDecs }
      else none

/-- One step of the system, if it is possible. -/
def step (s : System THREAD) : Label THREAD → Option (System THREAD)
  | .thread i a => advance s i a
  | .setDestructing =>
      if s.destructor = .notCalled then
        some { s with
          sem := { s.sem with destructing_a := true }
          destructor := .flagged }
      else none
  | .notifyAll =>
      if s.destructor = .flagged then
        some { s with phase := fun i => (s.phase i).notified, destructor := .done }
      else none

/-- What one step can do. -/
inductive StepCases (s : System THREAD) : Label THREAD → System THREAD → Prop
  | entered
      (i : THREAD) (m : Method)
      (hout : (s.phase i).isOutside = true)
      (halive : s.sem.destructing_a = false) :
      StepCases s (.thread i (.call m)) (s.goto i m.entered)
  | turnedAway
      (i : THREAD) (m : Method)
      (hout : (s.phase i).isOutside = true)
      (hdead : s.sem.destructing_a = true) :
      StepCases s (.thread i (.call m)) (s.goto i (.threw (destroyed m.doing)))
  | tested
      (i : THREAD)
      (hwants : (s.phase i).wantsMutex = true)
      (hfree : s.mux_a = false) :
      StepCases s (.thread i .test)
        { s.goto i (if s.sem.mustWait then .waiting else .passed) with mux_a := true }
  | slept
      (i : THREAD)
      (hwaiting : s.phase i = .waiting) :
      StepCases s (.thread i .sleep) { s.goto i .asleep with mux_a := false }
  | woke
      (i : THREAD)
      (hasleep : s.phase i = .asleep) :
      StepCases s (.thread i .wake) (s.goto i (.woken false))
  | threw
      (i : THREAD)
      (hpassed : s.phase i = .passed)
      (hdead : s.sem.destructing_a = true) :
      StepCases s (.thread i .leave)
        { s.goto i (.threw (destroyed "decreasing")) with mux_a := false }
  | decreased
      (i : THREAD)
      (hpassed : s.phase i = .passed)
      (halive : s.sem.destructing_a = false) :
      StepCases s (.thread i .leave)
        { s.goto i .idle with
          sem := { s.sem with count_a := s.sem.count_a - 1 }
          mux_a := false
          decs := s.decs + 1 }
  | increased
      (i : THREAD)
      (hincreasing : s.phase i = .increasing)
      (hfree : s.mux_a = false)
      (hnone : ∀ j, s.phase j ≠ .asleep) :
      StepCases s (.thread i (.inc none))
        { s.goto i .idle with sem := s.sem.incCount, incs := s.incs + 1 }
  | increasedFor
      (i j : THREAD)
      (hincreasing : s.phase i = .increasing)
      (hfree : s.mux_a = false)
      (hasleep : s.phase j = .asleep) :
      StepCases s (.thread i (.inc (some j)))
        ({ s.goto i .idle with
            sem := s.sem.incCount, incs := s.incs + 1 }.goto j (.woken true))
  | tried
      (i : THREAD)
      (htrying : s.phase i = .trying)
      (hfree : s.mux_a = false) :
      StepCases s (.thread i .tryDec)
        { s.goto i .idle with
          sem := s.sem.tryDecCount.2
          tryDecs := if s.sem.tryDecCount.1 then s.tryDecs + 1 else s.tryDecs }
  | flagged
      (hcalled : s.destructor = .notCalled) :
      StepCases s .setDestructing
        { s with
          sem := { s.sem with destructing_a := true }
          destructor := .flagged }
  | notifiedAll
      (hflagged : s.destructor = .flagged) :
      StepCases s .notifyAll
        { s with phase := fun i => (s.phase i).notified, destructor := .done }

variable {s t : System THREAD} {i : THREAD}

/-- Behind the increment, `notify_one` wakes a sleeper if there is one. -/
theorem notifyOne_cases
    {wakes : Option THREAD}
    (hincreasing : s.phase i = .increasing)
    (hfree : s.mux_a = false)
    (h : notifyOne { s.goto i .idle with sem := s.sem.incCount, incs := s.incs + 1 }
      wakes = some t) :
    StepCases s (.thread i (.inc wakes)) t := by
  have hphase (j : THREAD) :
      (s.goto i .idle).phase j = .asleep ↔ s.phase j = .asleep := by
    by_cases hj : j = i
    · subst hj
      simp [System.goto, hincreasing]
    · simp [System.goto, hj]
  cases wakes with
  | none =>
      obtain ⟨hnone, h⟩ := Option.ite_none_left_eq_some.mp h
      obtain rfl := Option.some.inj h
      refine .increased i hincreasing hfree fun j hj => hnone ⟨j, ?_⟩
      exact (hphase j).mpr hj
  | some j =>
      obtain ⟨hasleep, h⟩ := Option.ite_none_right_eq_some.mp h
      obtain rfl := Option.some.inj h
      exact .increasedFor i j hincreasing hfree ((hphase j).mp hasleep)

theorem advance_cases
    {a : Action THREAD}
    (h : advance s i a = some t) :
    StepCases s (.thread i a) t := by
  cases a with
  | call m =>
      obtain ⟨hout, h⟩ := Option.ite_none_right_eq_some.mp h
      obtain rfl := Option.some.inj h
      cases hdead : s.sem.destructing_a with
      | true =>
          exact .turnedAway i m hout hdead
      | false =>
          exact .entered i m hout hdead
  | test =>
      obtain ⟨⟨hwants, hfree⟩, h⟩ := Option.ite_none_right_eq_some.mp h
      obtain rfl := Option.some.inj h
      exact .tested i hwants hfree
  | sleep =>
      obtain ⟨hwaiting, h⟩ := Option.ite_none_right_eq_some.mp h
      obtain rfl := Option.some.inj h
      exact .slept i hwaiting
  | wake =>
      obtain ⟨hasleep, h⟩ := Option.ite_none_right_eq_some.mp h
      obtain rfl := Option.some.inj h
      exact .woke i hasleep
  | leave =>
      obtain ⟨hpassed, h⟩ := Option.ite_none_right_eq_some.mp h
      cases hdead : s.sem.destructing_a with
      | true =>
          rw [finishDec_destroyed hdead] at h
          obtain rfl := Option.some.inj h
          exact .threw i hpassed hdead
      | false =>
          rw [finishDec_alive hdead] at h
          obtain rfl := Option.some.inj h
          exact .decreased i hpassed hdead
  | inc wakes =>
      obtain ⟨⟨hincreasing, hfree⟩, h⟩ := Option.ite_none_right_eq_some.mp h
      exact notifyOne_cases hincreasing hfree h
  | tryDec =>
      obtain ⟨⟨htrying, hfree⟩, h⟩ := Option.ite_none_right_eq_some.mp h
      obtain rfl := Option.some.inj h
      exact .tried i htrying hfree

theorem step_cases
    {l : Label THREAD}
    (h : step s l = some t) :
    StepCases s l t := by
  cases l with
  | thread i a =>
      exact advance_cases h
  | setDestructing =>
      obtain ⟨hcalled, h⟩ := Option.ite_none_right_eq_some.mp h
      obtain rfl := Option.some.inj h
      exact .flagged hcalled
  | notifyAll =>
      obtain ⟨hflagged, h⟩ := Option.ite_none_right_eq_some.mp h
      obtain rfl := Option.some.inj h
      exact .notifiedAll hflagged

end Steps

end Semaphore

end Bren
end Brenlib
