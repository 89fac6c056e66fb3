import Brenlib.Bren.Semaphore

/-!
# Destroying a semaphore that threads wait for

The destructor sets `destructing_a` and then calls `notify_all`, both without the
mutex.  A thread that has made its loop test before the first of these steps and goes
to sleep behind the second one is woken by nobody.

* `Mutex`: who holds the mutex, kept by every step.
* `Ended`: the state behind the destructor when it has missed nobody.
* `releases_iff`: the destructor releases every thread inside `dec()` exactly when no
  thread stands between its loop test and its sleep as `notify_all` is called.
-/

namespace Brenlib
namespace Bren
namespace Semaphore

open TransitionSystem

section Holder

variable {THREAD : Type}

/-- The mutex is held by the one thread whose phase says so. -/
structure Mutex (mux_a : Bool) (phase : THREAD → Phase) : Prop where
  held : mux_a = true → ∃ i, (phase i).holdsMutex = true
  holder : ∀ i, (phase i).holdsMutex = true → mux_a = true
  single : ∀ i j, (phase i).holdsMutex = true → (phase j).holdsMutex = true → i = j

theorem mutex_init :
    Mutex false (fun _ : THREAD => .idle) where
  held := fun h => by cases h
  holder := fun i h => by cases h
  single := fun i j h => by cases h

variable {mux_a : Bool} {phase : THREAD → Phase} {i : THREAD} {p : Phase}

/-- `notify_all` gives the mutex to nobody. -/
theorem Mutex.notified
    (h : Mutex mux_a phase) :
    Mutex mux_a fun i => (phase i).notified := by
  have hsame (i : THREAD) : (phase i).notified.holdsMutex = (phase i).holdsMutex := by
    cases phase i <;> rfl
  constructor
  · simpa only [hsame] using h.held
  · simpa only [hsame] using h.holder
  · simpa only [hsame] using h.single

variable [DecidableEq THREAD]

/-- A thread without the mutex changes its phase. -/
theorem Mutex.aside
    (h : Mutex mux_a phase)
    (hi : (phase i).holdsMutex = false)
    (hp : p.holdsMutex = false) :
    Mutex mux_a (Function.update phase i p) := by
  have hsame (j : THREAD) :
      (Function.update phase i p j).holdsMutex = (phase j).holdsMutex := by
    by_cases hj : j = i
    · subst hj
      rw [Function.update_self, hp, hi]
    · rw [Function.update_of_ne hj]
  constructor
  · simpa only [hsame] using h.held
  · simpa only [hsame] using h.holder
  · simpa only [hsame] using h.single

/-- A thread takes the mutex. -/
theorem Mutex.take
    (h : Mutex false phase)
    (hp : p.holdsMutex = true) :
    Mutex true (Function.update phase i p) := by
  have hothers (j : THREAD)
      (hj : (Function.update phase i p j).holdsMutex = true) :
      j = i := by
    by_contra hne
    rw [Function.update_of_ne hne] at hj
    cases h.holder j hj
  constructor
  · intro _
    exact ⟨i, by rwa [Function.update_self]⟩
  · intro _ _
    rfl
  · intro j k hj hk
    rw [hothers j hj, hothers k hk]

/-- The thread that holds the mutex gives it back. -/
theorem Mutex.give
    (h : Mutex mux_a phase)
    (hi : (phase i).holdsMutex = true)
    (hp : p.holdsMutex = false) :
    Mutex false (Function.update phase i p) := by
  have hnobody (j : THREAD) :
      (Function.update phase i p j).holdsMutex = false := by
    by_cases hj : j = i
    · subst hj
      rw [Function.update_self, hp]
    · rw [Function.update_of_ne hj]
      refine Bool.eq_false_iff.mpr fun hholds => hj ?_
      exact h.single j i hholds hi
  constructor
  · intro hfree
    cases hfree
  · intro j hj
    rw [hnobody j] at hj
    cases hj
  · intro j k hj
    rw [hnobody j] at hj
    cases hj

end Holder

section Steps

variable {THREAD : Type} [DecidableEq THREAD]
variable {s t : System THREAD} {l : Label THREAD} {i : THREAD}

theorem holdsMutex_of_isOutside
    {p : Phase}
    (hout : p.isOutside = true) :
    p.holdsMutex = false := by
  cases p <;> first | rfl | cases hout

/-- What holds in every state: who has the mutex, and that the destructor sets its
flag first. -/
structure Sound (s : System THREAD) : Prop where
  mutex : Mutex s.mux_a s.phase
  flag : s.destructor ≠ .notCalled → s.sem.destructing_a = true

omit [DecidableEq THREAD] in
theorem sound_init
    (count_i : UInt16) :
    Sound (System.init count_i : System THREAD) where
  mutex := mutex_init
  flag := fun h => absurd rfl h

theorem StepCases.mutex
    (hcases : StepCases s l t)
    (hmutex : Mutex s.mux_a s.phase) :
    Mutex t.mux_a t.phase := by
  cases hcases with
  | entered i m hout =>
      exact hmutex.aside (holdsMutex_of_isOutside hout) (by cases m <;> rfl)
  | turnedAway i m hout =>
      exact hmutex.aside (holdsMutex_of_isOutside hout) rfl
  | tested i hwants hfree =>
      rw [hfree] at hmutex
      exact hmutex.take (by split <;> rfl)
  | slept i hwaiting =>
      exact hmutex.give (by rw [hwaiting]; rfl) rfl
  | woke i hasleep =>
      exact hmutex.aside (by rw [hasleep]; rfl) rfl
  | threw i hpassed =>
      exact hmutex.give (by rw [hpassed]; rfl) rfl
  | decreased i hpassed =>
      exact hmutex.give (by rw [hpassed]; rfl) rfl
  | increased i hincreasing =>
      exact hmutex.aside (by rw [hincreasing]; rfl) rfl
  | increasedFor i j hincreasing hfree hasleep =>
      have hne : j ≠ i := by
        rintro rfl
        rw [hincreasing] at hasleep
        cases hasleep
      have hidle : Mutex s.mux_a (Function.update s.phase i .idle) :=
        hmutex.aside (by rw [hincreasing]; rfl) rfl
      refine hidle.aside ?_ rfl
      rw [Function.update_of_ne hne, hasleep]
      rfl
  | tried i htrying =>
      exact hmutex.aside (by rw [htrying]; rfl) rfl
  | flagged =>
      exact hmutex
  | notifiedAll =>
      exact hmutex.notified

/-- Nobody takes the flag back. -/
theorem StepCases.destructing
    (hcases : StepCases s l t)
    (hflag : s.sem.destructing_a = true) :
    t.sem.destructing_a = true := by
  cases hcases with
  | tried =>
      simp only [tryDecCount]
      split <;> exact hflag
  | flagged => rfl
  | entered => exact hflag
  | turnedAway => exact hflag
  | tested => exact hflag
  | slept => exact hflag
  | woke => exact hflag
  | threw => exact hflag
  | decreased => exact hflag
  | increased => exact hflag
  | increasedFor => exact hflag
  | notifiedAll => exact hflag

theorem StepCases.flag
    (hcases : StepCases s l t)
    (hflag : s.destructor ≠ .notCalled → s.sem.destructing_a = true) :
    t.destructor ≠ .notCalled → t.sem.destructing_a = true := by
  intro hcalled
  cases l with
  | thread i a =>
      refine hcases.destructing (hflag ?_)
      cases hcases <;> exact hcalled
  | setDestructing =>
      cases hcases
      rfl
  | notifyAll =>
      cases hcases with
      | notifiedAll hflagged => exact hflag (by simp [hflagged])

theorem StepCases.sound
    (hcases : StepCases s l t)
    (hsound : Sound s) :
    Sound t where
  mutex := hcases.mutex hsound.mutex
  flag := hcases.flag hsound.flag

end Steps

section AfterDestruction

variable {THREAD : Type}

/-- The destructor has run, and nobody is asleep or about to sleep. -/
structure Ended (s : System THREAD) : Prop where
  mutex : Mutex s.mux_a s.phase
  flag : s.sem.destructing_a = true
  notWaiting : ∀ i, s.phase i ≠ .waiting
  notAsleep : ∀ i, s.phase i ≠ .asleep

/-- In `dec()` and on the way to its exception, or behind it. -/
def Doomed (p : Phase) : Prop :=
  p.wantsMutex = true ∨ p = .passed ∨ ∃ e, p = .threw e ∧ e.kind = .logicError

/-- A thread leaves `dec()` with the exception: it has done so, or it is not asleep
and some further steps lead there. -/
def Leaves [DecidableEq THREAD] [Fintype THREAD] (s : System THREAD) (i : THREAD) :
    Prop :=
  (∃ e, s.phase i = .threw e ∧ e.kind = .logicError) ∨
  ((s.phase i).InDec ∧ s.phase i ≠ .asleep ∧
    ∃ more t, Run (Steps step) s more t ∧ t.phase i = .threw (destroyed "decreasing"))

/-- Every thread inside `dec()` leaves it, whatever happens next. -/
def Releases [DecidableEq THREAD] [Fintype THREAD] (s : System THREAD) : Prop :=
  ∀ later t, Run (Steps step) s later t → ∀ i, (s.phase i).InDec → Leaves t i

theorem doomed_threw
    (doing : String) :
    Doomed (.threw (destroyed doing)) :=
  .inr (.inr ⟨_, rfl, rfl⟩)

variable [DecidableEq THREAD]
variable {s t : System THREAD} {l : Label THREAD} {i j : THREAD} {p : Phase}

theorem doomed_goto
    (hdoomed : Doomed (s.phase j))
    (hp : Doomed (s.phase i) → Doomed p) :
    Doomed ((s.goto i p).phase j) := by
  by_cases hj : j = i
  · subst hj
    rw [goto_self]
    exact hp hdoomed
  · rwa [goto_of_ne hj]

omit [DecidableEq THREAD] in
/-- With the flag set the loop test lets every thread pass. -/
theorem Ended.mustWait
    (hended : Ended s) :
    s.sem.mustWait = false := by
  simp [Semaphore.mustWait, hended.flag]

theorem Ended.goto
    (hended : Ended s)
    (hwaiting : p ≠ .waiting)
    (hasleep : p ≠ .asleep) :
    ∀ j, (s.goto i p).phase j ≠ .waiting ∧ (s.goto i p).phase j ≠ .asleep := by
  intro j
  by_cases hj : j = i
  · subst hj
    rw [goto_self]
    exact ⟨hwaiting, hasleep⟩
  · rw [goto_of_ne hj]
    exact ⟨hended.notWaiting j, hended.notAsleep j⟩

/-- Nobody falls asleep any more. -/
theorem StepCases.awake
    (hcases : StepCases s l t)
    (hended : Ended s) :
    ∀ j, t.phase j ≠ .waiting ∧ t.phase j ≠ .asleep := by
  cases hcases with
  | entered i m hout halive =>
      rw [hended.flag] at halive
      cases halive
  | turnedAway i m => exact hended.goto (by simp) (by simp)
  | tested i =>
      rw [hended.mustWait, if_neg Bool.false_ne_true]
      exact hended.goto (by simp) (by simp)
  | slept i hwaiting => exact absurd hwaiting (hended.notWaiting i)
  | woke i hasleep => exact absurd hasleep (hended.notAsleep i)
  | threw i => exact hended.goto (by simp) (by simp)
  | decreased i hpassed halive =>
      rw [hended.flag] at halive
      cases halive
  | increased i => exact hended.goto (by simp) (by simp)
  | increasedFor i j hincreasing hfree hasleep =>
      exact absurd hasleep (hended.notAsleep j)
  | tried i => exact hended.goto (by simp) (by simp)
  | flagged => exact fun j => ⟨hended.notWaiting j, hended.notAsleep j⟩
  | notifiedAll =>
      intro j
      have hwaiting := hended.notWaiting j
      have hasleep := hended.notAsleep j
      cases hj : s.phase j <;> simp_all [Phase.notified]

theorem StepCases.ended
    (hcases : StepCases s l t)
    (hended : Ended s) :
    Ended t where
  mutex := hcases.mutex hended.mutex
  flag := hcases.destructing hended.flag
  notWaiting := fun j => (hcases.awake hended j).1
  notAsleep := fun j => (hcases.awake hended j).2

/-- A doomed thread stays doomed. -/
theorem StepCases.doomed
    (hcases : StepCases s l t)
    (hended : Ended s)
    (hdoomed : Doomed (s.phase j)) :
    Doomed (t.phase j) := by
  cases hcases with
  | entered i m hout halive =>
      rw [hended.flag] at halive
      cases halive
  | turnedAway i m => exact doomed_goto hdoomed fun _ => doomed_threw m.doing
  | tested i =>
      rw [hended.mustWait, if_neg Bool.false_ne_true]
      exact doomed_goto hdoomed fun _ => .inr (.inl rfl)
  | slept i hwaiting => exact absurd hwaiting (hended.notWaiting i)
  | woke i hasleep => exact absurd hasleep (hended.notAsleep i)
  | threw i => exact doomed_goto hdoomed fun _ => doomed_threw "decreasing"
  | decreased i hpassed halive =>
      rw [hended.flag] at halive
      cases halive
  | increased i hincreasing =>
      refine doomed_goto hdoomed fun h => ?_
      rw [hincreasing] at h
      simp [Doomed, Phase.wantsMutex] at h
  | increasedFor i k hincreasing hfree hasleep =>
      exact absurd hasleep (hended.notAsleep k)
  | tried i htrying =>
      refine doomed_goto hdoomed fun h => ?_
      rw [htrying] at h
      simp [Doomed, Phase.wantsMutex] at h
  | flagged => exact hdoomed
  | notifiedAll =>
      have hasleep := hended.notAsleep j
      have hsame : (s.phase j).notified = s.phase j := by
        cases hj : s.phase j <;> simp_all [Phase.notified]
      show Doomed (s.phase j).notified
      rwa [hsame]

variable [Fintype THREAD]

theorem Ended.step
    (hended : Ended s)
    (hstep : Steps Semaphore.step s l t) :
    Ended t :=
  (step_cases hstep).ended hended

/-- A thread that has left the loop throws in its next step. -/
theorem Ended.leave
    (hended : Ended s)
    (hpassed : s.phase i = .passed) :
    ∃ t, Steps Semaphore.step s (.thread i .leave) t ∧
      t.mux_a = false ∧ t.phase i = .threw (destroyed "decreasing") ∧
      ∀ j, j ≠ i → t.phase j = s.phase j := by
  refine ⟨{ s.goto i (.threw (destroyed "decreasing")) with mux_a := false },
    ?_, rfl, goto_self s i _, fun j hj => goto_of_ne hj s _⟩
  simp [Steps, Semaphore.step, advance, hpassed, finishDec_destroyed hended.flag]

/-- The thread that holds the mutex can always give it back. -/
theorem Ended.free
    (hended : Ended s) :
    ∃ more t, Run (Steps Semaphore.step) s more t ∧ Ended t ∧ t.mux_a = false ∧
      ∀ j, (s.phase j).wantsMutex = true → t.phase j = s.phase j := by
  cases hmux : s.mux_a with
  | false =>
      exact ⟨[], s, .nil s, hended, hmux, fun _ _ => rfl⟩
  | true =>
      obtain ⟨k, hk⟩ := hended.mutex.held hmux
      have hpassed : s.phase k = .passed := by
        have hwaiting := hended.notWaiting k
        cases hphase : s.phase k <;> simp_all [Phase.holdsMutex]
      obtain ⟨t, hstep, hfree, -, hothers⟩ := hended.leave hpassed
      refine ⟨_, t, .single hstep, hended.step hstep, hfree, ?_⟩
      intro j hwants
      refine hothers j ?_
      rintro rfl
      rw [hpassed] at hwants
      cases hwants

/-- A thread that wants the mutex can take it and then throws. -/
theorem Ended.throws
    (hended : Ended s)
    (hwants : (s.phase i).wantsMutex = true) :
    ∃ more t, Run (Steps Semaphore.step) s more t ∧
      t.phase i = .threw (destroyed "decreasing") := by
  obtain ⟨more, u, hrun, hended', hfree, hsame⟩ := hended.free
  have htest :
      Steps Semaphore.step u (.thread i .test) { u.goto i .passed with mux_a := true } := by
    have hwants' : (u.phase i).wantsMutex = true := by rwa [hsame i hwants]
    simp [Steps, Semaphore.step, advance, hwants', hfree, hended'.mustWait]
  obtain ⟨t, hleave, -, hthrew, -⟩ :=
    (hended'.step htest).leave (i := i) (goto_self u i .passed)
  exact ⟨_, t, (hrun.snoc htest).snoc hleave, hthrew⟩

theorem Ended.leaves
    (hended : Ended s)
    (hdoomed : Doomed (s.phase i)) :
    Leaves s i := by
  rcases hdoomed with hwants | hpassed | hthrew
  · right
    exact ⟨.inl hwants, hended.notAsleep i, hended.throws hwants⟩
  · right
    obtain ⟨t, hstep, -, hthrew, -⟩ := hended.leave hpassed
    refine ⟨.inr (.inl ?_), hended.notAsleep i, _, t, .single hstep, hthrew⟩
    rw [hpassed]
    rfl
  · left
    exact hthrew

/-- The destructor that finds no thread about to sleep dooms everybody in `dec()`. -/
theorem ended_of_notifyAll
    (hsound : Sound s)
    (hstep : Steps Semaphore.step s .notifyAll t)
    (hnobody : ∀ i, s.phase i ≠ .waiting) :
    Ended t ∧ ∀ i, (t.phase i).InDec → Doomed (t.phase i) := by
  cases step_cases hstep with
  | notifiedAll hflagged =>
      constructor
      · constructor
        · exact hsound.mutex.notified
        · exact hsound.flag (by simp [hflagged])
        · intro i
          have hwaiting := hnobody i
          cases hphase : s.phase i <;> simp_all [Phase.notified]
        · intro i
          cases hphase : s.phase i <;> simp [Phase.notified, hphase]
      · intro i hdec
        have hwaiting := hnobody i
        simp only at hdec ⊢
        cases hphase : s.phase i <;>
          simp_all [Phase.notified, Phase.InDec, Doomed, Phase.wantsMutex,
            Phase.holdsMutex]

/-- **The destructor releases every waiter** exactly when no thread stands between its
loop test and its sleep as `notify_all` is called. -/
theorem releases_iff
    (count_i : UInt16)
    {labels : List (Label THREAD)} {s t : System THREAD}
    (hrun : Run (Steps Semaphore.step) (System.init count_i) labels s)
    (hstep : Steps Semaphore.step s .notifyAll t) :
    Releases t ↔ ∀ i, s.phase i ≠ .waiting := by
  have hsound := hrun.invariant Sound
    (fun hsound hstep => (step_cases hstep).sound hsound) (sound_init count_i)
  constructor
  · intro hreleases i hwaiting
    have hwaiting' : t.phase i = .waiting := by
      cases step_cases hstep with
      | notifiedAll =>
          show (s.phase i).notified = .waiting
          rw [hwaiting]
          rfl
    have hdec : (t.phase i).InDec := by
      rw [hwaiting']
      exact .inr (.inl rfl)
    have hsleep :
        Steps Semaphore.step t (.thread i .sleep)
          { t.goto i .asleep with mux_a := false } := by
      simp [Steps, Semaphore.step, advance, hwaiting']
    have hasleep := goto_self t i .asleep
    rcases hreleases _ _ (.single hsleep) i hdec with ⟨e, hthrew, -⟩ | ⟨-, hawake, -⟩
    · exact absurd (hasleep.symm.trans hthrew) (by simp)
    · exact hawake hasleep
  · intro hnobody later u hlater i hdec
    obtain ⟨hended, hdoomed⟩ := ended_of_notifyAll hsound hstep hnobody
    have hafter := hlater.invariant
      (fun u => Ended u ∧ Doomed (u.phase i)) ?_ ⟨hended, hdoomed i hdec⟩
    · exact hafter.1.leaves hafter.2
    · rintro u l v ⟨hended, hdoomed⟩ hstep
      have hcases := step_cases hstep
      exact ⟨hcases.ended hended, hcases.doomed hended hdoomed⟩

/-- A waiter that is asleep when it is destroyed. -/
def sleeperSteps : List (Label (Fin 1)) :=
  [.thread 0 (.call .dec), .thread 0 .test, .thread 0 .sleep, .setDestructing]

theorem releases_iff_sleeper :
    ∃ s t : System (Fin 1),
      Run (Steps Semaphore.step) (System.init 0) sleeperSteps s ∧
      Steps Semaphore.step s .notifyAll t ∧ Releases t := by
  have hrun :
      Run (Steps Semaphore.step) (System.init 0 : System (Fin 1)) sleeperSteps _ :=
    run_of_exec rfl
  refine ⟨_, _, hrun, rfl, (releases_iff 0 hrun rfl).mpr ?_⟩
  intro i
  fin_cases i
  decide

/-- A waiter that has made its loop test before the destructor and goes to sleep
behind it. -/
theorem destructor_misses_waiter :
    ∃ s t u : System (Fin 1),
      Run (Steps Semaphore.step) (System.init 0)
        [.thread 0 (.call .dec), .thread 0 .test, .setDestructing] s ∧
      Steps Semaphore.step s .notifyAll t ∧ (t.phase 0).InDec ∧
      Steps Semaphore.step t (.thread 0 .sleep) u ∧ u.phase 0 = .asleep ∧
      ¬ Releases t := by
  have hrun :
      Run (Steps Semaphore.step) (System.init 0 : System (Fin 1))
        [.thread 0 (.call .dec), .thread 0 .test, .setDestructing] _ :=
    run_of_exec rfl
  refine ⟨_, _, _, hrun, rfl, .inr (.inl rfl), rfl, rfl, ?_⟩
  intro hreleases
  rcases hreleases [.thread 0 .sleep] _ (.single rfl) 0 (.inr (.inl rfl)) with
    ⟨e, hthrew, -⟩ | ⟨-, hawake, -⟩
  · cases hthrew
  · exact hawake rfl

end AfterDestruction

end Semaphore
end Bren
end Brenlib
