import Brenlib.Base.Population
import Brenlib.Bren.Semaphore

/-!
# A semaphore that is not being destroyed

Without a destructor at work the mutex makes every section one step: a thread in
`dec()` takes the mutex, tests the counter, and either goes to sleep or decreases the
counter and returns.

* `sectionStep`: one section, put together from the steps of its thread.
* `SectionCases`: what one section can do.
* `conserves_iff_below_max`: the counter is what the completed calls make it exactly
  when it has never been increased at its maximum.
* `granted_and_woken`: no more is granted than was put in, and no sleeper is left
  alone with a positive counter.
-/

namespace Brenlib
namespace Bren
namespace Semaphore

open TransitionSystem
open Population

/-- A section of a thread, or a wake-up that nobody asked for. -/
inductive Section (THREAD : Type) where
  | call (i : THREAD) (m : Method)
  | dec (i : THREAD)
  | wake (i : THREAD)
  | inc (i : THREAD) (wakes : Option THREAD)
  | tryDec (i : THREAD)
deriving DecidableEq, Repr

section Sections

variable {THREAD : Type} [DecidableEq THREAD] [Fintype THREAD]

/-- One section as one step.  The section of `dec()` is its loop test and what follows
from it. -/
def sectionStep (s : System THREAD) : Section THREAD → Option (System THREAD)
  | .call i m => step s (.thread i (.call m))
  | .dec i =>
      (step s (.thread i .test)).bind fun t =>
        step t (.thread i (if t.phase i = .waiting then .sleep else .leave))
  | .wake i => step s (.thread i .wake)
  | .inc i wakes => step s (.thread i (.inc wakes))
  | .tryDec i => step s (.thread i .tryDec)

variable {s t : System THREAD} {l : Section THREAD} {i : THREAD}

/-- A section is a run of its thread. -/
theorem sectionStep_run
    (h : sectionStep s l = some t) :
    ∃ labels, Run (Steps step) s labels t := by
  cases l with
  | call i m =>
      exact ⟨[.thread i (.call m)], .single h⟩
  | dec i =>
      obtain ⟨u, htest, hrest⟩ := Option.bind_eq_some_iff.mp h
      exact ⟨_, .cons htest (.single hrest)⟩
  | wake i =>
      exact ⟨[.thread i .wake], .single h⟩
  | inc i wakes =>
      exact ⟨[.thread i (.inc wakes)], .single h⟩
  | tryDec i =>
      exact ⟨[.thread i .tryDec], .single h⟩

/-- What one section can do. -/
inductive SectionCases (s : System THREAD) : Section THREAD → System THREAD → Prop
  | called
      (i : THREAD) (m : Method)
      (hout : (s.phase i).isOutside = true) :
      SectionCases s (.call i m) (s.goto i m.entered)
  | slept
      (i : THREAD)
      (hwants : (s.phase i).wantsMutex = true)
      (hzero : s.sem.count_a = 0) :
      SectionCases s (.dec i) { s.goto i .asleep with mux_a := false }
  | decreased
      (i : THREAD)
      (hwants : (s.phase i).wantsMutex = true)
      (hpos : s.sem.count_a ≠ 0) :
      SectionCases s (.dec i)
        { s.goto i .idle with
          sem := { s.sem with count_a := s.sem.count_a - 1 }
          mux_a := false
          decs := s.decs + 1 }
  | woke
      (i : THREAD)
      (hasleep : s.phase i = .asleep) :
      SectionCases s (.wake i) (s.goto i (.woken false))
  | increased
      (i : THREAD)
      (hincreasing : s.phase i = .increasing)
      (hnone : ∀ j, s.phase j ≠ .asleep) :
      SectionCases s (.inc i none)
        { s.goto i .idle with sem := s.sem.incCount, incs := s.incs + 1 }
  | increasedFor
      (i j : THREAD)
      (hincreasing : s.phase i = .increasing)
      (hasleep : s.phase j = .asleep) :
      SectionCases s (.inc i (some j))
        ({ s.goto i .idle with
            sem := s.sem.incCount, incs := s.incs + 1 }.goto j (.woken true))
  | refused
      (i : THREAD)
      (htrying : s.phase i = .trying)
      (hzero : s.sem.count_a = 0) :
      SectionCases s (.tryDec i) (s.goto i .idle)
  | granted
      (i : THREAD)
      (htrying : s.phase i = .trying)
      (hpos : s.sem.count_a ≠ 0) :
      SectionCases s (.tryDec i)
        { s.goto i .idle with
          sem := { s.sem with count_a := s.sem.count_a - 1 }
          tryDecs := s.tryDecs + 1 }

/-- The section of `dec()`. -/
theorem dec_cases
    (halive : s.sem.destructing_a = false)
    (h : sectionStep s (.dec i) = some t) :
    SectionCases s (.dec i) t := by
  obtain ⟨u, htest, hrest⟩ := Option.bind_eq_some_iff.mp h
  cases step_cases htest with
  | tested _ hwants hfree =>
      by_cases hzero : s.sem.count_a = 0
      · have hwait : s.sem.mustWait = true := by
          simp [mustWait, halive, hzero]
        simp only [hwait, if_true, System.goto, Function.update_self] at hrest
        obtain ⟨-, hrest⟩ := Option.ite_none_right_eq_some.mp hrest
        obtain rfl := Option.some.inj hrest
        simp only [System.goto, Function.update_idem]
        exact .slept i hwants hzero
      · have hwait : s.sem.mustWait = false := by
          simp [mustWait, hzero]
        simp only [hwait, Bool.false_eq_true, if_false, System.goto,
          Function.update_self, reduceCtorEq] at hrest
        obtain ⟨-, hrest⟩ := Option.ite_none_right_eq_some.mp hrest
        simp only [finishDec_alive halive] at hrest
        obtain rfl := Option.some.inj hrest
        simp only [System.goto, Function.update_idem]
        exact .decreased i hwants hzero

theorem section_cases
    (halive : s.sem.destructing_a = false)
    (h : sectionStep s l = some t) :
    SectionCases s l t := by
  cases l with
  | call i m =>
      cases advance_cases (a := .call m) h with
      | entered _ _ hout => exact .called i m hout
      | turnedAway _ _ _ hdead =>
          rw [halive] at hdead
          cases hdead
  | dec i =>
      exact dec_cases halive h
  | wake i =>
      cases advance_cases (a := .wake) h with
      | woke _ hasleep => exact .woke i hasleep
  | inc i wakes =>
      cases advance_cases (a := .inc wakes) h with
      | increased _ hincreasing _ hnone => exact .increased i hincreasing hnone
      | increasedFor _ j hincreasing _ hasleep =>
          exact .increasedFor i j hincreasing hasleep
  | tryDec i =>
      cases advance_cases (a := .tryDec) h with
      | tried _ htrying =>
          by_cases hzero : s.sem.count_a = 0
          · simp only [tryDecCount, hzero, if_true]
            exact .refused i htrying hzero
          · simp only [tryDecCount, hzero, if_false]
            exact .granted i htrying hzero

omit [Fintype THREAD] in
/-- Nobody sets `destructing_a` in a section. -/
theorem SectionCases.alive
    (hcases : SectionCases s l t) :
    t.sem.destructing_a = s.sem.destructing_a := by
  cases hcases <;> rfl

end Sections

section Counting

variable {THREAD : Type}

/-- The calls that have decreased the counter. -/
def System.grants (s : System THREAD) : Nat :=
  s.decs + s.tryDecs

/-- `count()` returns what the completed calls have left of the initial count. -/
def Conserves (count_i : UInt16) (s : System THREAD) : Prop :=
  ∃ n, s.sem.count = .ok n ∧ n.toNat + s.grants = count_i.toNat + s.incs

/-- `inc()` does not find the counter at its maximum. -/
def BelowMax (s : System THREAD) (l : Section THREAD) (_ : System THREAD) : Prop :=
  match l with
  | .inc _ _ => s.sem.count_a ≠ 65535
  | _ => True

theorem toNat_pred
    {n : UInt16} (h : n ≠ 0) :
    (n - 1).toNat + 1 = n.toNat := by
  have hpos : n.toNat ≠ 0 := fun hn => h (UInt16.toNat_inj.mp hn)
  have hle : (1 : UInt16) ≤ n := by
    rw [UInt16.le_iff_toNat_le]
    exact Nat.one_le_iff_ne_zero.mpr hpos
  rw [UInt16.toNat_sub_of_le _ _ hle]
  exact Nat.succ_pred_eq_of_ne_zero hpos

theorem toNat_succ
    {n : UInt16} (h : n ≠ 65535) :
    (n + 1).toNat = n.toNat + 1 := by
  have hne : n.toNat ≠ 65535 := fun hn => h (UInt16.toNat_inj.mp hn)
  have hlt := n.toNat_lt
  rw [UInt16.toNat_add]
  exact Nat.mod_eq_of_lt (by
    show n.toNat + 1 < 65536
    omega)

/-- The counter starts again at zero behind its maximum. -/
theorem toNat_succ_le
    (n : UInt16) :
    (n + 1).toNat ≤ n.toNat + 1 := by
  rw [UInt16.toNat_add]
  exact Nat.mod_le _ _

variable {s t : System THREAD} {l : Section THREAD}

/-- An increment counts one more call and a counter higher by one, unless it starts
again at zero. -/
theorem balance_inc
    {i : THREAD} {wakes : Option THREAD}
    (hcount : t.sem.count_a = s.sem.count_a + 1)
    (hgrants : t.grants = s.grants)
    (hincs : t.incs = s.incs + 1) :
    (BelowMax s (.inc i wakes) t ∧
      t.sem.count_a.toNat + t.grants + s.incs =
        s.sem.count_a.toNat + s.grants + t.incs) ∨
    (¬ BelowMax s (.inc i wakes) t ∧
      t.sem.count_a.toNat + t.grants + s.incs + 65536 =
        s.sem.count_a.toNat + s.grants + t.incs) := by
  by_cases hmax : s.sem.count_a = 65535
  · right
    refine ⟨fun hbelow => hbelow hmax, ?_⟩
    rw [hcount, hgrants, hincs, hmax]
    show 0 + s.grants + s.incs + 65536 = 65535 + s.grants + (s.incs + 1)
    omega
  · left
    refine ⟨hmax, ?_⟩
    rw [hcount, hgrants, hincs, toNat_succ hmax]
    omega

/-- A section keeps the balance of the counter and the completed calls; at the
maximum an increment takes `2 ^ 16` out of it. -/
theorem SectionCases.balance
    [DecidableEq THREAD]
    (hcases : SectionCases s l t) :
    (BelowMax s l t ∧
      t.sem.count_a.toNat + t.grants + s.incs =
        s.sem.count_a.toNat + s.grants + t.incs) ∨
    (¬ BelowMax s l t ∧
      t.sem.count_a.toNat + t.grants + s.incs + 65536 =
        s.sem.count_a.toNat + s.grants + t.incs) := by
  cases hcases with
  | called i m hout =>
      exact .inl ⟨trivial, rfl⟩
  | slept i hwants hzero =>
      exact .inl ⟨trivial, rfl⟩
  | decreased i hwants hpos =>
      left
      refine ⟨trivial, ?_⟩
      have hpred := toNat_pred hpos
      simp only [System.grants, System.goto]
      omega
  | woke i hasleep =>
      exact .inl ⟨trivial, rfl⟩
  | increased i hincreasing hnone =>
      exact balance_inc rfl rfl rfl
  | increasedFor i j hincreasing hasleep =>
      exact balance_inc rfl rfl rfl
  | refused i htrying hzero =>
      exact .inl ⟨trivial, rfl⟩
  | granted i htrying hpos =>
      left
      refine ⟨trivial, ?_⟩
      have hpred := toNat_pred hpos
      simp only [System.grants, System.goto]
      omega

theorem conserves_iff
    {count_i : UInt16}
    (halive : s.sem.destructing_a = false) :
    Conserves count_i s ↔
      s.sem.count_a.toNat + s.grants = count_i.toNat + s.incs := by
  simp [Conserves, count, halive]

/-- What holds behind every run of sections. -/
structure Bounded (count_i : UInt16) (s : System THREAD) : Prop where
  alive : s.sem.destructing_a = false
  bound : s.sem.count_a.toNat + s.grants ≤ count_i.toNat + s.incs

variable {count_i : UInt16}

theorem bounded_init :
    Bounded count_i (System.init count_i : System THREAD) where
  alive := rfl
  bound := le_rfl

variable [DecidableEq THREAD] [Fintype THREAD]

theorem Bounded.step
    (hbounded : Bounded count_i s)
    (hstep : Steps sectionStep s l t) :
    Bounded count_i t := by
  have hcases := section_cases hbounded.alive hstep
  have hbound := hbounded.bound
  refine ⟨hcases.alive.trans hbounded.alive, ?_⟩
  rcases hcases.balance with ⟨-, hbalance⟩ | ⟨-, hbalance⟩ <;> omega

/-- The balance is right behind a section exactly when it was right before it and the
section was not an increment at the maximum. -/
theorem conserves_step_iff
    (hbounded : Bounded count_i s)
    (hstep : Steps sectionStep s l t) :
    Conserves count_i t ↔ Conserves count_i s ∧ BelowMax s l t := by
  have hcases := section_cases hbounded.alive hstep
  have hbound := hbounded.bound
  rw [conserves_iff (hcases.alive.trans hbounded.alive),
    conserves_iff hbounded.alive]
  rcases hcases.balance with ⟨hbelow, hbalance⟩ | ⟨hmax, hbalance⟩
  · simp only [hbelow, and_true]
    omega
  · simp only [hmax, and_false, iff_false]
    omega

/-- **The count is conserved** behind a run exactly when no `inc()` of the run has
found the counter at its maximum. -/
theorem conserves_iff_below_max
    (count_i : UInt16)
    {labels : List (Section THREAD)} {s : System THREAD}
    (hrun : Run (Steps sectionStep) (System.init count_i) labels s) :
    Conserves count_i s ↔
      Run (Guarded BelowMax (Steps sectionStep)) (System.init count_i) labels s := by
  refine hrun.iff_guarded (Steps.deterministic _) (Bounded count_i) (Conserves count_i)
    Bounded.step
    conserves_step_iff bounded_init ?_
  exact (conserves_iff rfl).mpr rfl

/-- One `dec()` and one `inc()` of a semaphore with one permit. -/
theorem conserves_iff_below_max_example :
    ∃ s : System (Fin 2),
      Run (Steps sectionStep) (System.init 1)
        [.call 0 .dec, .dec 0, .call 1 .inc, .inc 1 none] s ∧
      (Conserves 1 s ↔
        Run (Guarded BelowMax (Steps sectionStep)) (System.init 1)
          [.call 0 .dec, .dec 0, .call 1 .inc, .inc 1 none] s) := by
  have hrun :
      Run (Steps sectionStep) (System.init 1 : System (Fin 2))
        [.call 0 .dec, .dec 0, .call 1 .inc, .inc 1 none] _ :=
    run_of_exec rfl
  exact ⟨_, hrun, conserves_iff_below_max 1 hrun⟩

/-- An `inc()` at the maximum leaves a semaphore without a permit. -/
theorem increment_loses_count :
    ∃ s : System (Fin 1),
      Run (Steps sectionStep) (System.init 65535) [.call 0 .inc, .inc 0 none] s ∧
      s.sem.count = .ok 0 ∧ s.incs = 1 ∧ s.decs = 0 ∧ s.tryDecs = 0 ∧
      ¬ Conserves 65535 s := by
  have hrun :
      Run (Steps sectionStep) (System.init 65535 : System (Fin 1))
        [.call 0 .inc, .inc 0 none] _ :=
    run_of_exec rfl
  refine ⟨_, hrun, rfl, rfl, rfl, rfl, ?_⟩
  rintro ⟨n, hcount, hbalance⟩
  cases hcount
  exact absurd hbalance (by decide)

end Counting

section Wakeups

variable {THREAD : Type} [DecidableEq THREAD] [Fintype THREAD]
variable {s t : System THREAD} {l : Section THREAD} {i j : THREAD} {p : Phase}

/-- The threads that `notify_one` has woken and that have not taken the mutex yet. -/
def System.notifiedCount (s : System THREAD) : Nat :=
  population s.phase (.woken true)

/-- A positive counter has a thread on its way for every sleeper that could take it. -/
def NoLostWakeup (s : System THREAD) : Prop :=
  (∃ i, s.phase i = .asleep) → s.sem.count_a.toNat ≤ s.notifiedCount

omit [Fintype THREAD] in
theorem asleep_of_goto
    (hp : p ≠ .asleep)
    (h : (s.goto i p).phase j = .asleep) :
    s.phase j = .asleep := by
  by_cases hj : j = i
  · subst hj
    rw [goto_self] at h
    exact absurd h hp
  · rwa [goto_of_ne hj] at h

/-- The notified threads when one thread changes its phase. -/
theorem notifiedCount_goto
    (s : System THREAD) (i : THREAD) (p : Phase) :
    (s.goto i p).notifiedCount + (if s.phase i = .woken true then 1 else 0) =
      s.notifiedCount + (if p = .woken true then 1 else 0) :=
  population_update s.phase i p (.woken true)

/-- A thread that neither was notified nor is notified now. -/
theorem notifiedCount_goto_of_ne
    (hbefore : s.phase i ≠ .woken true)
    (hp : p ≠ .woken true) :
    (s.goto i p).notifiedCount = s.notifiedCount := by
  have hgoto := notifiedCount_goto s i p
  rwa [if_neg hbefore, if_neg hp] at hgoto

omit [DecidableEq THREAD] [Fintype THREAD] in
theorem ne_woken_of_isOutside
    (hout : (s.phase i).isOutside = true) :
    s.phase i ≠ .woken true := by
  intro h
  rw [h] at hout
  cases hout

theorem SectionCases.noLostWakeup
    (hcases : SectionCases s l t)
    (hkept : NoLostWakeup s) :
    NoLostWakeup t := by
  rintro ⟨k, hk⟩
  cases hcases with
  | called i m hout =>
      have hasleep := asleep_of_goto (by cases m <;> simp [Method.entered]) hk
      have hcount := notifiedCount_goto_of_ne (p := m.entered)
        (ne_woken_of_isOutside hout) (by cases m <;> simp [Method.entered])
      exact (hkept ⟨k, hasleep⟩).trans hcount.ge
  | slept i hwants hzero =>
      show s.sem.count_a.toNat ≤ _
      rw [hzero]
      exact Nat.zero_le _
  | decreased i hwants hpos =>
      have hasleep : s.phase k = .asleep :=
        asleep_of_goto (p := .idle) (by simp) hk
      have hcount := notifiedCount_goto s i .idle
      have hbound := hkept ⟨k, hasleep⟩
      have hpred := toNat_pred hpos
      show (s.sem.count_a - 1).toNat ≤ (s.goto i .idle).notifiedCount
      split at hcount <;> simp at hcount <;> omega
  | woke i hasleep =>
      have hcount := notifiedCount_goto_of_ne (s := s) (i := i) (p := .woken false)
        (by simp [hasleep]) (by simp)
      have hk' := asleep_of_goto (by simp) hk
      exact (hkept ⟨k, hk'⟩).trans hcount.ge
  | increased i hincreasing hnone =>
      have hasleep : s.phase k = .asleep :=
        asleep_of_goto (p := .idle) (by simp) hk
      exact absurd hasleep (hnone k)
  | increasedFor i j hincreasing hasleep =>
      have hk' := asleep_of_goto (by simp) hk
      have hk'' : s.phase k = .asleep :=
        asleep_of_goto (p := .idle) (by simp) hk'
      have hne : j ≠ i := by
        rintro rfl
        rw [hincreasing] at hasleep
        cases hasleep
      have hcount := notifiedCount_goto_of_ne (s := s) (i := i) (p := .idle)
        (by simp [hincreasing]) (by simp)
      have hwoken := notifiedCount_goto (s.goto i .idle) j (.woken true)
      rw [goto_of_ne hne, hasleep, if_neg (by simp), if_pos rfl] at hwoken
      have hbound := hkept ⟨k, hk''⟩
      show (s.sem.count_a + 1).toNat ≤
        ((s.goto i .idle).goto j (.woken true)).notifiedCount
      have hsucc := toNat_succ_le s.sem.count_a
      omega
  | refused i htrying hzero =>
      have hcount := notifiedCount_goto_of_ne (s := s) (i := i) (p := .idle)
        (by simp [htrying]) (by simp)
      have hk' := asleep_of_goto (by simp) hk
      exact (hkept ⟨k, hk'⟩).trans hcount.ge
  | granted i htrying hpos =>
      have hasleep : s.phase k = .asleep :=
        asleep_of_goto (p := .idle) (by simp) hk
      have hcount := notifiedCount_goto_of_ne (s := s) (i := i) (p := .idle)
        (by simp [htrying]) (by simp)
      have hbound := hkept ⟨k, hasleep⟩
      have hpred := toNat_pred hpos
      show (s.sem.count_a - 1).toNat ≤ (s.goto i .idle).notifiedCount
      omega

omit [DecidableEq THREAD] in
theorem noLostWakeup_init
    (count_i : UInt16) :
    NoLostWakeup (System.init count_i : System THREAD) := by
  rintro ⟨i, hi⟩
  cases hi

omit [Fintype THREAD] in
/-- A section decreases a counter that is not zero, and only `inc()` increases it. -/
theorem SectionCases.of_zero
    (hcases : SectionCases s l t)
    (hzero : s.sem.count_a = 0) :
    (t.sem.count_a = 0 ∧ t.grants = s.grants) ∨ ∃ i wakes, l = .inc i wakes := by
  cases hcases with
  | called => exact .inl ⟨hzero, rfl⟩
  | slept => exact .inl ⟨hzero, rfl⟩
  | decreased i hwants hpos => exact absurd hzero hpos
  | woke => exact .inl ⟨hzero, rfl⟩
  | increased i => exact .inr ⟨i, none, rfl⟩
  | increasedFor i j => exact .inr ⟨i, some j, rfl⟩
  | refused => exact .inl ⟨hzero, rfl⟩
  | granted i htrying hpos => exact absurd hzero hpos

/-- **No more is granted than was put in, and no wake-up is lost**: the calls that have
decreased the counter are covered by the initial count and the increments, a counter
at zero is not decreased, and while a thread sleeps un-notified the counter is at most
the number of threads that have been notified and have yet to take the mutex. -/
theorem granted_and_woken
    (count_i : UInt16)
    {labels : List (Section THREAD)} {s : System THREAD}
    (hrun : Run (Steps sectionStep) (System.init count_i) labels s) :
    s.decs + s.tryDecs ≤ count_i.toNat + s.incs ∧
    (∀ l t, Steps sectionStep s l t → s.sem.count_a = 0 →
      (t.sem.count_a = 0 ∧ t.decs + t.tryDecs = s.decs + s.tryDecs) ∨
        ∃ i wakes, l = .inc i wakes) ∧
    ((∃ i, s.phase i = .asleep) → s.sem.count_a.toNat ≤ s.notifiedCount) := by
  have hbounded := hrun.invariant (Bounded count_i) Bounded.step bounded_init
  refine ⟨?_, ?_, ?_⟩
  · exact le_trans (Nat.le_add_left _ _) hbounded.bound
  · intro l t hstep hzero
    exact (section_cases hbounded.alive hstep).of_zero hzero
  · have hkept := hrun.invariant
      (fun s => Bounded count_i s ∧ NoLostWakeup s) ?_
      ⟨bounded_init, noLostWakeup_init count_i⟩
    · exact hkept.2
    · rintro s l t ⟨hbounded, hkept⟩ hstep
      exact ⟨hbounded.step hstep,
        (section_cases hbounded.alive hstep).noLostWakeup hkept⟩

/-- Two threads sleep, and a third one puts in one permit. -/
def oneForTwo : List (Section (Fin 3)) :=
  [.call 0 .dec, .dec 0, .call 1 .dec, .dec 1, .call 2 .inc, .inc 2 (some 0)]

theorem granted_and_woken_example :
    ∃ s : System (Fin 3),
      Run (Steps sectionStep) (System.init 0) oneForTwo s ∧
      s.phase 1 = .asleep ∧ s.sem.count_a = 1 ∧
      s.sem.count_a.toNat ≤ s.notifiedCount := by
  have hrun : Run (Steps sectionStep) (System.init 0 : System (Fin 3)) oneForTwo _ :=
    run_of_exec rfl
  exact ⟨_, hrun, rfl, rfl, (granted_and_woken 0 hrun).2.2 ⟨1, rfl⟩⟩

end Wakeups

end Semaphore
end Bren
end Brenlib
