import Brenlib.Base.Population
import Brenlib.Bren.SemaphoreDestruction
import Brenlib.Bren.SemaphoreSections

/-!
# Threads that give back what they have taken

A thread takes a permit with `dec()` or `try_dec()` and gives it back with `inc()`.  If no
thread gives back a permit that it has not taken, the semaphore hands out the permits it
has been constructed with, and no others, also while it is being destroyed.

* `useStep`: a step of the system, and the permits of the threads behind it.
* `Conserved`: what holds in every state.
* `permits_conserved`: permits and counter make up the initial count.
* `waits_for_permits`: a thread waits only while all permits are taken.
-/

namespace Brenlib
namespace Bren
namespace Semaphore

open TransitionSystem
open Population

/-- A semaphore, and how many permits each thread has. -/
structure Users (THREAD : Type) where
  system : System THREAD
  permits : THREAD → Nat

/-- A new semaphore. -/
def Users.init {THREAD : Type} (count_i : UInt16) : Users THREAD where
  system := System.init count_i
  permits := fun _ => 0

section Steps

variable {THREAD : Type} [DecidableEq THREAD]

/-- Only a thread that has a permit calls `inc()`. -/
def Users.Allows (u : Users THREAD) : Label THREAD → Prop
  | .thread i (.call .inc) => 0 < u.permits i
  | _ => True

instance (u : Users THREAD) : ∀ l, Decidable (u.Allows l)
  | .thread i (.call .inc) => inferInstanceAs (Decidable (0 < u.permits i))
  | .thread _ (.call .dec) => isTrue trivial
  | .thread _ (.call .tryDec) => isTrue trivial
  | .thread _ .test => isTrue trivial
  | .thread _ .sleep => isTrue trivial
  | .thread _ .wake => isTrue trivial
  | .thread _ .leave => isTrue trivial
  | .thread _ (.inc _) => isTrue trivial
  | .thread _ .tryDec => isTrue trivial
  | .setDestructing => isTrue trivial
  | .notifyAll => isTrue trivial

/-- The permits behind a step: `dec()` has returned, `inc()` has returned, or `try_dec()`
has returned true. -/
def Users.permitsBehind (u : Users THREAD) : Label THREAD → THREAD → Nat
  | .thread i .leave =>
      if u.system.sem.destructing_a then u.permits
      else Function.update u.permits i (u.permits i + 1)
  | .thread i .tryDec =>
      if u.system.sem.tryDecCount.1 then Function.update u.permits i (u.permits i + 1)
      else u.permits
  | .thread i (.inc _) => Function.update u.permits i (u.permits i - 1)
  | _ => u.permits

variable [Fintype THREAD]

/-- One step of the system, if the threads take it. -/
def useStep (u : Users THREAD) (l : Label THREAD) : Option (Users THREAD) :=
  if u.Allows l then
    (step u.system l).map fun t => ⟨t, u.permitsBehind l⟩
  else none

variable {u v : Users THREAD} {l : Label THREAD} {i : THREAD}

theorem useStep_cases
    (h : useStep u l = some v) :
    u.Allows l ∧ StepCases u.system l v.system ∧ v.permits = u.permitsBehind l := by
  obtain ⟨hallows, h⟩ := Option.ite_none_right_eq_some.mp h
  obtain ⟨t, hstep, rfl⟩ := Option.map_eq_some_iff.mp h
  exact ⟨hallows, step_cases hstep, rfl⟩

end Steps

section Loop

variable {THREAD : Type}

/-- What a thread that holds the mutex in `dec()` has found, if it has passed its loop or
goes to sleep. -/
def Faces (sem : Semaphore) : Phase → Prop
  | .passed => sem.destructing_a = true ∨ sem.count_a ≠ 0
  | .waiting => sem.count_a = 0
  | _ => True

variable {sem : Semaphore} {mux_a : Bool} {phase : THREAD → Phase} {p : Phase} {i : THREAD}

theorem faces_of_not_holdsMutex
    (hp : p.holdsMutex = false) :
    Faces sem p := by
  cases p with
  | waiting => cases hp
  | passed => cases hp
  | _ => trivial

/-- Nobody is in the loop of `dec()` while the mutex is free. -/
theorem Mutex.faces
    (h : Mutex mux_a phase)
    (hfree : mux_a = false)
    (i : THREAD) :
    Faces sem (phase i) := by
  refine faces_of_not_holdsMutex (Bool.eq_false_iff.mpr fun hholds => ?_)
  rw [hfree] at h
  cases h.holder i hholds

theorem faces_update
    [DecidableEq THREAD]
    (hfaces : ∀ i, Faces sem (phase i))
    (hp : Faces sem p) :
    ∀ j, Faces sem (Function.update phase i p j) := by
  intro j
  by_cases hj : j = i
  · subst hj
    rwa [Function.update_self]
  · rw [Function.update_of_ne hj]
    exact hfaces j

/-- The loop test sends a thread to the phase that it faces. -/
theorem faces_tested
    (sem : Semaphore) :
    Faces sem (if sem.mustWait then .waiting else .passed) := by
  by_cases hwait : sem.mustWait = true
  · rw [if_pos hwait]
    simp only [mustWait, Bool.and_eq_true, beq_iff_eq] at hwait
    exact hwait.2
  · rw [if_neg hwait]
    simp only [mustWait, Bool.and_eq_true, beq_iff_eq, not_and] at hwait
    change sem.destructing_a = true ∨ sem.count_a ≠ 0
    cases hdead : sem.destructing_a with
    | true => exact .inl rfl
    | false => exact .inr (hwait hdead)

variable [DecidableEq THREAD]
variable {s t : System THREAD} {l : Label THREAD}

/-- Whoever changes the counter gives back the mutex. -/
theorem StepCases.faces
    (hcases : StepCases s l t)
    (hsound : Sound s)
    (hfaces : ∀ i, Faces s.sem (s.phase i)) :
    ∀ i, Faces t.sem (t.phase i) := by
  have hmutex := (hcases.sound hsound).mutex
  cases hcases with
  | entered i m => exact faces_update hfaces (faces_of_not_holdsMutex (by cases m <;> rfl))
  | turnedAway i m => exact faces_update hfaces trivial
  | tested i => exact faces_update hfaces (faces_tested s.sem)
  | slept i => exact hmutex.faces rfl
  | woke i => exact faces_update hfaces trivial
  | threw i => exact hmutex.faces rfl
  | decreased i => exact hmutex.faces rfl
  | increased i hincreasing hfree => exact hmutex.faces hfree
  | increasedFor i j hincreasing hfree => exact hmutex.faces hfree
  | tried i htrying hfree => exact hmutex.faces hfree
  | flagged =>
      intro i
      have hi := hfaces i
      change Faces _ (s.phase i)
      cases hp : s.phase i with
      | passed => exact .inl rfl
      | waiting =>
          rw [hp] at hi
          exact hi
      | _ => trivial
  | notifiedAll =>
      intro i
      have hi := hfaces i
      change Faces _ (s.phase i).notified
      cases hp : s.phase i <;> first | trivial | (rw [hp] at hi; exact hi)

end Loop

section Conservation

variable {THREAD : Type} [Fintype THREAD]

/-- What holds in every state: the counter is what the threads have left of the initial
count, and a thread that gives back a permit has one. -/
structure Conserved (count_i : UInt16) (u : Users THREAD) : Prop where
  sound : Sound u.system
  faces : ∀ i, Faces u.system.sem (u.system.phase i)
  total : ∑ i, u.permits i + u.system.sem.count_a.toNat = count_i.toNat
  owned : ∀ i, u.system.phase i = .increasing → 0 < u.permits i

variable {count_i : UInt16} {u v : Users THREAD} {l : Label THREAD} {i : THREAD}

theorem conserved_init :
    Conserved count_i (Users.init count_i : Users THREAD) where
  sound := sound_init count_i
  faces := fun _ => trivial
  total := by
    change ∑ i : THREAD, 0 + count_i.toNat = count_i.toNat
    rw [Finset.sum_const_zero, Nat.zero_add]
  owned := fun _ h => by cases h

variable [DecidableEq THREAD]

/-- An increment gives back a permit, so it does not find the counter at its maximum. -/
theorem Conserved.total_inc
    (h : Conserved count_i u)
    (hincreasing : u.system.phase i = .increasing) :
    ∑ j, Function.update u.permits i (u.permits i - 1) j +
      (u.system.sem.count_a + 1).toNat = count_i.toNat := by
  have hpos := h.owned i hincreasing
  have htotal := h.total
  have hsum := sum_update u.permits i (u.permits i - 1)
  have hle : u.permits i ≤ ∑ j, u.permits j := Finset.single_le_sum (fun _ _ => Nat.zero_le _)
    (Finset.mem_univ i)
  have hmax : u.system.sem.count_a ≠ 65535 := by
    intro hmax
    have hlt := count_i.toNat_lt
    rw [hmax] at htotal
    change _ + 65535 = _ at htotal
    omega
  rw [toNat_succ hmax]
  omega

/-- A decrement takes a permit. -/
theorem Conserved.total_dec
    (h : Conserved count_i u)
    (i : THREAD)
    (hpos : u.system.sem.count_a ≠ 0) :
    ∑ j, Function.update u.permits i (u.permits i + 1) j +
      (u.system.sem.count_a - 1).toNat = count_i.toNat := by
  have htotal := h.total
  have hsum := sum_update u.permits i (u.permits i + 1)
  have hpred := toNat_pred hpos
  omega

theorem Conserved.total_step
    (h : Conserved count_i u)
    (hcases : StepCases u.system l v.system)
    (hpermits : v.permits = u.permitsBehind l) :
    ∑ i, v.permits i + v.system.sem.count_a.toNat = count_i.toNat := by
  rw [hpermits]
  generalize v.system = t at hcases
  cases hcases with
  | entered => exact h.total
  | turnedAway => exact h.total
  | tested => exact h.total
  | slept => exact h.total
  | woke => exact h.total
  | threw i hpassed hdead =>
      rw [Users.permitsBehind, if_pos hdead]
      exact h.total
  | decreased i hpassed halive =>
      rw [Users.permitsBehind, if_neg (by rw [halive]; exact Bool.false_ne_true)]
      have hfaces := h.faces i
      rw [hpassed] at hfaces
      have hpos := hfaces.resolve_left (by rw [halive]; exact Bool.false_ne_true)
      exact h.total_dec i hpos
  | increased i hincreasing => exact h.total_inc hincreasing
  | increasedFor i j hincreasing => exact h.total_inc hincreasing
  | tried i =>
      by_cases hzero : u.system.sem.count_a = 0
      · simp only [Users.permitsBehind, tryDecCount, if_pos hzero]
        exact h.total
      · simp only [Users.permitsBehind, tryDecCount, if_neg hzero]
        exact h.total_dec i hzero
  | flagged => exact h.total
  | notifiedAll => exact h.total

omit [Fintype THREAD] in
/-- A step of one thread takes no permit from the others, and leaves it in `inc()` only if
it has one. -/
theorem owned_goto
    {permits permits' : THREAD → Nat} {phase : THREAD → Phase} {p : Phase}
    (howned : ∀ j, phase j = .increasing → 0 < permits j)
    (hothers : ∀ j, j ≠ i → permits' j = permits j)
    (hp : p = .increasing → 0 < permits' i) :
    ∀ j, Function.update phase i p j = .increasing → 0 < permits' j := by
  intro j hj
  by_cases hji : j = i
  · subst hji
    rw [Function.update_self] at hj
    exact hp hj
  · rw [Function.update_of_ne hji] at hj
    rw [hothers j hji]
    exact howned j hj

omit [Fintype THREAD] in
theorem Users.permitsBehind_of_ne
    (u : Users THREAD) (a : Action THREAD) {j : THREAD}
    (hj : j ≠ i) :
    u.permitsBehind (.thread i a) j = u.permits j := by
  cases a with
  | leave =>
      simp only [Users.permitsBehind]
      split
      · rfl
      · exact Function.update_of_ne hj ..
  | tryDec =>
      simp only [Users.permitsBehind]
      split
      · exact Function.update_of_ne hj ..
      · rfl
  | inc wakes => exact Function.update_of_ne hj ..
  | _ => rfl

theorem Conserved.owned_step
    (h : Conserved count_i u)
    (hallows : u.Allows l)
    (hcases : StepCases u.system l v.system)
    (hpermits : v.permits = u.permitsBehind l) :
    ∀ i, v.system.phase i = .increasing → 0 < v.permits i := by
  have howned := h.owned
  have hothers (i : THREAD) (a : Action THREAD) (j : THREAD) (hj : j ≠ i) :
      u.permitsBehind (.thread i a) j = u.permits j :=
    u.permitsBehind_of_ne a hj
  rw [hpermits]
  generalize v.system = t at hcases
  cases hcases with
  | entered i m =>
      refine owned_goto howned (hothers i _) fun hm => ?_
      cases m with
      | inc => exact hallows
      | _ => cases hm
  | turnedAway i m => exact owned_goto howned (hothers i _) fun hp => by cases hp
  | tested i => exact owned_goto howned (hothers i _) fun hp => by split at hp <;> cases hp
  | slept i => exact owned_goto howned (hothers i _) fun hp => by cases hp
  | woke i => exact owned_goto howned (hothers i _) fun hp => by cases hp
  | threw i => exact owned_goto howned (hothers i .leave) fun hp => by cases hp
  | decreased i => exact owned_goto howned (hothers i .leave) fun hp => by cases hp
  | increased i => exact owned_goto howned (hothers i (.inc none)) fun hp => by cases hp
  | increasedFor i j hincreasing hfree hasleep =>
      have hidle := owned_goto (p := .idle) howned (hothers i (.inc (some j))) fun hp => by cases hp
      exact owned_goto hidle (fun _ _ => rfl) fun hp => by cases hp
  | tried i => exact owned_goto howned (hothers i .tryDec) fun hp => by cases hp
  | flagged => exact howned
  | notifiedAll =>
      intro i hi
      refine howned i ?_
      change (u.system.phase i).notified = .increasing at hi
      cases hp : u.system.phase i <;> rw [hp] at hi <;> cases hi

theorem Conserved.step
    (h : Conserved count_i u)
    (hstep : Steps useStep u l v) :
    Conserved count_i v := by
  obtain ⟨hallows, hcases, hpermits⟩ := useStep_cases hstep
  exact
    { sound := hcases.sound h.sound
      faces := hcases.faces h.sound h.faces
      total := h.total_step hcases hpermits
      owned := h.owned_step hallows hcases hpermits }

/-- **The permits are those of the initial count**, in any interleaving of threads that give
back only permits they have taken, with the destructor at work or not: the permits of the
threads and the counter make up the initial count, so no more threads than that have a
permit at the same time, and `inc()` never finds the counter at its maximum. -/
theorem permits_conserved
    {ls : List (Label THREAD)}
    (hrun : Run (Steps useStep) (Users.init count_i) ls u) :
    ∑ i, u.permits i + u.system.sem.count_a.toNat = count_i.toNat ∧
    (Finset.univ.filter fun i => 0 < u.permits i).card ≤ count_i.toNat ∧
    ∀ i, u.system.phase i = .increasing → u.system.sem.count_a < count_i := by
  have h := hrun.invariant (Conserved count_i) Conserved.step conserved_init
  have htotal := h.total
  refine ⟨htotal, ?_, fun i hi => ?_⟩
  · have hcard : (Finset.univ.filter fun i => 0 < u.permits i).card ≤ ∑ i, u.permits i := by
      rw [Finset.card_filter]
      refine Finset.sum_le_sum fun i _ => ?_
      split <;> omega
    omega
  · have hpos := h.owned i hi
    have hle : u.permits i ≤ ∑ j, u.permits j :=
      Finset.single_le_sum (fun _ _ => Nat.zero_le _) (Finset.mem_univ i)
    rw [UInt16.lt_iff_toNat_lt]
    omega

/-- A mutex: one permit, which is handed over. -/
def handedOver : List (Label Bool) :=
  [.thread false (.call .dec), .thread false .test, .thread false .leave,
    .thread true (.call .dec), .thread true .test, .thread true .sleep,
    .thread false (.call .inc), .thread false (.inc (some true)),
    .thread true .test, .thread true .leave]

theorem permits_conserved_example :
    ∃ u : Users Bool,
      Run (Steps useStep) (Users.init 1) handedOver u ∧ u.permits true = 1 ∧
      (Finset.univ.filter fun i => 0 < u.permits i).card ≤ 1 := by
  have hrun : Run (Steps useStep) (Users.init 1 : Users Bool) handedOver _ :=
    run_of_exec rfl
  exact ⟨_, hrun, rfl, (permits_conserved hrun).2.1⟩

end Conservation

section Progress

/-- A step inside a method, of its own accord. -/
def Label.GoesOn {THREAD : Type} : Label THREAD → Prop
  | .thread _ (.call _) => False
  | .thread _ .wake => False
  | .thread _ _ => True
  | .setDestructing => False
  | .notifyAll => False

namespace Phase

/-- How many steps the thread has yet to take, and one for the thread that it may wake. -/
def work : Phase → Nat
  | .decreasing => 2
  | .waiting => 1
  | .woken _ => 2
  | .passed => 1
  | .increasing => 3
  | .trying => 1
  | _ => 0

/-- A thread that has been notified or is about to take a permit. -/
def attends : Phase → Nat
  | .woken true => 1
  | .passed => 1
  | _ => 0

end Phase

variable {THREAD : Type} [DecidableEq THREAD] [Fintype THREAD]

/-- What all threads have yet to do. -/
def System.work (s : System THREAD) : Nat :=
  ∑ i, (s.phase i).work

/-- The threads that attend to a positive counter. -/
def System.attending (s : System THREAD) : Nat :=
  ∑ i, (s.phase i).attends

variable {s t : System THREAD} {l : Label THREAD} {i j : THREAD} {p : Phase}

theorem work_goto
    (s : System THREAD) (i : THREAD) (p : Phase) :
    (s.goto i p).work + (s.phase i).work = s.work + p.work :=
  sum_weight_update Phase.work s.phase i p

theorem attending_goto
    (s : System THREAD) (i : THREAD) (p : Phase) :
    (s.goto i p).attending + (s.phase i).attends = s.attending + p.attends :=
  sum_weight_update Phase.attends s.phase i p

theorem work_lt_of_goto
    (hlt : p.work < (s.phase i).work) :
    (s.goto i p).work < s.work := by
  have hgoto := work_goto s i p
  omega

omit [DecidableEq THREAD] [Fintype THREAD] in
theorem work_of_wantsMutex
    (hwants : (s.phase i).wantsMutex = true) :
    (s.phase i).work = 2 := by
  cases hp : s.phase i <;> rw [hp] at hwants <;> cases hwants <;> rfl

/-- Every step that goes on lowers what is left to do. -/
theorem StepCases.work_lt
    (hcases : StepCases s l t)
    (hgoes : l.GoesOn) :
    t.work < s.work := by
  cases hcases with
  | entered i m => cases hgoes
  | turnedAway i m => cases hgoes
  | tested i hwants =>
      refine @work_lt_of_goto _ _ _ s i _ ?_
      rw [work_of_wantsMutex hwants]
      split <;> decide
  | slept i hwaiting => exact @work_lt_of_goto _ _ _ s i _ (by rw [hwaiting]; decide)
  | woke i => cases hgoes
  | threw i hpassed => exact @work_lt_of_goto _ _ _ s i _ (by rw [hpassed]; exact Nat.one_pos)
  | decreased i hpassed => exact @work_lt_of_goto _ _ _ s i _ (by rw [hpassed]; decide)
  | increased i hincreasing =>
      exact @work_lt_of_goto _ _ _ s i _ (by rw [hincreasing]; decide)
  | increasedFor i j hincreasing hfree hasleep =>
      have hne : j ≠ i := by
        rintro rfl
        rw [hincreasing] at hasleep
        cases hasleep
      have hidle := work_goto s i .idle
      have hwoken := work_goto (s.goto i .idle) j (.woken true)
      rw [hincreasing] at hidle
      rw [goto_of_ne hne, hasleep] at hwoken
      simp only [Phase.work] at hidle hwoken
      change ((s.goto i .idle).goto j (.woken true)).work < s.work
      omega
  | tried i htrying => exact @work_lt_of_goto _ _ _ s i _ (by rw [htrying]; decide)
  | flagged => cases hgoes
  | notifiedAll => cases hgoes

/-- A thread that holds the mutex can go on. -/
theorem exists_step_of_holdsMutex
    (hholds : (s.phase i).holdsMutex = true) :
    ∃ a, (Label.thread i a).GoesOn ∧ ∃ t, step s (.thread i a) = some t := by
  cases hp : s.phase i with
  | waiting => exact ⟨.sleep, trivial, _, if_pos hp⟩
  | passed =>
      refine ⟨.leave, trivial, ?_⟩
      simp only [step, advance, if_pos hp]
      split <;> exact ⟨_, rfl⟩
  | _ =>
      rw [hp] at hholds
      cases hholds

/-- A thread in a method that is not asleep can go on while the mutex is free. -/
theorem exists_step_of_free
    (hfree : s.mux_a = false)
    (hinside : (s.phase i).isOutside = false)
    (hasleep : s.phase i ≠ .asleep) :
    ∃ a, (Label.thread i a).GoesOn ∧ ∃ t, step s (.thread i a) = some t := by
  have htest (hwants : (s.phase i).wantsMutex = true) :
      ∃ a, (Label.thread i a).GoesOn ∧ ∃ t, step s (.thread i a) = some t :=
    ⟨.test, trivial, _, if_pos ⟨hwants, hfree⟩⟩
  cases hp : s.phase i with
  | idle =>
      rw [hp] at hinside
      cases hinside
  | threw e =>
      rw [hp] at hinside
      cases hinside
  | asleep => exact absurd hp hasleep
  | decreasing => exact htest (by rw [hp]; rfl)
  | woken notified => exact htest (by rw [hp]; rfl)
  | waiting => exact exists_step_of_holdsMutex (by rw [hp]; rfl)
  | passed => exact exists_step_of_holdsMutex (by rw [hp]; rfl)
  | trying => exact ⟨.tryDec, trivial, _, if_pos ⟨hp, hfree⟩⟩
  | increasing =>
      by_cases hsleeper : ∃ j, ({ s.goto i .idle with
          sem := s.sem.incCount, incs := s.incs + 1 } : System THREAD).phase j = .asleep
      · obtain ⟨j, hj⟩ := hsleeper
        refine ⟨.inc (some j), trivial, ?_⟩
        simp only [step, advance, if_pos (show s.phase i = .increasing ∧ s.mux_a = false from
          ⟨hp, hfree⟩)]
        exact ⟨_, if_pos hj⟩
      · refine ⟨.inc none, trivial, ?_⟩
        simp only [step, advance, if_pos (show s.phase i = .increasing ∧ s.mux_a = false from
          ⟨hp, hfree⟩)]
        exact ⟨_, if_neg hsleeper⟩

/-- In a method and not asleep: some thread can go on. -/
theorem exists_step
    (hsound : Sound s)
    (hinside : (s.phase i).isOutside = false)
    (hasleep : s.phase i ≠ .asleep) :
    ∃ j a, (Label.thread j a).GoesOn ∧ ∃ t, step s (.thread j a) = some t := by
  cases hmux : s.mux_a with
  | true =>
      obtain ⟨j, hj⟩ := hsound.mutex.held hmux
      exact ⟨j, exists_step_of_holdsMutex hj⟩
  | false => exact ⟨i, exists_step_of_free hmux hinside hasleep⟩

/-- As long as nobody destroys the semaphore, a positive counter has a thread that attends
to it for every sleeper that could take it. -/
def Attended (s : System THREAD) : Prop :=
  s.sem.destructing_a = false → (∃ i, s.phase i = .asleep) →
    s.sem.count_a.toNat ≤ s.attending

omit [DecidableEq THREAD] in
theorem attended_init
    (count_i : UInt16) :
    Attended (System.init count_i : System THREAD) := by
  rintro - ⟨i, hi⟩
  cases hi

/-- A thread that is woken by nobody changes its phase and leaves the counter alone or
lowers it. -/
theorem Attended.goto
    (h : Attended s)
    (hdead : t.sem.destructing_a = s.sem.destructing_a)
    (hphase : t.phase = (s.goto i p).phase)
    (hp : p ≠ .asleep)
    (hcount : t.sem.count_a.toNat + (s.phase i).attends ≤ s.sem.count_a.toNat + p.attends) :
    Attended t := by
  rintro halive ⟨k, hk⟩
  rw [hphase] at hk
  have hkept := h (hdead.symm.trans halive) ⟨k, asleep_of_goto hp hk⟩
  have hgoto := attending_goto s i p
  have hattending : t.attending = (s.goto i p).attending := by
    simp only [System.attending, hphase]
  omega

omit [DecidableEq THREAD] [Fintype THREAD] in
theorem attends_le
    (p : Phase) :
    p.attends ≤ 1 := by
  cases p with
  | woken notified => cases notified <;> decide
  | passed => decide
  | _ => exact Nat.zero_le 1

omit [DecidableEq THREAD] [Fintype THREAD] in
theorem attends_of_isOutside
    (hout : p.isOutside = true) :
    p.attends = 0 := by
  cases p <;> first | rfl | cases hout

theorem toNat_tryDecCount_le
    (sem : Semaphore) :
    sem.tryDecCount.2.count_a.toNat ≤ sem.count_a.toNat := by
  by_cases hzero : sem.count_a = 0
  · simp only [tryDecCount, if_pos hzero]
    exact le_rfl
  · have hpred := toNat_pred hzero
    simp only [tryDecCount, if_neg hzero]
    omega

theorem StepCases.attended
    (hcases : StepCases s l t)
    (hsound : Sound s)
    (hfaces : ∀ i, Faces s.sem (s.phase i))
    (h : Attended s) :
    Attended t := by
  cases hcases with
  | entered i m hout =>
      refine @Attended.goto _ _ _ s _ i m.entered h rfl rfl
        (by cases m <;> simp [Method.entered]) ?_
      rw [attends_of_isOutside hout]
      exact Nat.le_add_right ..
  | turnedAway i m hout hdead =>
      rintro halive -
      exact absurd (hdead.symm.trans halive) (by decide)
  | tested i hwants =>
      by_cases hwait : s.sem.mustWait = true
      · rintro - -
        simp only [mustWait, Bool.and_eq_true, beq_iff_eq] at hwait
        change s.sem.count_a.toNat ≤ _
        rw [hwait.2]
        exact Nat.zero_le _
      · rw [if_neg hwait]
        refine @Attended.goto _ _ _ s _ i .passed h rfl rfl (by simp) ?_
        exact Nat.add_le_add_left (attends_le _) _
  | slept i hwaiting =>
      rintro - -
      have hzero := hfaces i
      rw [hwaiting] at hzero
      change s.sem.count_a.toNat ≤ _
      rw [show s.sem.count_a = 0 from hzero]
      exact Nat.zero_le _
  | woke i hasleep =>
      refine @Attended.goto _ _ _ s _ i (.woken false) h rfl rfl (by simp) ?_
      rw [hasleep]
      exact le_rfl
  | threw i hpassed hdead =>
      rintro halive -
      exact absurd (hdead.symm.trans halive) (by decide)
  | decreased i hpassed halive =>
      refine @Attended.goto _ _ _ s _ i .idle h rfl rfl (by simp) ?_
      have hpos := hfaces i
      rw [hpassed] at hpos ⊢
      have hpred := toNat_pred (hpos.resolve_left (by rw [halive]; exact Bool.false_ne_true))
      change (s.sem.count_a - 1).toNat + 1 ≤ s.sem.count_a.toNat + 0
      omega
  | increased i hincreasing hfree hnone =>
      rintro - ⟨k, hk⟩
      exact absurd (asleep_of_goto (by simp) hk) (hnone k)
  | increasedFor i j hincreasing hfree hasleep =>
      rintro halive ⟨k, hk⟩
      have hkept := h halive ⟨j, hasleep⟩
      have hne : j ≠ i := by
        rintro rfl
        rw [hincreasing] at hasleep
        cases hasleep
      have hidle := attending_goto s i .idle
      have hwoken := attending_goto (s.goto i .idle) j (.woken true)
      rw [hincreasing] at hidle
      rw [goto_of_ne hne, hasleep] at hwoken
      simp only [Phase.attends] at hidle hwoken
      have hsucc := toNat_succ_le s.sem.count_a
      change (s.sem.count_a + 1).toNat ≤ ((s.goto i .idle).goto j (.woken true)).attending
      omega
  | tried i htrying =>
      have hdead : s.sem.tryDecCount.2.destructing_a = s.sem.destructing_a := by
        simp only [tryDecCount]
        split <;> rfl
      refine @Attended.goto _ _ _ s _ i .idle h hdead rfl (by simp) ?_
      rw [htrying]
      exact toNat_tryDecCount_le s.sem
  | flagged =>
      rintro halive -
      cases halive
  | notifiedAll hflagged =>
      rintro halive -
      have hdead := hsound.flag (by simp [hflagged])
      exact absurd (hdead.symm.trans halive) (by decide)

/-- **A thread waits only while all permits are taken.**  From every state that threads can
reach which give back only what they have taken, a bounded number of steps inside the
methods brings every method to an end or to sleep; and where none of them is possible any
more, a sleeper means that the semaphore is being destroyed, or that the threads have all
permits of the initial count. -/
theorem waits_for_permits
    {count_i : UInt16} {ls : List (Label THREAD)} {u : Users THREAD}
    (hrun : Run (Steps useStep) (Users.init count_i) ls u) :
    ∃ n, ∀ ls' v, Run (Steps useStep) u ls' v → (∀ l ∈ ls', l.GoesOn) →
      ls'.length ≤ n ∧
        ((∃ l w, l.GoesOn ∧ Steps useStep v l w) ∨
          ∀ i, (v.system.phase i).isOutside = true ∨
            v.system.phase i = .asleep ∧
              (v.system.sem.destructing_a = true ∨ ∑ j, v.permits j = count_i.toNat)) := by
  refine ⟨u.system.work, fun ls' v hrun' hgoes => ⟨?_, ?_⟩⟩
  · have hguarded : Run (Guarded (fun _ l _ => l.GoesOn) (Steps useStep)) u ls' v :=
      hrun'.guarded fun l hl _ _ => hgoes l hl
    have hlength := hguarded.length_add_le (fun _ => True) (·.system.work) (fun _ _ => trivial)
      (fun _ hstep => (useStep_cases hstep.2).2.1.work_lt hstep.1) trivial
    omega
  · obtain ⟨hconserved, hattended⟩ := (hrun.append hrun').invariant
      (fun u => Conserved count_i u ∧ Attended u.system)
      (fun h hstep => ⟨h.1.step hstep,
        (useStep_cases hstep).2.1.attended h.1.sound h.1.faces h.2⟩)
      ⟨conserved_init, attended_init count_i⟩
    by_cases hgo : ∃ l w, l.GoesOn ∧ Steps useStep v l w
    · exact .inl hgo
    · right
      have hstill (j : THREAD) (hj : (v.system.phase j).isOutside = false) :
          v.system.phase j = .asleep := by
        by_contra hawake
        obtain ⟨k, a, hgoes, t, hstep⟩ := exists_step hconserved.sound hj hawake
        refine hgo ⟨.thread k a, ⟨t, v.permitsBehind (.thread k a)⟩, hgoes, ?_⟩
        have hallows : v.Allows (.thread k a) := by
          cases a with
          | call m => cases hgoes
          | _ => trivial
        rw [Steps, useStep, if_pos hallows, hstep]
        rfl
      intro i
      cases hi : (v.system.phase i).isOutside with
      | true => exact .inl rfl
      | false =>
          refine .inr ⟨hstill i hi, ?_⟩
          cases hdead : v.system.sem.destructing_a with
          | true => exact .inl rfl
          | false =>
              right
              have hcount := hattended hdead ⟨i, hstill i hi⟩
              have hnobody : v.system.attending = 0 := by
                refine Finset.sum_eq_zero fun j _ => ?_
                cases hj : (v.system.phase j).isOutside with
                | true => exact attends_of_isOutside hj
                | false =>
                    rw [hstill j hj]
                    rfl
              have htotal := hconserved.total
              omega

/-- The second thread sleeps while the first one has the only permit. -/
theorem waits_for_permits_example :
    ∃ u : Users Bool,
      Run (Steps useStep) (Users.init 1) (handedOver.take 6) u ∧
      u.system.phase true = .asleep ∧ u.permits false = 1 ∧
      (¬ ∃ l w, l.GoesOn ∧ Steps useStep u l w) ∧ ∑ j, u.permits j = 1 := by
  obtain ⟨u, hrun, hasleep, hone, hwork, halive⟩ : ∃ u : Users Bool,
      Run (Steps useStep) (Users.init 1) (handedOver.take 6) u ∧
      u.system.phase true = .asleep ∧ u.permits false = 1 ∧ u.system.work = 0 ∧
      u.system.sem.destructing_a = false := by
    have hrun : Run (Steps useStep) (Users.init 1 : Users Bool) (handedOver.take 6) _ :=
      run_of_exec rfl
    exact ⟨_, hrun, rfl, rfl, rfl, rfl⟩
  have hnone : ¬ ∃ l w, l.GoesOn ∧ Steps useStep u l w := by
    rintro ⟨l, w, hgoes, hstep⟩
    have hlt := (useStep_cases hstep).2.1.work_lt hgoes
    rw [hwork] at hlt
    exact Nat.not_lt_zero _ hlt
  obtain ⟨n, hbound⟩ := waits_for_permits hrun
  have hend := (hbound [] u (.nil u) fun l hl => absurd hl List.not_mem_nil).2
  refine ⟨u, hrun, hasleep, hone, hnone, ?_⟩
  rcases hend.resolve_left hnone true with hout | ⟨-, hdead | htaken⟩
  · rw [hasleep] at hout
    cases hout
  · rw [halive] at hdead
    cases hdead
  · exact htaken

end Progress

end Semaphore
end Bren
end Brenlib
