import Mathlib.Algebra.BigOperators.Group.Finset.Basic
import Mathlib.Algebra.Order.BigOperators.Group.Finset
import Brenlib.Bren.StateMachineExclusion

/-!
# A `StateMachine` comes to rest

A transition ends by itself as long as nothing is thrown while it holds the mutex and its
handler can log: what the functions of the transition throw is caught, and every part of
`transition_` leads to a later one.

* `Action.Contained`: the steps after which no exception leaves `transition_`.
* `Phase.rank`: how many steps a call in flight can still take.
* `AtRest`: no call is in flight, the next event with an edge is accepted, and in the end
  state the object has been released.

**Results.**  No call in flight is ever blocked, whatever the others do, and without new
events the calls end after a bounded number of steps, each with `true`, and leave the machine
at rest (`comes_to_rest`).
-/

namespace Brenlib
namespace Bren
namespace StateMachine

open TransitionSystem

variable {STATE EVENT HANDLER : Type}

/-- Nothing is thrown under the mutex or by the handler. -/
def Action.Contained : Action EVENT → Prop
  | .initiate initiating _ => initiating = .writes
  | .change _ _ observers => ∀ n, ∃ b, observers n = .returns b
  | .release caught => caught = .writes
  | _ => True

/-- The steps left from a place in `transition_` on. -/
def Place.rank : Place STATE → Nat
  | .waiting => 9
  | .initiated => 8
  | .objTested _ => 7
  | .inOnTrans => 6
  | .changing _ => 5
  | .changed => 4
  | .objTestedAgain _ => 3
  | .inInState => 2
  | .caught => 1
  | .ending => 1

/-- The steps that a call in flight can still take. -/
def Phase.rank : Phase STATE EVENT → Nat
  | .accepted _ _ => 10
  | .transition _ _ place => place.rank
  | _ => 0

theorem Phase.rank_le
    (p : Phase STATE EVENT) :
    p.rank ≤ 10 := by
  cases p with
  | transition sync_i args place => cases place <;> exact Nat.le_of_ble_eq_true rfl
  | _ => exact Nat.le_of_ble_eq_true rfl

section Steps

variable [DecidableEq STATE] [DecidableEq EVENT] [EnumClass STATE]
variable {m m' : StateMachine STATE EVENT HANDLER} {a : Action EVENT}
variable {p p' : Phase STATE EVENT}

/-- What a step of a call in flight does: the call comes further, or it ends. -/
inductive GoesOn (m : StateMachine STATE EVENT HANDLER) (p : Phase STATE EVENT)
    (m' : StateMachine STATE EVENT HANDLER) (p' : Phase STATE EVENT) : Prop
  | further
      (hflight : p'.InFlight)
      (hrank : p'.rank < p.rank)
      (hmachine : p'.Running ∨ (m' = m ∧ ¬ p.Running))
  | ended
      (hphase : p' = .returned true)
      (hmachine : m' = m.settled m.state_ m.called)

omit [DecidableEq EVENT] [EnumClass STATE] in
theorem goesOn_further
    {sync_i : Bool} {args : TransArgs STATE EVENT} {place : Place STATE}
    (hplace : ¬ (Phase.transition sync_i args place).Waiting)
    (hrank : place.rank < p.rank) :
    GoesOn m p m' (.transition sync_i args place) :=
  .further trivial hrank (.inl ⟨trivial, hplace⟩)

theorem goesOn_of_advance
    (hmux : m.mux_ = false)
    (hcontained : a.Contained)
    (hflight : p.InFlight)
    (h : advance m a p = some (m', p')) :
    GoesOn m p m' p' := by
  have hpassage := passage hmux h
  cases hpassage with
  | refused => exact hflight.elim
  | accepted => exact hflight.elim
  | called =>
      exact .further trivial (Nat.le_of_ble_eq_true rfl) (.inr ⟨rfl, fun h => h.2 trivial⟩)
  | initiated initiating caught sync_i args =>
      obtain rfl : initiating = .writes := hcontained
      rw [advance, locked_initiate_run _ hmux] at h
      cases h
      exact goesOn_further id (Nat.le_of_ble_eq_true rfl)
  | noOnTrans => exact goesOn_further id (Nat.le_of_ble_eq_true rfl)
  | onTransDue => exact goesOn_further id (Nat.le_of_ble_eq_true rfl)
  | noObject => exact goesOn_further id (Nat.le_of_ble_eq_true rfl)
  | startedOnTrans => exact goesOn_further id (Nat.le_of_ble_eq_true rfl)
  | answered => exact goesOn_further id (Nat.le_of_ble_eq_true rfl)
  | onTransThrew => exact goesOn_further id (Nat.le_of_ble_eq_true rfl)
  | unchanged => exact goesOn_further id (Nat.le_of_ble_eq_true rfl)
  | changed caught observers sync_i args to_i callbacks calls _ hcalls hp =>
      rcases hp with ⟨-, rfl⟩ | ⟨hthrow, -⟩
      · exact goesOn_further id (Nat.le_of_ble_eq_true rfl)
      · exact absurd (fun j _ => hcontained (0 + j)) hthrow
  | noInState => exact goesOn_further id (Nat.le_of_ble_eq_true rfl)
  | inStateDue => exact goesOn_further id (Nat.le_of_ble_eq_true rfl)
  | objectGone => exact goesOn_further id (Nat.le_of_ble_eq_true rfl)
  | startedInState => exact goesOn_further id (Nat.le_of_ble_eq_true rfl)
  | unstarted => exact goesOn_further id (Nat.le_of_ble_eq_true rfl)
  | left result sync_i args place hplace =>
      rcases hplace with rfl | rfl <;> exact goesOn_further id (Nat.le_of_ble_eq_true rfl)
  | released => exact .ended rfl rfl
  | lost caught sync_i args =>
      obtain rfl : caught = .writes := hcontained
      rw [advance, log_writes_run] at h
      have hphase := (Prod.mk.inj (Option.some.inj h)).2
      cases sync_i <;> cases hphase

/-- A call in flight can take a step. -/
theorem exists_advance
    (m : StateMachine STATE EVENT HANDLER)
    (hflight : p.InFlight) :
    ∃ a r, Action.Contained a ∧ ¬ a.IsCheck ∧ advance m a p = some r := by
  cases p with
  | idle => exact hflight.elim
  | accepted event_i dst => exact ⟨.call, _, trivial, id, rfl⟩
  | transition sync_i args place =>
      cases place with
      | waiting =>
          refine ⟨.initiate .writes .writes, ?_⟩
          unfold advance
          simp only
          split <;> exact ⟨_, rfl, id, rfl⟩
      | initiated =>
          refine ⟨.testObj, ?_⟩
          unfold advance
          simp only
          split
          · exact ⟨_, trivial, id, rfl⟩
          · split <;> exact ⟨_, trivial, id, rfl⟩
      | objTested f => exact ⟨.callOnTrans, _, trivial, id, rfl⟩
      | inOnTrans => exact ⟨.returnOnTrans (.returns true), _, trivial, id, rfl⟩
      | changing to_i =>
          refine ⟨.change .writes .writes fun _ => .returns true, ?_⟩
          unfold advance
          simp only
          split
          · exact ⟨_, fun _ => ⟨true, rfl⟩, id, rfl⟩
          · split <;> exact ⟨_, fun _ => ⟨true, rfl⟩, id, rfl⟩
      | changed =>
          refine ⟨.testObjAgain, ?_⟩
          unfold advance
          simp only
          split
          · exact ⟨_, trivial, id, rfl⟩
          · split <;> exact ⟨_, trivial, id, rfl⟩
      | objTestedAgain f =>
          refine ⟨.callInState .writes, ?_⟩
          unfold advance
          simp only
          split <;> exact ⟨_, trivial, id, rfl⟩
      | inInState => exact ⟨.returnInState .returns, _, trivial, id, rfl⟩
      | caught =>
          refine ⟨.release .writes, ?_⟩
          unfold advance
          simp only
          split <;> exact ⟨_, rfl, id, rfl⟩
      | ending => exact ⟨.release .writes, _, rfl, id, rfl⟩
  | returned => exact hflight.elim
  | threw => exact hflight.elim
  | terminated => exact hflight.elim

end Steps

/-- What holds as long as nothing escapes: only a transition that is executed has `active_`
set, or the object still in place in the end state. -/
structure Settling (s : System STATE EVENT HANDLER) : Prop where
  free : s.machine.mux_ = false
  alive : s.terminated = false
  active : s.machine.active_ = true → ∃ i, (s.phase i).Running
  ended : s.machine.state_ = s.machine.end_ → s.machine.obj_ ≠ none → ∃ i, (s.phase i).Running

/-- The machine waits for the next event. -/
structure AtRest [DecidableEq STATE] [DecidableEq EVENT] (s : System STATE EVENT HANDLER) :
    Prop where
  still : ∀ i, ¬ (s.phase i).InFlight
  free : s.machine.mux_ = false
  accepts : s.machine.state_ ≠ s.machine.end_ → ∀ event_i,
    s.machine.accepts event_i = s.machine.edge s.machine.state_ event_i
  released : s.machine.state_ = s.machine.end_ → s.machine.obj_ = none

section System

variable [DecidableEq STATE] [DecidableEq EVENT] [EnumClass STATE]
variable {s t : System STATE EVENT HANDLER} {l : Nat × Action EVENT}

omit [EnumClass STATE] in
theorem Settling.atRest
    (hsettling : Settling s)
    (hstill : ∀ i, ¬ (s.phase i).InFlight) :
    AtRest s where
  still := hstill
  free := hsettling.free
  accepts hstate event_i := by
    have hinactive : ¬ s.machine.active_ = true := by
      intro hactive
      obtain ⟨i, hrunning⟩ := hsettling.active hactive
      exact hstill i hrunning.1
    rw [StateMachine.accepts, if_neg (not_or.mpr ⟨hinactive, hstate⟩)]
  released hstate := by
    by_contra hobj
    obtain ⟨i, hrunning⟩ := hsettling.ended hstate hobj
    exact hstill i hrunning.1

/-- A step is one of `advance`, and ends the process only from there. -/
theorem step_advance
    (hstep : Steps step s l t) :
    advance s.machine l.2 (s.phase l.1) = some (t.machine, t.phase l.1) ∧
      t.terminated = (t.phase l.1).isTerminated := by
  unfold Steps step at hstep
  split at hstep
  · cases hstep
  · obtain ⟨⟨m', p'⟩, hadvance, rfl⟩ := Option.map_eq_some_iff.mp hstep
    simp only [Function.update_self]
    exact ⟨hadvance, trivial⟩

/-- A step is that of a call in flight, or it makes the checks of an event. -/
theorem contained_step_cases
    (hmux : s.machine.mux_ = false)
    (hcontained : l.2.Contained)
    (hstep : Steps step s l t) :
    ((s.phase l.1).InFlight ∧ GoesOn s.machine (s.phase l.1) t.machine (t.phase l.1)) ∨
      l.2.IsCheck ∧ s.phase l.1 = .idle ∧ t.machine = s.machine ∧
        (t.phase l.1).isTerminated = false := by
  have hadvance := (step_advance hstep).1
  by_cases hflight : (s.phase l.1).InFlight
  · exact .inl ⟨hflight, goesOn_of_advance hmux hcontained hflight hadvance⟩
  · right
    have hcases := step_cases hmux hstep
    rcases hcases.check_or_inFlight with ⟨hmachine, event_i, sync_i, refused, thread, ha⟩ | h
    · rw [ha] at hcases ⊢
      rw [hmachine] at hcases ⊢
      generalize t.phase l.1 = p', s.phase l.1 = p at hcases ⊢
      cases hcases with
      | refused _ _ _ _ _ haccepts hp =>
          rcases hp with rfl | ⟨-, rfl⟩ <;> exact ⟨trivial, rfl, rfl, rfl⟩
      | accepted _ _ _ _ _ _ haccepts hp =>
          rcases hp with rfl | rfl | rfl <;> exact ⟨trivial, rfl, rfl, rfl⟩
      | moved _ _ _ _ _ hcheck => exact absurd trivial hcheck
    · exact absurd h hflight

theorem Settling.step
    (hsettling : Settling s)
    (hstep : Guarded (fun _ l _ => l.2.Contained) (Steps step) s l t) :
    Settling t := by
  obtain ⟨hcontained, hstep⟩ := hstep
  have hfree := ((step_cases hsettling.free hstep).frame hsettling.free).1
  have hterminated := (step_advance hstep).2
  rcases contained_step_cases hsettling.free hcontained hstep with
    ⟨hflight, hgoes⟩ | ⟨hcheck, hidle, hmachine, halive⟩
  · cases hgoes with
    | further hafter hrank hmachine =>
        have halive : t.terminated = false := by
          rw [hterminated]
          generalize t.phase l.1 = p' at hafter
          cases p' <;> first | rfl | exact hafter.elim
        rcases hmachine with hrunning | ⟨hmachine, hwaiting⟩
        · exact ⟨hfree, halive, fun _ => ⟨l.1, hrunning⟩, fun _ _ => ⟨l.1, hrunning⟩⟩
        · have hothers (h : ∃ i, (s.phase i).Running) : ∃ i, (t.phase i).Running := by
            obtain ⟨i, hi⟩ := h
            have hne : i ≠ l.1 := by
              rintro rfl
              exact hwaiting hi
            exact ⟨i, by rwa [phase_other hstep hne]⟩
          refine ⟨hfree, halive, fun h => ?_, fun hstate hobj => ?_⟩
          · rw [hmachine] at h
            exact hothers (hsettling.active h)
          · rw [hmachine] at hstate hobj
            exact hothers (hsettling.ended hstate hobj)
    | ended hphase hmachine =>
        refine ⟨hfree, ?_, fun h => ?_, fun hstate hobj => ?_⟩
        · rw [hterminated, hphase]
          rfl
        · rw [hmachine] at h
          cases h
        · rw [hmachine] at hstate hobj
          exact absurd (if_pos hstate) hobj
  · have hothers (h : ∃ i, (s.phase i).Running) : ∃ i, (t.phase i).Running := by
      obtain ⟨i, hi⟩ := h
      have hne : i ≠ l.1 := by
        rintro rfl
        rw [hidle] at hi
        exact hi.1
      exact ⟨i, by rwa [phase_other hstep hne]⟩
    refine ⟨hfree, hterminated.trans halive, fun h => ?_, fun hstate hobj => ?_⟩
    · rw [hmachine] at h
      exact hothers (hsettling.active h)
    · rw [hmachine] at hstate hobj
      exact hothers (hsettling.ended hstate hobj)

/-- The calls in a set, and no others, may be in flight. -/
def Within (s : System STATE EVENT HANDLER) (calls : Finset Nat) : Prop :=
  ∀ i, (s.phase i).InFlight → i ∈ calls

/-- The steps that the calls of a set can still take. -/
def System.work (s : System STATE EVENT HANDLER) (calls : Finset Nat) : Nat :=
  ∑ i ∈ calls, (s.phase i).rank

omit [DecidableEq STATE] [DecidableEq EVENT] [EnumClass STATE] in
theorem System.work_le
    (s : System STATE EVENT HANDLER) (calls : Finset Nat) :
    s.work calls ≤ 10 * calls.card := by
  rw [Nat.mul_comm]
  exact Finset.sum_le_card_nsmul _ _ _ fun i _ => Phase.rank_le _

/-- Behind a run only the calls that have taken steps are in flight. -/
theorem within_of_run
    {labels : List (Nat × Action EVENT)}
    (hrun : Run (Guarded (fun _ l _ => l.2.Contained) (Steps StateMachine.step)) s labels t)
    (hstill : ∀ i, ¬ (s.phase i).InFlight) :
    Within t (labels.map Prod.fst).toFinset := by
  induction hrun with
  | nil => exact fun i hi => absurd hi (hstill i)
  | snoc hrun hstep ih =>
      intro i hi
      rw [List.map_append, List.mem_toFinset, List.mem_append]
      rename_i l
      by_cases hne : i = l.1
      · exact .inr (by rw [hne]; exact List.mem_singleton_self _)
      · rw [phase_other hstep.2 hne] at hi
        exact .inl (List.mem_toFinset.mp (ih i hi))

/-- What holds while the calls that are in flight in `s` come to their ends. -/
structure Ending (s : System STATE EVENT HANDLER) (calls : Finset Nat)
    (t : System STATE EVENT HANDLER) : Prop where
  settling : Settling t
  within : Within t calls
  returned : ∀ i, (s.phase i).InFlight → (t.phase i).InFlight ∨ t.phase i = .returned true

/-- The steps that do not begin with another event. -/
abbrev EndStep :
    System STATE EVENT HANDLER → Nat × Action EVENT → System STATE EVENT HANDLER → Prop :=
  Guarded (fun _ l _ => l.2.Contained ∧ ¬ l.2.IsCheck) (Steps StateMachine.step)

variable {s₀ : System STATE EVENT HANDLER} {calls : Finset Nat}

theorem Ending.step
    (hending : Ending s₀ calls s)
    (hstep : EndStep s l t) :
    Ending s₀ calls t := by
  obtain ⟨⟨hcontained, hcheck⟩, hstep⟩ := hstep
  refine ⟨hending.settling.step ⟨hcontained, hstep⟩, fun i hi => ?_, fun i hi => ?_⟩
  all_goals
    rcases contained_step_cases hending.settling.free hcontained hstep with
      ⟨hflight, hgoes⟩ | ⟨h, -⟩
  · by_cases hne : i = l.1
    · rw [hne]
      exact hending.within l.1 hflight
    · rw [phase_other hstep hne] at hi
      exact hending.within i hi
  · exact absurd h hcheck
  · by_cases hne : i = l.1
    · rw [hne]
      cases hgoes with
      | further hafter => exact .inl hafter
      | ended hphase => exact .inr hphase
    · rw [phase_other hstep hne]
      exact hending.returned i hi
  · exact absurd h hcheck

theorem Ending.work_lt
    (hending : Ending s₀ calls s)
    (hstep : EndStep s l t) :
    t.work calls < s.work calls := by
  obtain ⟨⟨hcontained, hcheck⟩, hstep⟩ := hstep
  rcases contained_step_cases hending.settling.free hcontained hstep with
    ⟨hflight, hgoes⟩ | ⟨h, -⟩
  · have hlt : (t.phase l.1).rank < (s.phase l.1).rank := by
      cases hgoes with
      | further hafter hrank => exact hrank
      | ended hphase =>
          rw [hphase]
          generalize s.phase l.1 = p at hflight
          cases p with
          | accepted => exact Nat.le_of_ble_eq_true rfl
          | transition sync_i args place => cases place <;> exact Nat.le_of_ble_eq_true rfl
          | _ => exact hflight.elim
    refine Finset.sum_lt_sum (fun i _ => ?_) ⟨l.1, hending.within l.1 hflight, hlt⟩
    by_cases hne : i = l.1
    · rw [hne]
      exact hlt.le
    · rw [phase_other hstep hne]
  · exact absurd h hcheck

/-- A call in flight is not blocked by the others. -/
theorem exists_endStep
    (hsettling : Settling s)
    {i : Nat}
    (hflight : (s.phase i).InFlight) :
    ∃ a t, EndStep s (i, a) t := by
  obtain ⟨a, r, hcontained, hcheck, hadvance⟩ := exists_advance s.machine hflight
  have hstep : StateMachine.step s (i, a) = some
      { machine := r.1
        phase := Function.update s.phase i r.2
        terminated := r.2.isTerminated } := by
    rw [StateMachine.step, hsettling.alive, if_neg Bool.false_ne_true, hadvance]
    rfl
  exact ⟨a, _, ⟨hcontained, hcheck⟩, hstep⟩

/-- The calls in flight can be brought to their ends. -/
theorem Ending.exists_end
    (hending : Ending s₀ calls s) :
    ∃ more t, Run EndStep s more t ∧ ∀ l u, ¬ EndStep t l u := by
  generalize hn : s.work calls = n
  induction n using Nat.strong_induction_on generalizing s with
  | _ n ih =>
      by_cases hstuck : ∀ l u, ¬ EndStep s l u
      · exact ⟨[], s, .nil s, hstuck⟩
      · push Not at hstuck
        obtain ⟨l, u, hstep⟩ := hstuck
        have hlt := hending.work_lt hstep
        obtain ⟨more, t, hrun, hend⟩ := ih _ (hn ▸ hlt) (hending.step hstep) rfl
        exact ⟨l :: more, t, .cons hstep hrun, hend⟩

end System

section Theorem

variable [DecidableEq STATE] [DecidableEq EVENT] [EnumClass STATE] [EnumClass EVENT]
variable {s : System STATE EVENT HANDLER}

/-- **Without new events the machine comes to rest.** -/
theorem comes_to_rest
    {start_i end_i : STATE} {calls : List (Call STATE EVENT HANDLER)}
    {labels : List (Nat × Action EVENT)}
    (hstart : (after (init start_i end_i) calls).state_ ≠
      (after (init start_i end_i) calls).end_)
    (hrun : Run (Guarded (fun _ l _ => l.2.Contained) (Steps step))
      (System.ready (after (init start_i end_i) calls)) labels s) :
    (∀ i, (s.phase i).InFlight → ∃ a t, EndStep s (i, a) t) ∧
    (∃ more t, Run EndStep s more t ∧ ∀ l u, ¬ EndStep t l u) ∧
    ∀ more t, Run EndStep s more t →
      more.length ≤ 10 * labels.length ∧
      ((∀ l u, ¬ EndStep t l u) →
        AtRest t ∧ ∀ i, (s.phase i).InFlight → t.phase i = .returned true) := by
  have hidle : Idle (after (init start_i end_i) calls) :=
    idle_after (idle_init start_i end_i) calls
  have hready : Settling (System.ready (after (init start_i end_i) calls)) :=
    { free := hidle.free
      alive := rfl
      active := fun h => absurd (hidle.inactive.symm.trans h) (by decide)
      ended := fun h => absurd h hstart }
  have hsettling : Settling s := hrun.invariant Settling Settling.step hready
  have hwithin := within_of_run hrun fun _ => id
  have hending : Ending s (labels.map Prod.fst).toFinset s :=
    ⟨hsettling, hwithin, fun _ hi => .inl hi⟩
  refine ⟨fun i hi => exists_endStep hsettling hi, hending.exists_end,
    fun more t hmore => ⟨?_, fun hstuck => ?_⟩⟩
  · have hlength := hmore.length_add_le (Ending s (labels.map Prod.fst).toFinset)
      (·.work (labels.map Prod.fst).toFinset) Ending.step Ending.work_lt hending
    have hwork := s.work_le (labels.map Prod.fst).toFinset
    have hcard := List.toFinset_card_le (labels.map Prod.fst)
    rw [List.length_map] at hcard
    omega
  · have hafter := hmore.invariant (Ending s (labels.map Prod.fst).toFinset) Ending.step hending
    have hstill (i : Nat) : ¬ (t.phase i).InFlight := by
      intro hi
      obtain ⟨a, u, hstep⟩ := exists_endStep hafter.settling hi
      exact hstuck (i, a) u hstep
    exact ⟨hafter.settling.atRest hstill,
      fun i hi => (hafter.returned i hi).resolve_left (hstill i)⟩

end Theorem

/-- Two transitions are executed at the same time, and both of them end. -/
theorem comes_to_rest_two :
    ∃ (s t : System CheckState CheckEvent Unit) (more : List (Nat × Action CheckEvent)),
      Run (Steps step) checkSystem [(0, trigger .Event), (1, trigger .Quit)] s ∧
      Run EndStep s more t ∧ more.length ≤ 20 ∧ AtRest t ∧
      t.phase 0 = .returned true ∧ t.phase 1 = .returned true := by
  obtain ⟨s, hrun, hfirst, hsecond⟩ : ∃ s : System CheckState CheckEvent Unit,
      Run (Steps step) checkSystem [(0, trigger .Event), (1, trigger .Quit)] s ∧
      (s.phase 0).InFlight ∧ (s.phase 1).InFlight := by
    refine ⟨_, run_of_exec rfl, ?_, ?_⟩
    · exact trivial
    · exact trivial
  have hcontained : Run (Guarded (fun _ l _ => l.2.Contained) (Steps step)) checkSystem
      [(0, trigger .Event), (1, trigger .Quit)] s :=
    hrun.guarded (by simp [trigger, Action.Contained])
  obtain ⟨-, ⟨more, t, hmore, hend⟩, hall⟩ := comes_to_rest (by decide) hcontained
  obtain ⟨hlength, hrest⟩ := hall more t hmore
  obtain ⟨hatRest, hreturned⟩ := hrest hend
  exact ⟨s, t, more, hrun, hmore, hlength, hatRest, hreturned 0 hfirst, hreturned 1 hsecond⟩

end StateMachine
end Bren
end Brenlib
