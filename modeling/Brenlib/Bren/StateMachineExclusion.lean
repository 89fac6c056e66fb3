import Brenlib.Bren.StateMachineThreads

/-!
# One transition at a time

`active_` is tested under the mutex when an event is checked, and set when
`transition_` starts.  Between the two the mutex is free: a call that makes its
checks there finds `active_` false, and is refused only if its event has no edge.

* `Refuses`: a call that makes its checks while another one is in flight is
  refused.
* `Prompt`: a call makes its checks for a registered event only when every accepted
  call has set `active_`.
* `refuses_iff_prompt`: a run has the first property at all its steps exactly when
  it has the second.
-/

namespace Brenlib
namespace Bren
namespace StateMachine

open TransitionSystem

variable {STATE EVENT HANDLER : Type}

section Conditions

/-- A check that meets a call in flight is refused: `event()` returns false, or the
logger throws on the line about it. -/
def Refuses (s : System STATE EVENT HANDLER) (l : Nat × Action EVENT)
    (t : System STATE EVENT HANDLER) : Prop :=
  match l.2 with
  | .check _ _ refused _ =>
      (∃ j, (s.phase j).InFlight) →
        t.phase l.1 = .returned false ∨
          (refused = .throws ∧ t.phase l.1 = .threw noStream)
  | _ => True

variable [DecidableEq STATE] [DecidableEq EVENT]

/-- A check that meets a call which has not set `active_` yet is for an event
without an edge. -/
def Prompt (s : System STATE EVENT HANDLER) (l : Nat × Action EVENT)
    (_ : System STATE EVENT HANDLER) : Prop :=
  match l.2 with
  | .check event_i _ _ _ =>
      (∃ j, (s.phase j).Waiting) → s.machine.edge s.machine.state_ event_i = none
  | _ => True

/-- `active_` is set while a transition is executed, and not before. -/
structure Flagged (m : StateMachine STATE EVENT HANDLER) (p : Phase STATE EVENT) :
    Prop where
  running : p.Running → m.active_ = true
  waiting : p.Waiting → m.active_ = false

/-- At most one call is in flight, and `active_` says whether it has started. -/
structure OneAtATime (s : System STATE EVENT HANDLER) : Prop where
  free : s.machine.mux_ = false
  single : ∀ i j, (s.phase i).InFlight → (s.phase j).InFlight → i = j
  flagged : ∀ i, Flagged s.machine (s.phase i)

end Conditions

section Flags

variable {m m' : StateMachine STATE EVENT HANDLER} {a : Action EVENT}
variable {p p' : Phase STATE EVENT}

theorem flagged_out
    (hout : ¬ p.InFlight) :
    Flagged m p where
  running := fun h => absurd h.1 hout
  waiting := fun h => absurd h.inFlight hout

theorem flagged_waiting
    (hwaiting : p.Waiting)
    (hactive : m.active_ = false) :
    Flagged m p where
  running := fun h => absurd hwaiting h.2
  waiting := fun _ => hactive

theorem flagged_running
    (hwaiting : ¬ p.Waiting)
    (hactive : m.active_ = true) :
    Flagged m p where
  running := fun _ => hactive
  waiting := fun h => absurd h hwaiting

variable [DecidableEq STATE] [DecidableEq EVENT]

/-- The flag stays right for the call that takes a step. -/
theorem AdvanceCases.flagged
    (hcases : AdvanceCases m a p m' p')
    (hflag : Flagged m p) :
    Flagged m' p' := by
  cases hcases with
  | refused event_i sync_i refused thread _ haccepts hp =>
      apply flagged_out
      rcases hp with rfl | ⟨-, rfl⟩ <;> exact id
  | accepted event_i sync_i refused thread dst _ haccepts hp =>
      have hactive := (edge_of_accepts haccepts).1
      rcases hp with rfl | rfl | rfl
      · exact flagged_waiting trivial hactive
      · exact flagged_waiting trivial hactive
      · exact flagged_out id
  | called event_i dst =>
      exact flagged_waiting trivial (hflag.waiting trivial)
  | initiated initiating caught sync_i args _ hp =>
      rcases hp with rfl | ⟨e, rfl⟩
      · exact flagged_running id rfl
      · exact flagged_out (Phase.not_inFlight_escaped sync_i e)
  | moved a sync_i args place place' hcheck hplace =>
      have hbefore : (Phase.transition sync_i args place).Running := by
        refine ⟨trivial, ?_⟩
        cases hplace with
        | caught place hplace =>
            cases place <;> first | exact id | exact absurd rfl hplace
        | noFunction => exact id
        | tested => exact id
        | succeeded => exact id
        | failed => exact id
        | noInState => exact id
        | testedAgain => exact id
        | left => exact id
      have hactive := hflag.running hbefore
      cases hplace <;> exact flagged_running id hactive
  | startedOnTrans sync_i args f =>
      exact flagged_running id (hflag.running ⟨trivial, id⟩)
  | startedInState executing sync_i args f =>
      exact flagged_running id (hflag.running ⟨trivial, id⟩)
  | changed changing caught observers sync_i args to_i callbacks calls _ hcalls hp =>
      rcases hp with rfl | ⟨e, rfl⟩
      · exact flagged_running id (hflag.running ⟨trivial, id⟩)
      · exact flagged_out (Phase.not_inFlight_escaped sync_i e)
  | released => exact flagged_out id
  | lost caught sync_i args e =>
      exact flagged_out (Phase.not_inFlight_escaped sync_i e)

end Flags

section Runs

variable [DecidableEq STATE] [DecidableEq EVENT] [EnumClass STATE]
variable {s t : System STATE EVENT HANDLER} {l : Nat × Action EVENT}

/-- A call that is in flight behind its step has not met another one. -/
theorem OneAtATime.alone
    (hone : OneAtATime s)
    (hrefuses : Refuses s l t)
    (hstep : Steps step s l t)
    (hafter : (t.phase l.1).InFlight)
    {j : Nat} (hj : j ≠ l.1) :
    ¬ (s.phase j).InFlight := by
  intro hother
  have hcases := step_cases hone.free hstep
  rcases hcases.check_or_inFlight with ⟨-, event_i, sync_i, refused, thread, ha⟩ | hflight
  · unfold Refuses at hrefuses
    rw [ha] at hrefuses
    rcases hrefuses ⟨j, hother⟩ with hphase | ⟨-, hphase⟩
    · rw [hphase] at hafter
      exact hafter
    · rw [hphase] at hafter
      exact hafter
  · exact hj (hone.single j l.1 hother hflight)

/-- A step that refuses when it has to keeps one call in flight at most. -/
theorem OneAtATime.step
    (hone : OneAtATime s)
    (hrefuses : Refuses s l t)
    (hstep : Steps step s l t) :
    OneAtATime t where
  free := ((step_cases hone.free hstep).frame hone.free).1
  flagged :=
    step_keeps Flagged flagged_out AdvanceCases.flagged hone.free hone.single hstep
      hone.flagged
  single := by
    intro i j hi hj
    by_cases hil : i = l.1
    · by_cases hjl : j = l.1
      · rw [hil, hjl]
      · rw [phase_other hstep hjl] at hj
        rw [hil] at hi
        exact absurd hj (hone.alone hrefuses hstep hi hjl)
    · rw [phase_other hstep hil] at hi
      by_cases hjl : j = l.1
      · rw [hjl] at hj
        exact absurd hi (hone.alone hrefuses hstep hj hil)
      · rw [phase_other hstep hjl] at hj
        exact hone.single i j hi hj

/-- What the checks of an event do when they meet a call in flight. -/
theorem refuses_iff_prompt_step
    (hone : OneAtATime s)
    (hsealed : s.machine.graph.Sealed)
    (hstep : Steps step s l t) :
    Refuses s l t ↔ Prompt s l t := by
  have hcases := step_cases hone.free hstep
  unfold Refuses Prompt
  rcases l with ⟨i, a⟩
  cases a with
  | check event_i sync_i refused thread =>
      constructor
      · rintro hrefuses ⟨j, hwaiting⟩
        have hactive := (hone.flagged j).waiting hwaiting
        have hrefused := hrefuses ⟨j, hwaiting.inFlight⟩
        generalize t.machine = m', s.phase i = p, t.phase i = p' at hcases hrefused
        cases hcases with
        | refused _ _ _ _ _ haccepts hp =>
            by_cases hend : s.machine.state_ = s.machine.end_
            · rw [hend]
              exact hsealed event_i
            · rw [← haccepts, accepts, if_neg (by simp [hactive, hend])]
        | accepted _ _ _ _ dst _ haccepts hp =>
            rcases hp with rfl | rfl | rfl
            · rcases hrefused with h | ⟨-, h⟩ <;> cases h
            · rcases hrefused with h | ⟨-, h⟩ <;> cases h
            · rcases hrefused with h | ⟨-, h⟩
              · cases h
              · exact absurd (Phase.threw.inj h) (by decide)
        | moved _ _ _ _ _ hcheck => exact absurd trivial hcheck
      · rintro hprompt ⟨j, hflight⟩
        generalize t.machine = m', s.phase i = p, t.phase i = p' at hcases ⊢
        cases hcases with
        | refused _ _ _ _ _ haccepts hp =>
            exact hp
        | accepted _ _ _ _ dst _ haccepts hp =>
            obtain ⟨hactive, -, hedge⟩ := edge_of_accepts haccepts
            by_cases hwaiting : (s.phase j).Waiting
            · rw [hprompt ⟨j, hwaiting⟩] at hedge
              cases hedge
            · have hrunning := (hone.flagged j).running ⟨hflight, hwaiting⟩
              rw [hactive] at hrunning
              cases hrunning
        | moved _ _ _ _ _ hcheck => exact absurd trivial hcheck
  | call => exact Iff.rfl
  | initiate => exact Iff.rfl
  | testObj => exact Iff.rfl
  | callOnTrans => exact Iff.rfl
  | returnOnTrans => exact Iff.rfl
  | change => exact Iff.rfl
  | testObjAgain => exact Iff.rfl
  | callInState => exact Iff.rfl
  | returnInState => exact Iff.rfl
  | release => exact Iff.rfl

omit [EnumClass STATE] in
/-- The condition is about checks only. -/
theorem prompt_of_not_check
    (hcheck : ¬ l.2.IsCheck)
    (s t : System STATE EVENT HANDLER) :
    Prompt s l t := by
  rcases l with ⟨i, a⟩
  cases a with
  | check => exact absurd trivial hcheck
  | call => trivial
  | initiate => trivial
  | testObj => trivial
  | callOnTrans => trivial
  | returnOnTrans => trivial
  | change => trivial
  | testObjAgain => trivial
  | callInState => trivial
  | returnInState => trivial
  | release => trivial

/-- One call in flight at most, and no edge leaves the end state. -/
structure Exclusive (s : System STATE EVENT HANDLER) : Prop where
  one : OneAtATime s
  closed : s.machine.graph.Sealed

theorem Exclusive.step
    (hexclusive : Exclusive s)
    (hrefuses : Refuses s l t)
    (hstep : Steps step s l t) :
    Exclusive t where
  one := hexclusive.one.step hrefuses hstep
  closed := by
    have hcases := step_cases hexclusive.one.free hstep
    obtain ⟨-, hend, htrans⟩ := hcases.frame hexclusive.one.free
    rw [graph_update hend htrans]
    exact hexclusive.closed

theorem Exclusive.guarded_step
    (hexclusive : Exclusive s)
    (hstep : Guarded Refuses (Steps StateMachine.step) s l t) :
    Exclusive t :=
  hexclusive.step hstep.1 hstep.2

theorem Exclusive.prompt_step
    (hexclusive : Exclusive s)
    (hstep : Guarded Prompt (Steps StateMachine.step) s l t) :
    Exclusive t := by
  have hiff := refuses_iff_prompt_step hexclusive.one hexclusive.closed hstep.2
  exact hexclusive.step (hiff.mpr hstep.1) hstep.2

end Runs

section Theorem

variable [DecidableEq STATE] [DecidableEq EVENT] [EnumClass STATE] [EnumClass EVENT]

/-- A client has set the machine up, and no thread has triggered an event. -/
theorem exclusive_ready
    (start_i end_i : STATE) (calls : List (Call STATE EVENT HANDLER)) :
    Exclusive (System.ready (after (init start_i end_i) calls)) := by
  have hstart : Idle (init start_i end_i : StateMachine STATE EVENT HANDLER) :=
    idle_init start_i end_i
  have hsteps := after_steps hstart calls
  constructor
  · constructor
    · exact (idle_after hstart calls).free
    · intro i j hi
      exact hi.elim
    · intro i
      exact flagged_out id
  · exact hsteps.closed (sealed_init start_i end_i)

/-- Every call that meets another one in flight is refused exactly when no event
with an edge is checked while an accepted call has yet to set `active_`; then one
call is in flight at most. -/
theorem refuses_iff_prompt
    (start_i end_i : STATE) (calls : List (Call STATE EVENT HANDLER))
    (labels : List (Nat × Action EVENT)) (s : System STATE EVENT HANDLER) :
    let s₀ := System.ready (after (init start_i end_i) calls)
    (Run (Guarded Refuses (Steps step)) s₀ labels s ↔
      Run (Guarded Prompt (Steps step)) s₀ labels s) ∧
    (Run (Guarded Prompt (Steps step)) s₀ labels s →
      ∀ i j, (s.phase i).InFlight → (s.phase j).InFlight → i = j) := by
  intro s₀
  have hready : Exclusive s₀ := exclusive_ready start_i end_i calls
  refine ⟨⟨?_, ?_⟩, ?_⟩
  · intro hrun
    refine hrun.mono Exclusive Exclusive.guarded_step ?_ hready
    intro s l t hexclusive hstep
    have hiff := refuses_iff_prompt_step hexclusive.one hexclusive.closed hstep.2
    exact ⟨hiff.mp hstep.1, hstep.2⟩
  · intro hrun
    refine hrun.mono Exclusive Exclusive.prompt_step ?_ hready
    intro s l t hexclusive hstep
    have hiff := refuses_iff_prompt_step hexclusive.one hexclusive.closed hstep.2
    exact ⟨hiff.mpr hstep.1, hstep.2⟩
  · intro hrun
    exact (hrun.invariant Exclusive Exclusive.prompt_step hready).one.single

end Theorem

section CheckMachine

/-- The states of the machine that the check of the library builds. -/
inductive CheckState where
  | Start
  | Inter
  | End
deriving DecidableEq, Repr

/-- Its events. -/
inductive CheckEvent where
  | Event
  | Quit
deriving DecidableEq, Repr

instance : EnumClass CheckState where
  underlying
    | .Start => 0
    | .Inter => 1
    | .End => 2

instance : EnumClass CheckEvent where
  underlying
    | .Event => 0
    | .Quit => 1

/-- The transitions that `setUp()` of the check registers. -/
def checkSetUp : List (Call CheckState CheckEvent Unit) :=
  [.transition .Start .Event .Inter none none,
    .transition .Start .Quit .End none none,
    .transition .Inter .Quit .End none none]

/-- The machine of the check, before any event. -/
def checkSystem : System CheckState CheckEvent Unit :=
  System.ready (after (init .Start .End) checkSetUp)

/-- An asynchronous `event(event_i)` whose thread can be created. -/
def trigger (event_i : CheckEvent) : Action CheckEvent :=
  .check event_i false .writes .starts

/-- A second event is accepted before the thread of the first one has started. -/
theorem two_events_in_flight :
    ∃ s t : System CheckState CheckEvent Unit,
      Run (Steps step) checkSystem [(0, trigger .Event)] s ∧
      Steps step s (1, trigger .Quit) t ∧
      ¬ Refuses s (1, trigger .Quit) t ∧
      (t.phase 0).InFlight ∧ (t.phase 1).InFlight := by
  refine ⟨_, _, .single rfl, rfl, ?_, trivial, trivial⟩
  intro hrefuses
  rcases hrefuses ⟨0, trivial⟩ with h | ⟨h, -⟩
  · cases h
  · cases h

end CheckMachine

end StateMachine
end Bren
end Brenlib
