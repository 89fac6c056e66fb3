import Brenlib.Bren.StateMachineThreads

/-!
# A call that is not interrupted

When one call takes all the steps, the threads execute the code of a synchronous
event from its beginning to its end: the steps of the call lead to the machine that
`transition_` and `event` compute.

* `solo_transition`: the steps from the start of `transition_`.
* `solo_event`: a synchronous event as a run of the threads.
-/

namespace Brenlib
namespace Bren
namespace StateMachine

open TransitionSystem

variable {STATE EVENT HANDLER : Type}
variable [DecidableEq STATE] [DecidableEq EVENT] [EnumClass STATE]

section Solo

variable {m m₁ m₂ : StateMachine STATE EVENT HANDLER}
variable {p p₁ p₂ : Phase STATE EVENT}

/-- Steps of one call behind its checks, which lead from one phase to another. -/
def Solo (m : StateMachine STATE EVENT HANDLER) (p : Phase STATE EVENT)
    (m₁ : StateMachine STATE EVENT HANDLER) (p₁ : Phase STATE EVENT) : Prop :=
  ∃ acts : List (Action EVENT), (∀ a ∈ acts, ¬ a.IsCheck) ∧
    ∀ (s : System STATE EVENT HANDLER) (i : Nat),
      Run (Steps step) (s.at i m p) (acts.map fun a => (i, a)) (s.at i m₁ p₁)

theorem Solo.step
    {a : Action EVENT}
    (hcheck : ¬ a.IsCheck)
    (hadvance : advance m a p = some (m₁, p₁))
    (halive : p₁.isTerminated = false) :
    Solo m p m₁ p₁ := by
  refine ⟨[a], ?_, ?_⟩
  · intro b hb
    rw [List.mem_singleton.mp hb]
    exact hcheck
  · intro s i
    exact .single (step_at hadvance halive)

theorem Solo.trans
    (hfirst : Solo m p m₁ p₁)
    (hsecond : Solo m₁ p₁ m₂ p₂) :
    Solo m p m₂ p₂ := by
  obtain ⟨acts₁, hcheck₁, hrun₁⟩ := hfirst
  obtain ⟨acts₂, hcheck₂, hrun₂⟩ := hsecond
  refine ⟨acts₁ ++ acts₂, ?_, ?_⟩
  · intro a ha
    rcases List.mem_append.mp ha with ha | ha
    · exact hcheck₁ a ha
    · exact hcheck₂ a ha
  · intro s i
    rw [List.map_append]
    exact (hrun₁ s i).append (hrun₂ s i)

end Solo

section Sections

variable {m : StateMachine STATE EVENT HANDLER}

/-- The machine that `lockAndMove` leaves with the mutex held is the one behind the
locked section. -/
theorem solo_move
    (hmux : m.mux_ = false)
    (sync_i : Bool) (args : TransArgs STATE EVENT)
    (to_i : STATE) (answers : Nat → Bool) :
    ∃ m₁, m₁.mux_ = false ∧
      (lockAndMove .writes to_i (quiet answers)).run m =
        .ok () { m₁ with mux_ := true } ∧
      Solo m (.transition sync_i args (.changing to_i))
        m₁ (.transition sync_i args .changed) := by
  have hmove := moveTo_quiet_run to_i answers { m with mux_ := true }
  let m₁ : StateMachine STATE EVENT HANDLER :=
    { m.movedTo to_i (quiet answers) with mux_ := false }
  refine ⟨m₁, rfl, ?_, ?_⟩
  · rw [lockAndMove, run_bind_ok (log_writes_run m), run_bind_ok (lock_run hmux)]
    exact hmove
  · apply Solo.step (a := .change .writes .writes (quiet answers)) id ?_ rfl
    simp only [advance, log_writes_run, locked_run _ hmux, hmove]
    rfl

/-- The `try` block up to the change of the state. -/
theorem solo_change
    (hmux : m.mux_ = false)
    (outcomes : SyncOutcomes) (sync_i : Bool) (args : TransArgs STATE EVENT) :
    ∃ m₁, m₁.mux_ = false ∧
      (((change .calm outcomes.user args.from_i args.to_i args.onTrans_i).run m =
          .ok () { m₁ with mux_ := true } ∧
        Solo m (.transition sync_i args .initiated)
          m₁ (.transition sync_i args .changed)) ∨
      ∃ e, (change .calm outcomes.user args.from_i args.to_i args.onTrans_i).run m =
          .error e m₁ ∧
        Solo m (.transition sync_i args .initiated)
          m₁ (.transition sync_i args .caught)) := by
  cases hfun : args.onTrans_i with
  | none =>
      obtain ⟨m₁, hfree, hrun, hsolo⟩ :=
        solo_move hmux sync_i args args.to_i outcomes.observers
      refine ⟨m₁, hfree, .inl ⟨hrun, ?_⟩⟩
      have htest : Solo m (.transition sync_i args .initiated)
          m (.transition sync_i args (.changing args.to_i)) := by
        apply Solo.step (a := .testObj) id ?_ rfl
        simp only [advance, hfun]
      exact htest.trans hsolo
  | some f =>
      rcases m.obj_.eq_none_or_eq_some with hobj | ⟨o, hobj⟩
      · refine ⟨m, hmux, .inr ⟨⟨.runtimeError, noObject⟩, ?_, ?_⟩⟩
        · rw [change]
          exact run_bind_error (checkObj_run_none hobj) _
        · apply Solo.step (a := .testObj) id ?_ rfl
          simp only [advance, hfun, checkObj_run_none hobj]
      · let m₁ : StateMachine STATE EVENT HANDLER :=
          { m with called := m.called ++ [.onTrans f m.obj_] }
        have htest : Solo m (.transition sync_i args .initiated)
            m (.transition sync_i args (.objTested f)) := by
          apply Solo.step (a := .testObj) id ?_ rfl
          simp only [advance, hfun, checkObj_run hobj]
        have hstart : Solo m (.transition sync_i args (.objTested f))
            m₁ (.transition sync_i args .inOnTrans) :=
          Solo.step (a := .callOnTrans) id rfl rfl
        have hcall := callOnTrans_run f outcomes.onTrans m
        rw [change, run_bind_ok (checkObj_run hobj), SyncOutcomes.user]
        cases hresult : outcomes.onTrans with
        | throws e =>
            rw [hresult] at hcall
            refine ⟨m₁, hmux, .inr ⟨e, run_bind_error hcall _, ?_⟩⟩
            have hreturn : Solo m₁ (.transition sync_i args .inOnTrans)
                m₁ (.transition sync_i args .caught) :=
              Solo.step (a := .returnOnTrans (.throws e)) id rfl rfl
            exact (htest.trans hstart).trans hreturn
        | returns b =>
            rw [hresult] at hcall
            rw [run_bind_ok hcall]
            obtain ⟨m₂, hfree, hrun, hsolo⟩ :=
              solo_move (m := m₁) hmux sync_i args
                (if b then args.to_i else args.from_i) outcomes.observers
            have hreturn : Solo m₁ (.transition sync_i args .inOnTrans)
                m₁ (.transition sync_i args
                  (.changing (if b then args.to_i else args.from_i))) := by
              apply Solo.step (a := .returnOnTrans (.returns b)) id ?_ rfl
              cases b <;> rfl
            refine ⟨m₂, hfree, .inl ⟨?_, (htest.trans hstart).trans
              (hreturn.trans hsolo)⟩⟩
            cases b with
            | true => exact hrun
            | false => exact hrun

/-- The `try` block behind the change of the state. -/
theorem solo_arrive
    (hmux : m.mux_ = false)
    (outcomes : SyncOutcomes) (sync_i : Bool) (args : TransArgs STATE EVENT) :
    ∃ m₁, m₁.mux_ = false ∧
      (((arrive .calm outcomes.user args.inState_i).run m = .ok () m₁ ∧
        Solo m (.transition sync_i args .changed)
          m₁ (.transition sync_i args .ending)) ∨
      ∃ e, (arrive .calm outcomes.user args.inState_i).run m = .error e m₁ ∧
        Solo m (.transition sync_i args .changed)
          m₁ (.transition sync_i args .caught)) := by
  cases hfun : args.inState_i with
  | none =>
      refine ⟨m, hmux, .inl ⟨rfl, ?_⟩⟩
      apply Solo.step (a := .testObjAgain) id ?_ rfl
      simp only [advance, hfun]
  | some f =>
      rcases m.obj_.eq_none_or_eq_some with hobj | ⟨o, hobj⟩
      · refine ⟨m, hmux, .inr ⟨⟨.runtimeError, noObject⟩, ?_, ?_⟩⟩
        · rw [arrive]
          exact run_bind_error (checkObj_run_none hobj) _
        · apply Solo.step (a := .testObjAgain) id ?_ rfl
          simp only [advance, hfun, checkObj_run_none hobj]
      · let m₁ : StateMachine STATE EVENT HANDLER :=
          { m with called := m.called ++ [.inState f m.obj_] }
        have htest : Solo m (.transition sync_i args .changed)
            m (.transition sync_i args (.objTestedAgain f)) := by
          apply Solo.step (a := .testObjAgain) id ?_ rfl
          simp only [advance, hfun, checkObj_run hobj]
        have hstart : Solo m (.transition sync_i args (.objTestedAgain f))
            m₁ (.transition sync_i args .inInState) :=
          Solo.step (a := .callInState .writes) id rfl rfl
        refine ⟨m₁, hmux, ?_⟩
        rw [arrive_run_some hobj]
        cases outcomes.inState with
        | returns =>
            left
            have hreturn : Solo m₁ (.transition sync_i args .inInState)
                m₁ (.transition sync_i args .ending) :=
              Solo.step (a := .returnInState .returns) id rfl rfl
            exact ⟨rfl, (htest.trans hstart).trans hreturn⟩
        | throws e =>
            right
            have hreturn : Solo m₁ (.transition sync_i args .inInState)
                m₁ (.transition sync_i args .caught) :=
              Solo.step (a := .returnInState (.throws e)) id rfl rfl
            exact ⟨e, rfl, (htest.trans hstart).trans hreturn⟩

/-- The first section. -/
theorem solo_initiate
    (hmux : m.mux_ = false)
    (sync_i : Bool) (args : TransArgs STATE EVENT) :
    Solo m (.transition sync_i args .waiting)
      { m with active_ := true } (.transition sync_i args .initiated) := by
  apply Solo.step (a := .initiate .writes .writes) id ?_ rfl
  simp only [advance, locked_initiate_run _ hmux]

/-- The last section, with or without an exception before it. -/
theorem solo_release
    (hmux : m.mux_ = false)
    (sync_i : Bool) (args : TransArgs STATE EVENT) {place : Place STATE}
    (hplace : place = .caught ∨ place = .ending) :
    Solo m (.transition sync_i args place)
      (m.settled m.state_ m.called) (.returned true) := by
  apply Solo.step (a := .release .writes) id ?_ rfl
  rcases hplace with rfl | rfl
  · simp only [advance, log_writes_run, locked_release_run hmux, stateOf_ok]
  · simp only [advance, locked_release_run hmux, stateOf_ok]

/-- The `try` block with its handlers. -/
theorem solo_attempt
    (hmux : m.mux_ = false)
    (outcomes : SyncOutcomes) (sync_i : Bool) (args : TransArgs STATE EVENT) :
    ∃ m₁ place, m₁.mux_ = false ∧ (place = .caught ∨ place = .ending) ∧
      (tryCatch
          (do
            initiate LogOutcomes.calm.initiating
            unlock
            change .calm outcomes.user args.from_i args.to_i args.onTrans_i
            unlock
            arrive .calm outcomes.user args.inState_i)
          (fun _ => log LogOutcomes.calm.caught)).run { m with mux_ := true } =
        .ok () m₁ ∧
      Solo m (.transition sync_i args .waiting) m₁ (.transition sync_i args place) := by
  let m₀ : StateMachine STATE EVENT HANDLER := { m with active_ := true }
  have hstart : Solo m (.transition sync_i args .waiting)
      m₀ (.transition sync_i args .initiated) := solo_initiate hmux sync_i args
  have hinitiate :
      (initiate LogOutcomes.calm.initiating).run { m with mux_ := true } =
        .ok () { m₀ with mux_ := true } := rfl
  have hunlock : (unlock).run { m₀ with mux_ := true } = .ok () m₀ :=
    unlock_run_of_free hmux
  rw [run_tryCatch, run_bind_ok hinitiate, run_bind_ok hunlock]
  obtain ⟨m₁, hfree, ⟨hchange, hsolo⟩ | ⟨e, hchange, hsolo⟩⟩ :=
    solo_change (m := m₀) hmux outcomes sync_i args
  · rw [run_bind_ok hchange, run_bind_ok (unlock_run_of_free hfree)]
    obtain ⟨m₂, hfree', ⟨harrive, hsolo'⟩ | ⟨e, harrive, hsolo'⟩⟩ :=
      solo_arrive hfree outcomes sync_i args
    · refine ⟨m₂, .ending, hfree', .inr rfl, ?_, (hstart.trans hsolo).trans hsolo'⟩
      rw [harrive]
    · refine ⟨m₂, .caught, hfree', .inl rfl, ?_, (hstart.trans hsolo).trans hsolo'⟩
      rw [harrive]
      rfl
  · refine ⟨m₁, .caught, hfree, .inl rfl, ?_, hstart.trans hsolo⟩
    rw [run_bind_error hchange]
    rfl

/-- The steps of a call from the start of its transition lead to the machine that
`transition_` computes. -/
theorem solo_transition
    (hmux : m.mux_ = false)
    (outcomes : SyncOutcomes) (sync_i : Bool) (args : TransArgs STATE EVENT) :
    ∃ m', (transition_ .calm outcomes.user args.from_i args.to_i args.onTrans_i
          args.inState_i).run m = .ok () m' ∧
      Solo m (.transition sync_i args .waiting) m' (.returned true) := by
  obtain ⟨m₁, place, hfree, hplace, hattempt, hsolo⟩ :=
    solo_attempt hmux outcomes sync_i args
  refine ⟨m₁.settled m₁.state_ m₁.called, ?_,
    hsolo.trans (solo_release hfree sync_i args hplace)⟩
  rw [transition_, uniqueLock_run, run_bind_ok (lock_run hmux),
    run_bind_ok hattempt, run_bind_ok (lock_run hfree)]
  rfl

/-- A synchronous event is a run of the threads in which one call takes all the
steps. -/
theorem solo_event
    (hmux : m.mux_ = false)
    (outcomes : SyncOutcomes) (event_i : EVENT) (i : Nat) :
    ∃ labels b m', (event .calm outcomes.user event_i).run m = .ok b m' ∧
      (∀ l ∈ labels, l.1 = i) ∧
      Run (Steps step) (System.ready m) labels
        ((System.ready m).at i m' (.returned b)) := by
  have hready : System.ready m = (System.ready m).at i m .idle := by
    simp [System.ready, System.at]
  have hfirst (p : Phase STATE EVENT)
      (hadvance : advance m (.check event_i true .writes .starts) .idle = some (m, p))
      (halive : p.isTerminated = false) :
      Run (Steps step) (System.ready m) [(i, .check event_i true .writes .starts)]
        ((System.ready m).at i m p) := by
    rw [hready]
    have hstep := step_at (s := System.ready m) (i := i) hadvance halive
    simpa [System.at] using Run.single hstep
  rw [event, run_bind_ok (locked_check_calm event_i hmux)]
  cases haccepts : m.accepts event_i with
  | none =>
      refine ⟨_, false, m, rfl, ?_, hfirst _ ?_ rfl⟩
      · simp
      · simp only [advance, locked_check_run _ _ hmux, check_run, haccepts]
  | some dst =>
      obtain ⟨m', htransition, acts, -, hrun⟩ :=
        solo_transition hmux outcomes true (argsOf m event_i dst)
      have hchecked := hfirst (.accepted event_i dst) (by
        simp only [advance, locked_check_run _ _ hmux, check_run, haccepts, if_true]) rfl
      have hcalled : Steps step ((System.ready m).at i m (.accepted event_i dst))
          (i, .call)
          ((System.ready m).at i m (.transition true (argsOf m event_i dst) .waiting)) :=
        step_at rfl rfl
      refine ⟨_, true, m', ?_, ?_, (hchecked.snoc hcalled).append (hrun _ i)⟩
      · have hget :
            (get : Method STATE EVENT HANDLER _).run m = .ok m m := rfl
        have hrest := run_bind_ok htransition fun _ => pure true
        rw [run_bind_ok hget]
        exact hrest
      · intro l hl
        simp only [List.mem_append, List.mem_singleton, List.mem_map] at hl
        rcases hl with (rfl | rfl) | ⟨a, -, rfl⟩ <;> rfl

end Sections

end StateMachine
end Bren
end Brenlib
