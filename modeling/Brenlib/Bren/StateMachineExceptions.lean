import Brenlib.Bren.StateMachineEdges

/-!
# Exceptions of the user functions of a `StateMachine`

One thread calls the methods of a machine; every user function may throw, and so may
the logger.  The `try` block of `transition_` has parts with the mutex held and parts
without it, and the exit behind its handlers takes the mutex.

* `Request`: a call of a client, with what the code outside of the machine does in it.
* `Survives`: the event returns, and the machine can go on.
* `event_cases`: what an event does.
* `survives_iff_contained`: an event survives exactly when no exception is thrown while
  the mutex is held, and what is caught elsewhere can be logged.
* `blocked_run`: a machine that does not survive an event accepts no event again.
-/

namespace Brenlib
namespace Bren
namespace StateMachine

open TransitionSystem

variable {STATE EVENT HANDLER : Type}

section Requests

/-- A call of a client whose functions may throw. -/
inductive Request (STATE EVENT HANDLER : Type) where
  | transition (from_i : STATE) (event_i : EVENT) (to_i : STATE)
      (onTrans_i inState_i : Option FuncId)
  | obj (obj_i : Option HANDLER)
  | observe (func : FuncId) (result : ObserverOutcome)
  | nameEvent (event_i : EVENT) (name_i : Bytes)
  | nameState (state_i : STATE) (name_i : Bytes)
  | event (event_i : EVENT) (logs : LogOutcomes) (user : UserOutcomes)

variable [DecidableEq STATE] [DecidableEq EVENT]
variable [EnumClass STATE] [EnumClass EVENT]

/-- The method that a request executes. -/
def Request.method [Raising] : Request STATE EVENT HANDLER → Method STATE EVENT HANDLER Unit
  | .transition from_i event_i to_i onTrans_i inState_i =>
      StateMachine.transition from_i event_i to_i onTrans_i inState_i
  | .obj obj_i => StateMachine.obj obj_i
  | .observe func result => StateMachine.observe func result
  | .nameEvent event_i name_i => StateMachine.nameEvent event_i name_i
  | .nameState state_i name_i => StateMachine.nameState state_i name_i
  | .event event_i logs user => discard (StateMachine.event logs user event_i)

/-- A request as a step of the machine, whether it returns or throws. -/
def Requests [Raising] (m : StateMachine STATE EVENT HANDLER)
    (request : Request STATE EVENT HANDLER) (m' : StateMachine STATE EVENT HANDLER) :
    Prop :=
  stateOf (request.method.run m) = m'

/-- The event returns true, nobody holds the mutex, no transition is active, and the
machine accepts the next event that is registered. -/
def Survives (m : StateMachine STATE EVENT HANDLER) (logs : LogOutcomes)
    (user : UserOutcomes) (event_i : EVENT) : Prop :=
  ∃ m', (event logs user event_i).run m = .ok true m' ∧
    m'.mux_ = false ∧ m'.active_ = false ∧
    (m'.state_ ≠ m'.end_ → ∀ next dst, m'.edge m'.state_ next = some dst →
      ∀ refused, (locked (check refused next)).run m' = .ok (some dst) m')

end Requests

section Events

variable [DecidableEq STATE] [DecidableEq EVENT] [EnumClass STATE]
variable {m m' : StateMachine STATE EVENT HANDLER}
variable {logs : LogOutcomes} {user : UserOutcomes} {event_i : EVENT}

/-- What an event does, when the logger and the user functions may throw. -/
inductive EventCases (m : StateMachine STATE EVENT HANDLER) (logs : LogOutcomes)
    (user : UserOutcomes) (event_i : EVENT) :
    EStateM.Result StdException (StateMachine STATE EVENT HANDLER) Bool → Prop
  | refused
      (hnone : m.accepts event_i = none) :
      EventCases m logs user event_i (.ok false m)
  | noLine
      (hnone : m.accepts event_i = none) :
      EventCases m logs user event_i (.error noStream m)
  | ended
      (dst : TransTarget STATE)
      (haccepts : m.accepts event_i = some dst)
      (hcontained : m.Contained logs user dst) :
      EventCases m logs user event_i
        (.ok true (m.settled (m.destination logs user dst)
          (m.called ++ m.transitionCalls logs user dst)))
  | escaped
      (dst : TransTarget STATE)
      (e : StdException) (m' : StateMachine STATE EVENT HANDLER)
      (haccepts : m.accepts event_i = some dst)
      (hnot : ¬ m.Contained logs user dst)
      (hmux : m'.mux_ = false)
      (hactive : m'.active_ = true) :
      EventCases m logs user event_i (.error e m')

theorem event_cases
    (hmux : m.mux_ = false)
    (logs : LogOutcomes) (user : UserOutcomes) (event_i : EVENT) :
    EventCases m logs user event_i ((event logs user event_i).run m) := by
  have hcheck := locked_check_run logs.refused event_i hmux
  rw [check_run] at hcheck
  cases haccepts : m.accepts event_i with
  | none =>
      simp only [haccepts] at hcheck
      cases hlog : logs.refused with
      | writes =>
          simp only [hlog] at hcheck
          rw [event, hlog, run_bind_ok hcheck]
          exact .refused haccepts
      | throws =>
          simp only [hlog] at hcheck
          rw [event, hlog, run_bind_error hcheck]
          exact .noLine haccepts
  | some dst =>
      simp only [haccepts] at hcheck
      have hget : (get : Method STATE EVENT HANDLER _).run m = .ok m m := rfl
      have htransition := transition_run hmux logs user dst
      rw [event, run_bind_ok hcheck, run_bind_ok hget, EStateM.run_bind]
      generalize (transition_ logs user m.state_ dst.target dst.onTrans dst.inState).run m =
        r at htransition
      cases htransition with
      | ended hcontained =>
          exact .ended dst haccepts hcontained
      | escaped e m' hnot hmux' hactive =>
          exact .escaped dst e m' haccepts hnot hmux' hactive

omit [EnumClass STATE] in
/-- An idle machine accepts every event that has an edge. -/
theorem check_of_idle
    (hidle : Idle m)
    (hend : m.state_ ≠ m.end_)
    {next : EVENT} {dst : TransTarget STATE}
    (hedge : m.edge m.state_ next = some dst)
    (refused : LogOutcome) :
    (locked (check refused next)).run m = .ok (some dst) m := by
  have haccepts : m.accepts next = some dst := by
    rw [accepts, if_neg (by simp [hidle.inactive, hend]), hedge]
  rw [locked_check_run _ _ hidle.free, check_run, haccepts]

/-- An event of a machine whose mutex is free. -/
theorem survives_iff
    (hmux : m.mux_ = false)
    {dst : TransTarget STATE}
    (haccepts : m.accepts event_i = some dst)
    (logs : LogOutcomes) (user : UserOutcomes) :
    Survives m logs user event_i ↔ m.Contained logs user dst := by
  have hcases := event_cases hmux logs user event_i
  rw [Survives]
  generalize (event logs user event_i).run m = r at hcases
  cases hcases with
  | refused hnone =>
      cases haccepts.symm.trans hnone
  | noLine hnone =>
      cases haccepts.symm.trans hnone
  | ended dst' haccepts' hcontained =>
      obtain rfl := Option.some.inj (haccepts.symm.trans haccepts')
      refine ⟨fun _ => hcontained, fun _ => ⟨_, rfl, rfl, rfl, ?_⟩⟩
      intro hend next dst' hedge refused
      exact check_of_idle ⟨rfl, rfl⟩ hend hedge refused
  | escaped dst' e m' haccepts' hnot hmux' hactive =>
      obtain rfl := Option.some.inj (haccepts.symm.trans haccepts')
      constructor
      · rintro ⟨m'', hrun, -⟩
        cases hrun
      · intro hcontained
        exact absurd hcontained hnot

end Events

section Runs

variable [DecidableEq STATE] [DecidableEq EVENT]
variable [EnumClass STATE] [EnumClass EVENT]
variable {m m' : StateMachine STATE EVENT HANDLER}
variable {request : Request STATE EVENT HANDLER}

/-- No request leaves the mutex held. -/
theorem Requests.free
    [Raising] (hmux : m.mux_ = false)
    (hstep : Requests m request m') :
    m'.mux_ = false := by
  rw [← hstep]
  cases request with
  | transition from_i event_i to_i onTrans_i inState_i =>
      exact congrArg mux_ (stateOf_locked _ hmux)
  | obj obj_i =>
      exact hmux
  | observe func result =>
      exact congrArg mux_ (stateOf_locked _ hmux)
  | nameEvent event_i name_i =>
      exact congrArg mux_ (stateOf_locked _ hmux)
  | nameState state_i name_i =>
      exact congrArg mux_ (stateOf_locked _ hmux)
  | event event_i logs user =>
      have hcases := event_cases hmux logs user event_i
      rw [Request.method, run_discard]
      generalize (event logs user event_i).run m = r at hcases
      cases hcases with
      | refused hnone =>
          exact hmux
      | noLine hnone =>
          exact hmux
      | ended dst haccepts hcontained =>
          rfl
      | escaped dst e m' haccepts hnot hmux' hactive =>
          exact hmux'

/-- **An exception never blocks the machine** exactly when it is contained: for every
machine behind any requests, and every event that it accepts. -/
theorem survives_iff_contained
    (start_i end_i : STATE)
    {requests : List (Request STATE EVENT HANDLER)}
    (hrun : Run Requests (init start_i end_i) requests m)
    {event_i : EVENT} {dst : TransTarget STATE}
    (haccepts : m.accepts event_i = some dst)
    (logs : LogOutcomes) (user : UserOutcomes) :
    Survives m logs user event_i ↔ m.Contained logs user dst :=
  survives_iff (hrun.invariant (mux_ · = false) Requests.free rfl) haccepts logs user

/-- A client that registers two transitions, one of them with a function, and an
observer. -/
def watchedRequests : List (Request CheckState CheckEvent Unit) :=
  [.transition .Start .Event .Inter none none,
    .transition .Start .Quit .End (some 1) none,
    .transition .Inter .Quit .End none none,
    .obj (some ()), .observe 2 (.returns true)]

/-- What the transition function throws is contained. -/
theorem survives_iff_contained_example :
    ∃ m, Run Requests (init CheckState.Start CheckState.End) watchedRequests m ∧
      (Survives m .calm ⟨.throws ⟨.unknown, ""⟩, fun _ => .returns true, .returns⟩ .Quit ↔
        m.Contained .calm ⟨.throws ⟨.unknown, ""⟩, fun _ => .returns true, .returns⟩
          ⟨.End, some 1, none⟩) := by
  have hrun : Run Requests (init CheckState.Start CheckState.End) watchedRequests _ :=
    run_foldl _ _ _
  exact ⟨_, hrun, survives_iff_contained .Start .End hrun rfl _ _⟩

/-- The observer throws when the state changes: `lock()` throws behind the handler, and
the machine stays active. -/
theorem throwing_observer_blocks :
    ∃ m m', Run Requests (init CheckState.Start CheckState.End) watchedRequests m ∧
      m.accepts .Event = some ⟨.Inter, none, none⟩ ∧
      (event .calm ⟨.returns true, fun _ => .throws ⟨.runtimeError, ""⟩, .returns⟩
          .Event).run m =
        .error ⟨.systemError, "Resource deadlock avoided"⟩ m' ∧
      m'.state_ = .Inter ∧ m'.active_ = true ∧ m'.accepts .Quit = none ∧
      ¬ Survives m .calm
        ⟨.returns true, fun _ => .throws ⟨.runtimeError, ""⟩, .returns⟩ .Event := by
  have hrun : Run Requests (init CheckState.Start CheckState.End) watchedRequests _ :=
    run_foldl _ _ _
  have herror :
      (event .calm ⟨.returns true, fun _ => .throws ⟨.runtimeError, ""⟩, .returns⟩
          .Event).run
        (watchedRequests.foldl (fun m request => stateOf (request.method.run m))
          (init CheckState.Start CheckState.End)) =
        .error ⟨.systemError, "Resource deadlock avoided"⟩ _ := rfl
  refine ⟨_, _, hrun, rfl, herror, rfl, rfl, rfl, ?_⟩
  rintro ⟨m', hevent, -⟩
  cases herror.symm.trans hevent

/-- A machine that takes itself to be executing a transition. -/
structure Blocked (m : StateMachine STATE EVENT HANDLER) : Prop where
  active : m.active_ = true
  free : m.mux_ = false

theorem Blocked.step
    (h : Blocked m)
    (hstep : Requests m request m') :
    Blocked m' := by
  refine ⟨?_, hstep.free h.free⟩
  rw [← hstep]
  have haside {m₁ : StateMachine STATE EVENT HANDLER} (haside : Aside m m₁) :
      m₁.active_ = true :=
    haside.active_.trans h.active
  cases request with
  | transition from_i event_i to_i onTrans_i inState_i =>
      refine haside (Aside.locked h.free ?_)
      simp [fcet, h.active, Aside.refl]
  | obj obj_i =>
      exact h.active
  | observe func result =>
      refine haside (Aside.locked h.free ?_)
      cases result with
      | throws e =>
          exact ⟨rfl, rfl, rfl, rfl, rfl, rfl⟩
      | returns b =>
          cases b <;> exact ⟨rfl, rfl, rfl, rfl, rfl, rfl⟩
  | nameEvent event_i name_i =>
      refine haside (aside_name events_ event_i name_i _ _ ?_ h.free)
      intro m
      constructor <;> rfl
  | nameState state_i name_i =>
      refine haside (aside_name states_ state_i name_i _ _ ?_ h.free)
      intro m
      constructor <;> rfl
  | event event_i logs user =>
      have hnone : m.accepts event_i = none := if_pos (.inl h.active)
      have hcases := event_cases h.free logs user event_i
      rw [Request.method, run_discard]
      generalize (event logs user event_i).run m = r at hcases
      cases hcases with
      | refused =>
          exact h.active
      | noLine =>
          exact h.active
      | ended dst haccepts =>
          cases hnone.symm.trans haccepts
      | escaped dst e m' haccepts =>
          cases hnone.symm.trans haccepts

/-- An exception that is not contained leaves the machine blocked for good: no later
request makes it accept an event again. -/
theorem blocked_run
    (hmux : m.mux_ = false)
    {event_i : EVENT} {dst : TransTarget STATE}
    (haccepts : m.accepts event_i = some dst)
    {logs : LogOutcomes} {user : UserOutcomes}
    (hnot : ¬ m.Contained logs user dst)
    {requests : List (Request STATE EVENT HANDLER)}
    (hrun : Run Requests (stateOf ((event logs user event_i).run m)) requests m')
    (next : EVENT) :
    m'.accepts next = none := by
  have hblocked : Blocked (stateOf ((event logs user event_i).run m)) := by
    have hcases := event_cases hmux logs user event_i
    generalize (event logs user event_i).run m = r at hcases
    cases hcases with
    | refused hnone =>
        cases haccepts.symm.trans hnone
    | noLine hnone =>
        cases haccepts.symm.trans hnone
    | ended dst' haccepts' hcontained =>
        obtain rfl := Option.some.inj (haccepts.symm.trans haccepts')
        exact absurd hcontained hnot
    | escaped dst' e m' haccepts' hnot' hmux' hactive =>
        exact ⟨hactive, hmux'⟩
  have hactive := (hrun.invariant Blocked Blocked.step hblocked).active
  exact if_pos (.inl hactive)

end Runs

end StateMachine
end Bren
end Brenlib
