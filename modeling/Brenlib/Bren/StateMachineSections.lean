import Brenlib.Bren.StateMachine

/-!
# What the sections of a `StateMachine` transition do

A section that returns or throws leaves the members of the machine alone that it
is not about.  The lemmas say so with the machine behind the section written as
an update of the machine before it.

* `LoopCases`: what calling the observers does; `callLoop_run`: when none of them throws.
* `ChangeCases`, `ArriveCases`: the two parts of the `try` block of `transition_`, and
  `AttemptCases`: the block with its handlers.
* `transition_run`: what the whole transition does (`TransitionCases`); `run_transition_`:
  when neither the logger nor an observer throws.
* `check_run`: which edge an event is accepted for, and `event_run`: the whole
  event.
-/

namespace Brenlib
namespace Bren
namespace StateMachine

variable {STATE EVENT HANDLER : Type}

section Locking

variable {α : Type}

theorem lock_run
    {m : StateMachine STATE EVENT HANDLER}
    (h : m.mux_ = false) :
    (lock).run m = .ok () { m with mux_ := true } := by
  simp [lock, h]

theorem unlock_run
    {m : StateMachine STATE EVENT HANDLER}
    (h : m.mux_ = true) :
    (unlock).run m = .ok () { m with mux_ := false } := by
  simp [unlock, h]

theorem uniqueLock_run
    (body : Method STATE EVENT HANDLER α)
    (m : StateMachine STATE EVENT HANDLER) :
    (uniqueLock body).run m =
      match body.run m with
      | .ok a m' => .ok a { m' with mux_ := false }
      | .error e m' => .error e { m' with mux_ := false } := rfl

theorem locked_run
    (body : Method STATE EVENT HANDLER α)
    {m : StateMachine STATE EVENT HANDLER}
    (h : m.mux_ = false) :
    (locked body).run m =
      match body.run { m with mux_ := true } with
      | .ok a m' => .ok a { m' with mux_ := false }
      | .error e m' => .error e { m' with mux_ := false } := by
  rw [locked, uniqueLock_run, EStateM.run_bind, lock_run h]

theorem update_mux
    {m : StateMachine STATE EVENT HANDLER}
    (hmux : m.mux_ = false) :
    { m with mux_ := false } = m := by
  rw [← hmux]

/-- Giving the mutex back leads to the machine from before it was taken. -/
theorem unlock_run_of_free
    {m : StateMachine STATE EVENT HANDLER}
    (hmux : m.mux_ = false) :
    (unlock).run { m with mux_ := true } = .ok () m := by
  rw [unlock_run rfl]
  exact congrArg (EStateM.Result.ok ()) (update_mux hmux)

end Locking

section Functions

variable {m : StateMachine STATE EVENT HANDLER}

@[simp] theorem log_writes_run
    (m : StateMachine STATE EVENT HANDLER) :
    (log .writes).run m = .ok () m := rfl

@[simp] theorem log_throws_run
    (m : StateMachine STATE EVENT HANDLER) :
    (log .throws).run m = .error noStream m := rfl

/-- The first section sets `active_` before it logs. -/
theorem locked_initiate_run
    (initiating : LogOutcome)
    (hmux : m.mux_ = false) :
    (locked (initiate initiating)).run m =
      match initiating with
      | .writes => .ok () { m with active_ := true }
      | .throws => .error noStream { m with active_ := true } := by
  rw [locked_run _ hmux]
  cases initiating with
  | writes =>
      exact congrArg (fun b => EStateM.Result.ok ()
        { m with active_ := true, mux_ := b }) hmux.symm
  | throws =>
      exact congrArg (fun b => EStateM.Result.error noStream
        { m with active_ := true, mux_ := b }) hmux.symm

theorem checkObj_run
    {h : HANDLER}
    (hobj : m.obj_ = some h) :
    (checkObj).run m = .ok () m := by
  simp [checkObj, hobj]

theorem checkObj_run_none
    (hobj : m.obj_ = none) :
    (checkObj).run m = .error ⟨.runtimeError, noObject⟩ m := by
  simp [checkObj, fcet, hobj]

theorem callOnTrans_run
    (f : FuncId) (result : TransOutcome)
    (m : StateMachine STATE EVENT HANDLER) :
    (callOnTrans f result).run m =
      match result with
      | .returns b => .ok b { m with called := m.called ++ [.onTrans f m.obj_] }
      | .throws e => .error e { m with called := m.called ++ [.onTrans f m.obj_] } := by
  cases result <;> rfl

theorem callInState_run
    (f : FuncId) (result : StateOutcome)
    (m : StateMachine STATE EVENT HANDLER) :
    (callInState f result).run m =
      match result with
      | .returns => .ok () { m with called := m.called ++ [.inState f m.obj_] }
      | .throws e => .error e { m with called := m.called ++ [.inState f m.obj_] } := by
  cases result <;> rfl

end Functions

section Observers

variable [DecidableEq STATE] [EnumClass STATE]

/-- The answer of an observer that returns. -/
def ObserverOutcome.answer : ObserverOutcome → Bool
  | .returns b => b
  | .throws _ => false

/-- The observers that want to be called again, of those called from place `i` on. -/
def keeping (outcomes : Nat → ObserverOutcome) : Nat → List FuncId → List FuncId
  | _, [] => []
  | i, it :: next =>
      if ObserverOutcome.answer (outcomes i) then it :: keeping outcomes (i + 1) next
      else keeping outcomes (i + 1) next

/-- The calls of some observers in a state. -/
def observerCalls (m : StateMachine STATE EVENT HANDLER) (state : STATE)
    (observers : List FuncId) : List (UserCall STATE HANDLER) :=
  observers.map fun f => .observer f state (m.stateName state)

/-- No observer throws, of those called from place `i` on. -/
def AllReturn (outcomes : Nat → ObserverOutcome) (i : Nat) (next : List FuncId) : Prop :=
  ∀ j < next.length, ∃ b, outcomes (i + j) = .returns b

/-- What calling the observers `next` does: all of them return, or one throws. -/
inductive LoopCases (m : StateMachine STATE EVENT HANDLER)
    (outcomes : Nat → ObserverOutcome) (kept : List FuncId) (i : Nat)
    (next : List FuncId) :
    EStateM.Result StdException (StateMachine STATE EVENT HANDLER) Unit → Prop
  | returned
      (hreturn : AllReturn outcomes i next) :
      LoopCases m outcomes kept i next
        (.ok () { m with
          callbacks_ := kept ++ keeping outcomes i next
          called := m.called ++ m.observerCalls m.state_ next })
  | threw
      (e : StdException) (j : Nat)
      (callbacks : List FuncId) (calls : List (UserCall STATE HANDLER))
      (hj : j < next.length)
      (hthrow : outcomes (i + j) = .throws e)
      (hcalls : ∀ c ∈ calls, UserCall.IsObserver c) :
      LoopCases m outcomes kept i next
        (.error e { m with callbacks_ := callbacks, called := m.called ++ calls })

theorem isObserver_observerCalls
    (m : StateMachine STATE EVENT HANDLER) (state : STATE) (observers : List FuncId) :
    ∀ c ∈ m.observerCalls state observers, UserCall.IsObserver c := by
  intro c hc
  obtain ⟨f, -, rfl⟩ := List.mem_map.mp hc
  trivial

/-- Calling the first observer of a list, which returns. -/
theorem LoopCases.cons
    {m : StateMachine STATE EVENT HANDLER} {outcomes : Nat → ObserverOutcome}
    {kept kept' : List FuncId} {i : Nat} {it : FuncId} {next : List FuncId} {b : Bool}
    {r : EStateM.Result StdException (StateMachine STATE EVENT HANDLER) Unit}
    (houtcome : outcomes i = .returns b)
    (hkept : kept' ++ keeping outcomes (i + 1) next = kept ++ keeping outcomes i (it :: next))
    (callbacks : List FuncId)
    (hrest : LoopCases
      { m with
        callbacks_ := callbacks
        called := m.called ++ m.observerCalls m.state_ [it] }
      outcomes kept' (i + 1) next r) :
    LoopCases m outcomes kept i (it :: next) r := by
  cases hrest with
  | returned hreturn =>
      rw [hkept]
      have hall : AllReturn outcomes i (it :: next) := by
        intro j hj
        cases j with
        | zero =>
            exact ⟨b, houtcome⟩
        | succ j =>
            rw [← Nat.add_assoc, Nat.add_right_comm]
            exact hreturn j (Nat.lt_of_succ_lt_succ hj)
      have hcalls : m.called ++ m.observerCalls m.state_ [it] ++
          m.observerCalls m.state_ next = m.called ++ m.observerCalls m.state_ (it :: next) := by
        rw [List.append_assoc]
        rfl
      exact hcalls ▸ LoopCases.returned hall
  | threw e j callbacks' calls hj hthrow hcalls =>
      have hthrow' : outcomes (i + (j + 1)) = .throws e := by
        rw [← Nat.add_assoc, Nat.add_right_comm]
        exact hthrow
      have hall : ∀ c ∈ m.observerCalls m.state_ [it] ++ calls, UserCall.IsObserver c := by
        intro c hc
        rcases List.mem_append.mp hc with hc | hc
        · exact isObserver_observerCalls m _ _ c hc
        · exact hcalls c hc
      simp only [List.append_assoc]
      exact .threw e (j + 1) callbacks' _ (Nat.succ_lt_succ hj) hthrow' hall

/-- Calling the observers changes the callbacks and notes the calls, whether an
observer throws or not. -/
theorem callLoop_run
    (outcomes : Nat → ObserverOutcome) (kept : List FuncId) (i : Nat)
    (next : List FuncId) {m : StateMachine STATE EVENT HANDLER}
    (hcallbacks : m.callbacks_ = kept ++ next) :
    LoopCases m outcomes kept i next ((callLoop outcomes kept i next).run m) := by
  induction next generalizing kept i m with
  | nil =>
      have hm : m = { m with
          callbacks_ := kept ++ keeping outcomes i []
          called := m.called ++ m.observerCalls m.state_ [] } := by
        simp [keeping, observerCalls, ← hcallbacks]
      have hreturn : AllReturn outcomes i [] :=
        fun j hj => absurd hj (Nat.not_lt_zero j)
      have hdone : LoopCases m outcomes kept i [] (.ok () _) := .returned hreturn
      rw [← hm] at hdone
      exact hdone
  | cons it next ih =>
      let call : UserCall STATE HANDLER :=
        .observer it m.state_ (m.stateName m.state_)
      let m₁ : StateMachine STATE EVENT HANDLER :=
        { m with called := m.called ++ [call] }
      have hget : (get : Method STATE EVENT HANDLER _).run m = .ok m m := rfl
      have hrecord : (record call).run m = .ok () m₁ := rfl
      rw [callLoop, run_bind_ok hget, run_bind_ok hrecord]
      cases houtcome : outcomes i with
      | throws e =>
          exact .threw e 0 m.callbacks_ [call] (Nat.zero_lt_succ _) houtcome
            (isObserver_observerCalls m m.state_ [it])
      | returns b =>
          cases b with
          | true =>
              have hkept : kept ++ [it] ++ keeping outcomes (i + 1) next =
                  kept ++ keeping outcomes i (it :: next) := by
                simp [keeping, houtcome, ObserverOutcome.answer]
              have hcallbacks₁ : m₁.callbacks_ = kept ++ [it] ++ next := by
                rw [List.append_assoc]
                exact hcallbacks
              exact .cons houtcome hkept m.callbacks_ (ih (kept ++ [it]) (i + 1) hcallbacks₁)
          | false =>
              have hkept : kept ++ keeping outcomes (i + 1) next =
                  kept ++ keeping outcomes i (it :: next) := by
                simp [keeping, houtcome, ObserverOutcome.answer]
              let m₂ : StateMachine STATE EVENT HANDLER :=
                { m₁ with callbacks_ := kept ++ next }
              have hdrop :
                  (modify fun m => { m with callbacks_ := kept ++ next } :
                    Method STATE EVENT HANDLER _).run m₁ = .ok () m₂ := rfl
              rw [run_bind_ok hdrop]
              exact .cons houtcome hkept (kept ++ next) (ih (m := m₂) kept (i + 1) rfl)

/-- The machine behind the change of the state, when its observers return. -/
def movedTo (m : StateMachine STATE EVENT HANDLER) (to_i : STATE)
    (outcomes : Nat → ObserverOutcome) : StateMachine STATE EVENT HANDLER :=
  { m with
    state_ := to_i
    callbacks_ := keeping outcomes 0 m.callbacks_
    called := m.called ++ m.observerCalls to_i m.callbacks_ }

/-- What the change of the state does: it is made before an observer is called. -/
inductive MoveCases (m : StateMachine STATE EVENT HANDLER) (to_i : STATE)
    (outcomes : Nat → ObserverOutcome) :
    EStateM.Result StdException (StateMachine STATE EVENT HANDLER) Unit → Prop
  | moved
      (hreturn : AllReturn outcomes 0 m.callbacks_) :
      MoveCases m to_i outcomes (.ok () (m.movedTo to_i outcomes))
  | threw
      (e : StdException)
      (callbacks : List FuncId) (calls : List (UserCall STATE HANDLER))
      (hthrow : ¬ AllReturn outcomes 0 m.callbacks_)
      (hcalls : ∀ c ∈ calls, UserCall.IsObserver c) :
      MoveCases m to_i outcomes
        (.error e { m with
          state_ := to_i, callbacks_ := callbacks, called := m.called ++ calls })

/-- The change of the state under the mutex. -/
theorem moveTo_run
    (to_i : STATE) (outcomes : Nat → ObserverOutcome)
    (m : StateMachine STATE EVENT HANDLER) :
    MoveCases m to_i outcomes ((moveTo to_i outcomes).run m) := by
  have hloop := callLoop_run outcomes [] 0 m.callbacks_
    (m := { m with state_ := to_i }) rfl
  change MoveCases m to_i outcomes
    ((callLoop outcomes [] 0 m.callbacks_).run { m with state_ := to_i })
  generalize (callLoop outcomes [] 0 m.callbacks_).run { m with state_ := to_i } = r at hloop
  cases hloop with
  | returned hreturn =>
      exact .moved hreturn
  | threw e j callbacks calls hj hthrow hcalls =>
      refine .threw e callbacks calls ?_ hcalls
      intro hreturn
      obtain ⟨b, hb⟩ := hreturn j hj
      cases hb.symm.trans hthrow

/-- The section that changes the state does so before it calls an observer. -/
theorem locked_moveTo_run
    {m : StateMachine STATE EVENT HANDLER}
    (hmux : m.mux_ = false)
    (to_i : STATE) (outcomes : Nat → ObserverOutcome) :
    MoveCases m to_i outcomes ((locked (moveTo to_i outcomes)).run m) := by
  have hmove := moveTo_run to_i outcomes { m with mux_ := true }
  rw [locked_run _ hmux]
  generalize (moveTo to_i outcomes).run { m with mux_ := true } = r at hmove
  cases hmove with
  | moved hreturn =>
      have hm : { m.movedTo to_i outcomes with mux_ := false } = m.movedTo to_i outcomes :=
        update_mux hmux
      change MoveCases m to_i outcomes
        (.ok () { m.movedTo to_i outcomes with mux_ := false })
      rw [hm]
      exact .moved hreturn
  | threw e callbacks calls hthrow hcalls =>
      let m' : StateMachine STATE EVENT HANDLER :=
        { m with state_ := to_i, callbacks_ := callbacks, called := m.called ++ calls }
      have hm : { m' with mux_ := false } = m' := update_mux hmux
      change MoveCases m to_i outcomes (.error e { m' with mux_ := false })
      rw [hm]
      exact .threw e callbacks calls hthrow hcalls

/-- Observers that do not throw. -/
def quiet (answers : Nat → Bool) (i : Nat) : ObserverOutcome :=
  .returns (answers i)

omit [DecidableEq STATE] [EnumClass STATE] in
theorem allReturn_quiet
    (answers : Nat → Bool) (i : Nat) (next : List FuncId) :
    AllReturn (quiet answers) i next :=
  fun j _ => ⟨answers (i + j), rfl⟩

theorem moveTo_quiet_run
    (to_i : STATE) (answers : Nat → Bool)
    (m : StateMachine STATE EVENT HANDLER) :
    (moveTo to_i (quiet answers)).run m = .ok () (m.movedTo to_i (quiet answers)) := by
  have hmove := moveTo_run to_i (quiet answers) m
  generalize (moveTo to_i (quiet answers)).run m = r at hmove
  cases hmove with
  | moved hreturn =>
      rfl
  | threw e callbacks calls hthrow hcalls =>
      exact absurd (allReturn_quiet answers 0 _) hthrow

/-- What logging the change, taking the mutex and making the change does. -/
inductive LockedMoveCases (m : StateMachine STATE EVENT HANDLER) (changing : LogOutcome)
    (to_i : STATE) (outcomes : Nat → ObserverOutcome) :
    EStateM.Result StdException (StateMachine STATE EVENT HANDLER) Unit → Prop
  | noLine
      (hlog : changing = .throws) :
      LockedMoveCases m changing to_i outcomes (.error noStream m)
  | moved
      (hlog : changing = .writes)
      (hreturn : AllReturn outcomes 0 m.callbacks_) :
      LockedMoveCases m changing to_i outcomes
        (.ok () { m.movedTo to_i outcomes with mux_ := true })
  | threw
      (e : StdException) (m' : StateMachine STATE EVENT HANDLER)
      (hlog : changing = .writes)
      (hthrow : ¬ AllReturn outcomes 0 m.callbacks_)
      (hheld : m'.mux_ = true)
      (hactive : m'.active_ = m.active_) :
      LockedMoveCases m changing to_i outcomes (.error e m')

theorem lockAndMove_run
    {m : StateMachine STATE EVENT HANDLER}
    (hmux : m.mux_ = false)
    (changing : LogOutcome) (to_i : STATE) (outcomes : Nat → ObserverOutcome) :
    LockedMoveCases m changing to_i outcomes
      ((lockAndMove changing to_i outcomes).run m) := by
  cases changing with
  | throws =>
      exact .noLine rfl
  | writes =>
      have hmove := moveTo_run to_i outcomes { m with mux_ := true }
      rw [lockAndMove, run_bind_ok (log_writes_run m), run_bind_ok (lock_run hmux)]
      generalize (moveTo to_i outcomes).run { m with mux_ := true } = r at hmove
      cases hmove with
      | moved hreturn =>
          exact .moved rfl hreturn
      | threw e callbacks calls hthrow hcalls =>
          exact .threw e _ rfl hthrow rfl rfl

end Observers

section Transition

variable [DecidableEq STATE]

/-- Outcomes of the user functions of a transition whose observers do not throw. -/
structure SyncOutcomes where
  onTrans : TransOutcome
  observers : Nat → Bool
  inState : StateOutcome

/-- The outcomes in the form that the sections take. -/
def SyncOutcomes.user (outcomes : SyncOutcomes) : UserOutcomes where
  onTrans := outcomes.onTrans
  observers := quiet outcomes.observers
  inState := outcomes.inState

/-- The state that a transition along the edge `dst` leads to. -/
def nextState (m : StateMachine STATE EVENT HANDLER) (outcomes : SyncOutcomes)
    (dst : TransTarget STATE) : STATE :=
  if dst.onTrans = none ∨ (m.obj_ ≠ none ∧ outcomes.onTrans = .returns true) then
    dst.target
  else m.state_

/-- The function has returned, with either answer. -/
def TransOutcome.Returned : TransOutcome → Prop
  | .returns _ => True
  | .throws _ => False

instance : (result : TransOutcome) → Decidable (TransOutcome.Returned result)
  | .returns _ => isTrue trivial
  | .throws _ => isFalse id

/-- No exception is thrown ahead of the change of the state. -/
def ComesToChange (m : StateMachine STATE EVENT HANDLER) (logs : LogOutcomes)
    (user : UserOutcomes) (dst : TransTarget STATE) : Prop :=
  (dst.onTrans = none ∨ (m.obj_ ≠ none ∧ TransOutcome.Returned user.onTrans)) ∧
    logs.changing = .writes

instance (m : StateMachine STATE EVENT HANDLER) (logs : LogOutcomes)
    (user : UserOutcomes) (dst : TransTarget STATE) :
    Decidable (m.ComesToChange logs user dst) :=
  inferInstanceAs (Decidable ((_ ∨ _) ∧ _))

/-- No exception is thrown behind the change of the state. -/
def Arrives (m : StateMachine STATE EVENT HANDLER) (logs : LogOutcomes)
    (user : UserOutcomes) (dst : TransTarget STATE) : Prop :=
  dst.inState = none ∨
    (m.obj_ ≠ none ∧ logs.executing = .writes ∧ user.inState = .returns)

/-- The state behind a transition, when the logger may throw as well. -/
def destination (m : StateMachine STATE EVENT HANDLER) (logs : LogOutcomes)
    (user : UserOutcomes) (dst : TransTarget STATE) : STATE :=
  if m.ComesToChange logs user dst ∧ (dst.onTrans = none ∨ user.onTrans = .returns true) then
    dst.target
  else m.state_

/-- The call of the function of a transition. -/
def onTransCalls (m : StateMachine STATE EVENT HANDLER) (dst : TransTarget STATE) :
    List (UserCall STATE HANDLER) :=
  match dst.onTrans, m.obj_ with
  | some f, some h => [.onTrans f (some h)]
  | _, _ => []

/-- The call of the function of the state that a transition has led to. -/
def inStateCalls (m : StateMachine STATE EVENT HANDLER) (logs : LogOutcomes)
    (dst : TransTarget STATE) : List (UserCall STATE HANDLER) :=
  match dst.inState, m.obj_, logs.executing with
  | some f, some h, .writes => [.inState f (some h)]
  | _, _, _ => []

/-- The user functions that a transition calls, when no observer throws. -/
def transitionCalls [EnumClass STATE]
    (m : StateMachine STATE EVENT HANDLER) (logs : LogOutcomes) (user : UserOutcomes)
    (dst : TransTarget STATE) : List (UserCall STATE HANDLER) :=
  m.onTransCalls dst ++
    if m.ComesToChange logs user dst then
      m.observerCalls (m.destination logs user dst) m.callbacks_ ++ m.inStateCalls logs dst
    else []

/-- No exception is thrown while the mutex is held, and the handlers log what they have
caught. -/
structure Contained (m : StateMachine STATE EVENT HANDLER) (logs : LogOutcomes)
    (user : UserOutcomes) (dst : TransTarget STATE) : Prop where
  initiating : logs.initiating = .writes
  observers : m.ComesToChange logs user dst → AllReturn user.observers 0 m.callbacks_
  caught :
    ¬ (m.ComesToChange logs user dst ∧ m.Arrives logs user dst) → logs.caught = .writes

/-- The machine behind some calls of user functions. -/
def noted (m : StateMachine STATE EVENT HANDLER) (calls : List (UserCall STATE HANDLER)) :
    StateMachine STATE EVENT HANDLER :=
  { m with called := m.called ++ calls }

variable {m : StateMachine STATE EVENT HANDLER}
variable {logs : LogOutcomes} {user : UserOutcomes} {dst : TransTarget STATE}

omit [DecidableEq STATE] in
theorem noted_nil
    (m : StateMachine STATE EVENT HANDLER) :
    m.noted [] = m := by
  rw [noted, List.append_nil]

omit [DecidableEq STATE] in
/-- Without an exception of the logger, the two states are the same. -/
theorem nextState_eq
    (outcomes : SyncOutcomes) (dst : TransTarget STATE)
    (m : StateMachine STATE EVENT HANDLER) :
    m.nextState outcomes dst = m.destination .calm outcomes.user dst := by
  refine if_congr ?_ rfl rfl
  constructor
  · rintro (hnone | ⟨hobj, htrue⟩)
    · exact ⟨⟨.inl hnone, rfl⟩, .inl hnone⟩
    · refine ⟨⟨.inr ⟨hobj, ?_⟩, rfl⟩, .inr htrue⟩
      rw [SyncOutcomes.user, htrue]
      trivial
  · rintro ⟨⟨hnone | ⟨hobj, -⟩, -⟩, hnone' | htrue⟩
    · exact .inl hnone
    · exact .inl hnone
    · exact .inl hnone'
    · exact .inr ⟨hobj, htrue⟩

omit [DecidableEq STATE] in
theorem contained_calm
    (outcomes : SyncOutcomes) (dst : TransTarget STATE)
    (m : StateMachine STATE EVENT HANDLER) :
    m.Contained .calm outcomes.user dst :=
  ⟨rfl, fun _ => allReturn_quiet outcomes.observers 0 _, fun _ => rfl⟩

/-- What the `try` block does up to the change of the state: an exception ahead of the
change, or the change, or the exception of an observer, with the mutex held. -/
inductive ChangeCases [EnumClass STATE]
    (m : StateMachine STATE EVENT HANDLER) (logs : LogOutcomes)
    (user : UserOutcomes) (dst : TransTarget STATE) :
    EStateM.Result StdException (StateMachine STATE EVENT HANDLER) Unit → Prop
  | ahead
      (e : StdException)
      (hahead : ¬ m.ComesToChange logs user dst) :
      ChangeCases m logs user dst
        (.error e (m.noted (m.onTransCalls dst)))
  | moved
      (hcomes : m.ComesToChange logs user dst)
      (hreturn : AllReturn user.observers 0 m.callbacks_) :
      ChangeCases m logs user dst
        (.ok () { (m.noted (m.onTransCalls dst)).movedTo
            (m.destination logs user dst) user.observers with mux_ := true })
  | threw
      (e : StdException) (m' : StateMachine STATE EVENT HANDLER)
      (hcomes : m.ComesToChange logs user dst)
      (hthrow : ¬ AllReturn user.observers 0 m.callbacks_)
      (hheld : m'.mux_ = true)
      (hactive : m'.active_ = m.active_) :
      ChangeCases m logs user dst (.error e m')

/-- The function of the transition has returned, or there is none. -/
theorem ChangeCases.of_move
    [EnumClass STATE]
    {to_i : STATE}
    {r : EStateM.Result StdException (StateMachine STATE EVENT HANDLER) Unit}
    (hfun : dst.onTrans = none ∨ (m.obj_ ≠ none ∧ TransOutcome.Returned user.onTrans))
    (hto : to_i = if dst.onTrans = none ∨ user.onTrans = .returns true then dst.target
      else m.state_)
    (hmove : LockedMoveCases (m.noted (m.onTransCalls dst)) logs.changing to_i
      user.observers r) :
    ChangeCases m logs user dst r := by
  cases hmove with
  | noLine hlog =>
      refine .ahead noStream ?_
      rintro ⟨-, hwrites⟩
      cases hlog.symm.trans hwrites
  | moved hlog hreturn =>
      have hcomes : m.ComesToChange logs user dst := ⟨hfun, hlog⟩
      have hdest : to_i = m.destination logs user dst := by
        rw [hto]
        exact if_congr (by simp [hcomes]) rfl rfl
      rw [hdest]
      exact .moved hcomes hreturn
  | threw e m' hlog hthrow hheld hactive =>
      exact .threw e m' ⟨hfun, hlog⟩ hthrow hheld hactive

theorem change_run
    [EnumClass STATE]
    (hmux : m.mux_ = false)
    (logs : LogOutcomes) (user : UserOutcomes) (dst : TransTarget STATE) :
    ChangeCases m logs user dst
      ((change logs user m.state_ dst.target dst.onTrans).run m) := by
  cases hfun : dst.onTrans with
  | none =>
      have hcalls : m.onTransCalls dst = [] := by
        simp [onTransCalls, hfun]
      refine .of_move (.inl hfun) (if_pos (.inl hfun)).symm ?_
      rw [hcalls, noted_nil]
      exact lockAndMove_run hmux logs.changing dst.target user.observers
  | some f =>
      rcases m.obj_.eq_none_or_eq_some with hobj | ⟨h, hobj⟩
      · have hahead : ¬ m.ComesToChange logs user dst := by
          simp [ComesToChange, hfun, hobj]
        have hcalls : m.onTransCalls dst = [] := by
          simp [onTransCalls, hfun, hobj]
        have hthrow := ChangeCases.ahead ⟨.runtimeError, noObject⟩ hahead
        rw [hcalls, noted_nil] at hthrow
        rw [change, run_bind_error (checkObj_run_none hobj)]
        exact hthrow
      · have hcall := callOnTrans_run f user.onTrans m
        have hcalls : m.onTransCalls dst = [.onTrans f m.obj_] := by
          simp [onTransCalls, hfun, hobj]
        rw [← hcalls] at hcall
        rw [change, run_bind_ok (checkObj_run hobj)]
        cases hresult : user.onTrans with
        | throws e =>
            rw [hresult] at hcall
            rw [run_bind_error hcall]
            refine .ahead e ?_
            simp [ComesToChange, hfun, hresult, TransOutcome.Returned]
        | returns b =>
            have hreturned : m.obj_ ≠ none ∧ TransOutcome.Returned user.onTrans := by
              rw [hresult]
              exact ⟨by simp [hobj], trivial⟩
            rw [hresult] at hcall
            rw [run_bind_ok hcall]
            cases b with
            | true =>
                refine .of_move (.inr hreturned) (if_pos (.inr hresult)).symm ?_
                exact lockAndMove_run (m := m.noted (m.onTransCalls dst)) hmux _ _ _
            | false =>
                refine .of_move (.inr hreturned) (if_neg ?_).symm ?_
                · simp [hfun, hresult]
                · exact lockAndMove_run (m := m.noted (m.onTransCalls dst)) hmux _ _ _

omit [DecidableEq STATE] in
/-- An `inState` function is called with the object that the machine holds. -/
theorem arrive_run_some
    {h : HANDLER}
    (hobj : m.obj_ = some h)
    (outcomes : SyncOutcomes) (f : FuncId) :
    (arrive .calm outcomes.user (some f)).run m =
      match outcomes.inState with
      | .returns => .ok () { m with called := m.called ++ [.inState f m.obj_] }
      | .throws e => .error e { m with called := m.called ++ [.inState f m.obj_] } := by
  have hlog : (log LogOutcomes.calm.executing).run m = .ok () m := rfl
  rw [arrive, run_bind_ok (checkObj_run hobj), run_bind_ok hlog, SyncOutcomes.user]
  exact callInState_run f outcomes.inState m

/-- What the rest of the `try` block does: it calls the `inState` function, and changes no
member of the machine. -/
inductive ArriveCases (m : StateMachine STATE EVENT HANDLER) (logs : LogOutcomes)
    (user : UserOutcomes) (dst : TransTarget STATE) :
    EStateM.Result StdException (StateMachine STATE EVENT HANDLER) Unit → Prop
  | arrived
      (harrives : m.Arrives logs user dst) :
      ArriveCases m logs user dst
        (.ok () (m.noted (m.inStateCalls logs dst)))
  | threw
      (e : StdException)
      (hthrow : ¬ m.Arrives logs user dst) :
      ArriveCases m logs user dst
        (.error e (m.noted (m.inStateCalls logs dst)))

omit [DecidableEq STATE] in
theorem arrive_run
    (logs : LogOutcomes) (user : UserOutcomes) (dst : TransTarget STATE)
    (m : StateMachine STATE EVENT HANDLER) :
    ArriveCases m logs user dst ((arrive logs user dst.inState).run m) := by
  cases hfun : dst.inState with
  | none =>
      have hcalls : m.inStateCalls logs dst = [] := by
        simp [inStateCalls, hfun]
      have hdone : ArriveCases m logs user dst _ := .arrived (.inl hfun)
      rw [hcalls, noted_nil] at hdone
      exact hdone
  | some f =>
      rcases m.obj_.eq_none_or_eq_some with hobj | ⟨h, hobj⟩
      · have hthrow : ¬ m.Arrives logs user dst := by
          simp [Arrives, hfun, hobj]
        have hcalls : m.inStateCalls logs dst = [] := by
          simp [inStateCalls, hfun, hobj]
        have hdone := ArriveCases.threw ⟨.runtimeError, noObject⟩ hthrow
        rw [hcalls, noted_nil] at hdone
        rw [arrive, run_bind_error (checkObj_run_none hobj)]
        exact hdone
      · rw [arrive, run_bind_ok (checkObj_run hobj)]
        cases hlog : logs.executing with
        | throws =>
            have hthrow : ¬ m.Arrives logs user dst := by
              simp [Arrives, hfun, hlog]
            have hcalls : m.inStateCalls logs dst = [] := by
              simp [inStateCalls, hfun, hobj, hlog]
            have hdone := ArriveCases.threw noStream hthrow
            rw [hcalls, noted_nil] at hdone
            rw [run_bind_error (log_throws_run m)]
            exact hdone
        | writes =>
            have hcall := callInState_run f user.inState m
            have hcalls : m.inStateCalls logs dst = [.inState f m.obj_] := by
              simp [inStateCalls, hfun, hobj, hlog]
            rw [← hcalls] at hcall
            rw [run_bind_ok (log_writes_run m), hcall]
            cases hresult : user.inState with
            | returns =>
                exact .arrived (.inr ⟨by simp [hobj], hlog, hresult⟩)
            | throws e =>
                refine .threw e ?_
                simp [Arrives, hfun, hresult]

/-- The machine behind the `try` block of a transition to the state `next`. -/
def arrived (m : StateMachine STATE EVENT HANDLER) (next : STATE)
    (callbacks : List FuncId) (called : List (UserCall STATE HANDLER)) :
    StateMachine STATE EVENT HANDLER :=
  { m with
    state_ := next
    active_ := true
    callbacks_ := callbacks
    mux_ := false
    called := called }

/-- The machine behind a transition to the state `next`. -/
def settled (m : StateMachine STATE EVENT HANDLER) (next : STATE)
    (called : List (UserCall STATE HANDLER)) : StateMachine STATE EVENT HANDLER :=
  { m with
    state_ := next
    obj_ := if next = m.end_ then none else m.obj_
    active_ := false
    callbacks_ := []
    mux_ := false
    called := called }

/-- The last section. -/
theorem locked_release_run
    (hmux : m.mux_ = false) :
    (locked release).run m = .ok () (m.settled m.state_ m.called) := by
  rw [locked_run _ hmux]
  rfl

/-- What the `try` block and its handlers do.  With an exception that is not contained
they throw, or leave the machine with the mutex held. -/
inductive AttemptCases [EnumClass STATE]
    (m : StateMachine STATE EVENT HANDLER) (logs : LogOutcomes)
    (user : UserOutcomes) (dst : TransTarget STATE) :
    EStateM.Result StdException (StateMachine STATE EVENT HANDLER) Unit → Prop
  | done
      (callbacks : List FuncId)
      (hcontained : m.Contained logs user dst) :
      AttemptCases m logs user dst
        (.ok () (m.arrived (m.destination logs user dst) callbacks
          (m.called ++ m.transitionCalls logs user dst)))
  | held
      (m' : StateMachine STATE EVENT HANDLER)
      (hnot : ¬ m.Contained logs user dst)
      (hheld : m'.mux_ = true)
      (hactive : m'.active_ = true) :
      AttemptCases m logs user dst (.ok () m')
  | threw
      (e : StdException) (m' : StateMachine STATE EVENT HANDLER)
      (hnot : ¬ m.Contained logs user dst)
      (hactive : m'.active_ = true) :
      AttemptCases m logs user dst (.error e m')

/-- An exception under the mutex is not contained, whether it is logged or not. -/
theorem AttemptCases.of_held
    [EnumClass STATE]
    {m' : StateMachine STATE EVENT HANDLER}
    (hnot : ¬ m.Contained logs user dst)
    (hheld : m'.mux_ = true)
    (hactive : m'.active_ = true) :
    AttemptCases m logs user dst ((log logs.caught).run m') := by
  cases logs.caught with
  | writes =>
      exact .held m' hnot hheld hactive
  | throws =>
      exact .threw noStream m' hnot hactive

/-- An exception that is thrown while the mutex is free is contained if the handler logs
it. -/
theorem AttemptCases.of_caught
    [EnumClass STATE]
    (callbacks : List FuncId)
    (hinitiating : logs.initiating = .writes)
    (hobservers : m.ComesToChange logs user dst → AllReturn user.observers 0 m.callbacks_)
    (hthrow : ¬ (m.ComesToChange logs user dst ∧ m.Arrives logs user dst)) :
    AttemptCases m logs user dst
      ((log logs.caught).run (m.arrived (m.destination logs user dst) callbacks
        (m.called ++ m.transitionCalls logs user dst))) := by
  cases hlog : logs.caught with
  | writes =>
      exact .done callbacks ⟨hinitiating, hobservers, fun _ => hlog⟩
  | throws =>
      refine .threw noStream _ ?_ rfl
      intro h
      cases hlog.symm.trans (h.caught hthrow)

theorem attempt_run
    [EnumClass STATE]
    (logs : LogOutcomes) (user : UserOutcomes) (dst : TransTarget STATE)
    (m : StateMachine STATE EVENT HANDLER) :
    AttemptCases m logs user dst
      ((tryCatch
          (do
            initiate logs.initiating
            unlock
            change logs user m.state_ dst.target dst.onTrans
            unlock
            arrive logs user dst.inState)
          (fun _ => log logs.caught)).run { m with mux_ := true }) := by
  let m₁ : StateMachine STATE EVENT HANDLER :=
    { m with active_ := true, mux_ := false }
  have hunlock : (unlock).run { m₁ with mux_ := true } = .ok () m₁ := rfl
  rw [run_tryCatch]
  cases hinitiating : logs.initiating with
  | throws =>
      have hthrow :
          (initiate .throws).run { m with mux_ := true } =
            .error noStream { m₁ with mux_ := true } := rfl
      rw [run_bind_error hthrow]
      refine .of_held ?_ rfl rfl
      intro h
      cases hinitiating.symm.trans h.initiating
  | writes =>
      have hwrites :
          (initiate .writes).run { m with mux_ := true } =
            .ok () { m₁ with mux_ := true } := rfl
      have hchange := change_run (m := m₁) rfl logs user dst
      rw [run_bind_ok hwrites, run_bind_ok hunlock]
      change ChangeCases m₁ logs user dst
        ((change logs user m.state_ dst.target dst.onTrans).run m₁) at hchange
      generalize hr : (change logs user m.state_ dst.target dst.onTrans).run m₁ = r at hchange
      cases hchange with
      | ahead e hahead =>
          have hahead' : ¬ m.ComesToChange logs user dst := hahead
          have hcaught := AttemptCases.of_caught m.callbacks_ hinitiating
            (fun h => absurd h hahead') (fun h => hahead' h.1)
          have hcalls : m.transitionCalls logs user dst = m.onTransCalls dst := by
            rw [transitionCalls, if_neg hahead', List.append_nil]
          have hdest : m.destination logs user dst = m.state_ :=
            if_neg fun h => hahead' h.1
          rw [hcalls, hdest] at hcaught
          rw [run_bind_error hr]
          exact hcaught
      | threw e m' hcomes hthrow hheld hactive =>
          rw [run_bind_error hr]
          refine .of_held ?_ hheld hactive
          intro h
          exact hthrow (h.observers hcomes)
      | moved hcomes hreturn =>
          have hcomes' : m.ComesToChange logs user dst := hcomes
          let m₂ := m.arrived (m.destination logs user dst)
            (keeping user.observers 0 m.callbacks_)
            (m.called ++ m.onTransCalls dst ++
              m.observerCalls (m.destination logs user dst) m.callbacks_)
          have hmoved :
              (change logs user m.state_ dst.target dst.onTrans).run m₁ =
                .ok () { m₂ with mux_ := true } := hr
          have hback : (unlock).run { m₂ with mux_ := true } = .ok () m₂ := rfl
          have hcalls : m.called ++ m.transitionCalls logs user dst =
              m₂.called ++ m₂.inStateCalls logs dst := by
            rw [transitionCalls, if_pos hcomes', ← List.append_assoc, ← List.append_assoc]
            rfl
          have harrive := arrive_run logs user dst m₂
          rw [run_bind_ok hmoved, run_bind_ok hback]
          generalize (arrive logs user dst.inState).run m₂ = r' at harrive
          cases harrive with
          | arrived harrives =>
              have hdone := AttemptCases.done (m := m) (keeping user.observers 0 m.callbacks_)
                ⟨hinitiating, fun _ => hreturn, fun h => absurd ⟨hcomes', harrives⟩ h⟩
              rw [hcalls] at hdone
              exact hdone
          | threw e hthrow =>
              have hcaught := AttemptCases.of_caught (m := m)
                (keeping user.observers 0 m.callbacks_) hinitiating
                (fun _ => hreturn) (fun h => hthrow h.2)
              rw [hcalls] at hcaught
              exact hcaught

/-- What a transition does: it ends with the mutex free and the machine inactive, or an
exception leaves it and `active_` stays set. -/
inductive TransitionCases [EnumClass STATE]
    (m : StateMachine STATE EVENT HANDLER) (logs : LogOutcomes)
    (user : UserOutcomes) (dst : TransTarget STATE) :
    EStateM.Result StdException (StateMachine STATE EVENT HANDLER) Unit → Prop
  | ended
      (hcontained : m.Contained logs user dst) :
      TransitionCases m logs user dst
        (.ok () (m.settled (m.destination logs user dst)
          (m.called ++ m.transitionCalls logs user dst)))
  | escaped
      (e : StdException) (m' : StateMachine STATE EVENT HANDLER)
      (hnot : ¬ m.Contained logs user dst)
      (hmux : m'.mux_ = false)
      (hactive : m'.active_ = true) :
      TransitionCases m logs user dst (.error e m')

theorem transition_run
    [EnumClass STATE]
    (hmux : m.mux_ = false)
    (logs : LogOutcomes) (user : UserOutcomes) (dst : TransTarget STATE) :
    TransitionCases m logs user dst
      ((transition_ logs user m.state_ dst.target dst.onTrans dst.inState).run m) := by
  have hattempt := attempt_run logs user dst m
  rw [transition_, uniqueLock_run, run_bind_ok (lock_run hmux), EStateM.run_bind]
  generalize (tryCatch _ _ : Method STATE EVENT HANDLER Unit).run { m with mux_ := true } = r
    at hattempt
  cases hattempt with
  | done callbacks hcontained =>
      exact .ended hcontained
  | held m' hnot hheld hactive =>
      have hlock : (lock).run m' =
          .error ⟨.systemError, "Resource deadlock avoided"⟩ m' := by
        simp [lock, hheld]
      simp only [run_bind_error hlock]
      exact .escaped _ _ hnot rfl hactive
  | threw e m' hnot hactive =>
      exact .escaped e _ hnot rfl hactive

/-- A transition whose logger and observers do not throw leaves the machine
inactive and the mutex free. -/
theorem run_transition_
    [EnumClass STATE]
    (outcomes : SyncOutcomes) (dst : TransTarget STATE)
    (hmux : m.mux_ = false) :
    (transition_ .calm outcomes.user m.state_ dst.target dst.onTrans
        dst.inState).run m =
      .ok () (m.settled (m.nextState outcomes dst)
        (m.called ++ m.transitionCalls .calm outcomes.user dst)) := by
  have hcases := transition_run hmux .calm outcomes.user dst
  rw [nextState_eq]
  generalize (transition_ .calm outcomes.user m.state_ dst.target dst.onTrans
    dst.inState).run m = r at hcases
  cases hcases with
  | ended hcontained =>
      rfl
  | escaped e m' hnot hmux' hactive =>
      exact absurd (contained_calm outcomes dst m) hnot

end Transition

section Events

variable [DecidableEq STATE] [DecidableEq EVENT]
variable {m : StateMachine STATE EVENT HANDLER}

/-- The edge that an event is accepted for. -/
def accepts (m : StateMachine STATE EVENT HANDLER) (event_i : EVENT) :
    Option (TransTarget STATE) :=
  if m.active_ = true ∨ m.state_ = m.end_ then none else m.edge m.state_ event_i

/-- A refused event makes one line in the log. -/
theorem check_run
    (refused : LogOutcome) (event_i : EVENT)
    (m : StateMachine STATE EVENT HANDLER) :
    (check refused event_i).run m =
      match m.accepts event_i with
      | some dst => .ok (some dst) m
      | none =>
          match refused with
          | .writes => .ok none m
          | .throws => .error noStream m := by
  have hrefuse :
      (do log refused; return none : Method STATE EVENT HANDLER _).run m =
        match refused with
        | .writes => .ok (none : Option (TransTarget STATE)) m
        | .throws => .error noStream m := by
    cases refused <;> rfl
  rw [check, EStateM.run_bind, EStateM.run_get]
  by_cases hactive : m.active_ = true
  · simpa [accepts, hactive] using hrefuse
  by_cases hend : m.state_ = m.end_
  · simpa [accepts, hactive, hend] using hrefuse
  cases hsrc : m.trans_.lookup m.state_ with
  | none =>
      simpa [accepts, edge, hactive, hend, hsrc] using hrefuse
  | some src =>
      cases hdst : src.lookup event_i with
      | none =>
          simpa [accepts, edge, hactive, hend, hsrc, hdst] using hrefuse
      | some dst =>
          simp [accepts, edge, hactive, hend, hsrc, hdst]

/-- The mutex makes no difference to the checks. -/
theorem locked_check_run
    (refused : LogOutcome) (event_i : EVENT)
    (hmux : m.mux_ = false) :
    (locked (check refused event_i)).run m = (check refused event_i).run m := by
  have hm := update_mux hmux
  have haccepts :
      { m with mux_ := true }.accepts event_i = m.accepts event_i := rfl
  rw [locked_run _ hmux, check_run, check_run, haccepts]
  cases m.accepts event_i with
  | none =>
      cases refused with
      | writes =>
          exact congrArg (EStateM.Result.ok none) hm
      | throws =>
          exact congrArg (EStateM.Result.error noStream) hm
  | some dst =>
      exact congrArg (EStateM.Result.ok (some dst)) hm

/-- With a logger that writes, the checks return their answer. -/
theorem locked_check_calm
    (event_i : EVENT)
    (hmux : m.mux_ = false) :
    (locked (check LogOutcomes.calm.refused event_i)).run m =
      .ok (m.accepts event_i) m := by
  rw [locked_check_run _ _ hmux, check_run]
  cases m.accepts event_i <;> rfl

/-- An event is refused, or its transition is executed. -/
theorem event_run
    [EnumClass STATE]
    (outcomes : SyncOutcomes) (event_i : EVENT)
    (hmux : m.mux_ = false) :
    (event .calm outcomes.user event_i).run m =
      match m.accepts event_i with
      | none => .ok false m
      | some dst => .ok true (m.settled (m.nextState outcomes dst)
          (m.called ++ m.transitionCalls .calm outcomes.user dst)) := by
  rw [event, run_bind_ok (locked_check_calm event_i hmux)]
  cases m.accepts event_i with
  | none =>
      rfl
  | some dst =>
      have hget :
          (get : Method STATE EVENT HANDLER _).run m = .ok m m := rfl
      rw [run_bind_ok hget, run_bind_ok (run_transition_ outcomes dst hmux)]
      rfl

end Events

end StateMachine
end Bren
end Brenlib
