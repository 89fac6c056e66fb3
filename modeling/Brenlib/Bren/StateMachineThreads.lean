import Brenlib.Bren.StateMachineClient

/-!
# Threads that trigger events of one `StateMachine`

Any number of threads call `event()` on one machine, synchronously or not.  Every
section that is executed under the mutex is one step, and so is every part of
`transition_` between two sections: a test of the object, the start of a user
function, its return.  A call of `event()` has a number; its `Phase` says how far
it and its `transition_` have come.

An exception inside the `try` block that is thrown while the mutex is held leaves
`transition_`: the handler logs it, and `lck.lock()` throws behind the handler,
unless the log call has thrown already.  It reaches the caller of a synchronous
event; in a thread of its own it ends the process.

* `advance`: one step of one call.
* `step`: one step of the system, by the call that takes it.
* `passage`: what one step of a call sees and does; `Passage.cases` leaves out what it
  sees.
-/

namespace Brenlib
namespace Bren
namespace StateMachine

open TransitionSystem

/-- The arguments of `transition_`. -/
structure TransArgs (STATE EVENT : Type) where
  from_i : STATE
  event_i : EVENT
  to_i : STATE
  onTrans_i : Option FuncId
  inState_i : Option FuncId
deriving DecidableEq, Repr

/-- Where the execution of `transition_` stands. -/
inductive Place (STATE : Type) where
  | waiting
  | initiated
  | objTested (f : FuncId)
  | inOnTrans
  | changing (to_i : STATE)
  | changed
  | objTestedAgain (f : FuncId)
  | inInState
  | caught
  | ending
deriving DecidableEq, Repr

/-- How far a call of `event()` has come.  A synchronous call that is accepted has
yet to read the arguments of `transition_`. -/
inductive Phase (STATE EVENT : Type) where
  | idle
  | accepted (event_i : EVENT) (dst : TransTarget STATE)
  | transition (sync_i : Bool) (args : TransArgs STATE EVENT) (place : Place STATE)
  | returned (b : Bool)
  | threw (e : StdException)
  | terminated
deriving DecidableEq, Repr

/-- Outcome of the creation of a thread. -/
inductive ThreadOutcome where
  | starts
  | throws
deriving DecidableEq, Repr

/-- A step of a call, with what the code outside of the machine does in it. -/
inductive Action (EVENT : Type) where
  | check (event_i : EVENT) (sync_i : Bool) (refused : LogOutcome)
      (thread : ThreadOutcome)
  | call
  | initiate (initiating caught : LogOutcome)
  | testObj
  | callOnTrans
  | returnOnTrans (result : TransOutcome)
  | change (changing caught : LogOutcome) (observers : Nat → ObserverOutcome)
  | testObjAgain
  | callInState (executing : LogOutcome)
  | returnInState (result : StateOutcome)
  | release (caught : LogOutcome)

/-- The first step of a call. -/
def Action.IsCheck {EVENT : Type} : Action EVENT → Prop
  | .check _ _ _ _ => True
  | _ => False

namespace Phase

variable {STATE EVENT : Type}

/-- Between the acceptance of the event and the end of its transition. -/
def InFlight : Phase STATE EVENT → Prop
  | .accepted _ _ => True
  | .transition _ _ _ => True
  | _ => False

/-- Accepted, and `transition_` has not yet set `active_`. -/
def Waiting : Phase STATE EVENT → Prop
  | .accepted _ _ => True
  | .transition _ _ .waiting => True
  | _ => False

/-- `transition_` has set `active_` and has not ended. -/
def Running (p : Phase STATE EVENT) : Prop :=
  p.InFlight ∧ ¬ p.Waiting

/-- The process has ended. -/
def isTerminated : Phase STATE EVENT → Bool
  | .terminated => true
  | _ => false

/-- The event of a call in flight. -/
def event? : Phase STATE EVENT → Option EVENT
  | .accepted event_i _ => some event_i
  | .transition _ args _ => some args.event_i
  | _ => none

/-- A call that an exception leaves. -/
def escaped (sync_i : Bool) (e : StdException) : Phase STATE EVENT :=
  if sync_i then .threw e else .terminated

theorem Waiting.inFlight
    {p : Phase STATE EVENT}
    (h : p.Waiting) :
    p.InFlight := by
  cases p with
  | accepted => trivial
  | transition => trivial
  | idle => exact h.elim
  | returned => exact h.elim
  | threw => exact h.elim
  | terminated => exact h.elim

theorem not_inFlight_escaped
    (sync_i : Bool) (e : StdException) :
    ¬ (escaped sync_i e : Phase STATE EVENT).InFlight := by
  cases sync_i <;> exact id

end Phase

/-- The exception that leaves `transition_` after one thrown under the mutex. -/
def escaping (caught : LogOutcome) : StdException :=
  match caught with
  | .writes => ⟨.systemError, "Resource deadlock avoided"⟩
  | .throws => noStream

/-- The exception of a thread that could not be created. -/
def noThread : StdException :=
  ⟨.systemError, "Resource temporarily unavailable"⟩

section Steps

variable {STATE EVENT HANDLER : Type}
variable [DecidableEq STATE] [DecidableEq EVENT] [EnumClass STATE]

/-- The arguments that `event()` hands to `transition_`. -/
def argsOf (m : StateMachine STATE EVENT HANDLER) (event_i : EVENT)
    (dst : TransTarget STATE) : TransArgs STATE EVENT where
  from_i := m.state_
  event_i := event_i
  to_i := dst.target
  onTrans_i := dst.onTrans
  inState_i := dst.inState

/-- One step of a call, if it can take it: the new machine and the new phase. -/
def advance (m : StateMachine STATE EVENT HANDLER) :
    Action EVENT → Phase STATE EVENT →
      Option (StateMachine STATE EVENT HANDLER × Phase STATE EVENT)
  | .check event_i sync_i refused thread, .idle =>
      match (locked (check refused event_i)).run m with
      | .error e m' => some (m', .threw e)
      | .ok none m' => some (m', .returned false)
      | .ok (some dst) m' =>
          if sync_i then some (m', .accepted event_i dst)
          else
            match thread with
            | .starts =>
                some (m', .transition false (argsOf m' event_i dst) .waiting)
            | .throws => some (m', .threw noThread)
  | .call, .accepted event_i dst =>
      some (m, .transition true (argsOf m event_i dst) .waiting)
  | .initiate initiating caught, .transition sync_i args .waiting =>
      match (locked (initiate initiating)).run m with
      | .ok _ m' => some (m', .transition sync_i args .initiated)
      | .error _ m' => some (m', .escaped sync_i (escaping caught))
  | .testObj, .transition sync_i args .initiated =>
      match args.onTrans_i with
      | none => some (m, .transition sync_i args (.changing args.to_i))
      | some f =>
          match (checkObj).run m with
          | .ok _ m' => some (m', .transition sync_i args (.objTested f))
          | .error _ m' => some (m', .transition sync_i args .caught)
  | .callOnTrans, .transition sync_i args (.objTested f) =>
      some (stateOf ((record (.onTrans f m.obj_)).run m),
        .transition sync_i args .inOnTrans)
  | .returnOnTrans result, .transition sync_i args .inOnTrans =>
      match result with
      | .returns true => some (m, .transition sync_i args (.changing args.to_i))
      | .returns false => some (m, .transition sync_i args (.changing args.from_i))
      | .throws _ => some (m, .transition sync_i args .caught)
  | .change changing caught observers, .transition sync_i args (.changing to_i) =>
      match (log changing).run m with
      | .error _ m' => some (m', .transition sync_i args .caught)
      | .ok _ m' =>
          match (locked (moveTo to_i observers)).run m' with
          | .ok _ m'' => some (m'', .transition sync_i args .changed)
          | .error _ m'' => some (m'', .escaped sync_i (escaping caught))
  | .testObjAgain, .transition sync_i args .changed =>
      match args.inState_i with
      | none => some (m, .transition sync_i args .ending)
      | some f =>
          match (checkObj).run m with
          | .ok _ m' => some (m', .transition sync_i args (.objTestedAgain f))
          | .error _ m' => some (m', .transition sync_i args .caught)
  | .callInState executing, .transition sync_i args (.objTestedAgain f) =>
      match (log executing).run m with
      | .error _ m' => some (m', .transition sync_i args .caught)
      | .ok _ m' =>
          some (stateOf ((record (.inState f m'.obj_)).run m'),
            .transition sync_i args .inInState)
  | .returnInState result, .transition sync_i args .inInState =>
      match result with
      | .returns => some (m, .transition sync_i args .ending)
      | .throws _ => some (m, .transition sync_i args .caught)
  | .release caught, .transition sync_i _ .caught =>
      match (log caught).run m with
      | .error e m' => some (m', .escaped sync_i e)
      | .ok _ m' => some (stateOf ((locked release).run m'), .returned true)
  | .release _, .transition _ _ .ending =>
      some (stateOf ((locked release).run m), .returned true)
  | _, _ => none

/-- What one step of a call sees and decides, with the machine and the phase that it leads
to. -/
inductive Passage (m : StateMachine STATE EVENT HANDLER) :
    Action EVENT → Phase STATE EVENT →
      StateMachine STATE EVENT HANDLER → Phase STATE EVENT → Prop
  | refused
      (event_i : EVENT) (sync_i : Bool) (refused : LogOutcome)
      (thread : ThreadOutcome) (p' : Phase STATE EVENT)
      (haccepts : m.accepts event_i = none)
      (hp : p' = .returned false ∨ (refused = .throws ∧ p' = .threw noStream)) :
      Passage m (.check event_i sync_i refused thread) .idle m p'
  | accepted
      (event_i : EVENT) (sync_i : Bool) (refused : LogOutcome)
      (thread : ThreadOutcome) (dst : TransTarget STATE) (p' : Phase STATE EVENT)
      (haccepts : m.accepts event_i = some dst)
      (hp : p' = .accepted event_i dst ∨
        p' = .transition false (argsOf m event_i dst) .waiting ∨
        p' = .threw noThread) :
      Passage m (.check event_i sync_i refused thread) .idle m p'
  | called
      (event_i : EVENT) (dst : TransTarget STATE) :
      Passage m .call (.accepted event_i dst) m
        (.transition true (argsOf m event_i dst) .waiting)
  | initiated
      (initiating caught : LogOutcome) (sync_i : Bool) (args : TransArgs STATE EVENT)
      (p' : Phase STATE EVENT)
      (hp : p' = .transition sync_i args .initiated ∨ ∃ e, p' = .escaped sync_i e) :
      Passage m (.initiate initiating caught) (.transition sync_i args .waiting)
        { m with active_ := true } p'
  | noOnTrans
      (sync_i : Bool) (args : TransArgs STATE EVENT)
      (hnone : args.onTrans_i = none) :
      Passage m .testObj (.transition sync_i args .initiated) m
        (.transition sync_i args (.changing args.to_i))
  | onTransDue
      (sync_i : Bool) (args : TransArgs STATE EVENT) (f : FuncId)
      (hsome : args.onTrans_i = some f)
      (hobj : m.obj_ ≠ none) :
      Passage m .testObj (.transition sync_i args .initiated) m
        (.transition sync_i args (.objTested f))
  | noObject
      (sync_i : Bool) (args : TransArgs STATE EVENT) :
      Passage m .testObj (.transition sync_i args .initiated) m
        (.transition sync_i args .caught)
  | startedOnTrans
      (sync_i : Bool) (args : TransArgs STATE EVENT) (f : FuncId) :
      Passage m .callOnTrans (.transition sync_i args (.objTested f))
        { m with called := m.called ++ [.onTrans f m.obj_] }
        (.transition sync_i args .inOnTrans)
  | answered
      (sync_i : Bool) (args : TransArgs STATE EVENT) (b : Bool) :
      Passage m (.returnOnTrans (.returns b)) (.transition sync_i args .inOnTrans) m
        (.transition sync_i args (.changing (if b then args.to_i else args.from_i)))
  | onTransThrew
      (sync_i : Bool) (args : TransArgs STATE EVENT) (e : StdException) :
      Passage m (.returnOnTrans (.throws e)) (.transition sync_i args .inOnTrans) m
        (.transition sync_i args .caught)
  | unchanged
      (caught : LogOutcome) (observers : Nat → ObserverOutcome)
      (sync_i : Bool) (args : TransArgs STATE EVENT) (to_i : STATE) :
      Passage m (.change .throws caught observers)
        (.transition sync_i args (.changing to_i)) m
        (.transition sync_i args .caught)
  | changed
      (caught : LogOutcome) (observers : Nat → ObserverOutcome)
      (sync_i : Bool) (args : TransArgs STATE EVENT) (to_i : STATE)
      (callbacks : List FuncId) (calls : List (UserCall STATE HANDLER))
      (p' : Phase STATE EVENT)
      (hcalls : ∀ c ∈ calls, UserCall.IsObserver c)
      (hp : (AllReturn observers 0 m.callbacks_ ∧ p' = .transition sync_i args .changed) ∨
        (¬ AllReturn observers 0 m.callbacks_ ∧ ∃ e, p' = .escaped sync_i e)) :
      Passage m (.change .writes caught observers)
        (.transition sync_i args (.changing to_i))
        { m with
          state_ := to_i, callbacks_ := callbacks, called := m.called ++ calls }
        p'
  | noInState
      (sync_i : Bool) (args : TransArgs STATE EVENT)
      (hnone : args.inState_i = none) :
      Passage m .testObjAgain (.transition sync_i args .changed) m
        (.transition sync_i args .ending)
  | inStateDue
      (sync_i : Bool) (args : TransArgs STATE EVENT) (f : FuncId)
      (hsome : args.inState_i = some f)
      (hobj : m.obj_ ≠ none) :
      Passage m .testObjAgain (.transition sync_i args .changed) m
        (.transition sync_i args (.objTestedAgain f))
  | objectGone
      (sync_i : Bool) (args : TransArgs STATE EVENT)
      (hobj : m.obj_ = none) :
      Passage m .testObjAgain (.transition sync_i args .changed) m
        (.transition sync_i args .caught)
  | startedInState
      (sync_i : Bool) (args : TransArgs STATE EVENT) (f : FuncId) :
      Passage m (.callInState .writes) (.transition sync_i args (.objTestedAgain f))
        { m with called := m.called ++ [.inState f m.obj_] }
        (.transition sync_i args .inInState)
  | unstarted
      (sync_i : Bool) (args : TransArgs STATE EVENT) (f : FuncId) :
      Passage m (.callInState .throws) (.transition sync_i args (.objTestedAgain f)) m
        (.transition sync_i args .caught)
  | left
      (result : StateOutcome) (sync_i : Bool) (args : TransArgs STATE EVENT)
      (place : Place STATE)
      (hplace : place = .ending ∨ place = .caught) :
      Passage m (.returnInState result) (.transition sync_i args .inInState) m
        (.transition sync_i args place)
  | released
      (caught : LogOutcome) (sync_i : Bool) (args : TransArgs STATE EVENT)
      (place : Place STATE)
      (hplace : place = .caught ∨ place = .ending) :
      Passage m (.release caught) (.transition sync_i args place)
        (m.settled m.state_ m.called) (.returned true)
  | lost
      (caught : LogOutcome) (sync_i : Bool) (args : TransArgs STATE EVENT)
      (e : StdException) :
      Passage m (.release caught) (.transition sync_i args .caught) m
        (.escaped sync_i e)

/-- The steps inside `transition_` that leave the machine alone. -/
inductive PlaceStep (m : StateMachine STATE EVENT HANDLER)
    (args : TransArgs STATE EVENT) : Place STATE → Place STATE → Prop
  | noFunction :
      PlaceStep m args .initiated (.changing args.to_i)
  | tested
      (f : FuncId)
      (hobj : m.obj_ ≠ none) :
      PlaceStep m args .initiated (.objTested f)
  | succeeded :
      PlaceStep m args .inOnTrans (.changing args.to_i)
  | failed :
      PlaceStep m args .inOnTrans (.changing args.from_i)
  | noInState :
      PlaceStep m args .changed .ending
  | testedAgain
      (f : FuncId)
      (hobj : m.obj_ ≠ none) :
      PlaceStep m args .changed (.objTestedAgain f)
  | left :
      PlaceStep m args .inInState .ending
  | caught
      (place : Place STATE)
      (hplace : place ≠ .waiting) :
      PlaceStep m args place .caught

/-- What one step of a call can do. -/
inductive AdvanceCases (m : StateMachine STATE EVENT HANDLER) :
    Action EVENT → Phase STATE EVENT →
      StateMachine STATE EVENT HANDLER → Phase STATE EVENT → Prop
  | refused
      (event_i : EVENT) (sync_i : Bool) (refused : LogOutcome)
      (thread : ThreadOutcome) (p' : Phase STATE EVENT)
      (haccepts : m.accepts event_i = none)
      (hp : p' = .returned false ∨ (refused = .throws ∧ p' = .threw noStream)) :
      AdvanceCases m (.check event_i sync_i refused thread) .idle m p'
  | accepted
      (event_i : EVENT) (sync_i : Bool) (refused : LogOutcome)
      (thread : ThreadOutcome) (dst : TransTarget STATE) (p' : Phase STATE EVENT)
      (haccepts : m.accepts event_i = some dst)
      (hp : p' = .accepted event_i dst ∨
        p' = .transition false (argsOf m event_i dst) .waiting ∨
        p' = .threw noThread) :
      AdvanceCases m (.check event_i sync_i refused thread) .idle m p'
  | called
      (event_i : EVENT) (dst : TransTarget STATE) :
      AdvanceCases m .call (.accepted event_i dst) m
        (.transition true (argsOf m event_i dst) .waiting)
  | initiated
      (initiating caught : LogOutcome) (sync_i : Bool) (args : TransArgs STATE EVENT)
      (p' : Phase STATE EVENT)
      (hp : p' = .transition sync_i args .initiated ∨ ∃ e, p' = .escaped sync_i e) :
      AdvanceCases m (.initiate initiating caught) (.transition sync_i args .waiting)
        { m with active_ := true } p'
  | moved
      (a : Action EVENT) (sync_i : Bool) (args : TransArgs STATE EVENT)
      (place place' : Place STATE)
      (hcheck : ¬ a.IsCheck)
      (hplace : PlaceStep m args place place') :
      AdvanceCases m a (.transition sync_i args place) m
        (.transition sync_i args place')
  | startedOnTrans
      (sync_i : Bool) (args : TransArgs STATE EVENT) (f : FuncId) :
      AdvanceCases m .callOnTrans (.transition sync_i args (.objTested f))
        { m with called := m.called ++ [.onTrans f m.obj_] }
        (.transition sync_i args .inOnTrans)
  | startedInState
      (executing : LogOutcome) (sync_i : Bool) (args : TransArgs STATE EVENT)
      (f : FuncId) :
      AdvanceCases m (.callInState executing)
        (.transition sync_i args (.objTestedAgain f))
        { m with called := m.called ++ [.inState f m.obj_] }
        (.transition sync_i args .inInState)
  | changed
      (changing caught : LogOutcome) (observers : Nat → ObserverOutcome)
      (sync_i : Bool) (args : TransArgs STATE EVENT) (to_i : STATE)
      (callbacks : List FuncId) (calls : List (UserCall STATE HANDLER))
      (p' : Phase STATE EVENT)
      (hcalls : ∀ c ∈ calls, UserCall.IsObserver c)
      (hp : p' = .transition sync_i args .changed ∨ ∃ e, p' = .escaped sync_i e) :
      AdvanceCases m (.change changing caught observers)
        (.transition sync_i args (.changing to_i))
        { m with
          state_ := to_i, callbacks_ := callbacks, called := m.called ++ calls }
        p'
  | released
      (caught : LogOutcome) (sync_i : Bool) (args : TransArgs STATE EVENT)
      (place : Place STATE)
      (hplace : place = .caught ∨ place = .ending) :
      AdvanceCases m (.release caught) (.transition sync_i args place)
        (m.settled m.state_ m.called) (.returned true)
  | lost
      (caught : LogOutcome) (sync_i : Bool) (args : TransArgs STATE EVENT)
      (e : StdException) :
      AdvanceCases m (.release caught) (.transition sync_i args .caught) m
        (.escaped sync_i e)

/-- Every step of a call is one of these. -/
theorem passage
    {m m' : StateMachine STATE EVENT HANDLER} {a : Action EVENT}
    {p p' : Phase STATE EVENT}
    (hmux : m.mux_ = false)
    (h : advance m a p = some (m', p')) :
    Passage m a p m' p' := by
  unfold advance at h
  split at h
  case h_1 event_i sync_i refused thread =>
    rw [locked_check_run _ _ hmux, check_run] at h
    cases haccepts : m.accepts event_i with
    | none =>
        rw [haccepts] at h
        cases refused with
        | writes =>
            cases h
            exact .refused _ _ _ _ _ haccepts (.inl rfl)
        | throws =>
            cases h
            exact .refused _ _ _ _ _ haccepts (.inr ⟨rfl, rfl⟩)
    | some dst =>
        rw [haccepts] at h
        cases sync_i with
        | true =>
            cases h
            exact .accepted _ _ _ _ _ _ haccepts (.inl rfl)
        | false =>
            cases thread with
            | starts =>
                cases h
                exact .accepted _ _ _ _ _ _ haccepts (.inr (.inl rfl))
            | throws =>
                cases h
                exact .accepted _ _ _ _ _ _ haccepts (.inr (.inr rfl))
  case h_2 event_i dst =>
    cases h
    exact .called event_i dst
  case h_3 initiating caught sync_i args =>
    rw [locked_initiate_run _ hmux] at h
    cases initiating with
    | writes =>
        cases h
        exact .initiated _ _ _ _ _ (.inl rfl)
    | throws =>
        cases h
        exact .initiated _ _ _ _ _ (.inr ⟨_, rfl⟩)
  case h_4 sync_i args =>
    split at h
    · rename_i hfun
      cases h
      exact .noOnTrans _ _ hfun
    · rename_i f hfun
      rcases m.obj_.eq_none_or_eq_some with hobj | ⟨o, hobj⟩
      · rw [checkObj_run_none hobj] at h
        cases h
        exact .noObject _ _
      · rw [checkObj_run hobj] at h
        cases h
        exact .onTransDue _ _ f hfun (by simp [hobj])
  case h_5 sync_i args f =>
    cases h
    exact .startedOnTrans sync_i args f
  case h_6 result sync_i args =>
    split at h
    · cases h
      exact .answered _ _ true
    · cases h
      exact .answered _ _ false
    · cases h
      exact .onTransThrew _ _ _
  case h_7 changing caught observers sync_i args to_i =>
    cases changing with
    | throws =>
        rw [log_throws_run] at h
        cases h
        exact .unchanged _ _ _ _ _
    | writes =>
        have hmove := locked_moveTo_run hmux to_i observers
        rw [log_writes_run] at h
        generalize hr : (locked (moveTo to_i observers)).run m = r at hmove
        simp only [hr] at h
        cases hmove with
        | moved hreturn =>
            cases h
            exact .changed _ _ _ _ _ _ _ _ (isObserver_observerCalls _ _ _)
              (.inl ⟨hreturn, rfl⟩)
        | threw e callbacks calls hthrow hcalls =>
            cases h
            exact .changed _ _ _ _ _ _ _ _ hcalls (.inr ⟨hthrow, _, rfl⟩)
  case h_8 sync_i args =>
    split at h
    · rename_i hfun
      cases h
      exact .noInState _ _ hfun
    · rename_i f hfun
      rcases m.obj_.eq_none_or_eq_some with hobj | ⟨o, hobj⟩
      · rw [checkObj_run_none hobj] at h
        cases h
        exact .objectGone _ _ hobj
      · rw [checkObj_run hobj] at h
        cases h
        exact .inStateDue _ _ f hfun (by simp [hobj])
  case h_9 executing sync_i args f =>
    cases executing with
    | throws =>
        rw [log_throws_run] at h
        cases h
        exact .unstarted _ _ _
    | writes =>
        rw [log_writes_run] at h
        cases h
        exact .startedInState sync_i args f
  case h_10 result sync_i args =>
    split at h
    · cases h
      exact .left _ _ _ _ (.inl rfl)
    · cases h
      exact .left _ _ _ _ (.inr rfl)
  case h_11 caught sync_i args =>
    cases caught with
    | throws =>
        rw [log_throws_run] at h
        cases h
        exact .lost _ _ _ _
    | writes =>
        rw [log_writes_run] at h
        simp only [locked_release_run hmux] at h
        cases h
        exact .released _ _ _ _ (.inl rfl)
  case h_12 sync_i args =>
    rw [locked_release_run hmux] at h
    cases h
    exact .released _ _ _ _ (.inr rfl)
  case h_13 =>
    cases h

omit [EnumClass STATE] in
/-- A passage without what it has seen. -/
theorem Passage.cases
    {m m' : StateMachine STATE EVENT HANDLER} {a : Action EVENT}
    {p p' : Phase STATE EVENT}
    (hpassage : Passage m a p m' p') :
    AdvanceCases m a p m' p' := by
  cases hpassage with
  | refused event_i sync_i refused thread _ haccepts hp =>
      exact .refused _ _ _ _ _ haccepts hp
  | accepted event_i sync_i refused thread dst _ haccepts hp =>
      exact .accepted _ _ _ _ _ _ haccepts hp
  | called event_i dst =>
      exact .called event_i dst
  | initiated initiating caught sync_i args _ hp =>
      exact .initiated _ _ _ _ _ hp
  | noOnTrans =>
      exact .moved _ _ _ _ _ id .noFunction
  | onTransDue sync_i args f hsome hobj =>
      exact .moved _ _ _ _ _ id (.tested f hobj)
  | noObject =>
      exact .moved _ _ _ _ _ id (.caught _ nofun)
  | startedOnTrans sync_i args f =>
      exact .startedOnTrans sync_i args f
  | answered sync_i args b =>
      cases b with
      | true =>
          exact .moved _ _ _ _ _ id .succeeded
      | false =>
          exact .moved _ _ _ _ _ id .failed
  | onTransThrew =>
      exact .moved _ _ _ _ _ id (.caught _ nofun)
  | unchanged =>
      exact .moved _ _ _ _ _ id (.caught _ nofun)
  | changed caught observers sync_i args to_i callbacks calls _ hcalls hp =>
      exact .changed _ _ _ _ _ _ _ _ _ hcalls (hp.imp And.right And.right)
  | noInState =>
      exact .moved _ _ _ _ _ id .noInState
  | inStateDue sync_i args f hsome hobj =>
      exact .moved _ _ _ _ _ id (.testedAgain f hobj)
  | objectGone =>
      exact .moved _ _ _ _ _ id (.caught _ nofun)
  | startedInState sync_i args f =>
      exact .startedInState _ sync_i args f
  | unstarted =>
      exact .moved _ _ _ _ _ id (.caught _ nofun)
  | left result sync_i args place hplace =>
      rcases hplace with rfl | rfl
      · exact .moved _ _ _ _ _ id .left
      · exact .moved _ _ _ _ _ id (.caught _ nofun)
  | released caught sync_i args place hplace =>
      exact .released _ _ _ _ hplace
  | lost caught sync_i args e =>
      exact .lost _ _ _ _

/-- The machine, the calls of `event()` and whether the process has ended. -/
structure System (STATE EVENT HANDLER : Type) where
  machine : StateMachine STATE EVENT HANDLER
  phase : Nat → Phase STATE EVENT
  terminated : Bool

/-- One step of the system, taken by one call. -/
def step (s : System STATE EVENT HANDLER) (l : Nat × Action EVENT) :
    Option (System STATE EVENT HANDLER) :=
  if s.terminated then none
  else
    (advance s.machine l.2 (s.phase l.1)).map fun r =>
      { machine := r.1
        phase := Function.update s.phase l.1 r.2
        terminated := r.2.isTerminated }

/-- A machine on which no thread has triggered an event yet. -/
def System.ready (m : StateMachine STATE EVENT HANDLER) :
    System STATE EVENT HANDLER where
  machine := m
  phase := fun _ => .idle
  terminated := false

section At

variable {m m' : StateMachine STATE EVENT HANDLER}

/-- The system in which the call `i` has come to the phase `p`. -/
def System.at (s : System STATE EVENT HANDLER) (i : Nat)
    (m : StateMachine STATE EVENT HANDLER) (p : Phase STATE EVENT) :
    System STATE EVENT HANDLER where
  machine := m
  phase := Function.update s.phase i p
  terminated := false

theorem step_at
    {s : System STATE EVENT HANDLER} {i : Nat} {a : Action EVENT}
    {p p' : Phase STATE EVENT}
    (hadvance : advance m a p = some (m', p'))
    (halive : p'.isTerminated = false) :
    Steps step (s.at i m p) (i, a) (s.at i m' p') := by
  have hphase : (s.at i m p).phase i = p := by simp [System.at]
  have hmachine : (s.at i m p).machine = m := rfl
  have hterminated : (s.at i m p).terminated = false := rfl
  unfold Steps step
  simp only [hphase, hmachine, hterminated, hadvance]
  simp [System.at, halive]

omit [DecidableEq STATE] [DecidableEq EVENT] [EnumClass STATE] in
theorem System.at_comm
    {s : System STATE EVENT HANDLER} {i j : Nat} {p q : Phase STATE EVENT}
    (hij : i ≠ j) :
    (s.at i m p).at j m' q = (s.at j m q).at i m' p := by
  simp [System.at, Function.update_comm hij]

end At

section StepLemmas

variable {s t : System STATE EVENT HANDLER} {l : Nat × Action EVENT}

/-- A step of the system is a step of the call that takes it. -/
theorem step_passage
    (hmux : s.machine.mux_ = false)
    (hstep : step s l = some t) :
    Passage s.machine l.2 (s.phase l.1) t.machine (t.phase l.1) := by
  unfold step at hstep
  split at hstep
  · cases hstep
  · obtain ⟨⟨m', p'⟩, hadvance, rfl⟩ := Option.map_eq_some_iff.mp hstep
    have hpassage := passage hmux hadvance
    simpa only [Function.update_self] using hpassage

theorem step_cases
    (hmux : s.machine.mux_ = false)
    (hstep : step s l = some t) :
    AdvanceCases s.machine l.2 (s.phase l.1) t.machine (t.phase l.1) :=
  (step_passage hmux hstep).cases

/-- A step of one call leaves the others where they are. -/
theorem phase_other
    (hstep : step s l = some t)
    {j : Nat} (hj : j ≠ l.1) :
    t.phase j = s.phase j := by
  unfold step at hstep
  split at hstep
  · cases hstep
  · obtain ⟨⟨m', p'⟩, -, rfl⟩ := Option.map_eq_some_iff.mp hstep
    exact Function.update_of_ne hj p' s.phase

omit [EnumClass STATE] in
/-- A call makes its checks first, without a change of the machine; from then on it
is in flight. -/
theorem AdvanceCases.check_or_inFlight
    {m m' : StateMachine STATE EVENT HANDLER} {a : Action EVENT}
    {p p' : Phase STATE EVENT}
    (hcases : AdvanceCases m a p m' p') :
    (m' = m ∧ ∃ event_i sync_i refused thread,
      a = .check event_i sync_i refused thread) ∨ p.InFlight := by
  cases hcases with
  | refused => exact .inl ⟨rfl, _, _, _, _, rfl⟩
  | accepted => exact .inl ⟨rfl, _, _, _, _, rfl⟩
  | called => exact .inr trivial
  | initiated => exact .inr trivial
  | moved => exact .inr trivial
  | startedOnTrans => exact .inr trivial
  | startedInState => exact .inr trivial
  | changed => exact .inr trivial
  | released => exact .inr trivial
  | lost => exact .inr trivial

omit [EnumClass STATE] in
/-- The members that no step changes. -/
theorem AdvanceCases.frame
    {m m' : StateMachine STATE EVENT HANDLER} {a : Action EVENT}
    {p p' : Phase STATE EVENT}
    (hmux : m.mux_ = false)
    (hcases : AdvanceCases m a p m' p') :
    m'.mux_ = false ∧ m'.end_ = m.end_ ∧ m'.trans_ = m.trans_ := by
  cases hcases with
  | released => exact ⟨rfl, rfl, rfl⟩
  | refused => exact ⟨hmux, rfl, rfl⟩
  | accepted => exact ⟨hmux, rfl, rfl⟩
  | called => exact ⟨hmux, rfl, rfl⟩
  | initiated => exact ⟨hmux, rfl, rfl⟩
  | moved => exact ⟨hmux, rfl, rfl⟩
  | startedOnTrans => exact ⟨hmux, rfl, rfl⟩
  | startedInState => exact ⟨hmux, rfl, rfl⟩
  | changed => exact ⟨hmux, rfl, rfl⟩
  | lost => exact ⟨hmux, rfl, rfl⟩

/-- A property of a call in flight and the machine, kept by the steps of that call,
is kept by every step as long as one call is in flight. -/
theorem step_keeps
    (P : StateMachine STATE EVENT HANDLER → Phase STATE EVENT → Prop)
    (hout : ∀ {m p}, ¬ p.InFlight → P m p)
    (hkeep : ∀ {m a p m' p'}, AdvanceCases m a p m' p' → P m p → P m' p')
    (hmux : s.machine.mux_ = false)
    (hunique : ∀ i j, (s.phase i).InFlight → (s.phase j).InFlight → i = j)
    (hstep : step s l = some t)
    (hP : ∀ i, P s.machine (s.phase i)) :
    ∀ i, P t.machine (t.phase i) := by
  intro i
  have hcases := step_cases hmux hstep
  by_cases hi : i = l.1
  · rw [hi]
    exact hkeep hcases (hP l.1)
  · rw [phase_other hstep hi]
    rcases hcases.check_or_inFlight with ⟨hmachine, -⟩ | hflight
    · rw [hmachine]
      exact hP i
    · apply hout
      intro hother
      exact hi (hunique i l.1 hother hflight)

end StepLemmas

end Steps

end StateMachine
end Bren
end Brenlib
