import Brenlib.Bren.StdLibrary

/-!
# `StateMachine`

The model follows `hdr/bren/StateMachine.hpp`.  A machine has the members of the
class; `mux_` is true while the mutex is held.  Next to its members it carries
`called`, the calls of user functions it has made so far, in order.

What the code outside of the machine does is given to the methods: the outcome
of every user function and of every call of the logger.  `Logger::log` writes its
line or throws `std::logic_error` (its stream is not set).  The `log` calls of
`FD` are there in a debug build only; a build without them is one in which they
write.

The methods are cut at the places where `transition_` takes or gives back the
mutex, so that a run of one thread and an interleaving of several threads execute
the same sections.
-/

namespace Brenlib
namespace Bren

/-- A value of an enum class has an underlying number. -/
class EnumClass (α : Type) where
  underlying : α → Int

/-- A function object. -/
abbrev FuncId := Nat

/-- Outcome of a `transfunc`. -/
inductive TransOutcome where
  | returns (b : Bool)
  | throws (e : StdException)
deriving DecidableEq, Repr

/-- Outcome of a `statefunc`. -/
inductive StateOutcome where
  | returns
  | throws (e : StdException)
deriving DecidableEq, Repr

/-- Outcome of a `callbackfunc_t`. -/
inductive ObserverOutcome where
  | returns (b : Bool)
  | throws (e : StdException)
deriving DecidableEq, Repr

/-- Outcome of a call of the logger. -/
inductive LogOutcome where
  | writes
  | throws
deriving DecidableEq, Repr

/-- A call of a user function: the function and its arguments. -/
inductive UserCall (STATE HANDLER : Type) where
  | onTrans (f : FuncId) (obj : Option HANDLER)
  | inState (f : FuncId) (obj : Option HANDLER)
  | observer (f : FuncId) (state : STATE) (name : Bytes)
deriving DecidableEq, Repr

/-- The call of an observer. -/
def UserCall.IsObserver {STATE HANDLER : Type} : UserCall STATE HANDLER → Prop
  | .observer _ _ _ => True
  | _ => False

/-- `transTarget`. -/
structure TransTarget (STATE : Type) where
  target : STATE
  onTrans : Option FuncId
  inState : Option FuncId
deriving DecidableEq, Repr

structure StateMachine (STATE EVENT HANDLER : Type) where
  active_ : Bool
  callbacks_ : List FuncId
  end_ : STATE
  events_ : UnorderedMap EVENT Bytes
  mux_ : Bool
  states_ : UnorderedMap STATE Bytes
  obj_ : Option HANDLER
  start_ : STATE
  state_ : STATE
  trans_ : UnorderedMap STATE (UnorderedMap EVENT (TransTarget STATE))
  called : List (UserCall STATE HANDLER)

/-- Outcomes of the user functions of one transition; `observers` by the place of
the observer among the callbacks. -/
structure UserOutcomes where
  onTrans : TransOutcome
  observers : Nat → ObserverOutcome
  inState : StateOutcome

/-- Outcomes of the `log` calls of one event, by their place in the code. -/
structure LogOutcomes where
  refused : LogOutcome
  initiating : LogOutcome
  changing : LogOutcome
  executing : LogOutcome
  caught : LogOutcome

/-- A logger that does not throw. -/
def LogOutcomes.calm : LogOutcomes where
  refused := .writes
  initiating := .writes
  changing := .writes
  executing := .writes
  caught := .writes

namespace StateMachine

variable {STATE EVENT HANDLER : Type}

/-- `StateMachine(start_i, end_i)`. -/
def init (start_i end_i : STATE) : StateMachine STATE EVENT HANDLER where
  active_ := false
  callbacks_ := []
  end_ := end_i
  events_ := ∅
  mux_ := false
  states_ := ∅
  obj_ := none
  start_ := start_i
  state_ := start_i
  trans_ := ∅
  called := []

/-- A method of the machine. -/
abbrev Method (STATE EVENT HANDLER : Type) :=
  EStateM StdException (StateMachine STATE EVENT HANDLER)

section Names

/-- `name_` of an event or a state. -/
def nameIn
    {K : Type} [DecidableEq K] [EnumClass K]
    (names : UnorderedMap K Bytes) (key : K) : Bytes :=
  (names.lookup key).getD (decimal (EnumClass.underlying key))

/-- `name_(event_i)`. -/
def eventName
    [DecidableEq EVENT] [EnumClass EVENT]
    (m : StateMachine STATE EVENT HANDLER) (event_i : EVENT) : Bytes :=
  nameIn m.events_ event_i

/-- `name_(state_i)`. -/
def stateName
    [DecidableEq STATE] [EnumClass STATE]
    (m : StateMachine STATE EVENT HANDLER) (state_i : STATE) : Bytes :=
  nameIn m.states_ state_i

/-- `shorten_(name_i)`. -/
def shorten_ (name_i : Bytes) : Bytes :=
  match rfind name_i 0x3A with
  | none => name_i
  | some pos => name_i.drop (pos + 1)

end Names

section Locking

/-- `lck.lock()`: throws when the lock already owns the mutex. -/
def lock : Method STATE EVENT HANDLER Unit := do
  let m ← get
  if m.mux_ then
    throw ⟨.systemError, "Resource deadlock avoided"⟩
  set { m with mux_ := true }

/-- `lck.unlock()`: throws when the lock does not own the mutex. -/
def unlock : Method STATE EVENT HANDLER Unit := do
  let m ← get
  if ¬ m.mux_ then
    throw ⟨.systemError, "Operation not permitted"⟩
  set { m with mux_ := false }

/-- The scope of a lock: its destructor gives the mutex back. -/
def uniqueLock
    {α : Type} (body : Method STATE EVENT HANDLER α) :
    Method STATE EVENT HANDLER α := fun m =>
  match body m with
  | .ok a m' => .ok a { m' with mux_ := false }
  | .error e m' => .error e { m' with mux_ := false }

/-- A body that is executed under the mutex. -/
def locked
    {α : Type} (body : Method STATE EVENT HANDLER α) :
    Method STATE EVENT HANDLER α :=
  uniqueLock do
    lock
    body

end Locking

section Sections

/-- The exception of a logger without a stream. -/
def noStream : StdException :=
  ⟨.logicError, "Asked to log to stream, but stream is NULL"⟩

/-- A call of the logger. -/
def log (outcome : LogOutcome) : Method STATE EVENT HANDLER Unit :=
  match outcome with
  | .writes => pure ()
  | .throws => throw noStream

/-- Note a call of a user function. -/
def record (call : UserCall STATE HANDLER) : Method STATE EVENT HANDLER Unit :=
  modify fun m => { m with called := m.called ++ [call] }

/-- The first section of `transition_`. -/
def initiate (initiating : LogOutcome) : Method STATE EVENT HANDLER Unit := do
  modify fun m => { m with active_ := true }
  log initiating

/-- Text of the exception for a missing object. -/
def noObject : String :=
  "Shared pointer to object for function calling not set"

/-- `FCET(obj_, ...)`. -/
def checkObj : Method STATE EVENT HANDLER Unit := do
  fcet ((← get).obj_.isSome = true) .runtimeError noObject

/-- `onTrans_i(obj_.get())`. -/
def callOnTrans (f : FuncId) (result : TransOutcome) :
    Method STATE EVENT HANDLER Bool := do
  record (.onTrans f (← get).obj_)
  match result with
  | .returns b => return b
  | .throws e => throw e

/-- `inState_i(obj_.get())`. -/
def callInState (f : FuncId) (result : StateOutcome) :
    Method STATE EVENT HANDLER Unit := do
  record (.inState f (← get).obj_)
  match result with
  | .returns => return ()
  | .throws e => throw e

variable [DecidableEq STATE] [EnumClass STATE]

/-- The loop of `call_()`, with the callbacks kept so far and the number of those
called. -/
def callLoop (outcomes : Nat → ObserverOutcome) (kept : List FuncId) :
    Nat → List FuncId → Method STATE EVENT HANDLER Unit
  | _, [] => pure ()
  | i, it :: next => do
      let m ← get
      record (.observer it m.state_ (m.stateName m.state_))
      match outcomes i with
      | .throws e => throw e
      | .returns true => callLoop outcomes (kept ++ [it]) (i + 1) next
      | .returns false =>
          modify fun m => { m with callbacks_ := kept ++ next }
          callLoop outcomes kept (i + 1) next

/-- `call_()`. -/
def call_ (outcomes : Nat → ObserverOutcome) : Method STATE EVENT HANDLER Unit := do
  callLoop outcomes [] 0 (← get).callbacks_

/-- `state_ = to_i; call_()`. -/
def moveTo (to_i : STATE) (observers : Nat → ObserverOutcome) :
    Method STATE EVENT HANDLER Unit := do
  modify fun m => { m with state_ := to_i }
  call_ observers

/-- The last section of `transition_`. -/
def release : Method STATE EVENT HANDLER Unit :=
  modify fun m =>
    { m with
      obj_ := if m.state_ = m.end_ then none else m.obj_
      active_ := false
      callbacks_ := [] }

/-- Log the change of the state, take the mutex and make it. -/
def lockAndMove (changing : LogOutcome) (to_i : STATE)
    (observers : Nat → ObserverOutcome) : Method STATE EVENT HANDLER Unit := do
  log changing
  lock
  moveTo to_i observers

/-- The body of the `try` block up to the change of the state, which it leaves
with the mutex held. -/
def change (logs : LogOutcomes) (user : UserOutcomes) (from_i to_i : STATE)
    (onTrans_i : Option FuncId) : Method STATE EVENT HANDLER Unit :=
  match onTrans_i with
  | some f => do
      checkObj
      if ← callOnTrans f user.onTrans then
        lockAndMove logs.changing to_i user.observers
      else
        lockAndMove logs.changing from_i user.observers
  | none => lockAndMove logs.changing to_i user.observers

/-- The rest of the `try` block. -/
def arrive (logs : LogOutcomes) (user : UserOutcomes)
    (inState_i : Option FuncId) : Method STATE EVENT HANDLER Unit :=
  match inState_i with
  | some f => do
      checkObj
      log logs.executing
      callInState f user.inState
  | none => pure ()

/-- `transition_(from_i, event_i, to_i, onTrans_i, inState_i)`.  Both handlers log
what they have caught. -/
def transition_ (logs : LogOutcomes) (user : UserOutcomes) (from_i to_i : STATE)
    (onTrans_i inState_i : Option FuncId) : Method STATE EVENT HANDLER Unit :=
  uniqueLock do
    lock
    tryCatch
      (do
        initiate logs.initiating
        unlock
        change logs user from_i to_i onTrans_i
        unlock
        arrive logs user inState_i)
      (fun _ => log logs.caught)
    lock
    release
    unlock

end Sections

section Interface

variable [DecidableEq STATE] [DecidableEq EVENT]

/-- The edge registered for a state and an event. -/
def edge (m : StateMachine STATE EVENT HANDLER) (from_i : STATE) (event_i : EVENT) :
    Option (TransTarget STATE) :=
  (m.trans_.lookup from_i).bind fun eventMap => eventMap.lookup event_i

/-- The checks of `event(event_i, sync_i)`: the edge to follow, or `none` with a
line in the log. -/
def check (refused : LogOutcome) (event_i : EVENT) :
    Method STATE EVENT HANDLER (Option (TransTarget STATE)) := do
  let m ← get
  if m.active_ then
    log refused
    return none
  if m.state_ = m.end_ then
    log refused
    return none
  match m.trans_.lookup m.state_ with
  | none =>
      log refused
      return none
  | some src =>
      match src.lookup event_i with
      | none =>
          log refused
          return none
      | some dst => return some dst

/-- `event(event_i, true)`. -/
def event
    [EnumClass STATE] (logs : LogOutcomes) (user : UserOutcomes) (event_i : EVENT) :
    Method STATE EVENT HANDLER Bool := do
  match ← locked (check logs.refused event_i) with
  | none => return false
  | some dst =>
      transition_ logs user (← get).state_ dst.target dst.onTrans dst.inState
      return true

omit [DecidableEq STATE] [DecidableEq EVENT] in
/-- The loop of `name(key, name_i)`: no other key may have the name. -/
def checkName
    [Raising] {K : Type} [DecidableEq K]
    (names : UnorderedMap K Bytes) (key : K) (name_i : Bytes) (message : String) :
    Method STATE EVENT HANDLER Unit :=
  forM names.entries fun keyval =>
    if keyval.1 = key then pure ()
    else fcet (name_i ≠ keyval.2) .invalidArgument message

/-- `name(event_i, name_i)`. -/
def nameEvent [Raising] (event_i : EVENT) (name_i : Bytes) : Method STATE EVENT HANDLER Unit := do
  let shrt := shorten_ name_i
  locked do
    checkName (← get).events_ event_i name_i
      s!"Event name \"{Bytes.text shrt}\" was already used for another event"
    modify fun m => { m with events_ := m.events_.insert event_i shrt }

/-- `name(state_i, name_i)`. -/
def nameState [Raising] (state_i : STATE) (name_i : Bytes) : Method STATE EVENT HANDLER Unit := do
  let shrt := shorten_ name_i
  locked do
    checkName (← get).states_ state_i name_i
      s!"State name \"{Bytes.text shrt}\" was already used for another state"
    modify fun m => { m with states_ := m.states_.insert state_i shrt }

/-- `obj(obj_i)`. -/
def obj (obj_i : Option HANDLER) : Method STATE EVENT HANDLER Unit :=
  modify fun m => { m with obj_ := obj_i }

/-- `observe(func)`. -/
def observe
    [EnumClass STATE] (func : FuncId) (result : ObserverOutcome) :
    Method STATE EVENT HANDLER Unit :=
  locked do
    let m ← get
    record (.observer func m.state_ (m.stateName m.state_))
    match result with
    | .throws e => throw e
    | .returns true =>
        modify fun m => { m with callbacks_ := m.callbacks_ ++ [func] }
    | .returns false => pure ()

/-- `transition(from_i, event_i, to_i, onTrans_i, inState_i)`.  The empty map that
`trans_[from_i]` creates receives its first event below. -/
def transition
    [Raising] [EnumClass STATE] [EnumClass EVENT] (from_i : STATE) (event_i : EVENT) (to_i : STATE)
    (onTrans_i inState_i : Option FuncId) : Method STATE EVENT HANDLER Unit :=
  locked do
    let m ← get
    fcet (m.active_ = false) .runtimeError
      "Unable to add transition when transition is in progress"
    fcet (from_i ≠ m.end_) .invalidArgument
      s!"Can't transition away from end state {Bytes.text (m.stateName m.end_)}"
    fcet (m.state_ ≠ m.end_) .logicError
      "Not adding transition when already in end "
    let eventMap := (m.trans_.lookup from_i).getD ∅
    fcet (eventMap.lookup event_i = none) .invalidArgument
      (s!"Event {Bytes.text (m.eventName event_i)} from state " ++
        s!"{Bytes.text (m.stateName from_i)} already registered")
    modify fun m =>
      { m with
        trans_ := m.trans_.insert from_i
          (eventMap.insert event_i ⟨to_i, onTrans_i, inState_i⟩) }

end Interface

end StateMachine

end Bren
end Brenlib
