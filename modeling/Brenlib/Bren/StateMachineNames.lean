import Brenlib.Base.Frames
import Brenlib.Bren.Logger
import Brenlib.Bren.StateMachineExceptions

/-!
# Names in a `StateMachine`

The macro `STATE_MACHINE_TRANSITION` passes the text of an enum value with its prefix to
`name()`, which stores the part behind the last colon.  The loop in front of the store
looks for the text as it is given, among names that have no colon any more.

* `Unambiguous`: no two keys have the same name.
* `keeps_event`: nothing but `name()` changes a name.
* `name_cases`: what a request does to the names.
* `names_lawful_iff`: the names stay unambiguous as long as no call gives a name that
  collides without its prefix only; the exception is the promised one if the logger is set
  up.
-/

namespace Brenlib
namespace Bren
namespace StateMachine

open TransitionSystem
open Frames

section Shortening

variable {name_i : Bytes}

theorem shorten_of_not_mem
    (hcolon : 0x3A ∉ name_i) :
    shorten_ name_i = name_i := by
  have hnone : rfind name_i 0x3A = none := by
    rw [rfind, Option.map_eq_none_iff, List.findIdx?_eq_none_iff]
    intro b hb
    rw [List.mem_reverse] at hb
    simpa using ne_of_mem_of_not_mem hb hcolon
  rw [shorten_, hnone]

/-- Only the part behind the last colon is left. -/
theorem colon_not_mem_shorten_
    (name_i : Bytes) :
    0x3A ∉ shorten_ name_i := by
  rw [shorten_]
  cases hpos : rfind name_i 0x3A with
  | none =>
      rw [rfind, Option.map_eq_none_iff, List.findIdx?_eq_none_iff] at hpos
      intro hmem
      simpa using hpos 0x3A (List.mem_reverse.mpr hmem)
  | some pos =>
      obtain ⟨i, hi, rfl⟩ := Option.map_eq_some_iff.mp hpos
      obtain ⟨hlt, -, hbefore⟩ := List.findIdx?_eq_some_iff_getElem.mp hi
      rw [List.length_reverse] at hlt
      have hdrop : name_i.drop (name_i.length - 1 - i + 1) =
          (name_i.reverse.take i).reverse := by
        rw [List.take_reverse, List.reverse_reverse]
        congr 1
        omega
      intro hmem
      change 0x3A ∈ name_i.drop (name_i.length - 1 - i + 1) at hmem
      rw [hdrop, List.mem_reverse, List.mem_take_iff_getElem] at hmem
      obtain ⟨j, hj, hcolon⟩ := hmem
      have hnot := hbefore j (by omega)
      rw [hcolon] at hnot
      exact hnot (by decide)

end Shortening

section Maps

variable {K : Type} [DecidableEq K]
variable {names : UnorderedMap K Bytes} {key : K} {x : Bytes}

/-- No two keys have the same name. -/
def Unambiguous (names : UnorderedMap K Bytes) : Prop :=
  ∀ k k' x, names.lookup k = some x → names.lookup k' = some x → k = k'

/-- Another key has the name. -/
def Taken (names : UnorderedMap K Bytes) (key : K) (x : Bytes) : Prop :=
  ∃ k, k ≠ key ∧ names.lookup k = some x

/-- No name has a colon. -/
def Short (names : UnorderedMap K Bytes) : Prop :=
  ∀ k x, names.lookup k = some x → 0x3A ∉ x

theorem lookup_insert_cases
    {k : K} {y : Bytes}
    (hlookup : (names.insert key x).lookup k = some y) :
    (k = key ∧ y = x) ∨ (k ≠ key ∧ names.lookup k = some y) := by
  by_cases hk : k = key
  · subst hk
    rw [AList.lookup_insert] at hlookup
    exact .inl ⟨rfl, (Option.some.inj hlookup).symm⟩
  · rw [AList.lookup_insert_ne hk] at hlookup
    exact .inr ⟨hk, hlookup⟩

/-- A name that is free is given to a key. -/
theorem Unambiguous.insert
    (hnames : Unambiguous names)
    (hfree : ¬ Taken names key x) :
    Unambiguous (names.insert key x) := by
  intro k k' y hk hk'
  rcases lookup_insert_cases hk with ⟨rfl, rfl⟩ | ⟨hne, hold⟩
  · rcases lookup_insert_cases hk' with ⟨rfl, -⟩ | ⟨hne', hold'⟩
    · rfl
    · exact absurd ⟨k', hne', hold'⟩ hfree
  · rcases lookup_insert_cases hk' with ⟨rfl, rfl⟩ | ⟨hne', hold'⟩
    · exact absurd ⟨k, hne, hold⟩ hfree
    · exact hnames k k' y hold hold'

theorem Short.insert
    (hshort : Short names)
    (hx : 0x3A ∉ x) :
    Short (names.insert key x) := by
  intro k y hk
  rcases lookup_insert_cases hk with ⟨-, rfl⟩ | ⟨-, hold⟩
  · exact hx
  · exact hshort k y hold

end Maps

section Calls

variable [Raising]
variable {STATE EVENT HANDLER : Type}
variable {K : Type} [DecidableEq K]

/-- The loop of `name()` looks for the name as it is given. -/
theorem checkName_cases
    (names : UnorderedMap K Bytes) (key : K) (name_i : Bytes) (message : String)
    (m : StateMachine STATE EVENT HANDLER) :
    (Taken names key name_i ∧
      (checkName names key name_i message).run m =
        .error (Raising.raised .invalidArgument message) m) ∨
    (¬ Taken names key name_i ∧ (checkName names key name_i message).run m = .ok () m) := by
  have htaken : Taken names key name_i ↔
      ∃ keyval ∈ names.entries, keyval.1 ≠ key ∧ keyval.2 = name_i := by
    constructor
    · rintro ⟨k, hk, hlookup⟩
      exact ⟨⟨k, name_i⟩, AList.mem_lookup_iff.mp hlookup, hk, rfl⟩
    · rintro ⟨⟨k, x⟩, hmem, hk, rfl⟩
      exact ⟨k, hk, AList.mem_lookup_iff.mpr hmem⟩
  rw [htaken, checkName]
  clear htaken
  induction names.entries with
  | nil =>
      exact .inr ⟨by simp, rfl⟩
  | cons keyval rest ih =>
      rw [List.forM_cons]
      by_cases hkey : keyval.1 = key
      · simpa [hkey] using ih
      by_cases hname : name_i = keyval.2
      · exact .inl ⟨⟨keyval, by simp, hkey, hname.symm⟩, by simp [hkey, hname, fcet]⟩
      · simpa [hkey, hname, Ne.symm hname] using ih

/-- A call of `name()` is refused, or the short name is stored. -/
theorem locked_name_cases
    (names : StateMachine STATE EVENT HANDLER → UnorderedMap K Bytes)
    (key : K) (name_i : Bytes) (message : String)
    (store : StateMachine STATE EVENT HANDLER → StateMachine STATE EVENT HANDLER)
    {m : StateMachine STATE EVENT HANDLER}
    (hmux : m.mux_ = false)
    (hnames : names { m with mux_ := true } = names m)
    (hstore : { store { m with mux_ := true } with mux_ := false } = store m) :
    (Taken (names m) key name_i ∧
      (locked do
        checkName (names (← get)) key name_i message
        modify store).run m = .error (Raising.raised .invalidArgument message) m) ∨
    (¬ Taken (names m) key name_i ∧
      (locked do
        checkName (names (← get)) key name_i message
        modify store).run m = .ok () (store m)) := by
  have hget (m : StateMachine STATE EVENT HANDLER) :
      (get : Method STATE EVENT HANDLER _).run m = .ok m m := rfl
  have hcheck := checkName_cases (names m) key name_i message { m with mux_ := true }
  rw [locked_run _ hmux, run_bind_ok (hget _), hnames]
  rcases hcheck with ⟨htaken, hrun⟩ | ⟨hfree, hrun⟩
  · rw [run_bind_error hrun]
    exact .inl ⟨htaken, congrArg _ (update_mux hmux)⟩
  · rw [run_bind_ok hrun]
    exact .inr ⟨hfree, congrArg _ hstore⟩

end Calls

section Frame

variable {STATE EVENT HANDLER : Type}

/-- The registered names. -/
def registered (m : StateMachine STATE EVENT HANDLER) :
    UnorderedMap EVENT Bytes × UnorderedMap STATE Bytes :=
  (m.events_, m.states_)

theorem keeps_fcet
    [Raising] {σ γ : Type} (part : σ → γ) (cond : Prop) [Decidable cond]
    (exc : ExceptionClass) (message : String) :
    Keeps part (fcet cond exc message) := by
  unfold fcet
  split
  · exact keeps_pure part ()
  · exact keeps_throw part _

theorem keeps_lock :
    Keeps registered (lock : Method STATE EVENT HANDLER Unit) := by
  intro m
  by_cases hmux : m.mux_ = false
  · rw [lock_run hmux]
    rfl
  · simp [lock, hmux, behind]

theorem keeps_unlock :
    Keeps registered (unlock : Method STATE EVENT HANDLER Unit) := by
  intro m
  by_cases hmux : m.mux_ = true
  · rw [unlock_run hmux]
    rfl
  · simp [unlock, hmux, behind]

theorem keeps_uniqueLock
    {α : Type} {body : Method STATE EVENT HANDLER α}
    (hbody : Keeps registered body) :
    Keeps registered (uniqueLock body) := by
  intro m
  have hm := hbody m
  rw [uniqueLock_run]
  generalize body.run m = r at hm
  cases r <;> exact hm

theorem keeps_locked
    {α : Type} {body : Method STATE EVENT HANDLER α}
    (hbody : Keeps registered body) :
    Keeps registered (locked body) :=
  keeps_uniqueLock (keeps_lock.bind fun _ => hbody)

theorem keeps_log
    (outcome : LogOutcome) :
    Keeps registered (log outcome : Method STATE EVENT HANDLER Unit) := by
  cases outcome with
  | writes =>
      exact keeps_pure _ ()
  | throws =>
      exact keeps_throw _ _

theorem keeps_checkObj :
    Keeps registered (checkObj : Method STATE EVENT HANDLER Unit) :=
  (keeps_get _).bind fun _ => keeps_fcet _ _ _ _

theorem keeps_record
    (call : UserCall STATE HANDLER) :
    Keeps registered (record call : Method STATE EVENT HANDLER Unit) :=
  keeps_modify fun _ => rfl

theorem keeps_callOnTrans
    (f : FuncId) (result : TransOutcome) :
    Keeps registered (callOnTrans f result : Method STATE EVENT HANDLER Bool) := by
  refine (keeps_get _).bind fun m => (keeps_record _).bind fun _ => ?_
  cases result with
  | returns b =>
      exact keeps_pure _ b
  | throws e =>
      exact keeps_throw _ e

theorem keeps_callInState
    (f : FuncId) (result : StateOutcome) :
    Keeps registered (callInState f result : Method STATE EVENT HANDLER Unit) := by
  refine (keeps_get _).bind fun m => (keeps_record _).bind fun _ => ?_
  cases result with
  | returns =>
      exact keeps_pure _ ()
  | throws e =>
      exact keeps_throw _ e

variable [DecidableEq STATE] [EnumClass STATE]

theorem keeps_callLoop
    (outcomes : Nat → ObserverOutcome) (kept : List FuncId) (i : Nat) (next : List FuncId) :
    Keeps registered (callLoop outcomes kept i next : Method STATE EVENT HANDLER Unit) := by
  induction next generalizing kept i with
  | nil =>
      exact keeps_pure _ ()
  | cons it next ih =>
      refine (keeps_get _).bind fun m => (keeps_record _).bind fun _ => ?_
      split
      · exact keeps_throw _ _
      · exact ih _ _
      · refine Keeps.bind (keeps_modify ?_) fun _ => ih _ _
        intro m
        rfl

theorem keeps_moveTo
    (to_i : STATE) (observers : Nat → ObserverOutcome) :
    Keeps registered (moveTo to_i observers : Method STATE EVENT HANDLER Unit) := by
  refine Keeps.bind (keeps_modify ?_) fun _ => (keeps_get _).bind fun m => ?_
  · intro m
    rfl
  · exact keeps_callLoop observers [] 0 m.callbacks_

theorem keeps_lockAndMove
    (changing : LogOutcome) (to_i : STATE) (observers : Nat → ObserverOutcome) :
    Keeps registered
      (lockAndMove changing to_i observers : Method STATE EVENT HANDLER Unit) :=
  (keeps_log changing).bind fun _ => keeps_lock.bind fun _ => keeps_moveTo to_i observers

theorem keeps_change
    (logs : LogOutcomes) (user : UserOutcomes) (from_i to_i : STATE)
    (onTrans_i : Option FuncId) :
    Keeps registered
      (change logs user from_i to_i onTrans_i : Method STATE EVENT HANDLER Unit) := by
  cases onTrans_i with
  | none =>
      exact keeps_lockAndMove _ _ _
  | some f =>
      refine keeps_checkObj.bind fun _ => (keeps_callOnTrans f _).bind fun b => ?_
      cases b <;> exact keeps_lockAndMove _ _ _

omit [DecidableEq STATE] [EnumClass STATE] in
theorem keeps_arrive
    (logs : LogOutcomes) (user : UserOutcomes) (inState_i : Option FuncId) :
    Keeps registered (arrive logs user inState_i : Method STATE EVENT HANDLER Unit) := by
  cases inState_i with
  | none =>
      exact keeps_pure _ ()
  | some f =>
      exact keeps_checkObj.bind fun _ => (keeps_log _).bind fun _ => keeps_callInState f _

/-- No transition changes a name. -/
theorem keeps_transition_
    (logs : LogOutcomes) (user : UserOutcomes) (from_i to_i : STATE)
    (onTrans_i inState_i : Option FuncId) :
    Keeps registered (transition_ logs user from_i to_i onTrans_i inState_i :
      Method STATE EVENT HANDLER Unit) := by
  have hinitiate : Keeps registered
      (initiate logs.initiating : Method STATE EVENT HANDLER Unit) := by
    refine Keeps.bind (keeps_modify ?_) fun _ => keeps_log _
    intro m
    rfl
  have htry : Keeps registered
      (do
        initiate logs.initiating
        unlock
        change logs user from_i to_i onTrans_i
        unlock
        arrive logs user inState_i : Method STATE EVENT HANDLER Unit) :=
    hinitiate.bind fun _ => keeps_unlock.bind fun _ =>
      (keeps_change logs user from_i to_i onTrans_i).bind fun _ =>
        keeps_unlock.bind fun _ => keeps_arrive logs user inState_i
  have hrelease : Keeps registered (release : Method STATE EVENT HANDLER Unit) :=
    keeps_modify fun _ => rfl
  exact keeps_uniqueLock (keeps_lock.bind fun _ =>
    (htry.tryCatch fun _ => keeps_log logs.caught).bind fun _ =>
      keeps_lock.bind fun _ => hrelease.bind fun _ => keeps_unlock)

variable [DecidableEq EVENT]

omit [EnumClass STATE] in
theorem keeps_check
    (refused : LogOutcome) (event_i : EVENT) :
    Keeps registered (check refused event_i : Method STATE EVENT HANDLER _) := by
  intro m
  rw [check_run]
  split
  · rfl
  · split <;> rfl

theorem keeps_event
    (logs : LogOutcomes) (user : UserOutcomes) (event_i : EVENT) :
    Keeps registered (event logs user event_i : Method STATE EVENT HANDLER Bool) := by
  refine (keeps_locked (keeps_check logs.refused event_i)).bind fun found => ?_
  cases found with
  | none =>
      exact keeps_pure _ false
  | some dst =>
      refine (keeps_get _).bind fun m => ?_
      exact (keeps_transition_ logs user _ _ _ _).bind fun _ => keeps_pure _ true

end Frame

section Requests

variable {STATE EVENT HANDLER : Type}
variable [DecidableEq STATE] [DecidableEq EVENT]
variable {m m' : StateMachine STATE EVENT HANDLER}
variable {request : Request STATE EVENT HANDLER}

/-- What the call is about to store is the name of another state, or event, already. -/
def Collides (m : StateMachine STATE EVENT HANDLER) :
    Request STATE EVENT HANDLER → Prop
  | .nameEvent event_i name_i => Taken m.events_ event_i (shorten_ name_i)
  | .nameState state_i name_i => Taken m.states_ state_i (shorten_ name_i)
  | _ => False

/-- A name that collides is given without a prefix, where the logger is set up. -/
def PlainCollision (setUp : Prop) (m : StateMachine STATE EVENT HANDLER)
    (request : Request STATE EVENT HANDLER) (_ : StateMachine STATE EVENT HANDLER) : Prop :=
  m.Collides request →
    setUp ∧
      match request with
      | .nameEvent _ name_i => 0x3A ∉ name_i
      | .nameState _ name_i => 0x3A ∉ name_i
      | _ => True

/-- What a request does to the names. -/
inductive NameCases [Raising] (m : StateMachine STATE EVENT HANDLER) :
    Request STATE EVENT HANDLER →
      EStateM.Result StdException (StateMachine STATE EVENT HANDLER) Unit → Prop
  | eventRefused
      (event_i : EVENT) (name_i : Bytes) (message : String)
      (htaken : Taken m.events_ event_i name_i) :
      NameCases m (.nameEvent event_i name_i) (.error (Raising.raised .invalidArgument message) m)
  | eventNamed
      (event_i : EVENT) (name_i : Bytes)
      (hfree : ¬ Taken m.events_ event_i name_i) :
      NameCases m (.nameEvent event_i name_i)
        (.ok () { m with events_ := m.events_.insert event_i (shorten_ name_i) })
  | stateRefused
      (state_i : STATE) (name_i : Bytes) (message : String)
      (htaken : Taken m.states_ state_i name_i) :
      NameCases m (.nameState state_i name_i) (.error (Raising.raised .invalidArgument message) m)
  | stateNamed
      (state_i : STATE) (name_i : Bytes)
      (hfree : ¬ Taken m.states_ state_i name_i) :
      NameCases m (.nameState state_i name_i)
        (.ok () { m with states_ := m.states_.insert state_i (shorten_ name_i) })
  | aside
      (request : Request STATE EVENT HANDLER)
      (r : EStateM.Result StdException (StateMachine STATE EVENT HANDLER) Unit)
      (hcollides : ¬ m.Collides request)
      (hkeeps : (stateOf r).registered = m.registered) :
      NameCases m request r

variable [EnumClass STATE] [EnumClass EVENT]

theorem name_cases
    [Raising] (hmux : m.mux_ = false)
    (request : Request STATE EVENT HANDLER) :
    NameCases m request (request.method.run m) := by
  cases request with
  | nameEvent event_i name_i =>
      have hstore :
          { m with
            events_ := m.events_.insert event_i (shorten_ name_i), mux_ := false } =
          { m with events_ := m.events_.insert event_i (shorten_ name_i) } := by
        rw [← hmux]
      have hcases := locked_name_cases events_ event_i name_i
        s!"Event name \"{Bytes.text (shorten_ name_i)}\" was already used for another event"
        (fun m => { m with events_ := m.events_.insert event_i (shorten_ name_i) })
        hmux rfl hstore
      rcases hcases with ⟨htaken, hrun⟩ | ⟨hfree, hrun⟩
      · exact hrun ▸ .eventRefused event_i name_i _ htaken
      · exact hrun ▸ .eventNamed event_i name_i hfree
  | nameState state_i name_i =>
      have hstore :
          { m with
            states_ := m.states_.insert state_i (shorten_ name_i), mux_ := false } =
          { m with states_ := m.states_.insert state_i (shorten_ name_i) } := by
        rw [← hmux]
      have hcases := locked_name_cases states_ state_i name_i
        s!"State name \"{Bytes.text (shorten_ name_i)}\" was already used for another state"
        (fun m => { m with states_ := m.states_.insert state_i (shorten_ name_i) })
        hmux rfl hstore
      rcases hcases with ⟨htaken, hrun⟩ | ⟨hfree, hrun⟩
      · exact hrun ▸ .stateRefused state_i name_i _ htaken
      · exact hrun ▸ .stateNamed state_i name_i hfree
  | transition from_i event_i to_i onTrans_i inState_i =>
      refine .aside _ _ id (part_stateOf (keeps_locked ?_) m)
      refine (keeps_get _).bind fun m => ?_
      refine (keeps_fcet _ _ _ _).bind fun _ => (keeps_fcet _ _ _ _).bind fun _ => ?_
      refine (keeps_fcet _ _ _ _).bind fun _ => (keeps_fcet _ _ _ _).bind fun _ => ?_
      exact keeps_modify fun _ => rfl
  | obj obj_i =>
      exact .aside _ _ id rfl
  | observe func result =>
      refine .aside _ _ id (part_stateOf (keeps_locked ?_) m)
      refine (keeps_get _).bind fun m => (keeps_record _).bind fun _ => ?_
      split
      · exact keeps_throw _ _
      · exact keeps_modify fun _ => rfl
      · exact keeps_pure _ ()
  | event event_i logs user =>
      exact .aside _ _ id (part_stateOf ((keeps_event logs user event_i).bind fun _ =>
        keeps_pure _ ()) m)

/-- A call leaves the names unambiguous; one that would not is refused. -/
structure NamesLawful [Raising] (m : StateMachine STATE EVENT HANDLER)
    (request : Request STATE EVENT HANDLER) (m' : StateMachine STATE EVENT HANDLER) :
    Prop where
  events : Unambiguous m'.events_
  states : Unambiguous m'.states_
  refused : m.Collides request →
    (∃ message, request.method.run m = .error ⟨.invalidArgument, message⟩ m') ∧
      m'.events_ = m.events_ ∧ m'.states_ = m.states_

/-- Between two requests the mutex is free, and the names have been shortened. -/
structure NamesShort (m : StateMachine STATE EVENT HANDLER) : Prop where
  free : m.mux_ = false
  events : Short m.events_
  states : Short m.states_

omit [DecidableEq STATE] [DecidableEq EVENT] [EnumClass STATE] [EnumClass EVENT] in
theorem registered_eq
    (hkeeps : m'.registered = m.registered) :
    m'.events_ = m.events_ ∧ m'.states_ = m.states_ :=
  Prod.ext_iff.mp hkeeps

theorem NamesShort.step
    [Raising] (hshort : NamesShort m)
    (hstep : Requests m request m') :
    NamesShort m' := by
  have hcases := name_cases hshort.free request
  have hfree := hstep.free hshort.free
  rw [Requests] at hstep
  generalize request.method.run m = r at hcases hstep
  subst hstep
  cases hcases with
  | eventRefused =>
      exact hshort
  | eventNamed event_i name_i =>
      exact ⟨hfree, hshort.events.insert (colon_not_mem_shorten_ name_i), hshort.states⟩
  | stateRefused =>
      exact hshort
  | stateNamed state_i name_i =>
      exact ⟨hfree, hshort.events, hshort.states.insert (colon_not_mem_shorten_ name_i)⟩
  | aside request r hcollides hkeeps =>
      obtain ⟨hevents, hstates⟩ := registered_eq hkeeps
      exact ⟨hfree, hevents ▸ hshort.events, hstates ▸ hshort.states⟩

/-- Names that are short and unambiguous. -/
structure NamesSound (m : StateMachine STATE EVENT HANDLER) : Prop where
  short : NamesShort m
  events : Unambiguous m.events_
  states : Unambiguous m.states_

omit [EnumClass STATE] [EnumClass EVENT] in
theorem namesSound_init
    (start_i end_i : STATE) :
    NamesSound (init start_i end_i : StateMachine STATE EVENT HANDLER) where
  short := ⟨rfl, fun _ _ h => (Option.some_ne_none _ h.symm).elim,
    fun _ _ h => (Option.some_ne_none _ h.symm).elim⟩
  events := fun _ _ _ h => (Option.some_ne_none _ h.symm).elim
  states := fun _ _ _ h => (Option.some_ne_none _ h.symm).elim

omit [EnumClass STATE] [EnumClass EVENT] in
/-- The loop misses a collision only if the name has a prefix. -/
theorem not_taken_shorten_
    {K : Type} [DecidableEq K]
    {names : UnorderedMap K Bytes} {key : K} {name_i : Bytes}
    (hplain : Taken names key (shorten_ name_i) → 0x3A ∉ name_i)
    (hfree : ¬ Taken names key name_i) :
    ¬ Taken names key (shorten_ name_i) := by
  intro htaken
  rw [shorten_of_not_mem (hplain htaken)] at htaken
  exact hfree htaken

section Lawful

variable [Raising] {setUp : Prop}

/-- A call that is refused is lawful if the exception is the promised one. -/
theorem NamesSound.lawful_iff_of_refused
    {message : String}
    (hdeclares : Raising.DeclaresIf .invalidArgument setUp)
    (hsound : NamesSound m)
    (hrun : request.method.run m = .error (Raising.raised .invalidArgument message) m)
    (hcollides : m.Collides request)
    (hplain : setUp → PlainCollision setUp m request m) :
    NamesLawful m request m ↔ PlainCollision setUp m request m := by
  constructor
  · intro hlawful
    obtain ⟨⟨what, herror⟩, -⟩ := hlawful.refused hcollides
    have hexc := EStateM.Result.error.inj (hrun.symm.trans herror)
    exact hplain ((hdeclares.iff message).mp ⟨what, hexc.1⟩)
  · intro hseen
    obtain ⟨what, hraised⟩ := (hdeclares.iff message).mpr (hseen hcollides).1
    refine ⟨hsound.events, hsound.states, fun _ => ⟨⟨what, ?_⟩, rfl, rfl⟩⟩
    rw [hrun, hraised]

/-- A call that stores a name is lawful if the name does not collide. -/
theorem lawful_iff_of_named
    (hrun : request.method.run m = .ok () m')
    (hfree : PlainCollision setUp m request m' → ¬ m.Collides request)
    (hnames : ¬ m.Collides request → Unambiguous m'.events_ ∧ Unambiguous m'.states_) :
    NamesLawful m request m' ↔ PlainCollision setUp m request m' := by
  constructor
  · intro hlawful hcollides
    obtain ⟨⟨message, herror⟩, -⟩ := hlawful.refused hcollides
    cases hrun.symm.trans herror
  · intro hplain
    have hnot := hfree hplain
    exact ⟨(hnames hnot).1, (hnames hnot).2, fun hcollides => absurd hcollides hnot⟩

/-- A collision that is seen is refused; one that is not seen has a prefix. -/
theorem NamesSound.lawful_iff
    (hdeclares : Raising.DeclaresIf .invalidArgument setUp)
    (hsound : NamesSound m)
    (hstep : Requests m request m') :
    NamesLawful m request m' ↔ PlainCollision setUp m request m' := by
  have hcases := name_cases hsound.short.free request
  rw [Requests] at hstep
  generalize hr : request.method.run m = r at hcases hstep
  subst hstep
  cases hcases with
  | eventRefused event_i name_i message htaken =>
      obtain ⟨k, hk, hlookup⟩ := htaken
      have hshort := hsound.short.events k name_i hlookup
      refine hsound.lawful_iff_of_refused hdeclares hr ?_ fun hsetUp _ => ⟨hsetUp, hshort⟩
      exact ⟨k, hk, (shorten_of_not_mem hshort).symm ▸ hlookup⟩
  | eventNamed event_i name_i hfree =>
      refine lawful_iff_of_named hr
        (fun hplain => not_taken_shorten_ (fun h => (hplain h).2) hfree) ?_
      intro hnot
      exact ⟨hsound.events.insert hnot, hsound.states⟩
  | stateRefused state_i name_i message htaken =>
      obtain ⟨k, hk, hlookup⟩ := htaken
      have hshort := hsound.short.states k name_i hlookup
      refine hsound.lawful_iff_of_refused hdeclares hr ?_ fun hsetUp _ => ⟨hsetUp, hshort⟩
      exact ⟨k, hk, (shorten_of_not_mem hshort).symm ▸ hlookup⟩
  | stateNamed state_i name_i hfree =>
      refine lawful_iff_of_named hr
        (fun hplain => not_taken_shorten_ (fun h => (hplain h).2) hfree) ?_
      intro hnot
      exact ⟨hsound.events, hsound.states.insert hnot⟩
  | aside request r hcollides hkeeps =>
      obtain ⟨hevents, hstates⟩ := registered_eq hkeeps
      refine iff_of_true ⟨?_, ?_, fun h => absurd h hcollides⟩ fun h => absurd h hcollides
      · rw [hevents]
        exact hsound.events
      · rw [hstates]
        exact hsound.states

theorem NamesSound.step
    (hsound : NamesSound m)
    (hlawful : NamesLawful m request m')
    (hstep : Requests m request m') :
    NamesSound m' :=
  ⟨hsound.short.step hstep, hlawful.events, hlawful.states⟩

/-- The runs whose calls are lawful, and what they keep. -/
theorem lawful_run_iff
    (hdeclares : Raising.DeclaresIf .invalidArgument setUp)
    (start_i end_i : STATE)
    (requests : List (Request STATE EVENT HANDLER))
    (m : StateMachine STATE EVENT HANDLER) :
    (Run (Guarded NamesLawful Requests) (init start_i end_i) requests m ↔
      Run (Guarded (PlainCollision setUp) Requests) (init start_i end_i) requests m) ∧
    (Run (Guarded (PlainCollision setUp) Requests) (init start_i end_i) requests m →
      Unambiguous m.events_ ∧ Unambiguous m.states_) := by
  have hstart : NamesSound (init start_i end_i : StateMachine STATE EVENT HANDLER) :=
    namesSound_init start_i end_i
  have hplain {m m' : StateMachine STATE EVENT HANDLER}
      {request : Request STATE EVENT HANDLER} (hsound : NamesSound m)
      (hstep : Guarded (PlainCollision setUp) Requests m request m') :
      NamesLawful m request m' :=
    (hsound.lawful_iff hdeclares hstep.2).mpr hstep.1
  refine ⟨⟨fun hrun => ?_, fun hrun => ?_⟩, fun hrun => ?_⟩
  · refine hrun.mono NamesSound (fun hsound hstep => hsound.step hstep.1 hstep.2) ?_ hstart
    intro m request m' hsound hstep
    exact ⟨(hsound.lawful_iff hdeclares hstep.2).mp hstep.1, hstep.2⟩
  · refine hrun.mono NamesSound
      (fun hsound hstep => hsound.step (hplain hsound hstep) hstep.2) ?_ hstart
    intro m request m' hsound hstep
    exact ⟨hplain hsound hstep, hstep.2⟩
  · have hsound := hrun.invariant NamesSound
      (fun hsound hstep => hsound.step (hplain hsound hstep) hstep.2) hstart
    exact ⟨hsound.events, hsound.states⟩

end Lawful

/-- A request as a step of the machine, in a program with the logger. -/
def LoggedRequests (l : Logger) (now : Now) (here : Site)
    (m : StateMachine STATE EVENT HANDLER) (request : Request STATE EVENT HANDLER)
    (m' : StateMachine STATE EVENT HANDLER) : Prop :=
  @Requests _ _ _ _ _ _ _ (.ofLogger l now here) m request m'

/-- A call is lawful in a program with the logger. -/
def LoggedLawful (l : Logger) (now : Now) (here : Site)
    (m : StateMachine STATE EVENT HANDLER) (request : Request STATE EVENT HANDLER)
    (m' : StateMachine STATE EVENT HANDLER) : Prop :=
  @NamesLawful _ _ _ _ _ _ _ (.ofLogger l now here) m request m'

/-- **Names stay unambiguous**, and a call that would change that is refused, exactly
when no call gives a name with a prefix whose last part is the name of another state, or
event, already, and a name that collides is given only where the logger is set up. -/
theorem names_lawful_iff
    (calls : List Logger.ConfigCall) (now : Now) (here : Site)
    (start_i end_i : STATE)
    (requests : List (Request STATE EVENT HANDLER))
    (m : StateMachine STATE EVENT HANDLER) :
    (Run (Guarded (LoggedLawful (Logger.configured calls) now here)
        (LoggedRequests (Logger.configured calls) now here)) (init start_i end_i) requests m ↔
      Run (Guarded (PlainCollision ((Logger.configured calls).SetUp here))
        (LoggedRequests (Logger.configured calls) now here)) (init start_i end_i) requests m) ∧
    (Run (Guarded (PlainCollision ((Logger.configured calls).SetUp here))
        (LoggedRequests (Logger.configured calls) now here)) (init start_i end_i) requests m →
      Unambiguous m.events_ ∧ Unambiguous m.states_) :=
  @lawful_run_iff _ _ _ _ _ _ _ (.ofLogger (Logger.configured calls) now here) _
    (Logger.raised_kind_iff (by decide)) start_i end_i requests m

end Requests

/-- Two states with one name: the second call is not refused. -/
theorem two_states_one_name :
    ∃ m : StateMachine CheckState CheckEvent Unit,
      Run Requests (init .Start .End)
        [.nameState .Start (literal "Door::Open"),
          .nameState .Inter (literal "Gate::Open")] m ∧
      m.states_.lookup .Start = some (literal "Open") ∧
      m.states_.lookup .Inter = some (literal "Open") ∧
      ¬ Unambiguous m.states_ := by
  refine ⟨_, run_foldl _ _ _, rfl, rfl, ?_⟩
  intro hnames
  have hsame := hnames .Start .Inter (literal "Open") rfl rfl
  cases hsame

end StateMachine
end Bren
end Brenlib
