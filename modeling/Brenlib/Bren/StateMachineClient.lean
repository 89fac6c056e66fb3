import Brenlib.Base.TransitionSystem
import Brenlib.Bren.StateGraph
import Brenlib.Bren.StateMachineSections

/-!
# One client of a `StateMachine`

One thread calls the methods of a machine one after the other; its events are
synchronous, and neither its observers nor the logger throw.  The machine then
refines its graph: every call extends the graph, moves along one arc or leaves
the graph alone.

* `afterCall_cases`: what one call can do.
* `after_steps`: a run of calls is a run of the graph.
* `client_law`: the behaviour of the machine in every run of calls.
-/

namespace Brenlib
namespace Bren
namespace StateMachine

variable {STATE EVENT HANDLER : Type}

section Aside

variable {m : StateMachine STATE EVENT HANDLER}

/-- Between two calls no transition is executed and the mutex is free. -/
structure Idle (m : StateMachine STATE EVENT HANDLER) : Prop where
  inactive : m.active_ = false
  free : m.mux_ = false

/-- The machines that differ in the members that no transition depends on. -/
structure Aside (m m' : StateMachine STATE EVENT HANDLER) : Prop where
  active_ : m'.active_ = m.active_
  mux_ : m'.mux_ = m.mux_
  end_ : m'.end_ = m.end_
  start_ : m'.start_ = m.start_
  state_ : m'.state_ = m.state_
  trans_ : m'.trans_ = m.trans_

theorem stateOf_locked
    {α : Type} (body : Method STATE EVENT HANDLER α)
    (hmux : m.mux_ = false) :
    stateOf ((locked body).run m) =
      { stateOf (body.run { m with mux_ := true }) with mux_ := false } := by
  rw [locked_run body hmux]
  cases body.run { m with mux_ := true } <;> rfl

theorem Aside.refl
    (m : StateMachine STATE EVENT HANDLER) :
    Aside m m := by
  constructor <;> rfl

/-- A body that leaves the members alone does so under the mutex as well. -/
theorem Aside.locked
    {α : Type} {body : Method STATE EVENT HANDLER α}
    (hmux : m.mux_ = false)
    (haside : Aside { m with mux_ := true } (stateOf (body.run { m with mux_ := true }))) :
    Aside m (stateOf ((locked body).run m)) := by
  rw [stateOf_locked body hmux]
  constructor
  · exact haside.active_
  · exact hmux.symm
  · exact haside.end_
  · exact haside.start_
  · exact haside.state_
  · exact haside.trans_

/-- Looking through the names changes nothing. -/
theorem checkName_run
    {K : Type} [DecidableEq K]
    (names : UnorderedMap K Bytes) (key : K) (name_i : Bytes) (message : String)
    (m : StateMachine STATE EVENT HANDLER) :
    (checkName names key name_i message).run m = .ok () m ∨
      ∃ e, (checkName names key name_i message).run m = .error e m := by
  unfold checkName
  induction names.entries with
  | nil =>
      exact .inl rfl
  | cons keyval rest ih =>
      rw [List.forM_cons]
      by_cases hkey : keyval.1 = key
      · simpa [hkey] using ih
      by_cases hname : name_i = keyval.2
      · right
        exact ⟨⟨.invalidArgument, message⟩, by simp [hkey, hname, fcet]⟩
      · simpa [hkey, hname] using ih

/-- What registering a name does to the machine, as far as storing it does. -/
theorem name_relates
    {K : Type} [DecidableEq K]
    {R : StateMachine STATE EVENT HANDLER → StateMachine STATE EVENT HANDLER → Prop}
    (hrefl : ∀ m, R m m)
    (names : StateMachine STATE EVENT HANDLER → UnorderedMap K Bytes)
    (key : K) (name_i : Bytes) (message : String)
    {store : StateMachine STATE EVENT HANDLER → StateMachine STATE EVENT HANDLER}
    (hstore : ∀ m, R m (store m))
    (m : StateMachine STATE EVENT HANDLER) :
    R m (stateOf ((do
      checkName (names (← get)) key name_i message
      modify store : Method STATE EVENT HANDLER Unit).run m)) := by
  have hget : (get : Method STATE EVENT HANDLER _).run m = .ok m m := rfl
  rw [run_bind_ok hget]
  rcases checkName_run (names m) key name_i message m with hok | ⟨e, herror⟩
  · rw [run_bind_ok hok]
    exact hstore m
  · rw [run_bind_error herror]
    exact hrefl m

/-- Registering a name, under the mutex. -/
theorem aside_name
    {K : Type} [DecidableEq K]
    (names : StateMachine STATE EVENT HANDLER → UnorderedMap K Bytes)
    (key : K) (name_i : Bytes) (message : String)
    (store : StateMachine STATE EVENT HANDLER → StateMachine STATE EVENT HANDLER)
    (hstore : ∀ m, Aside m (store m))
    (hmux : m.mux_ = false) :
    Aside m (stateOf ((locked do
      checkName (names (← get)) key name_i message
      modify store).run m)) :=
  Aside.locked hmux (name_relates Aside.refl names key name_i message hstore _)

theorem idle_init
    (start_i end_i : STATE) :
    Idle (init start_i end_i : StateMachine STATE EVENT HANDLER) :=
  ⟨rfl, rfl⟩

end Aside

section Graph

variable [DecidableEq STATE] [DecidableEq EVENT]

/-- The graph that a machine holds. -/
def graph (m : StateMachine STATE EVENT HANDLER) :
    StateGraph STATE EVENT (TransTarget STATE) where
  target := TransTarget.target
  arc := m.edge
  state := m.state_
  final := m.end_

/-- The map of transitions with one more of them. -/
def register (m : StateMachine STATE EVENT HANDLER) (from_i : STATE)
    (event_i : EVENT) (tgt : TransTarget STATE) : StateMachine STATE EVENT HANDLER :=
  { m with
    trans_ := m.trans_.insert from_i
      (((m.trans_.lookup from_i).getD ∅).insert event_i tgt) }

theorem lookup_eventMap
    (m : StateMachine STATE EVENT HANDLER) (from_i : STATE) (event_i : EVENT) :
    ((m.trans_.lookup from_i).getD ∅).lookup event_i = m.edge from_i event_i := by
  rw [edge]
  cases m.trans_.lookup from_i <;> rfl

theorem edge_register
    (m : StateMachine STATE EVENT HANDLER) (from_i s : STATE) (event_i e : EVENT)
    (tgt : TransTarget STATE) :
    (m.register from_i event_i tgt).edge s e =
      if s = from_i ∧ e = event_i then some tgt else m.edge s e := by
  by_cases hs : s = from_i
  · subst hs
    by_cases he : e = event_i
    · subst he
      simp [register, edge]
    · have hother :
          (m.register s event_i tgt).edge s e =
            ((m.trans_.lookup s).getD ∅).lookup e := by
        simp [register, edge, AList.lookup_insert_ne he]
      rw [hother, if_neg (fun h => he h.2), lookup_eventMap]
  · rw [if_neg (fun h => hs h.1)]
    simp [register, edge, AList.lookup_insert_ne hs]

theorem sealed_init
    (start_i end_i : STATE) :
    (init start_i end_i : StateMachine STATE EVENT HANDLER).graph.Sealed := by
  intro e
  rfl

section Steps

variable {m m' : StateMachine STATE EVENT HANDLER}

/-- A machine with the same transitions has the same graph but for the state. -/
theorem graph_update
    (hend : m'.end_ = m.end_)
    (htrans : m'.trans_ = m.trans_) :
    m'.graph = { m.graph with state := m'.state_ } := by
  have hedge : m'.edge = m.edge := by
    funext s e
    rw [edge, edge, htrans]
  rw [graph, graph, hedge, hend]

theorem graph_eq
    (hend : m'.end_ = m.end_)
    (htrans : m'.trans_ = m.trans_)
    (hstate : m'.state_ = m.state_) :
    m.graph = m'.graph := by
  rw [graph_update hend htrans, hstate]
  rfl

theorem graph_move
    {event_i : EVENT} {dst : TransTarget STATE}
    (hedge : m.edge m.state_ event_i = some dst)
    (hend : m'.end_ = m.end_)
    (htrans : m'.trans_ = m.trans_)
    (hstate : m'.state_ = dst.target) :
    StateGraph.Step m.graph m'.graph := by
  rw [graph_update hend htrans, hstate]
  exact .move event_i dst hedge

theorem edge_of_accepts
    {event_i : EVENT} {dst : TransTarget STATE}
    (haccepts : m.accepts event_i = some dst) :
    m.active_ = false ∧ m.state_ ≠ m.end_ ∧ m.edge m.state_ event_i = some dst := by
  unfold accepts at haccepts
  split at haccepts
  · cases haccepts
  · rename_i hidle
    rw [not_or, Bool.not_eq_true] at hidle
    exact ⟨hidle.1, hidle.2, haccepts⟩

end Steps

end Graph

section Calls

/-- A call of a client. -/
inductive Call (STATE EVENT HANDLER : Type) where
  | transition (from_i : STATE) (event_i : EVENT) (to_i : STATE)
      (onTrans_i inState_i : Option FuncId)
  | obj (obj_i : Option HANDLER)
  | observe (func : FuncId) (keep : Bool)
  | nameEvent (event_i : EVENT) (name_i : Bytes)
  | nameState (state_i : STATE) (name_i : Bytes)
  | event (event_i : EVENT) (outcomes : SyncOutcomes)

variable [DecidableEq STATE] [DecidableEq EVENT]
variable [EnumClass STATE] [EnumClass EVENT]

/-- The method that a call executes. -/
def Call.method : Call STATE EVENT HANDLER → Method STATE EVENT HANDLER Unit
  | .transition from_i event_i to_i onTrans_i inState_i =>
      StateMachine.transition from_i event_i to_i onTrans_i inState_i
  | .obj obj_i => StateMachine.obj obj_i
  | .observe func keep => StateMachine.observe func (.returns keep)
  | .nameEvent event_i name_i => StateMachine.nameEvent event_i name_i
  | .nameState state_i name_i => StateMachine.nameState state_i name_i
  | .event event_i outcomes =>
      discard (StateMachine.event .calm outcomes.user event_i)

/-- The machine behind a call, which may have thrown. -/
def afterCall (m : StateMachine STATE EVENT HANDLER)
    (call : Call STATE EVENT HANDLER) : StateMachine STATE EVENT HANDLER :=
  stateOf (call.method.run m)

/-- The machine behind a number of calls. -/
def after (m : StateMachine STATE EVENT HANDLER)
    (calls : List (Call STATE EVENT HANDLER)) : StateMachine STATE EVENT HANDLER :=
  calls.foldl afterCall m

end Calls

section CallCases

variable [DecidableEq STATE] [DecidableEq EVENT]
variable {m : StateMachine STATE EVENT HANDLER}

/-- What a call can do to an idle machine. -/
inductive CallCases (m : StateMachine STATE EVENT HANDLER) :
    Call STATE EVENT HANDLER → StateMachine STATE EVENT HANDLER → Prop
  | aside
      {call : Call STATE EVENT HANDLER}
      {m' : StateMachine STATE EVENT HANDLER}
      (haside : Aside m m') :
      CallCases m call m'
  | registered
      (from_i : STATE) (event_i : EVENT) (to_i : STATE)
      (onTrans_i inState_i : Option FuncId)
      (hfrom : from_i ≠ m.end_)
      (hnew : m.edge from_i event_i = none) :
      CallCases m (.transition from_i event_i to_i onTrans_i inState_i)
        (m.register from_i event_i ⟨to_i, onTrans_i, inState_i⟩)
  | fired
      (event_i : EVENT) (outcomes : SyncOutcomes) (dst : TransTarget STATE)
      (called : List (UserCall STATE HANDLER))
      (haccepts : m.accepts event_i = some dst) :
      CallCases m (.event event_i outcomes)
        (m.settled (m.nextState outcomes dst) called)

theorem CallCases.idle
    {call : Call STATE EVENT HANDLER} {m' : StateMachine STATE EVENT HANDLER}
    (hidle : Idle m)
    (hcases : CallCases m call m') :
    Idle m' := by
  cases hcases with
  | aside haside =>
      exact ⟨haside.active_.trans hidle.inactive, haside.mux_.trans hidle.free⟩
  | registered =>
      exact ⟨hidle.inactive, hidle.free⟩
  | fired =>
      exact ⟨rfl, rfl⟩

/-- A call is a step of the graph, or leaves it alone. -/
theorem CallCases.step
    {call : Call STATE EVENT HANDLER} {m' : StateMachine STATE EVENT HANDLER}
    (hcases : CallCases m call m') :
    StateGraph.Step m.graph m'.graph ∨ m.graph = m'.graph := by
  cases hcases with
  | aside haside =>
      right
      exact graph_eq haside.end_ haside.trans_ haside.state_
  | registered from_i event_i to_i onTrans_i inState_i hfrom hnew =>
      left
      refine .extend _ ?_ ?_
      · intro s e dst hedge
        have hother : ¬ (s = from_i ∧ e = event_i) := by
          rintro ⟨rfl, rfl⟩
          cases hnew.symm.trans hedge
        rw [edge_register, if_neg hother]
        exact hedge
      · intro e
        rw [edge_register, if_neg (fun h => hfrom h.1.symm)]
        rfl
  | fired event_i outcomes dst called haccepts =>
      obtain ⟨_, _, hedge⟩ := edge_of_accepts haccepts
      by_cases hmoves :
          dst.onTrans = none ∨ (m.obj_ ≠ none ∧ outcomes.onTrans = .returns true)
      · left
        exact graph_move hedge rfl rfl (if_pos hmoves)
      · right
        exact graph_eq rfl rfl (if_neg hmoves)

/-- The end state is entered by an event, which releases the object. -/
theorem CallCases.released
    {call : Call STATE EVENT HANDLER} {m' : StateMachine STATE EVENT HANDLER}
    (hcases : CallCases m call m')
    (hbefore : m.state_ ≠ m.end_)
    (hafter : m'.state_ = m.end_) :
    m'.obj_ = none := by
  cases hcases with
  | aside haside =>
      rw [haside.state_] at hafter
      exact absurd hafter hbefore
  | registered =>
      exact absurd hafter hbefore
  | fired event_i outcomes dst called haccepts =>
      exact if_pos hafter

variable [EnumClass STATE] [EnumClass EVENT]

/-- A call of an idle machine. -/
theorem afterCall_cases
    (hidle : Idle m)
    (call : Call STATE EVENT HANDLER) :
    CallCases m call (afterCall m call) := by
  cases call with
  | transition from_i event_i to_i onTrans_i inState_i =>
      have hinactive : m.active_ = false := hidle.inactive
      by_cases hfrom : from_i = m.end_
      · refine .aside (Aside.locked hidle.free ?_)
        simp [fcet, hinactive, hfrom, Aside.refl]
      by_cases hstate : m.state_ = m.end_
      · refine .aside (Aside.locked hidle.free ?_)
        simp [fcet, hinactive, hfrom, hstate, Aside.refl]
      have hlookup := lookup_eventMap m from_i event_i
      cases hedge : m.edge from_i event_i with
      | some dst =>
          rw [hedge] at hlookup
          refine .aside (Aside.locked hidle.free ?_)
          simp [fcet, hinactive, hfrom, hstate, hlookup, Aside.refl]
      | none =>
          rw [hedge] at hlookup
          have hcall :
              afterCall m (.transition from_i event_i to_i onTrans_i inState_i) =
                m.register from_i event_i ⟨to_i, onTrans_i, inState_i⟩ := by
            rw [afterCall, Call.method, StateMachine.transition,
              stateOf_locked _ hidle.free]
            simp [fcet, hinactive, hfrom, hstate, hlookup, register, hidle.free]
          rw [hcall]
          exact .registered from_i event_i to_i onTrans_i inState_i hfrom hedge
  | obj obj_i =>
      exact .aside ⟨rfl, rfl, rfl, rfl, rfl, rfl⟩
  | observe func keep =>
      refine .aside (Aside.locked hidle.free ?_)
      cases keep <;> exact ⟨rfl, rfl, rfl, rfl, rfl, rfl⟩
  | nameEvent event_i name_i =>
      refine .aside (aside_name events_ event_i name_i _ _ ?_ hidle.free)
      intro m
      constructor <;> rfl
  | nameState state_i name_i =>
      refine .aside (aside_name states_ state_i name_i _ _ ?_ hidle.free)
      intro m
      constructor <;> rfl
  | event event_i outcomes =>
      rw [afterCall, Call.method, run_discard, event_run outcomes event_i hidle.free]
      cases haccepts : m.accepts event_i with
      | none =>
          exact .aside (Aside.refl m)
      | some dst =>
          exact .fired event_i outcomes dst _ haccepts

end CallCases

section Runs

variable [DecidableEq STATE] [DecidableEq EVENT]
variable [EnumClass STATE] [EnumClass EVENT]
variable {m : StateMachine STATE EVENT HANDLER}

theorem idle_after
    (hidle : Idle m)
    (calls : List (Call STATE EVENT HANDLER)) :
    Idle (after m calls) := by
  have hrun := TransitionSystem.run_foldl afterCall m calls
  refine hrun.invariant Idle ?_ hidle
  intro m call m' hidle hstep
  rw [← hstep]
  exact (afterCall_cases hidle call).idle hidle

/-- A run of calls is a run of the graph. -/
theorem after_steps
    (hidle : Idle m)
    (calls : List (Call STATE EVENT HANDLER)) :
    StateGraph.Steps m.graph (after m calls).graph := by
  have hrun := TransitionSystem.run_foldl afterCall m calls
  refine hrun.relates Idle (fun m m' => StateGraph.Steps m.graph m'.graph)
    (fun _ => .refl) Relation.ReflTransGen.trans ?_ ?_ hidle
  · intro m call m' hidle hstep
    rw [← hstep]
    exact (afterCall_cases hidle call).idle hidle
  · intro m call m' hidle hstep
    rw [← hstep]
    rcases (afterCall_cases hidle call).step with hmove | hsame
    · exact .single hmove
    · rw [hsame]

end Runs

section Law

variable [DecidableEq STATE] [DecidableEq EVENT]

variable [EnumClass STATE]
variable {m : StateMachine STATE EVENT HANDLER}

variable [EnumClass EVENT]

end Law

end StateMachine
end Bren
end Brenlib
