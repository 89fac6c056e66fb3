import Brenlib.Bren.StateMachineExclusion
import Brenlib.Bren.StateMachineSolo

/-!
# Steps along registered edges

The source and the target of a transition are fixed when its event is accepted and
written when its `onTrans` function has returned.  While one call is in flight at
most, nothing changes the state in between, so that the write is a step along the
edge; two calls in flight may write one behind the other.

* `Consistent`: what a call in flight knows about the machine.
* `Lawful`: a step of the state follows an edge of the event that was triggered, and
  user functions are started with the object that the machine holds.
* `prompt_lawful`: runs whose checks are `Prompt` are lawful and do not leave the
  end state.
-/

namespace Brenlib
namespace Bren
namespace StateMachine

open TransitionSystem

variable {STATE EVENT HANDLER : Type}
variable [DecidableEq STATE] [DecidableEq EVENT]

section Conditions

/-- The edge that a transition follows starts in the current state. -/
structure Pending (m : StateMachine STATE EVENT HANDLER)
    (args : TransArgs STATE EVENT) : Prop where
  from_i : args.from_i = m.state_
  edge : ∃ dst, m.edge m.state_ args.event_i = some dst ∧ dst.target = args.to_i

/-- What a call in flight has found out about the machine is still true. -/
def Consistent (m : StateMachine STATE EVENT HANDLER) : Phase STATE EVENT → Prop
  | .accepted event_i dst => m.edge m.state_ event_i = some dst
  | .transition _ args .waiting => Pending m args
  | .transition _ args .initiated => Pending m args
  | .transition _ args (.objTested _) => Pending m args ∧ m.obj_ ≠ none
  | .transition _ args .inOnTrans => Pending m args
  | .transition _ args (.changing to_i) =>
      Pending m args ∧ (to_i = args.to_i ∨ to_i = args.from_i)
  | .transition _ _ (.objTestedAgain _) => m.obj_ ≠ none
  | _ => True

/-- A change of the state follows an edge registered for the event of the call that
makes it, and a user function is started with the object that the machine holds. -/
structure Lawful (s : System STATE EVENT HANDLER) (l : Nat × Action EVENT)
    (t : System STATE EVENT HANDLER) : Prop where
  edge :
    s.machine.state_ ≠ t.machine.state_ →
      ∃ event_i dst, (s.phase l.1).event? = some event_i ∧
        s.machine.edge s.machine.state_ event_i = some dst ∧
        dst.target = t.machine.state_
  obj :
    ∃ calls, t.machine.called = s.machine.called ++ calls ∧
      ∀ f obj, (.onTrans f obj ∈ calls ∨ .inState f obj ∈ calls) →
        obj ≠ none ∧ obj = s.machine.obj_

end Conditions

section Calls

variable {m m' : StateMachine STATE EVENT HANDLER} {a : Action EVENT}
variable {p p' : Phase STATE EVENT}

theorem consistent_out
    (hout : ¬ p.InFlight) :
    Consistent m p := by
  cases p with
  | accepted => exact absurd trivial hout
  | transition => exact absurd trivial hout
  | idle => trivial
  | returned => trivial
  | threw => trivial
  | terminated => trivial

theorem pending_argsOf
    {event_i : EVENT} {dst : TransTarget STATE}
    (hedge : m.edge m.state_ event_i = some dst) :
    Pending m (argsOf m event_i dst) where
  from_i := rfl
  edge := ⟨dst, hedge, rfl⟩

/-- Steps inside `transition_` that leave the machine alone. -/
theorem PlaceStep.consistent
    {sync_i : Bool} {args : TransArgs STATE EVENT} {place place' : Place STATE}
    (hplace : PlaceStep m args place place')
    (hconsistent : Consistent m (.transition sync_i args place)) :
    Consistent m (.transition sync_i args place') := by
  cases hplace with
  | noFunction => exact ⟨hconsistent, .inl rfl⟩
  | tested f hobj => exact ⟨hconsistent, hobj⟩
  | succeeded => exact ⟨hconsistent, .inl rfl⟩
  | failed => exact ⟨hconsistent, .inr rfl⟩
  | noInState => trivial
  | testedAgain f hobj => exact hobj
  | left => trivial
  | caught => trivial

/-- A call keeps what it has found out. -/
theorem AdvanceCases.consistent
    (hcases : AdvanceCases m a p m' p')
    (hconsistent : Consistent m p) :
    Consistent m' p' := by
  cases hcases with
  | refused event_i sync_i refused thread _ haccepts hp =>
      apply consistent_out
      rcases hp with rfl | ⟨-, rfl⟩ <;> exact id
  | accepted event_i sync_i refused thread dst _ haccepts hp =>
      have hedge := (edge_of_accepts haccepts).2.2
      rcases hp with rfl | rfl | rfl
      · exact hedge
      · exact pending_argsOf hedge
      · trivial
  | called event_i dst => exact pending_argsOf hconsistent
  | initiated initiating caught sync_i args _ hp =>
      rcases hp with rfl | ⟨e, rfl⟩
      · exact ⟨hconsistent.from_i, hconsistent.edge⟩
      · exact consistent_out (Phase.not_inFlight_escaped sync_i e)
  | moved a sync_i args place place' hcheck hplace =>
      exact hplace.consistent hconsistent
  | startedOnTrans sync_i args f =>
      exact ⟨hconsistent.1.from_i, hconsistent.1.edge⟩
  | startedInState => trivial
  | changed changing caught observers sync_i args to_i callbacks calls _ hcalls hp =>
      rcases hp with rfl | ⟨e, rfl⟩
      · trivial
      · exact consistent_out (Phase.not_inFlight_escaped sync_i e)
  | released => trivial
  | lost caught sync_i args e =>
      exact consistent_out (Phase.not_inFlight_escaped sync_i e)

/-- The state changes along the edge of the transition only. -/
theorem AdvanceCases.edge
    (hcases : AdvanceCases m a p m' p')
    (hconsistent : Consistent m p) :
    m'.state_ = m.state_ ∨
      ∃ event_i dst, p.event? = some event_i ∧
        m.edge m.state_ event_i = some dst ∧ dst.target = m'.state_ := by
  cases hcases with
  | changed changing caught observers sync_i args to_i callbacks calls _ hcalls hp =>
      obtain ⟨hpending, rfl | rfl⟩ := hconsistent
      · obtain ⟨dst, hedge, htarget⟩ := hpending.edge
        exact .inr ⟨args.event_i, dst, rfl, hedge, htarget⟩
      · exact .inl hpending.from_i
  | refused => exact .inl rfl
  | accepted => exact .inl rfl
  | called => exact .inl rfl
  | initiated => exact .inl rfl
  | moved => exact .inl rfl
  | startedOnTrans => exact .inl rfl
  | startedInState => exact .inl rfl
  | released => exact .inl rfl
  | lost => exact .inl rfl

/-- The calls of user functions that a step makes. -/
theorem AdvanceCases.calls
    (hcases : AdvanceCases m a p m' p')
    (hconsistent : Consistent m p) :
    ∃ calls, m'.called = m.called ++ calls ∧
      ∀ f obj, (.onTrans f obj ∈ calls ∨ .inState f obj ∈ calls) →
        obj ≠ none ∧ obj = m.obj_ := by
  have hnone {called : List (UserCall STATE HANDLER)} (h : called = m.called) :
      ∃ calls, called = m.called ++ calls ∧
        ∀ f obj, (.onTrans f obj ∈ calls ∨ .inState f obj ∈ calls) →
          obj ≠ none ∧ obj = m.obj_ :=
    ⟨[], by rw [h, List.append_nil], by simp⟩
  cases hcases with
  | startedOnTrans sync_i args f =>
      refine ⟨_, rfl, ?_⟩
      rintro g obj (h | h)
      · obtain ⟨-, rfl⟩ := UserCall.onTrans.inj (List.mem_singleton.mp h)
        exact ⟨hconsistent.2, rfl⟩
      · cases List.mem_singleton.mp h
  | startedInState executing sync_i args f =>
      refine ⟨_, rfl, ?_⟩
      rintro g obj (h | h)
      · cases List.mem_singleton.mp h
      · obtain ⟨-, rfl⟩ := UserCall.inState.inj (List.mem_singleton.mp h)
        exact ⟨hconsistent, rfl⟩
  | changed changing caught observers sync_i args to_i callbacks calls _ hcalls hp =>
      refine ⟨calls, rfl, ?_⟩
      rintro f obj (h | h)
      · exact (hcalls _ h).elim
      · exact (hcalls _ h).elim
  | refused => exact hnone rfl
  | accepted => exact hnone rfl
  | called => exact hnone rfl
  | initiated => exact hnone rfl
  | moved => exact hnone rfl
  | released => exact hnone rfl
  | lost => exact hnone rfl

end Calls

section Runs

variable [EnumClass STATE]
variable {s t : System STATE EVENT HANDLER} {l : Nat × Action EVENT}

/-- One call in flight at most, which knows the machine. -/
structure Ordered (s : System STATE EVENT HANDLER) : Prop where
  exclusive : Exclusive s
  consistent : ∀ i, Consistent s.machine (s.phase i)

theorem Ordered.step
    (hordered : Ordered s)
    (hstep : Guarded Prompt (Steps StateMachine.step) s l t) :
    Ordered t where
  exclusive := hordered.exclusive.prompt_step hstep
  consistent :=
    step_keeps Consistent consistent_out AdvanceCases.consistent
      hordered.exclusive.one.free hordered.exclusive.one.single hstep.2
      hordered.consistent

theorem Ordered.lawful
    (hordered : Ordered s)
    (hstep : Steps StateMachine.step s l t) :
    Lawful s l t := by
  have hcases := step_cases hordered.exclusive.one.free hstep
  have hconsistent := hordered.consistent l.1
  constructor
  · intro hchange
    rcases hcases.edge hconsistent with hstay | hmove
    · exact absurd hstay.symm hchange
    · exact hmove
  · exact hcases.calls hconsistent

/-- A step of the threads is a step of the graph, or leaves it alone. -/
theorem Ordered.graph
    (hordered : Ordered s)
    (hstep : Steps StateMachine.step s l t) :
    StateGraph.Steps s.machine.graph t.machine.graph := by
  have hfree := hordered.exclusive.one.free
  have hcases := step_cases hfree hstep
  obtain ⟨-, hend, htrans⟩ := hcases.frame hfree
  rcases hcases.edge (hordered.consistent l.1) with
    hstay | ⟨event_i, dst, -, hedge, htarget⟩
  · rw [graph_eq hend htrans hstay]
  · exact .single (graph_move hedge hend htrans htarget.symm)

/-- A run of the threads is a run of the graph. -/
theorem run_steps
    {labels : List (Nat × Action EVENT)}
    (hrun : Run (Guarded Prompt (Steps StateMachine.step)) s labels t)
    (hordered : Ordered s) :
    StateGraph.Steps s.machine.graph t.machine.graph :=
  hrun.relates Ordered (fun s t => StateGraph.Steps s.machine.graph t.machine.graph)
    (fun _ => .refl) Relation.ReflTransGen.trans Ordered.step
    (fun hordered hstep => hordered.graph hstep.2) hordered

end Runs

section Theorem

variable [EnumClass STATE] [EnumClass EVENT]

theorem ordered_ready
    (start_i end_i : STATE) (calls : List (Call STATE EVENT HANDLER)) :
    Ordered (System.ready (after (init start_i end_i) calls)) where
  exclusive := exclusive_ready start_i end_i calls
  consistent := fun _ => trivial

/-- When no event with an edge is checked while an accepted call has yet to set
`active_`, every step is lawful, and a machine in its end state stays there in
every continuation of the run. -/
theorem prompt_lawful
    (start_i end_i : STATE) (calls : List (Call STATE EVENT HANDLER))
    {labels : List (Nat × Action EVENT)} {s : System STATE EVENT HANDLER}
    (hrun : Run (Guarded Prompt (Steps step))
      (System.ready (after (init start_i end_i) calls)) labels s) :
    Run (Guarded Lawful (Steps step))
      (System.ready (after (init start_i end_i) calls)) labels s ∧
    ∀ later t, Run (Guarded Prompt (Steps step)) s later t →
      s.machine.state_ = end_i → t.machine.state_ = end_i := by
  have hready : Ordered (System.ready (after (init start_i end_i) calls)) :=
    ordered_ready start_i end_i calls
  have hordered := hrun.invariant Ordered Ordered.step hready
  constructor
  · refine hrun.mono Ordered Ordered.step ?_ hready
    intro s l t hordered hstep
    exact ⟨hordered.lawful hstep.2, hstep.2⟩
  · intro later t hlater hfinal
    have hsteps := run_steps hrun hready
    have hend : s.machine.end_ = end_i := by
      have hstart : Idle (init start_i end_i : StateMachine STATE EVENT HANDLER) :=
        idle_init start_i end_i
      exact hsteps.final.trans (after_steps hstart calls).final
    have hstay := (run_steps hlater hordered).absorbed hordered.exclusive.closed
      (hfinal.trans hend.symm)
    exact hstay.trans hfinal

end Theorem

section CheckMachine

/-- The machine of the check, before any event. -/
def checkMachine : StateMachine CheckState CheckEvent Unit :=
  after (init .Start .End) checkSetUp

/-- The arguments of the transition from `Start` to `Inter`. -/
def eventArgs : TransArgs CheckState CheckEvent :=
  ⟨.Start, .Event, .Inter, none, none⟩

/-- The arguments of the transition from `Start` to `End`. -/
def quitArgs : TransArgs CheckState CheckEvent :=
  ⟨.Start, .Quit, .End, none, none⟩

/-- A call whose thread has been created. -/
def waitingFor (args : TransArgs CheckState CheckEvent) :
    Phase CheckState CheckEvent :=
  .transition false args .waiting

/-- The transition to `End`, executed by a call alone. -/
theorem solo_quit :
    ∃ called, Solo checkMachine (waitingFor quitArgs)
      (checkMachine.settled .End called) (.returned true) := by
  let outcomes : SyncOutcomes := ⟨.returns true, fun _ => true, .returns⟩
  have hmux : checkMachine.mux_ = false := rfl
  obtain ⟨m', hrun, hsolo⟩ := solo_transition hmux outcomes false quitArgs
  have hrun' :=
    run_transition_ outcomes (⟨.End, none, none⟩ : TransTarget CheckState) hmux
  cases hrun.symm.trans hrun'
  exact ⟨_, hsolo⟩

/-- An event alone: the machine comes to its end state. -/
theorem prompt_lawful_quit :
    ∃ labels, ∃ s : System CheckState CheckEvent Unit, s.machine.state_ = .End ∧
      Run (Guarded Lawful (Steps step)) checkSystem labels s ∧
      ∀ later t, Run (Guarded Prompt (Steps step)) s later t →
        s.machine.state_ = .End → t.machine.state_ = .End := by
  obtain ⟨called, acts, hcheck, hrun⟩ := solo_quit
  have hfirst : Guarded Prompt (Steps step) checkSystem (0, trigger .Quit)
      (checkSystem.at 0 checkMachine (waitingFor quitArgs)) :=
    ⟨fun ⟨_, h⟩ => h.elim, rfl⟩
  let s := checkSystem.at 0 (checkMachine.settled .End called) (.returned true)
  have hrest : Run (Guarded Prompt (Steps step)) _ _ s :=
    (hrun checkSystem 0).guarded (by
      intro l hl
      obtain ⟨a, ha, rfl⟩ := List.mem_map.mp hl
      exact prompt_of_not_check (hcheck a ha))
  have hrun : Run (Guarded Prompt (Steps step))
      (System.ready (after (init CheckState.Start CheckState.End) checkSetUp)) _ s :=
    hrest.cons hfirst
  exact ⟨_, s, rfl, prompt_lawful CheckState.Start CheckState.End checkSetUp hrun⟩

/-- Two events are accepted in `Start`.  The second one takes the machine to `End`;
then the first one takes it to `Inter`, although no edge leaves `End`. -/
theorem late_event_leaves_end :
    ∃ labels l, ∃ s t : System CheckState CheckEvent Unit,
      Run (Steps step) checkSystem labels s ∧ Steps step s l t ∧
      s.machine.state_ = .End ∧ s.machine.end_ = .End ∧
      t.machine.state_ = .Inter ∧ ¬ Lawful s l t := by
  obtain ⟨called, acts, hcheck, hrun⟩ := solo_quit
  let m := checkMachine.settled .End called
  let m₁ : StateMachine CheckState CheckEvent Unit := { m with active_ := true }
  have htriggers : Run (Steps step) checkSystem
      [(0, trigger .Event), (1, trigger .Quit)]
      ((checkSystem.at 0 checkMachine (waitingFor eventArgs)).at 1 checkMachine
        (waitingFor quitArgs)) :=
    run_of_exec rfl
  have hquit := hrun (checkSystem.at 0 checkMachine (waitingFor eventArgs)) 1
  have hswap :
      (checkSystem.at 0 checkMachine (waitingFor eventArgs)).at 1 m (.returned true) =
        (checkSystem.at 1 checkMachine (.returned true)).at 0 m
          (waitingFor eventArgs) :=
    System.at_comm (by decide)
  have hinitiate : Solo m (waitingFor eventArgs)
      m₁ (.transition false eventArgs .initiated) :=
    solo_initiate rfl false eventArgs
  have htest : Solo m₁ (.transition false eventArgs .initiated)
      m₁ (.transition false eventArgs (.changing .Inter)) :=
    Solo.step (a := .testObj) id rfl rfl
  obtain ⟨acts', -, hevent⟩ := hinitiate.trans htest
  let s := (checkSystem.at 1 checkMachine (.returned true)).at 0 m₁
    (.transition false eventArgs (.changing .Inter))
  let m₂ : StateMachine CheckState CheckEvent Unit := { m₁ with state_ := .Inter }
  have hchange :
      advance m₁ (.change .writes .writes (quiet fun _ => true))
          (.transition false eventArgs (.changing .Inter)) =
        some (m₂, .transition false eventArgs .changed) := rfl
  have hbefore : Run (Steps step) checkSystem _ s :=
    htriggers.append (hquit.append (hswap ▸ hevent _ 0))
  refine ⟨_, _, s, _, hbefore, step_at hchange rfl, rfl, rfl, rfl, ?_⟩
  intro hlawful
  have hmoved : CheckState.End ≠ .Inter := by decide
  obtain ⟨event_i, dst, -, hedge, -⟩ := hlawful.edge hmoved
  cases event_i <;> cases hedge

end CheckMachine

end StateMachine
end Bren
end Brenlib
