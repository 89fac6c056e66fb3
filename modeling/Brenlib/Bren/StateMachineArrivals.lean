import Brenlib.Bren.StateMachineExceptions
import Brenlib.Bren.StateMachineThreads

/-!
# The functions of the states that transitions lead to

`transition_` calls `inState_i` behind its change of the state.  All three branches in
front of it come there, also the one in which `onTrans_i` has returned false and the state
is set to what it was; a throw leaves the way in between.

Calls of `event()` are interleaved as in `StateMachineThreads`, and with whole calls of the
other methods.  A note for each call keeps what has been seen of it.

* `Note.Right`: the function is called, once, behind a change to the target, and there
  only.
* `Note.Fits`: what the note says of a call that has come to a phase.
* `right_iff_meets`: the calls are right in a run exactly when every step meets the
  condition `Note.Meets`, which looks at the step in front of the call of the function.
* `right_of_orderly`: they are right in every run in which no transition with such a function
  is refused and goes on, and nothing is thrown where the function is due (`Note.Orderly`).
-/

namespace Brenlib
namespace Bren
namespace StateMachine

open TransitionSystem

variable {STATE EVENT HANDLER : Type}

section Notes

/-- What has been seen of one call of `event()`: the arguments of its `transition_`, what
its `onTrans` function has done, the state that it has set, whether the object was set
then, or later at the test in front of `inState_i`, and the `inState` functions that its
steps have called. -/
structure Note (STATE EVENT : Type) where
  args : Option (TransArgs STATE EVENT) := none
  answer : Option TransOutcome := none
  changed : Option STATE := none
  obj : Bool := false
  entered : List FuncId := []

/-- The `inState` functions among some calls. -/
def inStates (calls : List (UserCall STATE HANDLER)) : List FuncId :=
  calls.filterMap fun
    | .inState f _ => some f
    | _ => none

theorem inStates_of_observers
    {calls : List (UserCall STATE HANDLER)}
    (hcalls : ∀ c ∈ calls, UserCall.IsObserver c) :
    inStates calls = [] := by
  rw [inStates, List.filterMap_eq_nil_iff]
  intro c hc
  have hobserver := hcalls c hc
  cases c with
  | observer =>
      rfl
  | onTrans =>
      exact hobserver.elim
  | inState =>
      exact hobserver.elim

/-- What a step from the machine `m` to the machine `m'` shows, but for the calls that it
makes. -/
def Note.see (n : Note STATE EVENT) (a : Action EVENT)
    (m m' : StateMachine STATE EVENT HANDLER) (p' : Phase STATE EVENT) :
    Note STATE EVENT :=
  match a with
  | .check _ _ _ _ | .call =>
      match p' with
      | .transition _ args _ => { n with args := some args }
      | _ => n
  | .returnOnTrans result => { n with answer := some result }
  | .change .writes _ _ => { n with changed := some m'.state_, obj := m'.obj_.isSome }
  | .testObjAgain => { n with obj := m.obj_.isSome }
  | _ => n

/-- The note behind a step. -/
def Note.after (n : Note STATE EVENT) (a : Action EVENT)
    (m m' : StateMachine STATE EVENT HANDLER) (p' : Phase STATE EVENT) :
    Note STATE EVENT :=
  { n.see a m m' p' with
    entered := n.entered ++ inStates (m'.called.drop m.called.length) }

/-- The `inState` function of the transition. -/
def Note.inState_i (n : Note STATE EVENT) : Option FuncId :=
  n.args.bind TransArgs.inState_i

/-- The transition has changed the state to its target, and the object is set. -/
def Note.Arrived (n : Note STATE EVENT) : Prop :=
  ∃ args, n.args = some args ∧ n.changed = some args.to_i ∧
    (args.onTrans_i = none ∨ n.answer = some (.returns true)) ∧ n.obj = true

/-- No function of the transition is called any more. -/
def Phase.Left : Phase STATE EVENT → Prop
  | .transition _ _ .caught => True
  | .transition _ _ .ending => True
  | .returned _ => True
  | .threw _ => True
  | .terminated => True
  | _ => False

/-- The `inState` function is called when the transition has changed the state to its
target, once, and only then. -/
structure Note.Right (n : Note STATE EVENT) (p : Phase STATE EVENT) : Prop where
  only : n.entered ≠ [] → n.Arrived ∧ ∃ f, n.inState_i = some f ∧ n.entered = [f]
  whenever : p.Left → n.Arrived → ∀ f, n.inState_i = some f → n.entered = [f]

/-- The answer of `onTrans_i` decides for the state `to_i`. -/
def Note.Decides (n : Note STATE EVENT) (args : TransArgs STATE EVENT) (to_i : STATE) :
    Prop :=
  (to_i = args.to_i ∧
    ((args.onTrans_i = none ∧ n.answer = none) ∨ n.answer = some (.returns true))) ∨
  (args.onTrans_i ≠ none ∧ n.answer = some (.returns false))

/-- What has been seen of a call that has come to a phase. -/
def Note.Fits (n : Note STATE EVENT) : Phase STATE EVENT → Prop
  | .idle => n = {}
  | .accepted _ _ => n = {}
  | .transition _ args .waiting => n = { args := some args }
  | .transition _ args .initiated => n = { args := some args }
  | .transition _ args (.objTested _) => n = { args := some args } ∧ args.onTrans_i ≠ none
  | .transition _ args .inOnTrans => n = { args := some args } ∧ args.onTrans_i ≠ none
  | .transition _ args (.changing to_i) =>
      n.args = some args ∧ n.entered = [] ∧ n.changed = none ∧ n.Decides args to_i
  | .transition _ args .changed =>
      n.args = some args ∧ n.entered = [] ∧
        ∃ to_i, n.changed = some to_i ∧ n.Decides args to_i
  | .transition _ args (.objTestedAgain f) =>
      n.args = some args ∧ n.entered = [] ∧ n.obj = true ∧ args.inState_i = some f ∧
        ∃ to_i, n.changed = some to_i ∧ n.Decides args to_i
  | .transition _ _ .inInState => n.entered ≠ []
  | _ => True

theorem Note.right_of_empty
    {n : Note STATE EVENT} {p : Phase STATE EVENT}
    (hentered : n.entered = [])
    (hnot : p.Left → n.Arrived → n.inState_i = none) :
    n.Right p where
  only := fun h => absurd hentered h
  whenever := by
    intro hleft harrived f hsome
    cases (hnot hleft harrived).symm.trans hsome

/-- Behind the end of a transition the phase makes no difference. -/
theorem Note.right_congr
    {n : Note STATE EVENT} {p p' : Phase STATE EVENT}
    (hleft : p.Left)
    (hleft' : p'.Left) :
    n.Right p' ↔ n.Right p := by
  constructor
  · intro hright
    exact ⟨hright.only, fun _ => hright.whenever hleft'⟩
  · intro hright
    exact ⟨hright.only, fun _ => hright.whenever hleft⟩

theorem Note.right_of_unchanged
    {n : Note STATE EVENT} {p : Phase STATE EVENT}
    (hentered : n.entered = [])
    (hchanged : n.changed = none) :
    n.Right p := by
  refine n.right_of_empty hentered fun _ harrived => ?_
  obtain ⟨args, -, hreached, -⟩ := harrived
  cases hchanged.symm.trans hreached

/-- Behind the answer of `onTrans_i`: the target is reached unless it was refused. -/
theorem Note.Decides.arrived_iff
    {n : Note STATE EVENT} {args : TransArgs STATE EVENT} {to_i : STATE}
    (hdecides : n.Decides args to_i)
    (hargs : n.args = some args)
    (hchanged : n.changed = some to_i)
    (hobj : n.obj = true) :
    n.Arrived ↔ n.answer ≠ some (.returns false) := by
  rcases hdecides with ⟨rfl, hanswer⟩ | ⟨hsome, hanswer⟩
  · constructor
    · intro _ hrefused
      rcases hanswer with ⟨-, hnone⟩ | htrue
      · cases hnone.symm.trans hrefused
      · cases htrue.symm.trans hrefused
    · intro _
      exact ⟨args, hargs, hchanged, hanswer.imp_left And.left, hobj⟩
  · constructor
    · rintro ⟨args', hargs', -, hreached, -⟩
      obtain rfl := Option.some.inj (hargs.symm.trans hargs')
      rcases hreached with hnone | htrue
      · exact absurd hnone hsome
      · cases hanswer.symm.trans htrue
    · intro hnot
      exact absurd hanswer hnot

end Notes

section Passages

variable {m m' : StateMachine STATE EVENT HANDLER} {a : Action EVENT}
variable {p p' : Phase STATE EVENT} {n : Note STATE EVENT}

theorem left_escaped
    (sync_i : Bool) (e : StdException) :
    (Phase.escaped sync_i e : Phase STATE EVENT).Left := by
  cases sync_i <;> trivial

theorem fits_escaped
    (n : Note STATE EVENT) (sync_i : Bool) (e : StdException) :
    n.Fits (.escaped sync_i e) := by
  cases sync_i <;> trivial

theorem Note.entered_see
    (n : Note STATE EVENT) (a : Action EVENT)
    (m m' : StateMachine STATE EVENT HANDLER) (p' : Phase STATE EVENT) :
    (n.see a m m' p').entered = n.entered := by
  unfold Note.see
  split
  · split <;> rfl
  · split <;> rfl
  all_goals rfl

/-- A step that makes calls, among them none of an `inState` function. -/
theorem Note.after_eq_see
    (n : Note STATE EVENT)
    {calls : List (UserCall STATE HANDLER)}
    (hcalled : m'.called = m.called ++ calls)
    (hcalls : inStates calls = []) :
    n.after a m m' p' = n.see a m m' p' := by
  rw [Note.after, hcalled, List.drop_left, hcalls, List.append_nil, ← n.entered_see a m m' p']

/-- The note behind a step, with a look at the calls where they are of an `inState`
function only. -/
def Note.seen (n : Note STATE EVENT) (a : Action EVENT)
    (m m' : StateMachine STATE EVENT HANDLER) (p' : Phase STATE EVENT) :
    Note STATE EVENT :=
  match a with
  | .callInState .writes =>
      { n with entered := n.entered ++ inStates (m'.called.drop m.called.length) }
  | _ => n.see a m m' p'

/-- No other step calls such a function. -/
theorem Passage.after_eq_seen
    [DecidableEq STATE] [DecidableEq EVENT]
    (hpassage : Passage m a p m' p')
    (n : Note STATE EVENT) :
    n.after a m m' p' = n.seen a m m' p' := by
  have hsame (h : m'.called = m.called) : n.after a m m' p' = n.see a m m' p' :=
    n.after_eq_see (h.trans (List.append_nil _).symm) rfl
  cases hpassage with
  | startedOnTrans =>
      exact n.after_eq_see rfl rfl
  | changed caught observers sync_i args to_i callbacks calls _ hcalls hp =>
      exact n.after_eq_see rfl (inStates_of_observers hcalls)
  | startedInState =>
      rfl
  | _ =>
      exact hsame rfl

/-- A step of a call takes its note along. -/
theorem Passage.fits
    [DecidableEq STATE] [DecidableEq EVENT]
    (hpassage : Passage m a p m' p')
    (hfits : n.Fits p) :
    (n.after a m m' p').Fits p' := by
  rw [hpassage.after_eq_seen]
  cases hpassage with
  | refused event_i sync_i refused thread _ haccepts hp =>
      rcases hp with rfl | ⟨-, rfl⟩ <;> trivial
  | accepted event_i sync_i refused thread dst _ haccepts hp =>
      obtain rfl : n = {} := hfits
      rcases hp with rfl | rfl | rfl
      · rfl
      · rfl
      · trivial
  | called event_i dst =>
      obtain rfl : n = {} := hfits
      rfl
  | initiated initiating caught sync_i args _ hp =>
      rcases hp with rfl | ⟨e, rfl⟩
      · exact hfits
      · exact fits_escaped _ sync_i e
  | noOnTrans sync_i args hnone =>
      obtain rfl : n = { args := some args } := hfits
      exact ⟨rfl, rfl, rfl, .inl ⟨rfl, .inl ⟨hnone, rfl⟩⟩⟩
  | onTransDue sync_i args f hsome hobj =>
      exact ⟨hfits, by rw [hsome]; simp⟩
  | noObject =>
      trivial
  | startedOnTrans =>
      exact hfits
  | answered sync_i args b =>
      obtain ⟨rfl, hsome⟩ := hfits
      cases b with
      | true =>
          exact ⟨rfl, rfl, rfl, .inl ⟨rfl, .inr rfl⟩⟩
      | false =>
          exact ⟨rfl, rfl, rfl, .inr ⟨hsome, rfl⟩⟩
  | onTransThrew =>
      trivial
  | unchanged =>
      trivial
  | changed caught observers sync_i args to_i callbacks calls _ hcalls hp =>
      obtain ⟨hargs, hentered, -, hdecides⟩ := hfits
      rcases hp with ⟨-, rfl⟩ | ⟨-, e, rfl⟩
      · exact ⟨hargs, hentered, to_i, rfl, hdecides⟩
      · exact fits_escaped _ sync_i e
  | noInState =>
      trivial
  | inStateDue sync_i args f hsome hobj =>
      obtain ⟨hargs, hentered, hchanged⟩ := hfits
      exact ⟨hargs, hentered, Option.isSome_iff_ne_none.mpr hobj, hsome, hchanged⟩
  | objectGone =>
      trivial
  | startedInState sync_i args f =>
      obtain ⟨-, hentered, -⟩ := hfits
      change n.entered ++ inStates _ ≠ []
      rw [hentered, List.drop_left]
      exact List.cons_ne_nil f []
  | unstarted =>
      trivial
  | left result sync_i args place hplace =>
      rcases hplace with rfl | rfl <;> trivial
  | released =>
      trivial
  | lost caught sync_i args e =>
      exact fits_escaped _ sync_i e

/-- What the step has to do for the call to stay right: the function is not called behind a
refusal, and nothing throws in front of it where it is due. -/
def Note.Meets (n : Note STATE EVENT) (m : StateMachine STATE EVENT HANDLER) :
    Action EVENT → Prop
  | .change .writes _ observers =>
      n.answer ≠ some (.returns false) → n.inState_i ≠ none → m.obj_ ≠ none →
        AllReturn observers 0 m.callbacks_
  | .callInState executing => executing = .writes ↔ n.answer ≠ some (.returns false)
  | _ => True

/-- A call that has not called its function yet, and has a step to go before it must. -/
theorem right_iff_of_pending
    {n' : Note STATE EVENT}
    (hright : n'.Right p')
    (hentered : n.entered = [])
    (hleft : ¬ p.Left)
    (hmeets : n.Meets m a) :
    n'.Right p' ↔ n.Right p ∧ n.Meets m a :=
  iff_of_true hright ⟨n.right_of_empty hentered fun h => absurd h hleft, hmeets⟩

/-- A call stays right in a step exactly when the step meets the condition. -/
theorem Passage.right_iff
    [DecidableEq STATE] [DecidableEq EVENT]
    (hpassage : Passage m a p m' p')
    (hfits : n.Fits p) :
    (n.after a m m' p').Right p' ↔ n.Right p ∧ n.Meets m a := by
  rw [hpassage.after_eq_seen]
  cases hpassage with
  | refused event_i sync_i refused thread _ haccepts hp =>
      obtain rfl : n = {} := hfits
      refine right_iff_of_pending ?_ rfl id trivial
      rcases hp with rfl | ⟨-, rfl⟩ <;> exact Note.right_of_unchanged rfl rfl
  | accepted event_i sync_i refused thread dst _ haccepts hp =>
      obtain rfl : n = {} := hfits
      refine right_iff_of_pending ?_ rfl id trivial
      rcases hp with rfl | rfl | rfl <;> exact Note.right_of_unchanged rfl rfl
  | called event_i dst =>
      obtain rfl : n = {} := hfits
      exact right_iff_of_pending (Note.right_of_unchanged rfl rfl) rfl id trivial
  | initiated initiating caught sync_i args _ hp =>
      obtain rfl : n = { args := some args } := hfits
      exact right_iff_of_pending (Note.right_of_unchanged rfl rfl) rfl id trivial
  | noOnTrans sync_i args hnone =>
      obtain rfl : n = { args := some args } := hfits
      exact right_iff_of_pending (Note.right_of_unchanged rfl rfl) rfl id trivial
  | onTransDue sync_i args f hsome hobj =>
      obtain rfl : n = { args := some args } := hfits
      exact right_iff_of_pending (Note.right_of_unchanged rfl rfl) rfl id trivial
  | noObject sync_i args =>
      obtain rfl : n = { args := some args } := hfits
      exact right_iff_of_pending (Note.right_of_unchanged rfl rfl) rfl id trivial
  | startedOnTrans sync_i args f =>
      obtain ⟨rfl, -⟩ := hfits
      exact right_iff_of_pending (Note.right_of_unchanged rfl rfl) rfl id trivial
  | answered sync_i args b =>
      obtain ⟨rfl, -⟩ := hfits
      exact right_iff_of_pending (Note.right_of_unchanged rfl rfl) rfl id trivial
  | onTransThrew sync_i args e =>
      obtain ⟨rfl, -⟩ := hfits
      exact right_iff_of_pending (Note.right_of_unchanged rfl rfl) rfl id trivial
  | unchanged caught observers sync_i args to_i =>
      obtain ⟨-, hentered, hchanged, -⟩ := hfits
      exact right_iff_of_pending (Note.right_of_unchanged hentered hchanged) hentered id trivial
  | changed caught observers sync_i args to_i callbacks calls _ hcalls hp =>
      obtain ⟨hargs, hentered, -, hdecides⟩ := hfits
      rcases hp with ⟨hreturn, rfl⟩ | ⟨hthrow, e, rfl⟩
      · exact right_iff_of_pending (Note.right_of_empty hentered fun h => h.elim) hentered id
          fun _ _ _ => hreturn
      have hset : m.obj_.isSome = true ↔ m.obj_ ≠ none := Option.isSome_iff_ne_none
      constructor
      · intro hright
        refine ⟨Note.right_of_empty hentered fun h => h.elim, ?_⟩
        intro hanswer hin hm
        obtain ⟨f, hf⟩ := Option.ne_none_iff_exists'.mp hin
        have harrived := (Note.Decides.arrived_iff
          (n := { n with changed := some to_i, obj := m.obj_.isSome })
          hdecides hargs rfl (hset.mpr hm)).mpr hanswer
        cases hentered.symm.trans (hright.whenever (left_escaped sync_i e) harrived f hf)
      · rintro ⟨-, hmeets⟩
        refine Note.right_of_empty hentered fun _ harrived => ?_
        obtain ⟨-, -, -, -, hm⟩ := id harrived
        have hanswer := (Note.Decides.arrived_iff
          (n := { n with changed := some to_i, obj := m.obj_.isSome })
          hdecides hargs rfl hm).mp harrived
        by_contra hin
        exact hthrow (hmeets hanswer hin (hset.mp hm))
  | noInState sync_i args hnone =>
      obtain ⟨hargs, hentered, -⟩ := hfits
      refine right_iff_of_pending (Note.right_of_empty hentered fun _ _ => ?_) hentered id trivial
      change n.args.bind TransArgs.inState_i = none
      rw [hargs]
      exact hnone
  | inStateDue sync_i args f hsome hobj =>
      obtain ⟨-, hentered, -⟩ := hfits
      exact right_iff_of_pending (Note.right_of_empty hentered fun h => h.elim) hentered id trivial
  | objectGone sync_i args hobj =>
      obtain ⟨-, hentered, -⟩ := hfits
      refine right_iff_of_pending (Note.right_of_empty hentered ?_) hentered id trivial
      rintro - ⟨-, -, -, -, hset⟩
      exact absurd hobj (Option.isSome_iff_ne_none.mp hset)
  | startedInState sync_i args f =>
      obtain ⟨hargs, hentered, hobj, hsome, to_i, hchanged, hdecides⟩ := hfits
      have harrived := hdecides.arrived_iff hargs hchanged hobj
      have hin : n.inState_i = some f := by
        rw [Note.inState_i, hargs]
        exact hsome
      have hcalled : n.entered ++
          inStates ((m.called ++ [UserCall.inState f m.obj_]).drop m.called.length) = [f] := by
        rw [hentered, List.drop_left]
        rfl
      constructor
      · intro hright
        have honly := hright.only (hcalled.trans_ne (List.cons_ne_nil f []))
        exact ⟨Note.right_of_empty hentered fun h => h.elim,
          fun _ => harrived.mp honly.1, fun _ => rfl⟩
      · rintro ⟨-, hmeets⟩
        exact ⟨fun _ => ⟨harrived.mpr (hmeets.mp rfl), f, hin, hcalled⟩, fun h => h.elim⟩
  | unstarted sync_i args f =>
      obtain ⟨hargs, hentered, hobj, hsome, to_i, hchanged, hdecides⟩ := hfits
      have harrived := hdecides.arrived_iff hargs hchanged hobj
      have hin : n.inState_i = some f := by
        rw [Note.inState_i, hargs]
        exact hsome
      constructor
      · intro hright
        refine ⟨Note.right_of_empty hentered fun h => h.elim, iff_of_false nofun ?_⟩
        intro hanswer
        cases hentered.symm.trans (hright.whenever trivial (harrived.mpr hanswer) f hin)
      · rintro ⟨-, hmeets⟩
        refine Note.right_of_empty hentered fun _ hreached => ?_
        cases hmeets.mpr (harrived.mp hreached)
  | left result sync_i args place hplace =>
      have hleft : (Phase.transition sync_i args place).Left := by
        rcases hplace with rfl | rfl <;> trivial
      constructor
      · intro hright
        exact ⟨⟨hright.only, fun h => h.elim⟩, trivial⟩
      · rintro ⟨hright, -⟩
        refine ⟨hright.only, fun _ _ f hf => ?_⟩
        obtain ⟨-, f', hf', hentered⟩ := hright.only hfits
        obtain rfl := Option.some.inj (hf.symm.trans hf')
        exact hentered
  | released caught sync_i args place hplace =>
      have hleft : (Phase.transition sync_i args place).Left := by
        rcases hplace with rfl | rfl <;> trivial
      have hreturned : (Phase.returned true : Phase STATE EVENT).Left := trivial
      have hcongr := n.right_congr hleft hreturned
      exact hcongr.trans (and_iff_left trivial).symm
  | lost caught sync_i args e =>
      have hleft : (Phase.transition sync_i args .caught).Left := trivial
      have hcongr := n.right_congr hleft (left_escaped sync_i e)
      exact hcongr.trans (and_iff_left trivial).symm

/-- What is asked of a transition with an `inState` function, when the line in front of its
change is written: an observer throws if `onTrans_i` has returned false, and none does
otherwise, where the object is set.  And the line in front of the call of the function is
written. -/
def Note.Orderly (n : Note STATE EVENT) (m : StateMachine STATE EVENT HANDLER) :
    Action EVENT → Prop
  | .change .writes _ observers =>
      n.inState_i ≠ none →
        (n.answer = some (.returns false) → ¬ AllReturn observers 0 m.callbacks_) ∧
        (n.answer ≠ some (.returns false) → m.obj_ ≠ none →
          AllReturn observers 0 m.callbacks_)
  | .callInState executing => executing = .writes
  | _ => True

/-- Behind its change, a transition with an `inState` function has not been refused. -/
def Note.Unrefused (n : Note STATE EVENT) : Phase STATE EVENT → Prop
  | .transition _ args .changed =>
      n.answer = some (.returns false) → args.inState_i = none
  | .transition _ _ (.objTestedAgain _) => n.answer ≠ some (.returns false)
  | _ => True

theorem unrefused_escaped
    (n : Note STATE EVENT) (sync_i : Bool) (e : StdException) :
    n.Unrefused (.escaped sync_i e) := by
  cases sync_i <;> trivial

/-- Orderly steps do not come behind the change of a refused transition that has such a
function. -/
theorem Passage.unrefused
    [DecidableEq STATE] [DecidableEq EVENT]
    (hpassage : Passage m a p m' p')
    (hfits : n.Fits p)
    (hunrefused : n.Unrefused p)
    (horderly : n.Orderly m a) :
    (n.after a m m' p').Unrefused p' := by
  rw [hpassage.after_eq_seen]
  cases hpassage with
  | refused event_i sync_i refused thread _ haccepts hp =>
      rcases hp with rfl | ⟨-, rfl⟩ <;> trivial
  | accepted event_i sync_i refused thread dst _ haccepts hp =>
      rcases hp with rfl | rfl | rfl <;> trivial
  | initiated initiating caught sync_i args _ hp =>
      rcases hp with rfl | ⟨e, rfl⟩
      · trivial
      · exact unrefused_escaped _ sync_i e
  | changed caught observers sync_i args to_i callbacks calls _ hcalls hp =>
      obtain ⟨hargs, -⟩ := hfits
      rcases hp with ⟨hreturn, rfl⟩ | ⟨-, e, rfl⟩
      · intro hrefused
        by_contra hin
        have hdue : n.inState_i ≠ none := by
          rw [Note.inState_i, hargs]
          exact hin
        exact (horderly hdue).1 hrefused hreturn
      · exact unrefused_escaped _ sync_i e
  | inStateDue sync_i args f hsome hobj =>
      intro hrefused
      cases hsome.symm.trans (hunrefused hrefused)
  | left result sync_i args place hplace =>
      rcases hplace with rfl | rfl <;> trivial
  | lost caught sync_i args e =>
      exact unrefused_escaped _ sync_i e
  | _ =>
      trivial

/-- So they do what keeps the call right. -/
theorem Passage.meets
    [DecidableEq STATE] [DecidableEq EVENT]
    (hpassage : Passage m a p m' p')
    (hunrefused : n.Unrefused p)
    (horderly : n.Orderly m a) :
    n.Meets m a := by
  cases hpassage with
  | changed caught observers sync_i args to_i callbacks calls _ hcalls hp =>
      exact fun hanswer hin => (horderly hin).2 hanswer
  | startedInState sync_i args f =>
      exact iff_of_true rfl hunrefused
  | unstarted sync_i args f =>
      cases horderly
  | _ =>
      trivial

end Passages

section Systems

/-- The calls of `event()` on one machine, with what has been seen of them. -/
structure Annotated (STATE EVENT HANDLER : Type) where
  system : System STATE EVENT HANDLER
  note : Nat → Note STATE EVENT

/-- A step of a call of `event()`, or a call of another method. -/
inductive Move (STATE EVENT HANDLER : Type) where
  | call (i : Nat) (a : Action EVENT)
  | request (request : Request STATE EVENT HANDLER)

/-- The request makes an event. -/
def Request.isEvent : Request STATE EVENT HANDLER → Bool
  | .event _ _ _ => true
  | _ => false

/-- A new machine, on which nothing has been called yet. -/
def Annotated.ready (start_i end_i : STATE) : Annotated STATE EVENT HANDLER where
  system := System.ready (init start_i end_i)
  note := fun _ => {}

/-- Every call of `event()` is right. -/
def Annotated.Right (w : Annotated STATE EVENT HANDLER) : Prop :=
  ∀ i, (w.note i).Right (w.system.phase i)

/-- The step does what keeps its call right. -/
def Annotated.Meets (w : Annotated STATE EVENT HANDLER) (move : Move STATE EVENT HANDLER)
    (_ : Annotated STATE EVENT HANDLER) : Prop :=
  match move with
  | .call i a => (w.note i).Meets w.system.machine a
  | .request _ => True

/-- The step meets the condition on transitions with an `inState` function. -/
def Annotated.Orderly (w : Annotated STATE EVENT HANDLER) (move : Move STATE EVENT HANDLER)
    (_ : Annotated STATE EVENT HANDLER) : Prop :=
  match move with
  | .call i a => (w.note i).Orderly w.system.machine a
  | .request _ => True

/-- The mutex is free, and the notes say where the calls are. -/
structure Annotated.Sound (w : Annotated STATE EVENT HANDLER) : Prop where
  free : w.system.machine.mux_ = false
  fits : ∀ i, (w.note i).Fits (w.system.phase i)

variable [DecidableEq STATE] [DecidableEq EVENT]
variable [EnumClass STATE] [EnumClass EVENT]

/-- One step: the calls of `event()` are interleaved, and so are the other methods. -/
def Annotated.next (w : Annotated STATE EVENT HANDLER) :
    Move STATE EVENT HANDLER → Option (Annotated STATE EVENT HANDLER)
  | .call i a =>
      (step w.system (i, a)).map fun t =>
        { system := t
          note := Function.update w.note i
            ((w.note i).after a w.system.machine t.machine (t.phase i)) }
  | .request request =>
      if request.isEvent || w.system.terminated then none
      else
        some { w with
          system := { w.system with
            machine := stateOf (request.method.run w.system.machine) } }

variable {w w' : Annotated STATE EVENT HANDLER} {move : Move STATE EVENT HANDLER}

/-- A call of another method changes the machine, and nothing else. -/
theorem next_request
    {request : Request STATE EVENT HANDLER}
    (hstep : Steps Annotated.next w (.request request) w') :
    Requests w.system.machine request w'.system.machine ∧
      w'.system.phase = w.system.phase ∧ w'.note = w.note := by
  change (if (request.isEvent || w.system.terminated) = true then none else _) =
    some w' at hstep
  split at hstep
  · cases hstep
  · cases hstep
    exact ⟨rfl, rfl, rfl⟩

theorem Annotated.Sound.step
    (hsound : w.Sound)
    (hstep : Steps Annotated.next w move w') :
    w'.Sound := by
  cases move with
  | call i a =>
      obtain ⟨t, ht, rfl⟩ := Option.map_eq_some_iff.mp hstep
      refine ⟨((step_cases hsound.free ht).frame hsound.free).1, fun j => ?_⟩
      by_cases hj : j = i
      · subst hj
        simpa only [Function.update_self] using
          (step_passage hsound.free ht).fits (hsound.fits j)
      · simpa only [Function.update_of_ne hj, phase_other ht hj] using hsound.fits j
  | request request =>
      obtain ⟨hrequest, hphase, hnote⟩ := next_request hstep
      refine ⟨hrequest.free hsound.free, ?_⟩
      rw [hphase, hnote]
      exact hsound.fits

/-- The calls stay right in a step exactly when it meets the condition. -/
theorem Annotated.Sound.right_iff
    (hsound : w.Sound)
    (hstep : Steps Annotated.next w move w') :
    w'.Right ↔ w.Right ∧ w.Meets move w' := by
  cases move with
  | call i a =>
      obtain ⟨t, ht, rfl⟩ := Option.map_eq_some_iff.mp hstep
      have hiff := (step_passage hsound.free ht).right_iff (hsound.fits i)
      have hother {j : Nat} (hj : j ≠ i) : t.phase j = w.system.phase j := phase_other ht hj
      constructor
      · intro hright
        have hi := hright i
        simp only [Function.update_self] at hi
        refine ⟨fun j => ?_, (hiff.mp hi).2⟩
        by_cases hj : j = i
        · subst hj
          exact (hiff.mp hi).1
        · simpa only [Function.update_of_ne hj, hother hj] using hright j
      · rintro ⟨hright, hmeets⟩ j
        by_cases hj : j = i
        · subst hj
          simpa only [Function.update_self] using hiff.mpr ⟨hright j, hmeets⟩
        · simpa only [Function.update_of_ne hj, hother hj] using hright j
  | request request =>
      obtain ⟨-, hphase, hnote⟩ := next_request hstep
      rw [Annotated.Right, hphase, hnote]
      exact (and_iff_left trivial).symm

/-- In every state of a run the calls are right exactly when all its steps do what keeps
them right. -/
theorem right_iff_meets
    (start_i end_i : STATE)
    {moves : List (Move STATE EVENT HANDLER)} {w : Annotated STATE EVENT HANDLER}
    (hrun : Run (Steps Annotated.next) (Annotated.ready start_i end_i) moves w) :
    w.Right ↔
      Run (Guarded Annotated.Meets (Steps Annotated.next)) (Annotated.ready start_i end_i)
        moves w :=
  hrun.iff_guarded (Steps.deterministic _) Annotated.Sound Annotated.Right
    (fun hsound hstep => hsound.step hstep) (fun hsound hstep => hsound.right_iff hstep)
    ⟨rfl, fun _ => rfl⟩ (fun _ => Note.right_of_unchanged rfl rfl)

/-- No transition with an `inState` function has been refused and gone on. -/
def Annotated.Unrefused (w : Annotated STATE EVENT HANDLER) : Prop :=
  ∀ i, (w.note i).Unrefused (w.system.phase i)

/-- Orderly steps keep it so. -/
theorem Annotated.Sound.unrefused
    (hsound : w.Sound)
    (hunrefused : w.Unrefused)
    (hstep : Guarded Annotated.Orderly (Steps Annotated.next) w move w') :
    w'.Unrefused := by
  obtain ⟨horderly, hstep⟩ := hstep
  cases move with
  | call i a =>
      obtain ⟨t, ht, rfl⟩ := Option.map_eq_some_iff.mp hstep
      intro j
      by_cases hj : j = i
      · subst hj
        simpa only [Function.update_self] using
          (step_passage hsound.free ht).unrefused (hsound.fits j) (hunrefused j) horderly
      · simpa only [Function.update_of_ne hj, phase_other ht hj] using hunrefused j
  | request request =>
      obtain ⟨-, hphase, hnote⟩ := next_request hstep
      rw [Annotated.Unrefused, hphase, hnote]
      exact hunrefused

/-- An orderly step does what keeps its call right. -/
theorem Annotated.Sound.meets
    (hsound : w.Sound)
    (hunrefused : w.Unrefused)
    (hstep : Guarded Annotated.Orderly (Steps Annotated.next) w move w') :
    w.Meets move w' := by
  obtain ⟨horderly, hstep⟩ := hstep
  cases move with
  | call i a =>
      obtain ⟨t, ht, rfl⟩ := Option.map_eq_some_iff.mp hstep
      exact (step_passage hsound.free ht).meets (hunrefused i) horderly
  | request request =>
      trivial

/-- **The `inState` function runs behind a change to the target**, once and only there, in
every state of a run in which no transition with such a function is refused and then gets
over its observers, no observer throws where the function is due, and the line in front of
its call is written. -/
theorem right_of_orderly
    (start_i end_i : STATE)
    {moves : List (Move STATE EVENT HANDLER)} {w : Annotated STATE EVENT HANDLER}
    (hrun : Run (Guarded Annotated.Orderly (Steps Annotated.next))
      (Annotated.ready start_i end_i) moves w) :
    w.Right := by
  have hguarded :=
    hrun.mono (fun w => w.Sound ∧ w.Unrefused)
      (fun h hstep => ⟨h.1.step hstep.2, h.1.unrefused h.2 hstep⟩)
      (fun h hstep => (⟨h.1.meets h.2 hstep, hstep.2⟩ :
        Guarded Annotated.Meets (Steps Annotated.next) _ _ _))
      ⟨⟨rfl, fun _ => rfl⟩, fun _ => trivial⟩
  exact (right_iff_meets start_i end_i hrun.unguarded).mpr hguarded

end Systems

section Alone

variable [DecidableEq STATE] [DecidableEq EVENT]
variable [EnumClass STATE] [EnumClass EVENT]
variable {m m' : StateMachine STATE EVENT HANDLER} {p p' : Phase STATE EVENT}
variable {n : Note STATE EVENT}

/-- The first call has come to the phase `p`, and there is no other one. -/
def Annotated.alone (m : StateMachine STATE EVENT HANDLER) (p : Phase STATE EVENT)
    (n : Note STATE EVENT) : Annotated STATE EVENT HANDLER where
  system :=
    { machine := m
      phase := Function.update (fun _ => .idle) 0 p
      terminated := false }
  note := Function.update (fun _ => {}) 0 n

omit [DecidableEq STATE] [DecidableEq EVENT] [EnumClass STATE] [EnumClass EVENT] in
theorem ready_eq_alone
    (start_i end_i : STATE) :
    (Annotated.ready start_i end_i : Annotated STATE EVENT HANDLER) =
      .alone (init start_i end_i) .idle {} := by
  simp [Annotated.ready, Annotated.alone, System.ready]

theorem request_alone
    {request : Request STATE EVENT HANDLER}
    (hevent : request.isEvent = false)
    (hmethod : stateOf (request.method.run m) = m') :
    Steps Annotated.next (.alone m p n) (.request request) (.alone m' p n) := by
  subst hmethod
  simp [Steps, Annotated.next, hevent, Annotated.alone]

theorem call_alone
    {a : Action EVENT}
    (hadvance : advance m a p = some (m', p'))
    (halive : p'.isTerminated = false) :
    Steps Annotated.next (.alone m p n) (.call 0 a)
      (.alone m' p' (n.after a m m' p')) := by
  simp [Steps, Annotated.next, step, Annotated.alone, hadvance, halive]

end Alone

section Check

/-- The steps of an event whose transition has two functions, up to the call of the
second one. -/
def arrivalMoves (answer : Bool) : List (Move CheckState CheckEvent Unit) :=
  [.request (.transition .Start .Event .Inter (some 1) (some 2)),
    .request (.obj (some ())),
    .call 0 (.check .Event false .writes .starts),
    .call 0 (.initiate .writes .writes),
    .call 0 .testObj,
    .call 0 .callOnTrans,
    .call 0 (.returnOnTrans (.returns answer)),
    .call 0 (.change .writes .writes fun _ => .returns true),
    .call 0 .testObjAgain,
    .call 0 (.callInState .writes)]

/-- The steps are possible, whatever `onTrans_i` returns, and they are orderly if it returns
true. -/
theorem run_arrivalMoves
    (answer : Bool) :
    ∃ w : Annotated CheckState CheckEvent Unit,
      Run (Guarded (fun w move w' => answer = true → w.Orderly move w') (Steps Annotated.next))
        (Annotated.ready .Start .End) (arrivalMoves answer) w ∧
      w.note 0 =
        { args := some ⟨.Start, .Event, .Inter, some 1, some 2⟩
          answer := some (.returns answer)
          changed := some (if answer then .Inter else .Start)
          obj := true
          entered := [2] } ∧
      w.system.machine.state_ = (if answer then .Inter else .Start) ∧
      w.system.machine.called = [.onTrans 1 (some ()), .inState 2 (some ())] := by
  let args : TransArgs CheckState CheckEvent := ⟨.Start, .Event, .Inter, some 1, some 2⟩
  let m : StateMachine CheckState CheckEvent Unit :=
    (init .Start .End).register .Start .Event ⟨.Inter, some 1, some 2⟩
  let m₁ : StateMachine CheckState CheckEvent Unit := { m with obj_ := some () }
  let m₂ : StateMachine CheckState CheckEvent Unit := { m₁ with active_ := true }
  let m₃ : StateMachine CheckState CheckEvent Unit :=
    { m₂ with called := [.onTrans 1 (some ())] }
  let m₄ : StateMachine CheckState CheckEvent Unit :=
    { m₃ with state_ := if answer then .Inter else .Start }
  let m₅ : StateMachine CheckState CheckEvent Unit :=
    { m₄ with called := [.onTrans 1 (some ()), .inState 2 (some ())] }
  let here (place : Place CheckState) : Phase CheckState CheckEvent :=
    .transition false args place
  have hcheck : advance m₁ (.check .Event false .writes .starts) .idle =
      some (m₁, here .waiting) := rfl
  have hinitiate : advance m₁ (.initiate .writes .writes) (here .waiting) =
      some (m₂, here .initiated) := rfl
  have htest : advance m₂ .testObj (here .initiated) =
      some (m₂, here (.objTested 1)) := rfl
  have hcall : advance m₂ .callOnTrans (here (.objTested 1)) =
      some (m₃, here .inOnTrans) := rfl
  have hreturn : advance m₃ (.returnOnTrans (.returns answer)) (here .inOnTrans) =
      some (m₃, here (.changing (if answer then .Inter else .Start))) := by
    cases answer <;> rfl
  have hchange :
      advance m₃ (.change .writes .writes fun _ => .returns true)
        (here (.changing (if answer then .Inter else .Start))) =
        some (m₄, here .changed) := rfl
  have hagain : advance m₄ .testObjAgain (here .changed) =
      some (m₄, here (.objTestedAgain 2)) := rfl
  have henter : advance m₄ (.callInState .writes) (here (.objTestedAgain 2)) =
      some (m₅, here .inInState) := rfl
  have hregister : Steps Annotated.next (.alone (init .Start .End) .idle {})
      (.request (.transition .Start .Event .Inter (some 1) (some 2))) (.alone m .idle {}) :=
    request_alone rfl rfl
  have hobj : Steps Annotated.next (.alone m .idle {}) (.request (.obj (some ())))
      (.alone m₁ .idle {}) :=
    request_alone rfl rfl
  refine ⟨.alone m₅ (here .inInState) _, ?_, rfl, rfl, rfl⟩
  rw [ready_eq_alone]
  have hquiet : AllReturn (fun _ => .returns true) 0 m₃.callbacks_ := fun _ _ => ⟨true, rfl⟩
  refine .cons ⟨fun _ => trivial, hregister⟩ (.cons ⟨fun _ => trivial, hobj⟩ ?_)
  refine .cons ⟨fun _ => trivial, call_alone hcheck rfl⟩ ?_
  refine .cons ⟨fun _ => trivial, call_alone hinitiate rfl⟩ ?_
  refine .cons ⟨fun _ => trivial, call_alone htest rfl⟩ ?_
  refine .cons ⟨fun _ => trivial, call_alone hcall rfl⟩ ?_
  refine .cons ⟨fun _ => trivial, call_alone hreturn rfl⟩ ?_
  refine .cons ⟨?_, call_alone hchange rfl⟩ ?_
  · rintro rfl -
    exact ⟨nofun, fun _ _ => hquiet⟩
  refine .cons ⟨fun _ => trivial, call_alone hagain rfl⟩ ?_
  exact .single ⟨fun _ => rfl, call_alone henter rfl⟩

/-- The transition function returns true: the machine arrives, and the other function is
called. -/
theorem right_of_orderly_inter :
    ∃ w : Annotated CheckState CheckEvent Unit,
      Run (Steps Annotated.next) (Annotated.ready .Start .End) (arrivalMoves true) w ∧
      (w.note 0).entered = [2] ∧ w.system.machine.state_ = .Inter ∧ w.Right := by
  obtain ⟨w, hrun, hnote, hstate, -⟩ := run_arrivalMoves true
  have horderly :
      Run (Guarded Annotated.Orderly (Steps Annotated.next))
        (Annotated.ready CheckState.Start CheckState.End) (arrivalMoves true) w :=
    hrun.mono (fun _ => True) (fun _ _ => trivial) (fun _ hstep => ⟨hstep.1 rfl, hstep.2⟩)
      trivial
  exact ⟨w, hrun.unguarded, by rw [hnote], hstate,
    right_of_orderly CheckState.Start CheckState.End horderly⟩

/-- The transition function returns false: the state stays, and the other function is
called. -/
theorem refused_and_entered :
    ∃ w : Annotated CheckState CheckEvent Unit,
      Run (Steps Annotated.next) (Annotated.ready .Start .End) (arrivalMoves false) w ∧
      (w.note 0).answer = some (.returns false) ∧ w.system.machine.state_ = .Start ∧
      w.system.machine.called = [.onTrans 1 (some ()), .inState 2 (some ())] ∧
      ¬ w.Right := by
  obtain ⟨w, hrun, hnote, hstate, hcalled⟩ := run_arrivalMoves false
  refine ⟨w, hrun.unguarded, by rw [hnote], hstate, hcalled, ?_⟩
  intro hright
  have honly := (hright 0).only
  rw [hnote] at honly
  obtain ⟨⟨args, hargs, hchanged, -⟩, -⟩ := honly (List.cons_ne_nil 2 [])
  cases hargs
  cases hchanged

end Check

end StateMachine
end Bren
end Brenlib
