import Mathlib.Data.Multiset.AddSub
import Mathlib.Data.Multiset.MapFold
import Brenlib.Bren.StateMachineExclusion

/-!
# Observers of a `StateMachine`

One thread calls the methods of a machine; its events are synchronous, and neither its
observers nor the logger throw.  `observe` promises an observer that it is called on
state changes as long as it returns true.

* `Watched`: a machine with the observers that have returned true on every call so far.
* `notices`: the calls of observers that a step has made.
* `Informs`: a step keeps the promise.
* `Undisturbed`: no transition fails, and none goes on to a state that is not the last
  one, while an observer is subscribed that wants to be called again.
* `informs_iff`: one step; `observers_informed_iff`: every run.
-/

namespace Brenlib
namespace Bren
namespace StateMachine

open TransitionSystem

variable {STATE EVENT HANDLER : Type}

section Watching

/-- The call of an observer: its function, the state and the name of the state. -/
def UserCall.notice : UserCall STATE HANDLER → Option (FuncId × STATE × Bytes)
  | .observer f state name => some (f, state, name)
  | _ => none

/-- The calls of observers between two machines. -/
def notices (m m' : StateMachine STATE EVENT HANDLER) : List (FuncId × STATE × Bytes) :=
  (m'.called.drop m.called.length).filterMap UserCall.notice

/-- The functions that return false, of those called from place `i` on. -/
def leaving (answers : Nat → Bool) : Nat → List FuncId → List FuncId
  | _, [] => []
  | i, f :: fs =>
      if answers i then leaving answers (i + 1) fs
      else f :: leaving answers (i + 1) fs

/-- A machine, and the observers that are registered and have returned true on every
call so far. -/
structure Watched (STATE EVENT HANDLER : Type) where
  machine : StateMachine STATE EVENT HANDLER
  waiting : Multiset FuncId

/-- A fresh machine. -/
def Watched.init (start_i end_i : STATE) : Watched STATE EVENT HANDLER where
  machine := StateMachine.init start_i end_i
  waiting := 0

/-- The observers that are waiting are those that the next change calls, unless there is
no change any more. -/
def Watched.Subscribed (s : Watched STATE EVENT HANDLER) : Prop :=
  s.machine.state_ = s.machine.end_ ∨ (s.machine.callbacks_ : Multiset FuncId) = s.waiting

/-- The transition succeeds. -/
def Succeeds (m : StateMachine STATE EVENT HANDLER) (outcomes : SyncOutcomes)
    (dst : TransTarget STATE) : Prop :=
  dst.onTrans = none ∨ (m.obj_ ≠ none ∧ outcomes.onTrans = .returns true)

variable [DecidableEq STATE] [DecidableEq EVENT]
variable [EnumClass STATE] [EnumClass EVENT]

/-- A call of the client. -/
def Watched.call (s : Watched STATE EVENT HANDLER) (c : Call STATE EVENT HANDLER) :
    Watched STATE EVENT HANDLER where
  machine := afterCall s.machine c
  waiting :=
    match c with
    | .observe func true => func ::ₘ s.waiting
    | .event _ outcomes =>
        s.waiting -
          leaving outcomes.observers 0
            ((notices s.machine (afterCall s.machine c)).map Prod.fst)
    | _ => s.waiting

/-- A call as a step. -/
def Watched.Calls (s : Watched STATE EVENT HANDLER) (c : Call STATE EVENT HANDLER)
    (t : Watched STATE EVENT HANDLER) : Prop :=
  s.call c = t

/-- What a call does to the observers. -/
structure Informs (s : Watched STATE EVENT HANDLER) (c : Call STATE EVENT HANDLER)
    (t : Watched STATE EVENT HANDLER) : Prop where
  /-- A change of the state calls every observer that is waiting exactly once, with the
  new state and its name. -/
  changed :
    t.machine.state_ ≠ s.machine.state_ →
      (notices s.machine t.machine : Multiset _) =
        s.waiting.map fun f =>
          (f, t.machine.state_, t.machine.stateName t.machine.state_)
  /-- A transition that fails calls none. -/
  failed :
    ∀ event_i outcomes dst, c = .event event_i outcomes →
      s.machine.accepts event_i = some dst → ¬ Succeeds s.machine outcomes dst →
      notices s.machine t.machine = []
  /-- An observer that has returned false is not called by an event. -/
  dismissed :
    ∀ event_i outcomes, c = .event event_i outcomes →
      ((notices s.machine t.machine).map Prod.fst : Multiset FuncId) ≤ s.waiting
  /-- And so will the changes to come. -/
  subscribed : t.Subscribed

/-- An event is executed without observers, or it succeeds and either comes to the end
state or is the last one that its observers want to hear of. -/
def Undisturbed (s : Watched STATE EVENT HANDLER) (c : Call STATE EVENT HANDLER)
    (_ : Watched STATE EVENT HANDLER) : Prop :=
  ∀ event_i outcomes dst, c = .event event_i outcomes →
    s.machine.accepts event_i = some dst →
    s.machine.callbacks_ = [] ∨
      (Succeeds s.machine outcomes dst ∧
        (dst.target = s.machine.end_ ∨
          ∀ i < s.machine.callbacks_.length, outcomes.observers i = false))

end Watching

section Leaving

theorem leaving_sublist
    (answers : Nat → Bool) (i : Nat) (fs : List FuncId) :
    (leaving answers i fs).Sublist fs := by
  induction fs generalizing i with
  | nil =>
      exact .slnil
  | cons f fs ih =>
      rw [leaving]
      split
      · exact (ih (i + 1)).cons f
      · exact (ih (i + 1)).cons_cons f

/-- All of them leave exactly when all of them return false. -/
theorem leaving_eq_self_iff
    (answers : Nat → Bool) (i : Nat) (fs : List FuncId) :
    leaving answers i fs = fs ↔ ∀ j < fs.length, answers (i + j) = false := by
  induction fs generalizing i with
  | nil =>
      simp [leaving]
  | cons f fs ih =>
      rw [leaving]
      cases hanswer : answers i with
      | true =>
          have hlen := (leaving_sublist answers (i + 1) fs).length_le
          constructor
          · intro h
            rw [if_pos rfl] at h
            rw [h, List.length_cons] at hlen
            omega
          · intro h
            cases hanswer.symm.trans (h 0 (Nat.zero_lt_succ _))
      | false =>
          rw [if_neg Bool.false_ne_true, List.cons.injEq, ih (i + 1)]
          constructor
          · rintro ⟨-, h⟩ j hj
            cases j with
            | zero =>
                exact hanswer
            | succ j =>
                rw [← Nat.add_assoc, Nat.add_right_comm]
                exact h j (Nat.lt_of_succ_lt_succ hj)
          · intro h
            refine ⟨rfl, fun j hj => ?_⟩
            have hnext := h (j + 1) (Nat.succ_lt_succ hj)
            rwa [← Nat.add_assoc, Nat.add_right_comm] at hnext

/-- Nobody is waiting any more when everybody has left. -/
theorem nobody_waits_iff
    (answers : Nat → Bool) (i : Nat) (fs : List FuncId) :
    (([] : List FuncId) : Multiset FuncId) = fs - leaving answers i fs ↔
      ∀ j < fs.length, answers (i + j) = false := by
  have hsub := leaving_sublist answers i fs
  rw [← leaving_eq_self_iff, Multiset.coe_nil, eq_comm, tsub_eq_zero_iff_le, Multiset.coe_le]
  constructor
  · intro hle
    exact hsub.eq_of_length_le hle.length_le
  · intro heq
    rw [heq]

end Leaving

section Notices

variable {m : StateMachine STATE EVENT HANDLER}

theorem notices_self
    (m : StateMachine STATE EVENT HANDLER) :
    notices m m = [] := by
  rw [notices, List.drop_length, List.filterMap_nil]

theorem notice_onTransCalls
    (dst : TransTarget STATE) :
    (m.onTransCalls dst).filterMap UserCall.notice = [] := by
  rw [onTransCalls]
  split <;> rfl

theorem notice_inStateCalls
    (logs : LogOutcomes) (dst : TransTarget STATE) :
    (m.inStateCalls logs dst).filterMap UserCall.notice = [] := by
  rw [inStateCalls]
  split <;> rfl

variable [DecidableEq STATE] [EnumClass STATE]

theorem notice_observerCalls
    (state : STATE) (observers : List FuncId) :
    (m.observerCalls state observers).filterMap UserCall.notice =
      observers.map fun f => (f, state, m.stateName state) := by
  rw [observerCalls, List.filterMap_map, ← List.filterMap_eq_map]
  rfl

/-- A transition calls its observers once, if it comes to the change of the state. -/
theorem notices_settled
    (outcomes : SyncOutcomes) (dst : TransTarget STATE) :
    notices m (m.settled (m.nextState outcomes dst)
        (m.called ++ m.transitionCalls .calm outcomes.user dst)) =
      if m.ComesToChange .calm outcomes.user dst then
        m.callbacks_.map fun f =>
          (f, m.nextState outcomes dst, m.stateName (m.nextState outcomes dst))
      else [] := by
  rw [notices, settled, List.drop_left, transitionCalls, List.filterMap_append,
    notice_onTransCalls, List.nil_append, ← nextState_eq]
  split
  · rw [List.filterMap_append, notice_observerCalls, notice_inStateCalls, List.append_nil]
  · rfl

omit [DecidableEq STATE] [EnumClass STATE] in
/-- A transition that succeeds comes to the change of the state. -/
theorem Succeeds.comes
    {outcomes : SyncOutcomes} {dst : TransTarget STATE}
    (h : Succeeds m outcomes dst) :
    m.ComesToChange .calm outcomes.user dst := by
  rcases h with hnone | ⟨hobj, htrue⟩
  · exact ⟨.inl hnone, rfl⟩
  · refine ⟨.inr ⟨hobj, ?_⟩, rfl⟩
    rw [SyncOutcomes.user, htrue]
    trivial

end Notices

section Steps

variable [DecidableEq STATE] [DecidableEq EVENT]
variable [EnumClass STATE] [EnumClass EVENT]
variable {s t : Watched STATE EVENT HANDLER} {c : Call STATE EVENT HANDLER}
variable {m : StateMachine STATE EVENT HANDLER}

/-- Registering a transition leaves the observers alone. -/
theorem callbacks_transition
    (hfree : m.mux_ = false)
    (from_i : STATE) (event_i : EVENT) (to_i : STATE) (onTrans_i inState_i : Option FuncId) :
    (afterCall m (.transition from_i event_i to_i onTrans_i inState_i)).callbacks_ =
      m.callbacks_ := by
  rw [afterCall, Call.method, StateMachine.transition, stateOf_locked _ hfree]
  by_cases hactive : m.active_ = false
  · by_cases hfrom : from_i = m.end_
    · simp [fcet, hactive, hfrom]
    · by_cases hstate : m.state_ = m.end_
      · simp [fcet, hactive, hfrom, hstate]
      · by_cases hnew : ((m.trans_.lookup from_i).getD ∅).lookup event_i = none
        · simp [fcet, hactive, hfrom, hstate, hnew]
        · simp [fcet, hactive, hfrom, hstate, hnew]
  · simp [fcet, hactive]

/-- A call that is no event leaves the state alone, and the subscriptions but for that of
a new observer. -/
theorem subscribed_call
    (h : s.Subscribed)
    (hidle : Idle s.machine)
    (hc : ∀ event_i outcomes, c ≠ .event event_i outcomes) :
    (afterCall s.machine c).state_ = s.machine.state_ ∧ (s.call c).Subscribed := by
  have hfree := hidle.free
  have hcases := afterCall_cases hidle c
  have hsame : (afterCall s.machine c).state_ = s.machine.state_ ∧
      (afterCall s.machine c).end_ = s.machine.end_ := by
    generalize afterCall s.machine c = m' at hcases
    cases hcases with
    | aside haside =>
        exact ⟨haside.state_, haside.end_⟩
    | registered from_i event_i to_i onTrans_i inState_i hfrom hnew =>
        exact ⟨rfl, rfl⟩
    | fired event_i outcomes dst called haccepts =>
        exact absurd rfl (hc event_i outcomes)
  refine ⟨hsame.1, ?_⟩
  rcases h with hend | hwaiting
  · exact .inl (hsame.1.trans (hend.trans hsame.2.symm))
  right
  cases c with
  | transition from_i event_i to_i onTrans_i inState_i =>
      exact (congrArg _ (callbacks_transition hfree _ _ _ _ _)).trans hwaiting
  | obj obj_i =>
      exact hwaiting
  | observe func keep =>
      have hcallbacks : (afterCall s.machine (.observe func keep)).callbacks_ =
          if keep then s.machine.callbacks_ ++ [func] else s.machine.callbacks_ := by
        refine (congrArg callbacks_ (stateOf_locked _ hfree)).trans ?_
        cases keep <;> rfl
      change ((afterCall s.machine (.observe func keep)).callbacks_ : Multiset FuncId) = _
      rw [hcallbacks]
      cases keep with
      | true =>
          rw [if_pos rfl, ← Multiset.coe_add, hwaiting, add_comm]
          rfl
      | false =>
          exact hwaiting
  | nameEvent event_i name_i =>
      refine Eq.trans (congrArg _ ?_) hwaiting
      refine (congrArg callbacks_ (stateOf_locked _ hfree)).trans ?_
      refine name_relates (R := fun m m' => m'.callbacks_ = m.callbacks_) (fun _ => rfl)
        events_ event_i name_i _ ?_ { s.machine with mux_ := true }
      exact fun _ => rfl
  | nameState state_i name_i =>
      refine Eq.trans (congrArg _ ?_) hwaiting
      refine (congrArg callbacks_ (stateOf_locked _ hfree)).trans ?_
      refine name_relates (R := fun m m' => m'.callbacks_ = m.callbacks_) (fun _ => rfl)
        states_ state_i name_i _ ?_ { s.machine with mux_ := true }
      exact fun _ => rfl
  | event event_i outcomes =>
      exact absurd rfl (hc event_i outcomes)

/-- Between two calls, the waiting observers are subscribed. -/
structure Attentive (s : Watched STATE EVENT HANDLER) : Prop where
  idle : Idle s.machine
  subscribed : s.Subscribed

omit [DecidableEq STATE] [DecidableEq EVENT] [EnumClass STATE] [EnumClass EVENT] in
theorem attentive_init
    (start_i end_i : STATE) :
    Attentive (Watched.init start_i end_i : Watched STATE EVENT HANDLER) :=
  ⟨idle_init start_i end_i, .inr rfl⟩

theorem idle_call
    (hidle : Idle s.machine)
    (hstep : Watched.Calls s c t) :
    Idle t.machine := by
  rw [← hstep]
  exact (afterCall_cases hidle c).idle hidle

/-- The watched machine behind an event that is accepted. -/
theorem call_event
    {event_i : EVENT} {outcomes : SyncOutcomes} {dst : TransTarget STATE}
    (hidle : Idle s.machine)
    (haccepts : s.machine.accepts event_i = some dst) :
    s.call (.event event_i outcomes) =
      ⟨s.machine.settled (s.machine.nextState outcomes dst)
          (s.machine.called ++ s.machine.transitionCalls .calm outcomes.user dst),
        s.waiting - leaving outcomes.observers 0
          (if s.machine.ComesToChange .calm outcomes.user dst then s.machine.callbacks_
            else [])⟩ := by
  have hafter : afterCall s.machine (.event event_i outcomes) =
      s.machine.settled (s.machine.nextState outcomes dst)
        (s.machine.called ++ s.machine.transitionCalls .calm outcomes.user dst) := by
    rw [afterCall, Call.method, run_discard, event_run outcomes event_i hidle.free, haccepts]
    rfl
  simp only [Watched.call, hafter, notices_settled]
  split
  · simp [Function.comp_def]
  · rfl

/-- An event that is accepted, of a machine whose waiting observers are subscribed. -/
theorem informs_event_iff
    {event_i : EVENT} {outcomes : SyncOutcomes} {dst : TransTarget STATE}
    (hidle : Idle s.machine)
    (hwaiting : (s.machine.callbacks_ : Multiset FuncId) = s.waiting)
    (haccepts : s.machine.accepts event_i = some dst) :
    Informs s (.event event_i outcomes) (s.call (.event event_i outcomes)) ↔
      s.machine.callbacks_ = [] ∨
        (Succeeds s.machine outcomes dst ∧
          (dst.target = s.machine.end_ ∨
            ∀ i < s.machine.callbacks_.length, outcomes.observers i = false)) := by
  have hend : s.machine.state_ ≠ s.machine.end_ := (edge_of_accepts haccepts).2.1
  have hnotices := notices_settled (m := s.machine) outcomes dst
  rw [call_event hidle haccepts, ← hwaiting]
  constructor
  · intro h
    by_cases hnone : s.machine.callbacks_ = []
    · exact .inl hnone
    have hsucceeds : Succeeds s.machine outcomes dst := by
      by_contra hfails
      have hsilent := h.failed _ _ _ rfl haccepts hfails
      rw [hnotices] at hsilent
      by_cases hcomes : s.machine.ComesToChange .calm outcomes.user dst
      · rw [if_pos hcomes] at hsilent
        exact hnone (List.map_eq_nil_iff.mp hsilent)
      · have hstay : s.machine.nextState outcomes dst = s.machine.state_ := if_neg hfails
        rcases h.subscribed with hfinal | hkept
        · exact hend (hstay.symm.trans hfinal)
        · rw [if_neg hcomes, leaving, Multiset.coe_nil, tsub_zero] at hkept
          exact hnone (Multiset.coe_eq_zero _ |>.mp hkept.symm)
    have hnext : s.machine.nextState outcomes dst = dst.target := if_pos hsucceeds
    rcases h.subscribed with hfinal | hgone
    · exact .inr ⟨hsucceeds, .inl (hnext.symm.trans hfinal)⟩
    · rw [if_pos hsucceeds.comes] at hgone
      have hanswers := (nobody_waits_iff _ _ _).mp hgone
      simp only [Nat.zero_add] at hanswers
      exact .inr ⟨hsucceeds, .inr hanswers⟩
  · intro h
    refine ⟨?_, ?_, ?_, ?_⟩
    · intro hchanged
      have hsucceeds : Succeeds s.machine outcomes dst := by
        by_contra hfails
        exact hchanged (if_neg hfails)
      rw [hnotices, if_pos hsucceeds.comes, ← hwaiting, Multiset.map_coe]
      rfl
    · intro event_i' outcomes' dst' hc haccepts' hfails
      cases hc
      obtain rfl := Option.some.inj (haccepts.symm.trans haccepts')
      rcases h with hnone | ⟨hsucceeds, -⟩
      · rw [hnotices, hnone, List.map_nil, ite_self]
      · exact absurd hsucceeds hfails
    · intro event_i' outcomes' hc
      rw [hnotices, ← hwaiting]
      split
      · simp [Function.comp_def]
      · simp
    · rcases h with hnone | ⟨hsucceeds, hfinal | hanswers⟩
      · right
        rw [hnone, ite_self]
        rfl
      · left
        exact (if_pos hsucceeds).trans hfinal
      · right
        rw [if_pos hsucceeds.comes]
        refine (nobody_waits_iff _ _ _).mpr ?_
        simpa using hanswers

/-- One call keeps the promise exactly when it meets the condition. -/
theorem informs_iff
    (h : Attentive s)
    (hstep : Watched.Calls s c t) :
    Informs s c t ↔ Undisturbed s c t := by
  obtain rfl : s.call c = t := hstep
  by_cases hc : ∃ event_i outcomes, c = .event event_i outcomes
  · obtain ⟨event_i, outcomes, rfl⟩ := hc
    cases haccepts : s.machine.accepts event_i with
    | none =>
        have hafter : afterCall s.machine (.event event_i outcomes) = s.machine := by
          rw [afterCall, Call.method, run_discard, event_run outcomes event_i h.idle.free,
            haccepts]
          rfl
        have hcall : s.call (.event event_i outcomes) = s := by
          simp [Watched.call, hafter, notices_self, leaving]
        have hnot {outcomes' : SyncOutcomes} {event_i' : EVENT} {dst : TransTarget STATE}
            (hc : Call.event event_i outcomes =
              (Call.event event_i' outcomes' : Call STATE EVENT HANDLER)) :
            s.machine.accepts event_i' ≠ some dst := by
          cases hc
          simp [haccepts]
        rw [hcall]
        constructor
        · intro _ event_i' outcomes' dst hc haccepts'
          exact absurd haccepts' (hnot hc)
        · intro _
          refine ⟨fun hchanged => absurd rfl hchanged, ?_, ?_, h.subscribed⟩
          · intro event_i' outcomes' dst hc haccepts'
            exact absurd haccepts' (hnot hc)
          · intro event_i' outcomes' hc
            simp [notices_self]
    | some dst =>
        rcases h.subscribed with hend | hwaiting
        · exact absurd hend (edge_of_accepts haccepts).2.1
        · rw [informs_event_iff h.idle hwaiting haccepts]
          constructor
          · intro hcond event_i' outcomes' dst' hc haccepts'
            cases hc
            obtain rfl := Option.some.inj (haccepts.symm.trans haccepts')
            exact hcond
          · intro hcond
            exact hcond event_i outcomes dst rfl haccepts
  · have hother : ∀ event_i outcomes, c ≠ .event event_i outcomes :=
      fun event_i outcomes heq => hc ⟨event_i, outcomes, heq⟩
    obtain ⟨hstate, hsubscribed⟩ := subscribed_call h.subscribed h.idle hother
    constructor
    · intro _ event_i outcomes dst heq
      exact absurd heq (hother event_i outcomes)
    · intro _
      refine ⟨fun hchanged => absurd hstate hchanged, ?_, ?_, hsubscribed⟩
      · intro event_i outcomes dst heq
        exact absurd heq (hother event_i outcomes)
      · intro event_i outcomes heq
        exact absurd heq (hother event_i outcomes)

/-- **Observers see every change of the state** in a run exactly when all its calls are
undisturbed. -/
theorem observers_informed_iff
    (start_i end_i : STATE) (calls : List (Call STATE EVENT HANDLER))
    (t : Watched STATE EVENT HANDLER) :
    Run (Guarded Informs Watched.Calls) (Watched.init start_i end_i) calls t ↔
      Run (Guarded Undisturbed Watched.Calls) (Watched.init start_i end_i) calls t := by
  have hkeep {s t : Watched STATE EVENT HANDLER} {c : Call STATE EVENT HANDLER}
      (h : Attentive s) (hinforms : Informs s c t) (hstep : Watched.Calls s c t) :
      Attentive t :=
    ⟨idle_call h.idle hstep, hinforms.subscribed⟩
  constructor
  · intro hrun
    refine hrun.mono Attentive (fun h hstep => hkeep h hstep.1 hstep.2) ?_
      (attentive_init start_i end_i)
    intro s c t h hstep
    exact ⟨(informs_iff h hstep.2).mp hstep.1, hstep.2⟩
  · intro hrun
    refine hrun.mono Attentive
      (fun h hstep => hkeep h ((informs_iff h hstep.2).mpr hstep.1) hstep.2) ?_
      (attentive_init start_i end_i)
    intro s c t h hstep
    exact ⟨(informs_iff h hstep.2).mpr hstep.1, hstep.2⟩

/-- The machine of the check with an observer, and two events to come.  The observer
answers true. -/
def watchedCalls : List (Call CheckState CheckEvent Unit) :=
  checkSetUp ++ [.observe 1 true, .event .Event ⟨.returns true, fun _ => true, .returns⟩]

/-- The observer is called on the first change of the state, and not on the second
one. -/
theorem second_change_unseen :
    ∃ s t : Watched CheckState CheckEvent Unit,
      Run Watched.Calls (Watched.init .Start .End) watchedCalls s ∧
      Watched.Calls s (.event .Quit ⟨.returns true, fun _ => true, .returns⟩) t ∧
      s.waiting = {1} ∧ s.machine.state_ = .Inter ∧ t.machine.state_ = .End ∧
      notices s.machine t.machine = [] ∧
      ¬ Informs s (.event .Quit ⟨.returns true, fun _ => true, .returns⟩) t := by
  let s : Watched CheckState CheckEvent Unit :=
    watchedCalls.foldl Watched.call (Watched.init .Start .End)
  let t := s.call (.event .Quit ⟨.returns true, fun _ => true, .returns⟩)
  have hrun : Run Watched.Calls (Watched.init .Start .End) watchedCalls s :=
    run_foldl _ _ _
  have hwaiting : s.waiting = {1} := by decide +kernel
  have hnotices : notices s.machine t.machine = [] := by decide +kernel
  have hbefore : s.machine.state_ = .Inter := by decide +kernel
  have hafter : t.machine.state_ = .End := by decide +kernel
  refine ⟨s, t, hrun, rfl, hwaiting, hbefore, hafter, hnotices, ?_⟩
  intro h
  have hchanged := congrArg Multiset.card (h.changed (by rw [hbefore, hafter]; decide))
  rw [hnotices, hwaiting, Multiset.card_map, Multiset.card_singleton] at hchanged
  cases hchanged

end Steps

end StateMachine
end Bren
end Brenlib
