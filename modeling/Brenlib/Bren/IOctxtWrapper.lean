import Brenlib.Base.TransitionSystem
import Mathlib.Tactic

/-!
# `IOctxtWrapper`: an I/O context that runs in threads

The model follows `hdr/bren/IOctxtWrapper.hpp` and `src/IOctxtWrapper.cpp`.  The class
`io_context` is a parameter, of which `Documented` says what its documentation promises.

One thread calls the methods.  A call is a list of actions that it has still to do, and
between two of them the worker threads go on and handlers and other threads use the
context.  A thread of `threads_` has been created, is in `ioctxt_.run()` or has returned
from it.  The history notes every call of `ioctxt_.run()`, with the stopped state it
finds, and every end of `stop()`.

No method restarts the context, and every start stops it first.

**Results.**
* `act_cases`: what an action does.
* `invariant_run`: along every run, `ioctxt_.run()` is called in the stopped state only,
  and `stop()` ends with the old setting and without a thread.
* `finish`, `drain`, `perform`: every call can be completed.
* `context_runs_iff`: the context is run alive in all runs of a sequence of calls exactly
  when none of the calls starts it.
-/

namespace Brenlib
namespace Bren

open TransitionSystem

/-- The operations of `io_context` that the wrapper uses. -/
structure IoContext (Ctx : Type) where
  init : Ctx
  stopped : Ctx → Bool
  stop : Ctx → Ctx
  makeWorkGuard : Ctx → Ctx
  resetWorkGuard : Ctx → Ctx
  /-- What handlers and other threads do with the context, all but `restart`. -/
  passes : Ctx → Ctx → Prop

/-- Only `restart` clears the stopped state. -/
structure IoContext.Documented {Ctx : Type} (io : IoContext Ctx) : Prop where
  stopped_stop : ∀ c, io.stopped (io.stop c) = true
  stopped_makeWorkGuard : ∀ c, io.stopped c = true → io.stopped (io.makeWorkGuard c) = true
  stopped_resetWorkGuard : ∀ c, io.stopped c = true → io.stopped (io.resetWorkGuard c) = true
  stopped_passes : ∀ c c', io.passes c c' → io.stopped c = true → io.stopped c' = true

namespace IOctxtWrapper

/-- What the calling thread does in its calls, step by step. -/
inductive Action where
  /-- The body of `stopWhenIdle(stopWhenIdle_i)`. -/
  | stopWhenIdle (stopWhenIdle_i : Bool)
  /-- `if (!ioctxt_.stopped()) ioctxt_.stop()`. -/
  | stopContext
  | join
  | clear
  /-- The end of `stop()`, which was called with the setting `oldSWI`. -/
  | stopEnds (oldSWI : Bool)
  | startThread
  /-- `ioctxt_.run()` is called. -/
  | enterRun
  /-- It returns. -/
  | leaveRun
deriving DecidableEq, Repr

inductive Call where
  | runHere
  | runThreads (numThreads_i : UInt16)
  | stop
  | stopWhenIdle (stopWhenIdle_i : Bool)
deriving DecidableEq, Repr

inductive Entry where
  /-- `ioctxt_.run()` was called, in the stopped state or not. -/
  | ran (stopped : Bool)
  /-- `stop()` ended, with `stopWhenIdle()` before and behind it and the threads left. -/
  | stopEnded (before after : Bool) (threads : Nat)
deriving DecidableEq, Repr

/-- `stop()`. -/
def stopActions (oldSWI : Bool) : List Action :=
  (if !oldSWI then [.stopWhenIdle true] else []) ++
    [.stopContext, .join, .clear, .stopWhenIdle oldSWI, .stopEnds oldSWI]

/-- The actions of a call, with the value of `stopWhenIdle()` at its begin. -/
def Call.actions (oldSWI : Bool) : Call → List Action
  | .runHere => stopActions oldSWI ++ [.enterRun, .leaveRun]
  | .runThreads numThreads_i =>
      stopActions oldSWI ++ List.replicate numThreads_i.toNat .startThread
  | .stop => stopActions oldSWI
  | .stopWhenIdle stopWhenIdle_i => [.stopWhenIdle stopWhenIdle_i]

structure State (Ctx : Type) where
  ioctxt_ : Ctx
  /-- Threads of `threads_` that have not called `ioctxt_.run()` yet. -/
  created : Nat
  /-- Those in `ioctxt_.run()`. -/
  running : Nat
  /-- Those that returned from it. -/
  returned : Nat
  /-- There is a work guard. -/
  work_ : Bool
  todo : List Action
  history : List Entry

section Steps

variable {Ctx : Type}

def State.init (io : IoContext Ctx) : State Ctx where
  ioctxt_ := io.init
  created := 0
  running := 0
  returned := 0
  work_ := false
  todo := []
  history := []

/-- `threads_.size()`. -/
def State.threads (s : State Ctx) : Nat :=
  s.created + s.running + s.returned

/-- `stopWhenIdle()`. -/
def State.stopWhenIdle (s : State Ctx) : Bool :=
  !s.work_

/-- One action, where it does not wait. -/
def State.act (io : IoContext Ctx) (s : State Ctx) : Action → Option (State Ctx)
  | .stopWhenIdle true =>
      if s.work_ then some { s with ioctxt_ := io.resetWorkGuard s.ioctxt_, work_ := false }
      else some s
  | .stopWhenIdle false =>
      if s.work_ then some s
      else some { s with ioctxt_ := io.makeWorkGuard s.ioctxt_, work_ := true }
  | .stopContext =>
      if io.stopped s.ioctxt_ then some s
      else some { s with ioctxt_ := io.stop s.ioctxt_ }
  | .join => if s.created = 0 ∧ s.running = 0 then some s else none
  | .clear => some { s with created := 0, running := 0, returned := 0 }
  | .stopEnds oldSWI =>
      some { s with history := s.history ++ [.stopEnded oldSWI s.stopWhenIdle s.threads] }
  | .startThread => some { s with created := s.created + 1 }
  | .enterRun => some { s with history := s.history ++ [.ran (io.stopped s.ioctxt_)] }
  | .leaveRun => if io.stopped s.ioctxt_ then some s else none

inductive Event where
  /-- A method is called. -/
  | call (c : Call)
  /-- The calling thread does its next action. -/
  | act
  /-- A thread calls `ioctxt_.run()`. -/
  | enter
  /-- A thread returns from it. -/
  | leave
  /-- Something else happens to the context. -/
  | pass
deriving DecidableEq, Repr

inductive Moves (io : IoContext Ctx) : State Ctx → Event → State Ctx → Prop
  | call (s : State Ctx) (c : Call)
      (hidle : s.todo = []) :
      Moves io s (.call c) { s with todo := c.actions s.stopWhenIdle }
  | act (s t : State Ctx) (a : Action) (rest : List Action)
      (htodo : s.todo = a :: rest)
      (hact : s.act io a = some t) :
      Moves io s .act { t with todo := rest }
  | enter (s : State Ctx) (n : Nat)
      (hcreated : s.created = n + 1) :
      Moves io s .enter
        { s with created := n, running := s.running + 1,
                 history := s.history ++ [.ran (io.stopped s.ioctxt_)] }
  | leave (s : State Ctx) (n : Nat)
      (hrunning : s.running = n + 1)
      (hstopped : io.stopped s.ioctxt_ = true) :
      Moves io s .leave { s with running := n, returned := s.returned + 1 }
  | pass (s : State Ctx) (c : Ctx)
      (hpasses : io.passes s.ioctxt_ c) :
      Moves io s .pass { s with ioctxt_ := c }

/-- The calls in a run. -/
def callsOf (events : List Event) : List Call :=
  events.filterMap fun
    | .call c => some c
    | _ => none

variable {io : IoContext Ctx} {s t : State Ctx} {a : Action}

/-- What an action that does not wait does. -/
inductive ActCases (io : IoContext Ctx) (s : State Ctx) : Action → State Ctx → Prop
  | stopWhenIdle (idle : Bool) (c : Ctx)
      (hcontext :
        c = s.ioctxt_ ∨ c = io.resetWorkGuard s.ioctxt_ ∨ c = io.makeWorkGuard s.ioctxt_) :
      ActCases io s (.stopWhenIdle idle) { s with ioctxt_ := c, work_ := !idle }
  | stopContext (c : Ctx)
      (hcontext : (io.stopped s.ioctxt_ = true ∧ c = s.ioctxt_) ∨ c = io.stop s.ioctxt_) :
      ActCases io s .stopContext { s with ioctxt_ := c }
  | join
      (hcreated : s.created = 0)
      (hrunning : s.running = 0) :
      ActCases io s .join s
  | clear :
      ActCases io s .clear { s with created := 0, running := 0, returned := 0 }
  | stopEnds (oldSWI : Bool) :
      ActCases io s (.stopEnds oldSWI)
        { s with history := s.history ++ [.stopEnded oldSWI s.stopWhenIdle s.threads] }
  | startThread :
      ActCases io s .startThread { s with created := s.created + 1 }
  | enterRun :
      ActCases io s .enterRun { s with history := s.history ++ [.ran (io.stopped s.ioctxt_)] }
  | leaveRun
      (hstopped : io.stopped s.ioctxt_ = true) :
      ActCases io s .leaveRun s

/-- The setting is there already. -/
theorem ActCases.setAlready
    {idle : Bool}
    (hwork : s.work_ = !idle) :
    ActCases io s (.stopWhenIdle idle) s := by
  have hcase : ActCases io s (.stopWhenIdle idle) { s with work_ := !idle } :=
    .stopWhenIdle idle s.ioctxt_ (.inl rfl)
  rwa [← hwork] at hcase

theorem act_cases
    (hact : s.act io a = some t) :
    ActCases io s a t := by
  cases a with
  | stopWhenIdle idle =>
      cases idle with
      | true =>
          simp only [State.act] at hact
          split at hact
          · obtain rfl := Option.some.inj hact
            exact .stopWhenIdle true _ (.inr (.inl rfl))
          · next hwork =>
            obtain rfl := Option.some.inj hact
            exact .setAlready (eq_false_of_ne_true hwork)
      | false =>
          simp only [State.act] at hact
          split at hact
          · next hwork =>
            obtain rfl := Option.some.inj hact
            exact .setAlready hwork
          · obtain rfl := Option.some.inj hact
            exact .stopWhenIdle false _ (.inr (.inr rfl))
  | stopContext =>
      simp only [State.act] at hact
      split at hact
      · next hstopped =>
        obtain rfl := Option.some.inj hact
        exact .stopContext _ (.inl ⟨hstopped, rfl⟩)
      · obtain rfl := Option.some.inj hact
        exact .stopContext _ (.inr rfl)
  | join =>
      obtain ⟨⟨hcreated, hrunning⟩, hsame⟩ := Option.ite_none_right_eq_some.mp hact
      obtain rfl := Option.some.inj hsame
      exact .join hcreated hrunning
  | clear =>
      obtain rfl := Option.some.inj hact
      exact .clear
  | stopEnds oldSWI =>
      obtain rfl := Option.some.inj hact
      exact .stopEnds oldSWI
  | startThread =>
      obtain rfl := Option.some.inj hact
      exact .startThread
  | enterRun =>
      obtain rfl := Option.some.inj hact
      exact .enterRun
  | leaveRun =>
      obtain ⟨hstopped, hsame⟩ := Option.ite_none_right_eq_some.mp hact
      obtain rfl := Option.some.inj hsame
      exact .leaveRun hstopped

end Steps

section Safety

variable {Ctx : Type} {io : IoContext Ctx}

/-- What the actions left rely on, from whether the context is stopped, the value of
`stopWhenIdle()` and whether there are no threads. -/
def Relies : Bool → Bool → Bool → List Action → Prop
  | _, _, _, [] => True
  | stopped, _, empty, .stopWhenIdle idle :: rest => Relies stopped idle empty rest
  | _, idle, empty, .stopContext :: rest => Relies true idle empty rest
  | stopped, idle, empty, .join :: rest => Relies stopped idle empty rest
  | stopped, idle, _, .clear :: rest => Relies stopped idle true rest
  | stopped, idle, empty, .stopEnds oldSWI :: rest =>
      (idle = oldSWI ∧ empty = true) ∧ Relies stopped idle empty rest
  | stopped, idle, _, .startThread :: rest => stopped = true ∧ Relies stopped idle false rest
  | stopped, idle, empty, .enterRun :: rest => stopped = true ∧ Relies stopped idle empty rest
  | stopped, idle, empty, .leaveRun :: rest => stopped = true ∧ Relies stopped idle empty rest

/-- A context that has been stopped will do as well. -/
theorem Relies.stopped
    {stopped idle empty : Bool} {todo : List Action}
    (h : Relies stopped idle empty todo) :
    Relies true idle empty todo := by
  induction todo generalizing stopped idle empty with
  | nil =>
      trivial
  | cons a rest ih =>
      cases a with
      | stopWhenIdle idle => exact ih h
      | stopContext => exact h
      | join => exact ih h
      | clear => exact ih h
      | stopEnds oldSWI => exact ⟨h.1, ih h.2⟩
      | startThread => exact ⟨rfl, ih h.2⟩
      | enterRun => exact ⟨rfl, ih h.2⟩
      | leaveRun => exact ⟨rfl, ih h.2⟩

theorem Relies.mono
    {stopped stopped' idle empty : Bool} {todo : List Action}
    (h : Relies stopped idle empty todo)
    (hkeep : stopped = true → stopped' = true) :
    Relies stopped' idle empty todo := by
  cases stopped' with
  | true => exact h.stopped
  | false =>
      have hfalse : stopped = false := by
        cases stopped with
        | true => exact absurd (hkeep rfl) Bool.false_ne_true
        | false => rfl
      rwa [hfalse] at h

theorem relies_replicate
    (n : Nat) (idle empty : Bool) :
    Relies true idle empty (List.replicate n .startThread) := by
  induction n generalizing empty with
  | zero =>
      trivial
  | succ n ih =>
      exact ⟨rfl, ih false⟩

/-- `stop()` makes true what is relied on behind it. -/
theorem relies_stopActions
    {stopped idle empty : Bool} {rest : List Action}
    (h : Relies true idle true rest) :
    Relies stopped idle empty (stopActions idle ++ rest) := by
  cases idle with
  | true => exact ⟨⟨rfl, rfl⟩, h⟩
  | false => exact ⟨⟨rfl, rfl⟩, h⟩

theorem relies_actions
    (stopped idle empty : Bool) (c : Call) :
    Relies stopped idle empty (c.actions idle) := by
  cases c with
  | runHere => exact relies_stopActions ⟨rfl, rfl, trivial⟩
  | runThreads n => exact relies_stopActions (relies_replicate _ _ _)
  | stop =>
      have h : Relies stopped idle empty (stopActions idle ++ []) := relies_stopActions trivial
      rwa [List.append_nil] at h
  | stopWhenIdle b => trivial

/-- What the history says in every run. -/
def Entry.Settled : Entry → Prop
  | .ran stopped => stopped = true
  | .stopEnded before after threads => after = before ∧ threads = 0

theorem settled_snoc
    {history : List Entry} {e : Entry}
    (h : ∀ x ∈ history, x.Settled)
    (he : e.Settled) :
    ∀ x ∈ history ++ [e], x.Settled := by
  intro x hx
  rcases List.mem_append.mp hx with hold | hnew
  · exact h x hold
  · rw [List.mem_singleton.mp hnew]
    exact he

structure Invariant (io : IoContext Ctx) (s : State Ctx) : Prop where
  todo : Relies (io.stopped s.ioctxt_) s.stopWhenIdle (s.threads = 0) s.todo
  threads : s.created + s.running ≠ 0 → io.stopped s.ioctxt_ = true
  history : ∀ e ∈ s.history, e.Settled

theorem invariant_init :
    Invariant io (State.init io) :=
  ⟨trivial, fun h => absurd rfl h, fun _ h => by cases h⟩

/-- A step that uses the context only, and does not clear the stopped state. -/
theorem Invariant.context
    {s : State Ctx} {c : Ctx}
    (h : Invariant io s)
    (hkeep : io.stopped s.ioctxt_ = true → io.stopped c = true) :
    Invariant io { s with ioctxt_ := c } :=
  ⟨h.todo.mono hkeep, fun hthreads => hkeep (h.threads hthreads), h.history⟩

theorem invariant_act
    (hio : io.Documented)
    {s t : State Ctx} {a : Action} {rest : List Action}
    (h : Invariant io s)
    (htodo : s.todo = a :: rest)
    (hact : s.act io a = some t) :
    Invariant io { t with todo := rest } := by
  obtain ⟨hrelies, hthreads, hhistory⟩ := h
  rw [htodo] at hrelies
  cases act_cases hact with
  | stopWhenIdle idle c hcontext =>
      have hkeep : io.stopped s.ioctxt_ = true → io.stopped c = true := by
        rcases hcontext with rfl | rfl | rfl
        · exact id
        · exact hio.stopped_resetWorkGuard s.ioctxt_
        · exact hio.stopped_makeWorkGuard s.ioctxt_
      refine ⟨?_, fun hne => hkeep (hthreads hne), hhistory⟩
      change Relies _ (!(!idle)) _ rest
      rw [Bool.not_not]
      exact Relies.mono hrelies hkeep
  | stopContext c hcontext =>
      have hstopped : io.stopped c = true := by
        rcases hcontext with ⟨hstopped, rfl⟩ | rfl
        · exact hstopped
        · exact hio.stopped_stop s.ioctxt_
      have hrest : Relies true s.stopWhenIdle (s.threads = 0) rest := hrelies
      exact ⟨hrest.mono fun _ => hstopped, fun _ => hstopped, hhistory⟩
  | join hcreated hrunning =>
      exact ⟨hrelies, hthreads, hhistory⟩
  | clear =>
      exact ⟨hrelies, fun hne => absurd rfl hne, hhistory⟩
  | stopEnds oldSWI =>
      obtain ⟨⟨hidle, hempty⟩, hrest⟩ := hrelies
      exact ⟨hrest, hthreads, settled_snoc hhistory ⟨hidle, of_decide_eq_true hempty⟩⟩
  | startThread =>
      obtain ⟨hstopped, hrest⟩ := hrelies
      refine ⟨?_, fun _ => hstopped, hhistory⟩
      have hsome : decide (s.created + 1 + s.running + s.returned = 0) = false :=
        decide_eq_false (by omega)
      change Relies _ s.stopWhenIdle (decide (s.created + 1 + s.running + s.returned = 0)) rest
      rwa [hsome]
  | enterRun =>
      obtain ⟨hstopped, hrest⟩ := hrelies
      exact ⟨hrest, hthreads, settled_snoc hhistory hstopped⟩
  | leaveRun hstopped =>
      exact ⟨hrelies.2, hthreads, hhistory⟩

theorem invariant_step
    (hio : io.Documented)
    {s t : State Ctx} {event : Event}
    (h : Invariant io s)
    (hstep : Moves io s event t) :
    Invariant io t := by
  cases hstep with
  | call c hidle =>
      exact ⟨relies_actions _ _ _ c, h.threads, h.history⟩
  | act u a rest htodo hact =>
      exact invariant_act hio h htodo hact
  | enter n hcreated =>
      have hstopped := h.threads (by omega)
      refine ⟨?_, fun _ => hstopped, settled_snoc h.history hstopped⟩
      have hsame : n + (s.running + 1) + s.returned = s.threads := by
        rw [State.threads]
        omega
      change Relies _ _ (decide (n + (s.running + 1) + s.returned = 0)) _
      rw [hsame]
      exact h.todo
  | leave n hrunning hstopped =>
      refine ⟨?_, fun _ => hstopped, h.history⟩
      have hsame : s.created + n + (s.returned + 1) = s.threads := by
        rw [State.threads]
        omega
      change Relies _ _ (decide (s.created + n + (s.returned + 1) = 0)) _
      rw [hsame]
      exact h.todo
  | pass c hpasses =>
      exact h.context (hio.stopped_passes s.ioctxt_ c hpasses)

/-- **In every run the context is stopped** whenever `ioctxt_.run()` is called, and
`stop()` ends with the setting it began with and without a thread. -/
theorem invariant_run
    (hio : io.Documented)
    {events : List Event} {s : State Ctx}
    (hrun : Run (Moves io) (State.init io) events s) :
    Invariant io s :=
  hrun.invariant (Invariant io) (fun h hstep => invariant_step hio h hstep) invariant_init

end Safety

section Progress

variable {Ctx : Type} {io : IoContext Ctx}

/-- The action calls `ioctxt_.run()`, or creates a thread that does. -/
def Action.Starts (a : Action) : Prop :=
  a = .startThread ∨ a = .enterRun

/-- An action adds to the history, and only one that starts the context adds a call of
`ioctxt_.run()` or a thread. -/
theorem act_effect
    {s t : State Ctx} {a : Action}
    (hact : s.act io a = some t) :
    ∃ entries, t.history = s.history ++ entries ∧
      (¬ a.Starts →
        (∀ stopped, .ran stopped ∉ entries) ∧ t.created ≤ s.created ∧ t.running ≤ s.running) := by
  have hsame (hhistory : t.history = s.history) (hcreated : t.created ≤ s.created)
      (hrunning : t.running ≤ s.running) :
      ∃ entries, t.history = s.history ++ entries ∧
        (¬ a.Starts → (∀ stopped, .ran stopped ∉ entries) ∧ t.created ≤ s.created ∧
          t.running ≤ s.running) :=
    ⟨[], by rw [hhistory, List.append_nil], fun _ =>
      ⟨fun _ h => (List.not_mem_nil h).elim, hcreated, hrunning⟩⟩
  cases act_cases hact with
  | stopWhenIdle idle c hcontext =>
      exact hsame rfl (Nat.le_refl _) (Nat.le_refl _)
  | stopContext c hcontext =>
      exact hsame rfl (Nat.le_refl _) (Nat.le_refl _)
  | join hcreated hrunning =>
      exact hsame rfl (Nat.le_refl _) (Nat.le_refl _)
  | clear =>
      exact hsame rfl (Nat.zero_le _) (Nat.zero_le _)
  | stopEnds oldSWI =>
      exact ⟨_, rfl, fun _ => ⟨by simp, Nat.le_refl _, Nat.le_refl _⟩⟩
  | startThread =>
      exact ⟨[], (List.append_nil _).symm, fun h => absurd (.inl rfl) h⟩
  | enterRun =>
      exact ⟨_, rfl, fun h => absurd (.inr rfl) h⟩
  | leaveRun hstopped =>
      exact hsame rfl (Nat.le_refl _) (Nat.le_refl _)

theorem history_step
    {s t : State Ctx} {event : Event}
    (hstep : Moves io s event t) :
    s.history ⊆ t.history := by
  cases hstep with
  | call c hidle => exact List.Subset.refl _
  | act u a rest htodo hact =>
      obtain ⟨entries, hhistory, -⟩ := act_effect hact
      change s.history ⊆ u.history
      rw [hhistory]
      exact List.subset_append_left _ _
  | enter n hcreated => exact List.subset_append_left _ _
  | leave n hrunning hstopped => exact List.Subset.refl _
  | pass c hpasses => exact List.Subset.refl _

/-- `ioctxt_.run()` has been called. -/
def State.Ran (s : State Ctx) : Prop :=
  ∃ stopped, Entry.ran stopped ∈ s.history

/-- A run without a further call. -/
def GoesOn (io : IoContext Ctx) (s t : State Ctx) : Prop :=
  ∃ events, Run (Moves io) s events t ∧ callsOf events = []

theorem GoesOn.refl
    (s : State Ctx) :
    GoesOn io s s :=
  ⟨[], .nil s, rfl⟩

theorem GoesOn.trans
    {s t u : State Ctx}
    (h : GoesOn io s t)
    (h' : GoesOn io t u) :
    GoesOn io s u := by
  obtain ⟨events, hrun, hcalls⟩ := h
  obtain ⟨events', hrun', hcalls'⟩ := h'
  refine ⟨events ++ events', hrun.append hrun', ?_⟩
  rw [callsOf, List.filterMap_append]
  exact congrArg₂ (· ++ ·) hcalls hcalls'

theorem GoesOn.single
    {s t : State Ctx} {event : Event}
    (hstep : Moves io s event t)
    (hcalls : callsOf [event] = []) :
    GoesOn io s t :=
  ⟨[event], .single hstep, hcalls⟩

theorem GoesOn.ran
    {s t : State Ctx}
    (h : GoesOn io s t)
    (hran : s.Ran) :
    t.Ran := by
  obtain ⟨events, hrun, -⟩ := h
  exact hrun.invariant State.Ran (fun hr hstep => hr.imp fun _ hmem => history_step hstep hmem)
    hran

theorem GoesOn.invariant
    (hio : io.Documented)
    {s t : State Ctx}
    (h : GoesOn io s t)
    (hs : Invariant io s) :
    Invariant io t := by
  obtain ⟨events, hrun, -⟩ := h
  exact hrun.invariant (Invariant io) (fun h hstep => invariant_step hio h hstep) hs

/-- All threads that have been created call `ioctxt_.run()`. -/
theorem enter_all
    (io : IoContext Ctx) (s : State Ctx) :
    ∃ t, GoesOn io s t ∧ t.created = 0 ∧ t.todo = s.todo ∧ t.ioctxt_ = s.ioctxt_ ∧
      (s.created ≠ 0 → t.Ran) := by
  induction hn : s.created generalizing s with
  | zero => exact ⟨s, .refl s, hn, rfl, rfl, fun h => absurd rfl h⟩
  | succ n ih =>
      obtain ⟨t, hgoes, hcreated, htodo, hctx, -⟩ :=
        ih { s with created := n, running := s.running + 1,
                    history := s.history ++ [.ran (io.stopped s.ioctxt_)] } rfl
      refine ⟨t, .trans (.single (.enter s n hn) rfl) hgoes, hcreated, htodo, hctx, fun _ => ?_⟩
      exact hgoes.ran ⟨_, List.mem_append_right _ List.mem_cons_self⟩

/-- In the stopped state all threads return. -/
theorem leave_all
    {s : State Ctx}
    (hstopped : s.running ≠ 0 → io.stopped s.ioctxt_ = true) :
    ∃ t, GoesOn io s t ∧ t.created = s.created ∧ t.running = 0 ∧ t.todo = s.todo := by
  induction hn : s.running generalizing s with
  | zero => exact ⟨s, .refl s, rfl, hn, rfl⟩
  | succ n ih =>
      have hstop := hstopped (by omega)
      obtain ⟨t, hgoes, hcreated, hrunning, htodo⟩ :=
        ih (s := { s with running := n, returned := s.returned + 1 }) (fun _ => hstop) rfl
      exact ⟨t, .trans (.single (.leave s n hn hstop) rfl) hgoes, hcreated, hrunning, htodo⟩

/-- The threads come to their end. -/
theorem finish
    (hio : io.Documented)
    {s : State Ctx}
    (hs : Invariant io s) :
    ∃ t, GoesOn io s t ∧ t.created = 0 ∧ t.running = 0 ∧ t.todo = s.todo ∧
      (s.created ≠ 0 → t.Ran) := by
  obtain ⟨t, hgoes, hcreated, htodo, -, hran⟩ := enter_all io s
  obtain ⟨u, hgoes', hcreated', hrunning', htodo'⟩ := leave_all (s := t)
    fun hne => (hgoes.invariant hio hs).threads (by omega)
  exact ⟨u, hgoes.trans hgoes', hcreated'.trans hcreated, hrunning', htodo'.trans htodo,
    fun hne => hgoes'.ran (hran hne)⟩

/-- Without threads no action waits for ever. -/
theorem act_enabled
    {s : State Ctx} {a : Action} {rest : List Action}
    (hs : Invariant io s)
    (hcreated : s.created = 0)
    (hrunning : s.running = 0)
    (htodo : s.todo = a :: rest) :
    ∃ t, s.act io a = some t ∧ (a.Starts → t.created ≠ 0 ∨ t.Ran) := by
  have hrelies := hs.todo
  rw [htodo] at hrelies
  cases a with
  | stopWhenIdle idle =>
      cases idle <;> simp only [State.act] <;> split <;> exact ⟨_, rfl, by simp [Action.Starts]⟩
  | stopContext =>
      simp only [State.act]
      split <;> exact ⟨_, rfl, by simp [Action.Starts]⟩
  | join =>
      simp only [State.act]
      rw [if_pos ⟨hcreated, hrunning⟩]
      exact ⟨_, rfl, by simp [Action.Starts]⟩
  | clear => exact ⟨_, rfl, by simp [Action.Starts]⟩
  | stopEnds oldSWI => exact ⟨_, rfl, by simp [Action.Starts]⟩
  | startThread => exact ⟨_, rfl, fun _ => .inl (Nat.succ_ne_zero _)⟩
  | enterRun =>
      exact ⟨_, rfl, fun _ => .inr ⟨_, List.mem_append_right _ List.mem_cons_self⟩⟩
  | leaveRun =>
      simp only [State.act]
      rw [if_pos hrelies.1]
      exact ⟨_, rfl, by simp [Action.Starts]⟩

/-- A call comes to its end. -/
theorem drain
    (hio : io.Documented)
    (todo : List Action)
    {s : State Ctx}
    (hs : Invariant io s)
    (htodo : s.todo = todo) :
    ∃ t, GoesOn io s t ∧ t.todo = [] ∧
      ((s.created ≠ 0 ∨ ∃ a ∈ todo, a.Starts) → t.Ran) := by
  induction todo generalizing s with
  | nil =>
      obtain ⟨t, hgoes, -, -, htodo', hran⟩ := finish hio hs
      refine ⟨t, hgoes, htodo'.trans htodo, ?_⟩
      rintro (hne | ⟨a, ha, -⟩)
      · exact hran hne
      · cases ha
  | cons a rest ih =>
      obtain ⟨t, hgoes, hcreated, hrunning, htodo', hran⟩ := finish hio hs
      have ht := hgoes.invariant hio hs
      obtain ⟨u, hact, hstarts⟩ := act_enabled ht hcreated hrunning (htodo'.trans htodo)
      have hstep := Moves.act t u a rest (htodo'.trans htodo) hact
      obtain ⟨v, hgoes', hend, hran'⟩ := ih (invariant_step hio ht hstep) rfl
      have hfirst : GoesOn io t { u with todo := rest } := .single hstep rfl
      refine ⟨v, (hgoes.trans hfirst).trans hgoes', hend, ?_⟩
      rintro (hne | ⟨b, hb, hbstarts⟩)
      · exact (hfirst.trans hgoes').ran (hran hne)
      · rcases List.mem_cons.mp hb with rfl | hmem
        · rcases hstarts hbstarts with hnew | hnow
          · exact hran' (.inl hnew)
          · exact hgoes'.ran hnow
        · exact hran' (.inr ⟨b, hmem, hbstarts⟩)

/-- The call starts the context. -/
def Call.Starts : Call → Prop
  | .runHere => True
  | .runThreads numThreads_i => numThreads_i ≠ 0
  | .stop => False
  | .stopWhenIdle _ => False

theorem not_starts_stopActions
    {oldSWI : Bool} {a : Action}
    (h : a ∈ stopActions oldSWI) :
    ¬ a.Starts := by
  rintro (rfl | rfl)
  · cases oldSWI <;> revert h <;> decide
  · cases oldSWI <;> revert h <;> decide

theorem starts_actions
    {c : Call} {oldSWI : Bool} :
    (∃ a ∈ c.actions oldSWI, a.Starts) ↔ c.Starts := by
  constructor
  · rintro ⟨a, ha, hstarts⟩
    cases c with
    | runHere => trivial
    | runThreads n =>
        rintro rfl
        rw [Call.actions] at ha
        change a ∈ stopActions oldSWI ++ [] at ha
        rw [List.append_nil] at ha
        exact not_starts_stopActions ha hstarts
    | stop => exact not_starts_stopActions ha hstarts
    | stopWhenIdle b =>
        obtain rfl := List.mem_singleton.mp ha
        rcases hstarts with h | h <;> cases h
  · intro hstarts
    cases c with
    | runHere =>
        exact ⟨.enterRun, List.mem_append_right _ List.mem_cons_self, .inr rfl⟩
    | runThreads n =>
        have hn : n.toNat ≠ 0 := fun h => hstarts (UInt16.toNat_inj.mp h)
        exact ⟨.startThread, List.mem_append_right _ (List.mem_replicate.mpr ⟨hn, rfl⟩), .inl rfl⟩
    | stop => exact absurd hstarts id
    | stopWhenIdle b => exact absurd hstarts id

theorem callsOf_append
    (events events' : List Event) :
    callsOf (events ++ events') = callsOf events ++ callsOf events' :=
  List.filterMap_append

/-- The calls can be done one after the other. -/
theorem perform
    (hio : io.Documented)
    (calls : List Call)
    {s : State Ctx}
    (hs : Invariant io s)
    (hidle : s.todo = []) :
    ∃ events t, Run (Moves io) s events t ∧ callsOf events = calls ∧
      ((s.Ran ∨ ∃ c ∈ calls, c.Starts) → t.Ran) := by
  induction calls generalizing s with
  | nil =>
      refine ⟨[], s, .nil s, rfl, ?_⟩
      rintro (hran | ⟨c, hc, -⟩)
      · exact hran
      · cases hc
  | cons c calls ih =>
      have hstep : Moves io s (.call c) { s with todo := c.actions s.stopWhenIdle } :=
        .call s c hidle
      have hcall := invariant_step hio hs hstep
      obtain ⟨t, hgoes, hend, hran⟩ := drain hio _ hcall rfl
      obtain ⟨events', u, hrun', hcalls', hran'⟩ := ih (hgoes.invariant hio hcall) hend
      have hkept : s.Ran → t.Ran := fun hs => hgoes.ran hs
      obtain ⟨events, hrun, hcalls⟩ := hgoes
      refine ⟨.call c :: events ++ events', u, (Run.cons hstep hrun).append hrun', ?_, ?_⟩
      · rw [callsOf_append, hcalls']
        change (c :: callsOf events) ++ calls = c :: calls
        rw [hcalls]
        rfl
      · rintro (hbefore | ⟨b, hb, hstarts⟩)
        · exact hran' (.inl (hkept hbefore))
        · rcases List.mem_cons.mp hb with rfl | hmem
          · exact hran' (.inl (hran (.inr (starts_actions.mpr hstarts))))
          · exact hran' (.inr ⟨b, hmem, hstarts⟩)

end Progress

section Unstarted

variable {Ctx : Type} {io : IoContext Ctx}

/-- Nothing has called `ioctxt_.run()`, and nothing is about to. -/
structure Unstarted (s : State Ctx) : Prop where
  created : s.created = 0
  todo : ∀ a ∈ s.todo, ¬ a.Starts
  ran : ¬ s.Ran

theorem unstarted_run
    {events : List Event} {s : State Ctx}
    (hrun : Run (Moves io) (State.init io) events s)
    (hcalls : ∀ c ∈ callsOf events, ¬ c.Starts) :
    Unstarted s := by
  induction hrun with
  | nil =>
      exact ⟨rfl, fun _ h => (List.not_mem_nil h).elim, fun ⟨_, h⟩ => (List.not_mem_nil h).elim⟩
  | @snoc events s event t hrun hstep ih =>
      rw [callsOf_append] at hcalls
      obtain ⟨hcreated, htodo, hran⟩ := ih fun c hc => hcalls c (List.mem_append_left _ hc)
      cases hstep with
      | call c hidle =>
          refine ⟨hcreated, fun a ha hstarts => ?_, hran⟩
          exact hcalls c (List.mem_append_right _ List.mem_cons_self)
            (starts_actions.mp ⟨a, ha, hstarts⟩)
      | act u a rest htodo' hact =>
          rw [htodo'] at htodo
          obtain ⟨entries, hhistory, heffect⟩ := act_effect hact
          obtain ⟨hentries, hcreated', -⟩ := heffect (htodo a List.mem_cons_self)
          refine ⟨?_, fun b hb => htodo b (List.mem_cons_of_mem _ hb), ?_⟩
          · exact Nat.le_zero.mp (hcreated ▸ hcreated')
          · rintro ⟨stopped, hmem⟩
            change _ ∈ u.history at hmem
            rw [hhistory, List.mem_append] at hmem
            rcases hmem with hold | hnew
            · exact hran ⟨stopped, hold⟩
            · exact hentries stopped hnew
      | enter n hn => exact absurd (hcreated.symm.trans hn) (by omega)
      | leave n hrunning hstopped => exact ⟨hcreated, htodo, hran⟩
      | pass c hpasses => exact ⟨hcreated, htodo, hran⟩

end Unstarted

section RunningContext

variable {Ctx : Type} {io : IoContext Ctx}

/-- `ioctxt_.run()` is called while the context is not stopped, and `stop()` keeps the
setting and leaves no thread behind. -/
def Entry.Kept : Entry → Prop
  | .ran stopped => stopped = false
  | .stopEnded before after threads => after = before ∧ threads = 0

/-- **The context is run alive** in all runs of a sequence of calls exactly when none of
the calls starts it. -/
theorem context_runs_iff
    (hio : io.Documented)
    (calls : List Call) :
    (∀ events s, Run (Moves io) (State.init io) events s → callsOf events = calls →
        ∀ e ∈ s.history, e.Kept) ↔
      ∀ c ∈ calls, ¬ c.Starts := by
  constructor
  · intro h c hc hstarts
    obtain ⟨events, t, hrun, hcalls, hran⟩ :=
      perform hio calls invariant_init rfl
    obtain ⟨stopped, hmem⟩ := hran (.inr ⟨c, hc, hstarts⟩)
    have hkept : stopped = false := h events t hrun hcalls _ hmem
    have hsettled : stopped = true := (invariant_run hio hrun).history _ hmem
    exact Bool.false_ne_true (hkept.symm.trans hsettled)
  · rintro h events s hrun rfl e he
    have hsettled := (invariant_run hio hrun).history e he
    cases e with
    | ran stopped => exact absurd ⟨stopped, he⟩ (unstarted_run hrun h).ran
    | stopEnded before after threads => exact hsettled

end RunningContext

section Counter

/-- A context that counts its work. -/
structure WorkCounter where
  stopped : Bool
  work : Nat
deriving DecidableEq, Repr

/-- The context stops when its last piece of work is done. -/
def WorkCounter.finished (c : WorkCounter) : WorkCounter :=
  { stopped := c.stopped || c.work == 1, work := c.work - 1 }

/-- An `io_context` in which work can be posted, and is done while it is not stopped. -/
def workCounter : IoContext WorkCounter where
  init := { stopped := false, work := 0 }
  stopped := WorkCounter.stopped
  stop := fun c => { c with stopped := true }
  makeWorkGuard := fun c => { c with work := c.work + 1 }
  resetWorkGuard := WorkCounter.finished
  passes := fun c c' =>
    c' = { c with work := c.work + 1 } ∨
      c' = { c with stopped := true } ∨
      (c.stopped = false ∧ 0 < c.work ∧ c' = c.finished)

theorem workCounter_documented :
    workCounter.Documented := by
  refine ⟨fun c => rfl, fun c h => h, ?_, ?_⟩
  · intro c h
    change (c.stopped || _) = true
    rw [show c.stopped = true from h]
    rfl
  · rintro c c' (rfl | rfl | ⟨hstopped, -, rfl⟩) h
    · exact h
    · rfl
    · exact absurd (hstopped.symm.trans h) Bool.false_ne_true

/-- Settings alone never run the context in the stopped state. -/
theorem context_settings :
    (∀ c ∈ [.stopWhenIdle false, .stop, .stopWhenIdle true], ¬ Call.Starts c) ∧
      ∀ events s, Run (Moves workCounter) (State.init workCounter) events s →
        callsOf events = [.stopWhenIdle false, .stop, .stopWhenIdle true] →
        ∀ e ∈ s.history, e.Kept := by
  have hsettings : ∀ c ∈ [.stopWhenIdle false, .stop, .stopWhenIdle true], ¬ Call.Starts c := by
    intro c hc
    fin_cases hc <;> exact id
  exact ⟨hsettings, (context_runs_iff workCounter_documented _).mpr hsettings⟩

/-- Work is posted, a thread is started, and it finds the context stopped. -/
theorem thread_finds_stopped :
    ∃ events s, Run (Moves workCounter) (State.init workCounter) events s ∧
      callsOf events = [.runThreads 1] ∧ s.ioctxt_.work = 1 ∧
      .ran true ∈ s.history ∧ ¬ (Entry.ran true).Kept := by
  -- the work, the call, the five actions of `stop()`, the start of the thread, its call
  refine ⟨_, _, .cons (.pass _ _ (.inl rfl)) <| .cons (.call _ (.runThreads 1) rfl) <|
    .cons (.act _ _ _ _ rfl rfl) <| .cons (.act _ _ _ _ rfl rfl) <|
    .cons (.act _ _ _ _ rfl rfl) <| .cons (.act _ _ _ _ rfl rfl) <|
    .cons (.act _ _ _ _ rfl rfl) <| .cons (.act _ _ _ _ rfl rfl) <|
    .single (.enter _ 0 rfl), rfl, rfl, ?_, ?_⟩
  · exact List.mem_append_right _ List.mem_cons_self
  · exact fun h => Bool.false_ne_true (Eq.symm h)

end Counter

end IOctxtWrapper
end Bren
end Brenlib
