import Mathlib.Data.List.Basic

/-!
# Runs of a labelled transition system

A transition system is a relation `step s l t`: from the state `s` the system
can take a step with the label `l` to the state `t`.  Several parties whose
steps interleave are one system whose labels say which party takes the step.

* `Run step s ls t`: the labels `ls` lead from `s` to `t`.
* `Run.invariant`: a property kept by every step holds behind every run.
* `Run.relates`: a reflexive and transitive relation between the states before and
  behind every step holds between the ends of a run.
* `Run.length_add_le`: a run of steps that lower a measure is no longer than the measure.
* `Run.mono`: behind an invariant, a run of one system is a run of another one.
* `Run.simulates`: a system that can follow every step can follow every run.
* `Guarded cond step`: the steps that meet a condition.
* `Run.iff_guarded`: a property that a step keeps exactly when it meets a condition.
* `exec`: runs of a partial step function, computed; `guarded_of_exec`: guarded ones.
-/

namespace Brenlib
namespace TransitionSystem

universe u v w

section Runs

variable {State : Type u}
variable {Label : Type v}

/-- Finite runs with the labels of their steps. -/
inductive Run
    (step : State → Label → State → Prop) :
    State → List Label → State → Prop
  | nil
      (s : State) :
      Run step s [] s
  | snoc
      {s t u : State}
      {ls : List Label}
      {l : Label}
      (hrun : Run step s ls t)
      (hstep : step t l u) :
      Run step s (ls ++ [l]) u

namespace Run

variable {step step' : State → Label → State → Prop}
variable {s t u : State}
variable {ls ls' : List Label}

theorem single
    {l : Label}
    (hstep : step s l t) :
    Run step s [l] t :=
  snoc (nil s) hstep

theorem append
    (hfirst : Run step s ls t)
    (hsecond : Run step t ls' u) :
    Run step s (ls ++ ls') u := by
  induction hsecond with
  | nil =>
      rw [List.append_nil]
      exact hfirst
  | snoc hrun hstep ih =>
      rw [← List.append_assoc]
      exact snoc ih hstep

theorem cons
    {l : Label}
    (hstep : step s l t)
    (hrun : Run step t ls u) :
    Run step s (l :: ls) u :=
  (single hstep).append hrun

/-- A property of the first state that every step keeps holds behind the run. -/
theorem invariant
    (I : State → Prop)
    (hkeep : ∀ {s l t}, I s → step s l t → I t)
    (hrun : Run step s ls t)
    (hstart : I s) :
    I t := by
  induction hrun with
  | nil =>
      exact hstart
  | snoc hrun hstep ih =>
      exact hkeep ih hstep

/-- A reflexive and transitive relation between the two states of every step relates
the two ends of a run. -/
theorem relates
    (I : State → Prop)
    (R : State → State → Prop)
    (hrefl : ∀ s, R s s)
    (htrans : ∀ {s t u}, R s t → R t u → R s u)
    (hkeep : ∀ {s l t}, I s → step s l t → I t)
    (hrel : ∀ {s l t}, I s → step s l t → R s t)
    (hrun : Run step s ls t)
    (hstart : I s) :
    R s t := by
  induction hrun with
  | nil =>
      exact hrefl _
  | snoc hrun hstep ih =>
      have hbefore := hrun.invariant I hkeep hstart
      exact htrans ih (hrel hbefore hstep)

/-- A run whose steps all lower a measure is no longer than what they have lowered it by. -/
theorem length_add_le
    (I : State → Prop)
    (measure : State → Nat)
    (hkeep : ∀ {s l t}, I s → step s l t → I t)
    (hlower : ∀ {s l t}, I s → step s l t → measure t < measure s)
    (hrun : Run step s ls t)
    (hstart : I s) :
    ls.length + measure t ≤ measure s := by
  induction hrun with
  | nil =>
      rw [List.length_nil]
      omega
  | snoc hrun hstep ih =>
      have hbefore := hrun.invariant I hkeep hstart
      have hlast := hlower hbefore hstep
      rw [List.length_append, List.length_singleton]
      omega

/-- Behind an invariant, steps of one relation that are steps of another one. -/
theorem mono
    (I : State → Prop)
    (hkeep : ∀ {s l t}, I s → step s l t → I t)
    (hle : ∀ {s l t}, I s → step s l t → step' s l t)
    (hrun : Run step s ls t)
    (hstart : I s) :
    Run step' s ls t := by
  induction hrun with
  | nil =>
      exact nil _
  | snoc hrun hstep ih =>
      have hbefore := hrun.invariant I hkeep hstart
      exact snoc ih (hle hbefore hstep)

/-- A run is simulated step by step by another system with the same labels. -/
theorem simulates
    {State' : Type w}
    {step'' : State' → Label → State' → Prop}
    {s' : State'}
    (hrun : Run step s ls t)
    (R : State → State' → Prop)
    (hsim : ∀ {s l t s'}, R s s' → step s l t → ∃ t', step'' s' l t' ∧ R t t')
    (hstart : R s s') :
    ∃ t', Run step'' s' ls t' ∧ R t t' := by
  induction hrun with
  | nil =>
      exact ⟨s', .nil s', hstart⟩
  | snoc hrun hstep ih =>
      obtain ⟨u', hrun', hbefore⟩ := ih
      obtain ⟨t', hstep', hafter⟩ := hsim hbefore hstep
      exact ⟨t', .snoc hrun' hstep', hafter⟩

end Run

/-- The steps that meet a condition. -/
def Guarded
    (cond : State → Label → State → Prop)
    (step : State → Label → State → Prop)
    (s : State) (l : Label) (t : State) : Prop :=
  cond s l t ∧ step s l t

/-- A run whose labels meet the condition in every state. -/
theorem Run.guarded
    {step : State → Label → State → Prop}
    {cond : State → Label → State → Prop}
    {s t : State} {ls : List Label}
    (hrun : Run step s ls t)
    (hcond : ∀ l ∈ ls, ∀ s t, cond s l t) :
    Run (Guarded cond step) s ls t := by
  induction hrun with
  | nil =>
      exact .nil _
  | @snoc t u ls l hrun hstep ih =>
      have hinit := ih fun l hl => hcond l (List.mem_append_left _ hl)
      have hlast := hcond l (List.mem_append_right _ (List.mem_singleton_self l))
      exact .snoc hinit ⟨hlast t u, hstep⟩

/-- Every guarded run is a run. -/
theorem Run.unguarded
    {step : State → Label → State → Prop}
    {cond : State → Label → State → Prop}
    {s t : State} {ls : List Label}
    (hrun : Run (Guarded cond step) s ls t) :
    Run step s ls t := by
  induction hrun with
  | nil =>
      exact .nil _
  | snoc hrun hstep ih =>
      exact .snoc ih hstep.2

theorem Run.eq_of_nil
    {step : State → Label → State → Prop}
    {s t : State}
    (hrun : Run step s [] t) :
    s = t := by
  generalize hlabels : ([] : List Label) = labels at hrun
  cases hrun with
  | nil =>
      rfl
  | snoc =>
      exact absurd hlabels (by simp)

/-- The last step of a run. -/
theorem Run.last
    {step : State → Label → State → Prop}
    {s u : State} {ls : List Label} {l : Label}
    (hrun : Run step s (ls ++ [l]) u) :
    ∃ t, Run step s ls t ∧ step t l u := by
  generalize hlabels : ls ++ [l] = labels at hrun
  cases hrun with
  | nil =>
      exact absurd hlabels (by simp)
  | snoc hrun hstep =>
      obtain ⟨rfl, hlast⟩ := List.append_inj' hlabels rfl
      cases hlast
      exact ⟨_, hrun, hstep⟩

/-- The steps of a partial function. -/
def Steps
    (next : State → Label → Option State)
    (s : State) (l : Label) (t : State) : Prop :=
  next s l = some t

/-- The label decides where a step leads. -/
def Deterministic
    (step : State → Label → State → Prop) : Prop :=
  ∀ s l t t', step s l t → step s l t' → t = t'

theorem Steps.deterministic
    (next : State → Label → Option State) :
    Deterministic (Steps next) :=
  fun _ _ _ _ hstep hstep' => Option.some.inj (hstep.symm.trans hstep')

theorem Deterministic.guarded
    {step : State → Label → State → Prop}
    (hdet : Deterministic step)
    (cond : State → Label → State → Prop) :
    Deterministic (Guarded cond step) :=
  fun _ _ _ _ hstep hstep' => hdet _ _ _ _ hstep.2 hstep'.2

/-- The labels decide where a run of a deterministic system leads. -/
theorem Run.unique
    {step : State → Label → State → Prop}
    {s t t' : State} {ls : List Label}
    (hdet : Deterministic step)
    (hrun : Run step s ls t)
    (hrun' : Run step s ls t') :
    t = t' := by
  induction hrun generalizing t' with
  | nil =>
      exact hrun'.eq_of_nil
  | snoc hrun hstep ih =>
      obtain ⟨u', hinit, hlast⟩ := hrun'.last
      obtain rfl := ih hinit
      exact hdet _ _ _ _ hstep hlast

/-- A property that is right behind a step exactly when it was right before it and the
step meets a condition: it is right behind a run exactly when all steps of the run
meet the condition. -/
theorem Run.iff_guarded
    {step : State → Label → State → Prop}
    {cond : State → Label → State → Prop}
    {s t : State} {ls : List Label}
    (hdet : Deterministic step)
    (I P : State → Prop)
    (hkeep : ∀ {s l t}, I s → step s l t → I t)
    (hiff : ∀ {s l t}, I s → step s l t → (P t ↔ P s ∧ cond s l t))
    (hrun : Run step s ls t)
    (hstart : I s)
    (hP : P s) :
    P t ↔ Run (Guarded cond step) s ls t := by
  induction hrun with
  | nil =>
      exact ⟨fun _ => .nil _, fun _ => hP⟩
  | snoc hrun hstep ih =>
      have hbefore := hrun.invariant I hkeep hstart
      rw [hiff hbefore hstep, ih]
      constructor
      · rintro ⟨hguarded, hcond⟩
        exact .snoc hguarded ⟨hcond, hstep⟩
      · intro hguarded
        obtain ⟨u, hinit, hlast⟩ := hguarded.last
        obtain rfl := hrun.unique hdet hinit.unguarded
        exact ⟨hinit, hlast.1⟩

/-- Take the steps with the given labels, as far as they are possible. -/
def exec
    (next : State → Label → Option State) : State → List Label → Option State
  | s, [] => some s
  | s, l :: ls => (next s l).bind fun t => exec next t ls

/-- An execution is a run. -/
theorem run_of_exec
    {next : State → Label → Option State}
    {s t : State} {ls : List Label}
    (h : exec next s ls = some t) :
    Run (Steps next) s ls t := by
  induction ls generalizing s with
  | nil =>
      obtain rfl := Option.some.inj h
      exact .nil s
  | cons l ls ih =>
      obtain ⟨u, hstep, hrest⟩ := Option.bind_eq_some_iff.mp h
      exact .cons hstep (ih hrest)

/-- An execution of the steps that meet a condition is a guarded run. -/
theorem guarded_of_exec
    {next : State → Label → Option State}
    {cond : State → Label → State → Prop}
    [∀ s l t, Decidable (cond s l t)]
    {s t : State} {ls : List Label}
    (h : exec (fun s l => (next s l).filter fun t => cond s l t) s ls = some t) :
    Run (Guarded cond (Steps next)) s ls t := by
  refine (run_of_exec h).mono (fun _ => True) (fun _ _ => trivial) ?_ trivial
  intro s l t _ hstep
  obtain ⟨hnext, hcond⟩ := Option.filter_eq_some_iff.mp hstep
  exact ⟨of_decide_eq_true hcond, hnext⟩

/-- A fold over the labels is a run of the total step function. -/
theorem run_foldl
    (next : State → Label → State)
    (s : State) (ls : List Label) :
    Run (fun s l t => next s l = t) s ls (ls.foldl next s) := by
  induction ls generalizing s with
  | nil =>
      exact .nil s
  | cons l ls ih =>
      exact .cons rfl (ih (next s l))

end Runs

end TransitionSystem
end Brenlib
