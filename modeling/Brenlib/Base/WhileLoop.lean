import Mathlib.Data.Nat.Basic
import Mathlib.Tactic.Basic

/-!
# `while` loops

One iteration of a loop is a partial function of the variables: `body s = some t` when
the loop is entered once more in `s` and arrives in `t`, and `body s = none` when it is
left in `s`.

* `Iterates body s n t`: `n` iterations lead from `s` to `t`.
* `Finishes body s n t`: the loop started in `s` is left in `t` behind `n` iterations.
* `Iterates.invariant`: what every iteration keeps.
* `Finishes.unique`: a loop is left in one way.
* `not_finishes_of_invariant`: a loop that can never be left.
* `WhileLoop`: a loop with a measure that every iteration lowers.  `run` computes where
  it is left, and `finishes_run` says that it is left there.
-/

namespace Brenlib

universe u

variable {State : Type u}

namespace Loops

variable {body : State → Option State}

/-- `n` iterations lead from one state to another. -/
inductive Iterates
    (body : State → Option State) :
    State → Nat → State → Prop
  | zero
      (s : State) :
      Iterates body s 0 s
  | succ
      {s t u : State} {n : Nat}
      (hbody : body s = some t)
      (hrest : Iterates body t n u) :
      Iterates body s (n + 1) u

/-- The loop is left behind `n` iterations. -/
def Finishes
    (body : State → Option State)
    (s : State) (n : Nat) (t : State) : Prop :=
  Iterates body s n t ∧ body t = none

/-- A property that every iteration keeps. -/
theorem Iterates.invariant
    {s t : State} {n : Nat}
    (I : State → Prop)
    (hkeep : ∀ {s t}, I s → body s = some t → I t)
    (hiter : Iterates body s n t)
    (hstart : I s) :
    I t := by
  induction hiter with
  | zero =>
      exact hstart
  | succ hbody hrest ih =>
      exact ih (hkeep hstart hbody)

theorem Iterates.trans
    {s t u : State} {n m : Nat}
    (hfirst : Iterates body s n t)
    (hsecond : Iterates body t m u) :
    Iterates body s (n + m) u := by
  induction hfirst with
  | zero =>
      rw [Nat.zero_add]
      exact hsecond
  | succ hbody hrest ih =>
      rw [Nat.add_right_comm]
      exact .succ hbody (ih hsecond)

theorem Finishes.zero
    {s : State}
    (hbody : body s = none) :
    Finishes body s 0 s :=
  ⟨.zero s, hbody⟩

theorem Finishes.succ
    {s t u : State} {n : Nat}
    (hbody : body s = some t)
    (hrest : Finishes body t n u) :
    Finishes body s (n + 1) u :=
  ⟨.succ hbody hrest.1, hrest.2⟩

/-- A loop is left in one state, behind one number of iterations. -/
theorem Finishes.unique
    {s t t' : State} {n n' : Nat}
    (h : Finishes body s n t)
    (h' : Finishes body s n' t') :
    n = n' ∧ t = t' := by
  obtain ⟨hiter, hleft⟩ := h
  obtain ⟨hiter', hleft'⟩ := h'
  induction hiter generalizing n' with
  | zero =>
      cases hiter' with
      | zero =>
          exact ⟨rfl, rfl⟩
      | succ hbody' =>
          rw [hleft] at hbody'
          cases hbody'
  | succ hbody hrest ih =>
      cases hiter' with
      | zero =>
          rw [hleft'] at hbody
          cases hbody
      | succ hbody' hrest' =>
          rw [hbody, Option.some.injEq] at hbody'
          subst hbody'
          obtain ⟨rfl, rfl⟩ := ih hleft hrest'
          exact ⟨rfl, rfl⟩

/-- A loop that is entered once more in every state it gets to is never left. -/
theorem not_finishes_of_invariant
    {s t : State} {n : Nat}
    (I : State → Prop)
    (hgo : ∀ s, I s → ∃ t, body s = some t ∧ I t)
    (hstart : I s) :
    ¬ Finishes body s n t := by
  rintro ⟨hiter, hleft⟩
  have hend : I t := by
    refine hiter.invariant I ?_ hstart
    intro s t hs hbody
    obtain ⟨t', hbody', ht'⟩ := hgo s hs
    rw [hbody, Option.some.injEq] at hbody'
    rwa [hbody']
  obtain ⟨u, hbody, -⟩ := hgo t hend
  rw [hleft] at hbody
  cases hbody

end Loops

open Loops

/-- A loop with a measure that every iteration lowers. -/
structure WhileLoop (State : Type u) where
  body : State → Option State
  measure : State → Nat
  lowers : ∀ {s t}, body s = some t → measure t < measure s

namespace WhileLoop

variable (loop : WhileLoop State) {s t : State}

/-- The state in which the loop is left. -/
def run (s : State) : State :=
  match _ : loop.body s with
  | none => s
  | some t => run t
termination_by loop.measure s
decreasing_by exact loop.lowers ‹_›

theorem run_left
    (h : loop.body s = none) :
    loop.run s = s := by
  rw [run]
  split <;> simp_all

theorem run_next
    (h : loop.body s = some t) :
    loop.run s = loop.run t := by
  rw [run]
  split <;> simp_all

/-- The loop terminates, behind no more iterations than the measure says. -/
theorem finishes_run
    (s : State) :
    ∃ n, n ≤ loop.measure s ∧ Finishes loop.body s n (loop.run s) := by
  induction hm : loop.measure s using Nat.strong_induction_on generalizing s with
  | _ m ih =>
      cases hbody : loop.body s with
      | none =>
          rw [run_left loop hbody]
          exact ⟨0, Nat.zero_le m, .zero hbody⟩
      | some t =>
          have hlower : loop.measure t < m := hm ▸ loop.lowers hbody
          obtain ⟨n, hn, hfinishes⟩ := ih _ hlower t rfl
          rw [run_next loop hbody]
          exact ⟨n + 1, by omega, .succ hbody hfinishes⟩

/-- Two states in which the next iteration is the same. -/
theorem run_congr
    (h : loop.body s = loop.body t)
    (hgoes : loop.body s ≠ none) :
    loop.run s = loop.run t := by
  cases hbody : loop.body s with
  | none =>
      exact absurd hbody hgoes
  | some u =>
      rw [run_next loop hbody, run_next loop (h.symm.trans hbody)]

end WhileLoop

end Brenlib
