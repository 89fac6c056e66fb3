import Mathlib.Data.List.Chain
import Mathlib.Logic.Relation

/-!
# What a `StateMachine` is for

A state machine holds a labelled directed multigraph whose arcs carry what is to
be done on them, and a current state in it.  Two things may happen: the graph
grows, and the current state moves along an arc.  The final state has no arcs.

* `Steps.arc`: arcs stay as they are.
* `Steps.absorbed`: the final state is not left.
-/

namespace Brenlib
namespace Bren

universe u v w

/-- A graph with a current state; `arc s e` is the arc from `s` with label `e`. -/
structure StateGraph (S : Type u) (E : Type v) (A : Type w) where
  target : A → S
  arc : S → E → Option A
  state : S
  final : S

namespace StateGraph

variable {S : Type u} {E : Type v} {A : Type w}
variable {g g' : StateGraph S E A}

/-- One step of a graph. -/
inductive Step : StateGraph S E A → StateGraph S E A → Prop
  | extend
      {g : StateGraph S E A}
      (arc' : S → E → Option A)
      (hkeep : ∀ s e a, g.arc s e = some a → arc' s e = some a)
      (hfinal : ∀ e, arc' g.final e = g.arc g.final e) :
      Step g { g with arc := arc' }
  | move
      {g : StateGraph S E A}
      (e : E) (a : A)
      (harc : g.arc g.state e = some a) :
      Step g { g with state := g.target a }

/-- Any number of steps. -/
abbrev Steps : StateGraph S E A → StateGraph S E A → Prop :=
  Relation.ReflTransGen Step

/-- No arc leaves the final state. -/
def Sealed (g : StateGraph S E A) : Prop :=
  ∀ e, g.arc g.final e = none

/-- Each state is the one before it or is reached from it over an arc. -/
def Path (g : StateGraph S E A) (states : List S) : Prop :=
  states.IsChain fun s t => s = t ∨ ∃ e a, g.arc s e = some a ∧ g.target a = t

theorem Step.arc
    (hstep : Step g g')
    {s : S} {e : E} {a : A}
    (harc : g.arc s e = some a) :
    g'.arc s e = some a := by
  cases hstep with
  | extend arc' hkeep hfinal =>
      exact hkeep s e a harc
  | move e' a' h =>
      exact harc

theorem Step.target
    (hstep : Step g g') :
    g'.target = g.target := by
  cases hstep <;> rfl

theorem Step.final
    (hstep : Step g g') :
    g'.final = g.final := by
  cases hstep <;> rfl

theorem Step.closed
    (hstep : Step g g')
    (hsealed : g.Sealed) :
    g'.Sealed := by
  cases hstep with
  | extend arc' hkeep hfinal =>
      intro e
      exact (hfinal e).trans (hsealed e)
  | move e a harc =>
      exact hsealed

/-- A sealed graph in its final state has no arc to move along. -/
theorem Step.absorbed
    (hstep : Step g g')
    (hsealed : g.Sealed)
    (hfinal : g.state = g.final) :
    g'.state = g.state := by
  cases hstep with
  | extend =>
      rfl
  | move e a harc =>
      rw [hfinal, hsealed e] at harc
      cases harc

/-- The state before and behind a step. -/
theorem Step.state
    (hstep : Step g g') :
    g'.state = g.state ∨ ∃ e a, g.arc g.state e = some a ∧ g.target a = g'.state := by
  cases hstep with
  | extend =>
      exact .inl rfl
  | move e a harc =>
      exact .inr ⟨e, a, harc, rfl⟩

theorem Steps.arc
    (hsteps : Steps g g')
    {s : S} {e : E} {a : A}
    (harc : g.arc s e = some a) :
    g'.arc s e = some a := by
  induction hsteps with
  | refl =>
      exact harc
  | tail _ hstep ih =>
      exact hstep.arc ih

theorem Steps.target
    (hsteps : Steps g g') :
    g'.target = g.target := by
  induction hsteps with
  | refl =>
      rfl
  | tail _ hstep ih =>
      exact hstep.target.trans ih

theorem Steps.final
    (hsteps : Steps g g') :
    g'.final = g.final := by
  induction hsteps with
  | refl =>
      rfl
  | tail _ hstep ih =>
      exact hstep.final.trans ih

theorem Steps.closed
    (hsteps : Steps g g')
    (hsealed : g.Sealed) :
    g'.Sealed := by
  induction hsteps with
  | refl =>
      exact hsealed
  | tail _ hstep ih =>
      exact hstep.closed ih

theorem Steps.absorbed
    (hsteps : Steps g g')
    (hsealed : g.Sealed)
    (hfinal : g.state = g.final) :
    g'.state = g.state := by
  induction hsteps with
  | refl =>
      rfl
  | @tail b c hbefore hstep ih =>
      have hsteps : Steps g b := hbefore
      have hb : b.state = b.final := by
        rw [ih, hsteps.final, hfinal]
      rw [hstep.absorbed (hsteps.closed hsealed) hb, ih]

/-- A step of the state is part of a path in every later graph. -/
theorem Path.cons
    {g₀ g₁ : StateGraph S E A} {states : List S}
    (hfirst : Step g₀ g₁ ∨ g₀ = g₁)
    (hlater : Steps g₁ g)
    (hhead : states.head? = some g₁.state)
    (hpath : g.Path states) :
    g.Path (g₀.state :: states) := by
  refine List.isChain_cons.mpr ⟨?_, hpath⟩
  intro t ht
  obtain rfl : g₁.state = t := Option.some.inj (hhead.symm.trans ht)
  rcases hfirst with hstep | rfl
  · rcases hstep.state with hstay | ⟨e, a, harc, htarget⟩
    · exact .inl hstay.symm
    · right
      refine ⟨e, a, hlater.arc (hstep.arc harc), ?_⟩
      rw [hlater.target, hstep.target, htarget]
  · exact .inl rfl

end StateGraph

end Bren
end Brenlib
