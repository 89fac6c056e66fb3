import Mathlib.Tactic

/-!
# Computations that keep a part of their state

A computation with a state that may throw keeps a part of that state if the part is
the same behind it, whether it returns or throws.  What is caught keeps what it has
changed.

* `Keeps part x`: the computation `x` keeps the part of the state.
* `Keeps.bind`, `Keeps.tryCatch`: the parts of a computation keep it, and so does the
  whole.
* `keeps_modify`: a change of the rest of the state.

Two computations are alike if they differ in what they throw only (`Alike`), which is so of
the whole if it is so of the parts (`Alike.bind`, `Alike.forM`), as long as nothing is caught.
-/

namespace Brenlib
namespace Frames

variable {ε σ α β γ : Type}

/-- The state that a computation leaves. -/
def behind : EStateM.Result ε σ α → σ
  | .ok _ s => s
  | .error _ s => s

theorem run_tryCatch
    (x : EStateM ε σ α) (handler : ε → EStateM ε σ α) (s : σ) :
    (tryCatch x handler).run s =
      match x.run s with
      | .ok a s' => .ok a s'
      | .error e s' => (handler e).run s' := by
  change (EStateM.tryCatch x handler).run s = _
  simp only [EStateM.run, EStateM.tryCatch]
  cases x s <;> rfl

/-- The part of the state is the same behind the computation. -/
def Keeps (part : σ → γ) (x : EStateM ε σ α) : Prop :=
  ∀ s, part (behind (x.run s)) = part s

theorem keeps_pure
    (part : σ → γ) (a : α) :
    Keeps part (pure a : EStateM ε σ α) :=
  fun _ => rfl

theorem keeps_throw
    (part : σ → γ) (e : ε) :
    Keeps part (throw e : EStateM ε σ α) :=
  fun _ => rfl

theorem keeps_get
    (part : σ → γ) :
    Keeps part (get : EStateM ε σ σ) :=
  fun _ => rfl

/-- A change of the rest of the state. -/
theorem keeps_modify
    {part : σ → γ} {f : σ → σ}
    (hpart : ∀ s, part (f s) = part s) :
    Keeps part (modify f : EStateM ε σ PUnit) :=
  hpart

section Composition

variable {part : σ → γ} {x : EStateM ε σ α}

theorem Keeps.bind
    {g : α → EStateM ε σ β}
    (hx : Keeps part x)
    (hg : ∀ a, Keeps part (g a)) :
    Keeps part (x >>= g) := by
  intro s
  have hfirst := hx s
  rw [EStateM.run_bind]
  generalize x.run s = r at hfirst
  cases r with
  | ok a s' =>
      exact (hg a s').trans hfirst
  | error e s' =>
      exact hfirst

/-- The handler starts in the state that the throw has left. -/
theorem Keeps.tryCatch
    {handler : ε → EStateM ε σ α}
    (hx : Keeps part x)
    (hhandler : ∀ e, Keeps part (handler e)) :
    Keeps part (tryCatch x handler) := by
  intro s
  have hfirst := hx s
  rw [run_tryCatch]
  generalize x.run s = r at hfirst
  cases r with
  | ok a s' =>
      exact hfirst
  | error e s' =>
      exact (hhandler e s').trans hfirst

end Composition

section Alike

/-- What a computation returns, if it does, and the state it leaves. -/
def returned : EStateM.Result ε σ α → Option α × σ
  | .ok a s => (some a, s)
  | .error _ s => (none, s)

/-- Two computations that differ in what they throw only. -/
def Alike (x y : EStateM ε σ α) : Prop :=
  ∀ s, returned (x.run s) = returned (y.run s)

theorem alike_refl
    (x : EStateM ε σ α) :
    Alike x x :=
  fun _ => rfl

theorem alike_throw
    (e e' : ε) :
    Alike (throw e : EStateM ε σ α) (throw e') :=
  fun _ => rfl

theorem Alike.bind
    {x y : EStateM ε σ α} {f g : α → EStateM ε σ β}
    (hfirst : Alike x y)
    (hrest : ∀ a, Alike (f a) (g a)) :
    Alike (x >>= f) (y >>= g) := by
  intro s
  have hs := hfirst s
  rw [EStateM.run_bind, EStateM.run_bind]
  generalize x.run s = r, y.run s = r' at hs
  cases r with
  | ok a t =>
      cases r' with
      | ok b u =>
          obtain ⟨ha, rfl⟩ := Prod.mk.inj hs
          obtain rfl := Option.some.inj ha
          exact hrest a t
      | error e u => cases hs
  | error e t =>
      cases r' with
      | ok b u => cases hs
      | error e' u =>
          obtain ⟨-, rfl⟩ := Prod.mk.inj hs
          rfl

theorem Alike.ite
    {c : Prop} [Decidable c] {x y x' y' : EStateM ε σ α}
    (hthen : Alike x y)
    (helse : Alike x' y') :
    Alike (if c then x else x') (if c then y else y') := by
  split_ifs
  · exact hthen
  · exact helse

theorem Alike.discard
    {x y : EStateM ε σ α}
    (h : Alike x y) :
    Alike (discard x) (discard y) :=
  h.bind fun _ => alike_refl _

theorem Alike.forM
    {f g : γ → EStateM ε σ PUnit}
    (h : ∀ c, Alike (f c) (g c)) (cs : List γ) :
    Alike (forM cs f) (forM cs g) := by
  induction cs with
  | nil => exact alike_refl _
  | cons c cs ih =>
      rw [List.forM_cons, List.forM_cons]
      exact (h c).bind fun _ => ih

/-- What one of them returns the other one returns as well. -/
theorem Alike.run_eq_ok_iff
    {x y : EStateM ε σ α}
    (h : Alike x y) (s : σ) (a : α) (t : σ) :
    x.run s = .ok a t ↔ y.run s = .ok a t := by
  have hs := h s
  generalize x.run s = r, y.run s = r' at hs
  cases r <;> cases r' <;> simp_all [returned]

end Alike

end Frames
end Brenlib
