import Mathlib.Tactic

/-!
# Resources that are taken in an order

A party that holds resources waits for one that comes in front of all those it holds.  If
the order is well-founded, somebody can go on, and what is left to do has a weight.

* `exists_free`: somebody waits for a resource that nobody holds.
* `weight`: everything that a resource leads to, counted.
-/

namespace Brenlib
namespace LockOrder

universe u v

variable {Party : Type u} {Resource : Type v}

/-- Where everybody who holds something waits for something in front of it, the resource
that comes first is free. -/
theorem exists_free
    {lt : Resource → Resource → Prop}
    (hwf : WellFounded lt)
    {waits : Party → Resource → Prop} {holds : Party → Resource → Prop}
    (hchain : ∀ j r, holds j r → ∃ r', waits j r' ∧ lt r' r)
    {i : Party} {r : Resource}
    (hwaits : waits i r) :
    ∃ i r, waits i r ∧ ∀ j, ¬ holds j r := by
  induction r using hwf.induction generalizing i with
  | _ r ih =>
      by_cases hheld : ∃ j, holds j r
      · obtain ⟨j, hj⟩ := hheld
        obtain ⟨r', hwaits', hlt⟩ := hchain j r hj
        exact ih r' hlt hwaits'
      · exact ⟨i, r, hwaits, fun j hj => hheld ⟨j, hj⟩⟩

/-- A weight that is larger by `k` than those of all the resources that one leads to, each
of them counted once more. -/
noncomputable def weight
    {next : Resource → List Resource}
    (hwf : WellFounded fun d r => d ∈ next r)
    (k : Nat) : Resource → Nat :=
  hwf.fix fun r rest => k + ((next r).attach.map fun d => 1 + rest d.1 d.2).sum

theorem weight_eq
    {next : Resource → List Resource}
    (hwf : WellFounded fun d r => d ∈ next r)
    (k : Nat) (r : Resource) :
    weight hwf k r = k + ((next r).map fun d => 1 + weight hwf k d).sum := by
  rw [weight, hwf.fix_eq]
  exact congrArg (k + List.sum ·) (@List.attach_map_val _ _ (next r) fun d => 1 + weight hwf k d)

end LockOrder
end Brenlib
