import Mathlib.Algebra.BigOperators.Group.Finset.Basic
import Mathlib.Data.Fintype.BigOperators

/-!
# How many parties are in a phase

A system of finitely many parties gives each of them a phase.  `population f p` is
the number of parties in the phase `p`; one party that changes its phase changes two
populations by one.  Other sums over the parties change by the summand of one party.
-/

namespace Brenlib
namespace Population

universe u v

variable {Party : Type u} [Fintype Party]
variable {Phase : Type v} [DecidableEq Phase]

/-- The number of parties in the phase `p`. -/
def population (f : Party → Phase) (p : Phase) : Nat :=
  (Finset.univ.filter fun i => f i = p).card

theorem population_eq_sum
    (f : Party → Phase) (p : Phase) :
    population f p = ∑ i, if f i = p then 1 else 0 := by
  rw [population, Finset.card_filter]

variable [DecidableEq Party]

omit [DecidableEq Phase] in
/-- A sum over all parties when the summand of one party changes. -/
theorem sum_update
    (f : Party → Nat) (i : Party) (n : Nat) :
    ∑ j, Function.update f i n j + f i = ∑ j, f j + n := by
  have hnew := Finset.add_sum_erase Finset.univ (Function.update f i n) (Finset.mem_univ i)
  have hold := Finset.add_sum_erase Finset.univ f (Finset.mem_univ i)
  have hrest :
      ∑ j ∈ Finset.univ.erase i, Function.update f i n j =
        ∑ j ∈ Finset.univ.erase i, f j := by
    refine Finset.sum_congr rfl fun j hj => ?_
    rw [Function.update_of_ne (Finset.ne_of_mem_erase hj)]
  rw [Function.update_self] at hnew
  omega

omit [DecidableEq Phase] in
/-- A sum of weights of the phases when one party enters another phase. -/
theorem sum_weight_update
    (weight : Phase → Nat) (f : Party → Phase) (i : Party) (p : Phase) :
    ∑ j, weight (Function.update f i p j) + weight (f i) = ∑ j, weight (f j) + weight p := by
  have hupdate (j : Party) :
      weight (Function.update f i p j) =
        Function.update (fun k => weight (f k)) i (weight p) j :=
    Function.apply_update (fun _ => weight) f i p j
  simp only [hupdate]
  exact sum_update (fun j => weight (f j)) i (weight p)

/-- One party leaves its phase and enters another one. -/
theorem population_update
    (f : Party → Phase) (i : Party) (q p : Phase) :
    population (Function.update f i q) p + (if f i = p then 1 else 0) =
      population f p + (if q = p then 1 else 0) := by
  have hrest :
      ∑ j ∈ Finset.univ.erase i, (if Function.update f i q j = p then 1 else 0) =
        ∑ j ∈ Finset.univ.erase i, if f j = p then 1 else 0 := by
    refine Finset.sum_congr rfl fun j hj => ?_
    rw [Function.update_of_ne (Finset.ne_of_mem_erase hj)]
  have hnew :=
    Finset.add_sum_erase Finset.univ
      (fun j => if Function.update f i q j = p then 1 else 0) (Finset.mem_univ i)
  have hold :=
    Finset.add_sum_erase Finset.univ
      (fun j => if f j = p then 1 else 0) (Finset.mem_univ i)
  simp only [Function.update_self] at hnew
  rw [population_eq_sum, population_eq_sum, ← hnew, ← hold, hrest]
  omega

end Population
end Brenlib
