import Mathlib.Data.Finset.Card
import Mathlib.Data.List.Nodup
import Mathlib.Tactic

/-!
# Making the entries of a list distinct

The list is visited in pairs of positions `c < d`, row by row.  Where both entries are
the same, the later one is replaced by an entry that is nowhere in the list.  This makes
a pair distinct and keeps all other pairs distinct that were.

* `DistinctTo l c d`: the pairs before `(c, d)` are distinct.
* `DistinctTo.skip`, `DistinctTo.replace`, `DistinctTo.next`: what a visit of one pair
  and the end of a row do to it; `DistinctTo.nodup`: behind the last row.
* `exists_fresh`: among enough candidates one is not in the list.
* `Conserves candidate l₀ l`: entries of `l₀` have been replaced by candidates for
  themselves only, and only where the same entry stands further to the front; every
  replacement is in one place.  `Conserves.replace` is the step, `Conserves.kept` and
  `Conserves.replaced` say what is left of the list when it has become distinct.
-/

namespace Brenlib
namespace DistinctNames

universe u

variable {α : Type u}

/-- The entries at all pairs of positions visited before `(c, d)` are distinct. -/
def DistinctTo (l : List α) (c d : Nat) : Prop :=
  ∀ i j x, i < j → (i < c ∨ (i = c ∧ j < d)) → l[i]? = some x → l[j]? ≠ some x

theorem distinctTo_zero
    (l : List α) :
    DistinctTo l 0 1 := by
  intro i j x hij hbefore
  omega

section Visit

variable {l : List α} {c d : Nat}

/-- A pair that is distinct is left alone. -/
theorem DistinctTo.skip
    (h : DistinctTo l c d)
    (hne : l[c]? ≠ l[d]?) :
    DistinctTo l c (d + 1) := by
  intro i j x hij hbefore hi hj
  by_cases hlast : i = c ∧ j = d
  · obtain ⟨rfl, rfl⟩ := hlast
    exact hne (hi.trans hj.symm)
  · exact h i j x hij (by omega) hi hj

/-- An entry that is replaced by a fresh one is distinct from all others. -/
theorem DistinctTo.replace
    {y : α}
    (h : DistinctTo l c d)
    (hfresh : y ∉ l) :
    DistinctTo (l.set d y) c (d + 1) := by
  intro i j x hij hbefore hi hj
  have hother {k : Nat} {z : α} (hk : l[k]? = some z) : z ≠ y := by
    rintro rfl
    exact hfresh (List.mem_of_getElem? hk)
  have hset {k : Nat} (hk : d ≠ k) : (l.set d y)[k]? = l[k]? :=
    List.getElem?_set_ne hk
  have hself {z : α} (hk : (l.set d y)[d]? = some z) : z = y := by
    rw [List.getElem?_set_self'] at hk
    obtain ⟨-, -, rfl⟩ := Option.map_eq_some_iff.mp hk
    rfl
  by_cases hid : i = d
  · subst hid
    rw [hset (Nat.ne_of_lt hij)] at hj
    exact hother hj (hself hi)
  · rw [hset (Ne.symm hid)] at hi
    by_cases hjd : j = d
    · subst hjd
      exact hother hi (hself hj)
    · rw [hset (Ne.symm hjd)] at hj
      exact h i j x hij (by omega) hi hj

/-- Behind the end of a row the next one begins. -/
theorem DistinctTo.next
    (h : DistinctTo l c d)
    (hend : l.length ≤ d) :
    DistinctTo l (c + 1) (c + 2) := by
  intro i j x hij hbefore hi hj
  have hlt : j < l.length := (List.getElem?_eq_some_iff.mp hj).1
  exact h i j x hij (by omega) hi hj

theorem DistinctTo.nodup
    (h : DistinctTo l c d)
    (hend : l.length ≤ c) :
    l.Nodup := by
  rw [List.nodup_iff_getElem?_ne_getElem?]
  intro i j hij hj heq
  have hi : i < l.length := by omega
  have hvalue : l[i]? = some l[i] := List.getElem?_eq_getElem hi
  exact h i j l[i] hij (.inl (by omega)) hvalue (heq.symm.trans hvalue)

end Visit

/-- Among as many candidates as there are entries, all different from one of the
entries, one is not in the list. -/
theorem exists_fresh
    {candidate : Nat → α} {l : List α} {x : α} {n : Nat}
    (hinj : Function.Injective candidate)
    (hx : x ∈ l)
    (hne : ∀ a, candidate a ≠ x)
    (hlen : l.length ≤ n) :
    ∃ a < n, candidate a ∉ l := by
  classical
  by_contra hnone
  have hall : ∀ a < n, candidate a ∈ l := by
    intro a ha
    by_contra hmem
    exact hnone ⟨a, ha, hmem⟩
  have hsub : (Finset.range n).image candidate ⊆ l.toFinset.erase x := by
    intro y hy
    obtain ⟨a, ha, rfl⟩ := Finset.mem_image.mp hy
    exact Finset.mem_erase.mpr
      ⟨hne a, List.mem_toFinset.mpr (hall a (Finset.mem_range.mp ha))⟩
  have hcard := Finset.card_le_card hsub
  rw [Finset.card_image_of_injective _ hinj, Finset.card_range,
    Finset.card_erase_of_mem (List.mem_toFinset.mpr hx)] at hcard
  have hle := List.toFinset_card_le l
  have hpos : 0 < l.toFinset.card := Finset.card_pos.mpr ⟨x, List.mem_toFinset.mpr hx⟩
  omega

section Conserves

variable {candidate : α → Nat → α} {l₀ l : List α}

/-- An entry that has been replaced stands also further to the front of `l₀`, and its
replacement is a candidate for it that is nowhere else. -/
structure Conserves (candidate : α → Nat → α) (l₀ l : List α) : Prop where
  length_eq : l.length = l₀.length
  changed : ∀ (j : Nat) (x y : α), l₀[j]? = some x → l[j]? = some y → y ≠ x →
    (∃ i < j, l₀[i]? = some x) ∧ (∃ a, y = candidate x a) ∧ ∀ k : Nat, k ≠ j → l[k]? ≠ some y

theorem Conserves.refl
    (candidate : α → Nat → α) (l : List α) :
    Conserves candidate l l where
  length_eq := rfl
  changed := by
    intro j x y hx hy hne
    exact absurd (Option.some.inj (hy.symm.trans hx)) hne

/-- An entry that stands in two places has not been replaced. -/
theorem Conserves.original
    (h : Conserves candidate l₀ l)
    {c d : Nat} {y : α}
    (hcd : c ≠ d)
    (hc : l[c]? = some y)
    (hd : l[d]? = some y) :
    l₀[d]? = some y := by
  have hlt : d < l₀.length := by
    rw [← h.length_eq]
    exact (List.getElem?_eq_some_iff.mp hd).1
  by_contra hne
  have hx : l₀[d]? = some l₀[d] := List.getElem?_eq_getElem hlt
  have hchanged : y ≠ l₀[d] := by
    rintro rfl
    exact hne hx
  exact (h.changed d _ y hx hd hchanged).2.2 c hcd hc

/-- The later of two equal entries is replaced by a candidate that is nowhere yet. -/
theorem Conserves.replace
    (h : Conserves candidate l₀ l)
    {c d a : Nat} {x : α}
    (hcd : c < d)
    (hc : l[c]? = some x)
    (hd : l[d]? = some x)
    (hfresh : candidate x a ∉ l) :
    Conserves candidate l₀ (l.set d (candidate x a)) where
  length_eq := List.length_set.trans h.length_eq
  changed := by
    intro j x' y hx' hy hne
    have hlt : d < l.length := (List.getElem?_eq_some_iff.mp hd).1
    by_cases hjd : j = d
    · subst hjd
      rw [List.getElem?_set_self hlt, Option.some.injEq] at hy
      have hx : l₀[j]? = some x := h.original (Nat.ne_of_lt hcd) hc hd
      obtain rfl : x' = x := Option.some.inj (hx'.symm.trans hx)
      refine ⟨⟨c, hcd, h.original (Nat.ne_of_gt hcd) hd hc⟩, ⟨a, hy.symm⟩, ?_⟩
      intro k hk hmem
      rw [List.getElem?_set_ne (Ne.symm hk), ← hy] at hmem
      exact hfresh (List.mem_of_getElem? hmem)
    · rw [List.getElem?_set_ne (Ne.symm hjd)] at hy
      obtain ⟨hbefore, hcandidate, honce⟩ := h.changed j x' y hx' hy hne
      refine ⟨hbefore, hcandidate, ?_⟩
      intro k hk hmem
      by_cases hkd : k = d
      · subst hkd
        rw [List.getElem?_set_self hlt, Option.some.injEq] at hmem
        exact hfresh (hmem ▸ List.mem_of_getElem? hy)
      · rw [List.getElem?_set_ne (Ne.symm hkd)] at hmem
        exact honce k hk hmem

/-- The first of equal entries is kept. -/
theorem Conserves.kept
    (h : Conserves candidate l₀ l)
    {j : Nat} {x : α}
    (hx : l₀[j]? = some x)
    (hfirst : ∀ i < j, l₀[i]? ≠ some x) :
    l[j]? = some x := by
  have hlt : j < l.length := by
    rw [h.length_eq]
    exact (List.getElem?_eq_some_iff.mp hx).1
  have hy : l[j]? = some l[j] := List.getElem?_eq_getElem hlt
  by_cases hsame : l[j] = x
  · rw [hy, hsame]
  · obtain ⟨⟨i, hi, hbefore⟩, -, -⟩ := h.changed j x _ hx hy hsame
    exact absurd hbefore (hfirst i hi)

/-- In a list that has become distinct, all later ones are replaced. -/
theorem Conserves.replaced
    (h : Conserves candidate l₀ l)
    (hnodup : l.Nodup)
    {i j : Nat} {x : α}
    (hij : i < j)
    (hi : l₀[i]? = some x)
    (hj : l₀[j]? = some x) :
    ∃ a, l[j]? = some (candidate x a) := by
  classical
  -- the first of the equal entries is still there
  have hexists : ∃ i, l₀[i]? = some x := ⟨i, hi⟩
  have hfirst := h.kept (Nat.find_spec hexists) fun k hk => Nat.find_min hexists hk
  have hlt : j < l.length := by
    rw [h.length_eq]
    exact (List.getElem?_eq_some_iff.mp hj).1
  have hne : Nat.find hexists < j := Nat.lt_of_le_of_lt (Nat.find_min' hexists hi) hij
  have hy : l[j]? = some l[j] := List.getElem?_eq_getElem hlt
  have hchanged : l[j] ≠ x := by
    intro hsame
    rw [List.nodup_iff_getElem?_ne_getElem?] at hnodup
    exact hnodup _ _ hne hlt (hfirst.trans (hsame ▸ hy.symm))
  obtain ⟨-, ⟨a, ha⟩, -⟩ := h.changed j x _ hj hy hchanged
  exact ⟨a, by rw [hy, ha]⟩

end Conserves

end DistinctNames
end Brenlib
