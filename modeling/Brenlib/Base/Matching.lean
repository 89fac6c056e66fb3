import Mathlib.Tactic

/-!
# Matching the start of a text

A matcher returns every way to split a text into a part that matches and the text behind
it, as a backtracking matcher of regular expressions finds them one after the other.

* `cls`, `opt`, `seq`: a character class, an optional part, and one part behind another.
* `Means m L`: the parts that `m` matches are those of `L` (`means_cls`, `Means.opt`,
  `Means.seq`).
-/

namespace Brenlib
namespace Matching

universe u

variable {α : Type u}

abbrev Matcher (α : Type u) :=
  List α → List (List α × List α)

/-- One character of a class. -/
def cls (p : α → Prop) [DecidablePred p] : Matcher α
  | [] => []
  | a :: rest => if p a then [([a], rest)] else []

/-- A part that may be missing. -/
def opt (m : Matcher α) : Matcher α :=
  fun s => m s ++ [([], s)]

/-- Two parts, one behind the other. -/
def seq (m n : Matcher α) : Matcher α :=
  fun s => (m s).flatMap fun (first, behind) =>
    (n behind).map fun (second, rest) => (first ++ second, rest)

/-- The language of a matcher. -/
structure Means (m : Matcher α) (L : List α → Prop) : Prop where
  mem_iff : ∀ {s part rest}, (part, rest) ∈ m s ↔ s = part ++ rest ∧ L part

theorem means_cls
    (p : α → Prop) [DecidablePred p] :
    Means (cls p) fun part => ∃ a, part = [a] ∧ p a := by
  refine ⟨fun {s part rest} => ⟨?_, ?_⟩⟩
  · intro h
    cases s with
    | nil =>
        cases h
    | cons a s =>
        rw [cls] at h
        split_ifs at h with ha
        · obtain ⟨rfl, rfl⟩ := Prod.mk.inj (List.mem_singleton.mp h)
          exact ⟨rfl, a, rfl, ha⟩
        · cases h
  · rintro ⟨rfl, a, rfl, ha⟩
    rw [List.singleton_append, cls, if_pos ha]
    exact List.mem_singleton_self _

variable {m n : Matcher α} {L K : List α → Prop}

theorem Means.opt
    (h : Means m L) :
    Means (opt m) fun part => L part ∨ part = [] := by
  refine ⟨fun {s part rest} => ?_⟩
  rw [Matching.opt, List.mem_append, h.mem_iff, List.mem_singleton, Prod.mk.injEq]
  constructor
  · rintro (⟨rfl, hpart⟩ | ⟨rfl, rfl⟩)
    · exact ⟨rfl, .inl hpart⟩
    · exact ⟨rfl, .inr rfl⟩
  · rintro ⟨rfl, hpart | rfl⟩
    · exact .inl ⟨rfl, hpart⟩
    · exact .inr ⟨rfl, rfl⟩

theorem Means.seq
    (hm : Means m L)
    (hn : Means n K) :
    Means (seq m n) fun part => ∃ first second, part = first ++ second ∧ L first ∧ K second := by
  refine ⟨fun {s part rest} => ?_⟩
  rw [Matching.seq, List.mem_flatMap]
  constructor
  · rintro ⟨⟨first, behind⟩, hfirst, h⟩
    obtain ⟨⟨second, rest⟩, hsecond, heq⟩ := List.mem_map.mp h
    obtain ⟨rfl, rfl⟩ := Prod.mk.inj heq
    obtain ⟨rfl, hL⟩ := hm.mem_iff.mp hfirst
    obtain ⟨rfl, hK⟩ := hn.mem_iff.mp hsecond
    exact ⟨(List.append_assoc _ _ _).symm, first, second, rfl, hL, hK⟩
  · rintro ⟨rfl, first, second, rfl, hL, hK⟩
    refine ⟨(first, second ++ rest), hm.mem_iff.mpr ⟨List.append_assoc _ _ _, hL⟩, ?_⟩
    exact List.mem_map.mpr ⟨(second, rest), hn.mem_iff.mpr ⟨rfl, hK⟩, rfl⟩

end Matching
end Brenlib
