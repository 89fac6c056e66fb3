import Mathlib.Data.List.Nodup
import Std.Data.TreeMap

/-!
# Ordered maps of ordered maps

A map whose values are maps: a value has an outer and an inner key.

* `lookup`: the value of two keys.
* `values`: all values.
* `nodup_values`: no value is there twice if it has one pair of keys only.
* `eraseAll`: several keys are erased.
-/

namespace Brenlib
namespace NestedMap

open Std

universe u v w

variable {α : Type u} {β : Type v} {γ : Type w}
variable [Ord α] [Ord β]

/-- The keys in a list are erased. -/
def eraseAll (m : TreeMap α γ) (ks : List α) : TreeMap α γ :=
  ks.foldl (fun m k => m.erase k) m

/-- The value of an outer and an inner key. -/
def lookup (m : TreeMap α (TreeMap β γ)) (a : α) (b : β) : Option γ :=
  m[a]?.bind fun inner => inner[b]?

/-- The values of all pairs of keys. -/
def values (m : TreeMap α (TreeMap β γ)) : List γ :=
  m.toList.flatMap fun outer => outer.2.toList.map Prod.snd

theorem lookup_eq_some_iff
    {m : TreeMap α (TreeMap β γ)} {a : α} {b : β} {v : γ} :
    lookup m a b = some v ↔ ∃ inner, m[a]? = some inner ∧ inner[b]? = some v := by
  rw [lookup, Option.bind_eq_some_iff]

variable [TransOrd α]

section Keys

theorem nodup_toList
    (m : TreeMap α γ) :
    m.toList.Nodup := by
  refine m.distinct_keys_toList.imp ?_
  rintro a b hne rfl
  exact hne ReflCmp.compare_self

theorem nodup_keys
    (m : TreeMap α γ) :
    m.keys.Nodup := by
  refine m.distinct_keys.imp ?_
  rintro a b hne rfl
  exact hne ReflCmp.compare_self

/-- A map is empty exactly if no key has a value. -/
theorem isEmpty_iff
    (m : TreeMap α γ) :
    m.isEmpty = true ↔ ∀ a : α, m[a]? = none := by
  rw [TreeMap.isEmpty_iff_forall_not_mem]
  refine forall_congr' fun a => ?_
  rw [TreeMap.mem_iff_isSome_getElem?, Bool.not_eq_true, Option.isSome_eq_false_iff,
    Option.isNone_iff_eq_none]

variable [LawfulEqOrd α]

theorem mem_keys_iff
    {m : TreeMap α γ} {k : α} :
    k ∈ m.keys ↔ ∃ v, m[k]? = some v := by
  rw [TreeMap.mem_keys, TreeMap.mem_iff_isSome_getElem?, Option.isSome_iff_exists]

/-- A value gets another key. -/
theorem size_rekey
    {m : TreeMap α γ} {k : α} {v : γ} (h : m[k]? = some v) (a : α) (w : γ) :
    ((m.erase k).insert a w).size ≤ m.size := by
  have hmem : k ∈ m := TreeMap.mem_keys.mp (mem_keys_iff.mpr ⟨v, h⟩)
  have hpos : m.keys.length ≠ 0 := by
    rw [ne_eq, List.length_eq_zero_iff]
    exact List.ne_nil_of_mem (TreeMap.mem_keys.mpr hmem)
  have herase : (m.erase k).size = m.size - 1 := by
    rw [TreeMap.size_erase, if_pos (TreeMap.mem_iff_contains.mp hmem)]
  have hinsert := TreeMap.size_insert_le (t := m.erase k) (k := a) (v := w)
  rw [TreeMap.length_keys] at hpos
  omega

variable [DecidableEq α]

theorem getElem?_insert
    (m : TreeMap α γ) (k a : α) (v : γ) :
    (m.insert k v)[a]? = if k = a then some v else m[a]? := by
  rw [TreeMap.getElem?_insert]
  simp only [Std.compare_eq_iff_eq]

theorem getElem?_erase
    (m : TreeMap α γ) (k a : α) :
    (m.erase k)[a]? = if k = a then none else m[a]? := by
  rw [TreeMap.getElem?_erase]
  simp only [Std.compare_eq_iff_eq]

theorem getElem?_eraseAll
    (m : TreeMap α γ) (ks : List α) (a : α) :
    (eraseAll m ks)[a]? = if a ∈ ks then none else m[a]? := by
  induction ks generalizing m with
  | nil =>
      simp [eraseAll]
  | cons k ks ih =>
      rw [eraseAll, List.foldl_cons, ← eraseAll, ih, getElem?_erase]
      by_cases hmem : a ∈ ks
      · simp [hmem]
      · by_cases hk : k = a
        · simp [hk]
        · simp [hmem, hk, Ne.symm hk]

end Keys

section Values

variable [LawfulEqOrd α] [TransOrd β] [LawfulEqOrd β]

theorem mem_values_iff
    {m : TreeMap α (TreeMap β γ)} {v : γ} :
    v ∈ values m ↔ ∃ a b, lookup m a b = some v := by
  simp only [values, List.mem_flatMap, List.mem_map, Prod.exists, lookup_eq_some_iff]
  constructor
  · rintro ⟨a, inner, hinner, b, v, hv, rfl⟩
    exact ⟨a, b, inner, TreeMap.mem_toList_iff_getElem?_eq_some.mp hinner,
      TreeMap.mem_toList_iff_getElem?_eq_some.mp hv⟩
  · rintro ⟨a, b, inner, hinner, hv⟩
    exact ⟨a, inner, TreeMap.mem_toList_iff_getElem?_eq_some.mpr hinner, b, v,
      TreeMap.mem_toList_iff_getElem?_eq_some.mpr hv, rfl⟩

/-- No value is there twice if every value has one pair of keys only. -/
theorem nodup_values
    {m : TreeMap α (TreeMap β γ)}
    (h : ∀ (a a' : α) (b b' : β) (v : γ),
      lookup m a b = some v → lookup m a' b' = some v → a = a' ∧ b = b') :
    (values m).Nodup := by
  have hlookup {a : α} {b : β} {inner : TreeMap β γ compare} {v : γ}
      (hinner : (a, inner) ∈ m.toList) (hv : (b, v) ∈ inner.toList) :
      lookup m a b = some v :=
    lookup_eq_some_iff.mpr ⟨inner, TreeMap.mem_toList_iff_getElem?_eq_some.mp hinner,
      TreeMap.mem_toList_iff_getElem?_eq_some.mp hv⟩
  rw [values, List.nodup_flatMap]
  constructor
  · rintro ⟨a, inner⟩ hinner
    refine (nodup_toList inner).map_on ?_
    rintro ⟨b, v⟩ hv ⟨b', v'⟩ hv' rfl
    obtain ⟨-, rfl⟩ := h a a b b' _ (hlookup hinner hv) (hlookup hinner hv')
    rfl
  · refine m.distinct_keys_toList.imp_of_mem ?_
    rintro ⟨a, inner⟩ ⟨a', inner'⟩ hinner hinner' hne v hmem hmem'
    obtain ⟨⟨b, w⟩, hv, rfl⟩ := List.mem_map.mp hmem
    obtain ⟨⟨b', w'⟩, hv', heq⟩ := List.mem_map.mp hmem'
    cases heq
    obtain ⟨rfl, -⟩ := h a a' b b' _ (hlookup hinner hv) (hlookup hinner' hv')
    exact hne ReflCmp.compare_self

end Values

end NestedMap
end Brenlib
