import Mathlib.Data.List.Nodup

/-!
# Registries

A registry is the list of its members in the order in which they have registered,
without repetition.  Registering a member again and removing somebody else change
nothing.
-/

namespace Brenlib

universe u

/-- The members in the order of their registration. -/
structure Registry (Member : Type u) where
  members : List Member
  nodup : members.Nodup

namespace Registry

variable {Member : Type u}

/-- Nobody has registered. -/
def empty : Registry Member :=
  ⟨[], List.nodup_nil⟩

variable [DecidableEq Member]

/-- Registration at the end, unless the member is there already. -/
def add (r : Registry Member) (m : Member) : Registry Member :=
  if h : m ∈ r.members then r
  else
    ⟨r.members ++ [m], by
      rw [← List.concat_eq_append]
      exact List.Nodup.concat h r.nodup⟩

/-- The member, if it is there, leaves. -/
def remove (r : Registry Member) (m : Member) : Registry Member :=
  ⟨r.members.erase m, r.nodup.erase m⟩

theorem members_add_of_mem
    {r : Registry Member} {m : Member}
    (h : m ∈ r.members) :
    (r.add m).members = r.members := by
  rw [add, dif_pos h]

theorem members_add_of_not_mem
    {r : Registry Member} {m : Member}
    (h : m ∉ r.members) :
    (r.add m).members = r.members ++ [m] := by
  rw [add, dif_neg h]

@[simp] theorem members_remove
    (r : Registry Member) (m : Member) :
    (r.remove m).members = r.members.erase m := rfl

/-- A member that has left is not there. -/
theorem not_mem_remove
    (r : Registry Member) (m : Member) :
    m ∉ (r.remove m).members :=
  r.nodup.not_mem_erase

end Registry
end Brenlib
