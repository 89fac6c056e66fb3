import Brenlib.Bren.ConnPoolExclusion

/-!
# How many connections a `ConnPool` keeps

A connection is constructed only for a thread that finds all connections of the map in
use by other threads.  So at that moment every thread with an entry holds a handle, and
nothing but a construction makes the map larger.

* `entries`, `holders`: how many connections are stored, and how many threads hold one.
* `entries_step`: what one step does to the number of entries.
* `pool_bounded`: there are never more entries than there have been holders at once.
-/

namespace Brenlib
namespace Bren
namespace ConnPool

open NestedMap TransitionSystem

variable {s t : System} {l : Label} {stid : ThreadId} {params_i : Bytes}

/-- The number of connections that are stored for `params_i`. -/
def entries (s : System) (params_i : Bytes) : Nat :=
  (s.connmap params_i).size

/-- The threads that hold a handle that they have obtained with `get(params_i)`. -/
def holderList (s : System) (params_i : Bytes) : List ThreadId :=
  ((s.handles.filter (·.params_i = params_i)).map Handle.thread).dedup

/-- The number of these threads. -/
def holders (s : System) (params_i : Bytes) : Nat :=
  (holderList s params_i).length

section Counting

theorem mem_holderList_iff :
    stid ∈ holderList s params_i ↔ Holds stid params_i s := by
  simp only [holderList, List.mem_dedup, List.mem_map, List.mem_filter, decide_eq_true_eq,
    Holds]
  constructor
  · rintro ⟨a, ⟨ha, hparams⟩, rfl⟩
    exact ⟨a, ha, rfl, hparams⟩
  · rintro ⟨a, ha, rfl, hparams⟩
    exact ⟨a, ⟨ha, hparams⟩, rfl⟩

theorem entries_eq
    (s : System) (params_i : Bytes) :
    entries s params_i = (s.connmap params_i).keys.length :=
  Std.TreeMap.length_keys.symm

theorem entries_assign
    (s : System) (params_i p : Bytes) (cm : ConnMap) :
    entries (s.assign params_i cm) p = if params_i = p then cm.size else entries s p := by
  rw [entries, connmap_assign, entries]
  split <;> rfl

theorem mem_connmap_keys_iff :
    stid ∈ (s.connmap params_i).keys ↔ ∃ con, s.entry params_i stid = some con := by
  rw [mem_keys_iff]
  simp only [entry_eq]

/-- If every thread with an entry holds it, there are not more entries than holders. -/
theorem entries_le_holders
    (h : ∀ k con, s.entry params_i k = some con → Holds k params_i t) :
    entries s params_i ≤ holders t params_i := by
  rw [entries_eq, holders]
  refine (nodup_keys _).length_le_of_subset fun k hk => ?_
  obtain ⟨con, hentry⟩ := mem_connmap_keys_iff.mp hk
  exact mem_holderList_iff.mpr (h k con hentry)

/-- If every thread with an entry had one before, there are not more entries. -/
theorem entries_le_of_entry
    (h : ∀ k con, t.entry params_i k = some con → ∃ con', s.entry params_i k = some con') :
    entries t params_i ≤ entries s params_i := by
  rw [entries_eq, entries_eq]
  refine (nodup_keys _).length_le_of_subset fun k hk => ?_
  obtain ⟨con, hentry⟩ := mem_connmap_keys_iff.mp hk
  exact mem_connmap_keys_iff.mpr (h k con hentry)

end Counting

section Peak

/-- A connection that `get` does not take is held by the thread of its entry. -/
theorem Sound.holds_of_busy
    (h : Sound s) {k : ThreadId} {con : ConnId}
    (hentry : s.entry params_i k = some con) (hbusy : s.useCount con ≠ 1) :
    ∃ a ∈ s.handles, a.con = con ∧ a.thread = k ∧ a.params_i = params_i := by
  rw [ne_eq, h.owned.useCount_eq_one_iff hentry, System.Free] at hbusy
  obtain ⟨a, ha⟩ := Classical.not_forall.mp hbusy
  rw [Classical.not_imp, not_not] at ha
  obtain ⟨hmem, rfl⟩ := ha
  have hheld := h.owned.held a hmem
  obtain ⟨hparams, hthread⟩ := h.owned.one_entry _ _ _ _ _ hheld hentry
  exact ⟨a, hmem, rfl, hthread, hparams⟩

/-- The number of entries grows only where all of them are held. -/
theorem entries_step
    (h : Sound s) (hstep : Steps step s l t) (p : Bytes) :
    entries t p ≤ entries s p ∨ entries t p ≤ holders t p := by
  cases step_cases hstep with
  | @reused stid j params' con connect hnone hentry hidle =>
      left
      change entries (s.assign params' _) p ≤ entries s p
      rw [entries_assign]
      by_cases hp : params' = p
      · subst hp
        rw [entry_eq] at hentry
        rw [if_pos rfl]
        exact size_rekey hentry stid con
      · rw [if_neg hp]
  | @constructed stid params' connect hnone hbusy =>
      by_cases hp : params' = p
      · subst hp
        right
        refine entries_le_holders fun k con hentry => ?_
        have hmoved := h.owned.moved_of_new hnone
        rcases (hmoved.entry _ k con).mp hentry with ⟨-, rfl, -⟩ | ⟨hold, -⟩
        · exact ⟨_, List.mem_append_right _ (List.mem_singleton_self _), rfl, rfl⟩
        · obtain ⟨a, ha, -, hthread, hparams⟩ := h.holds_of_busy hold (hbusy k con hold)
          exact ⟨a, List.mem_append_left _ ha, hthread, hparams⟩
      · left
        change entries ((s.construct params').assign params' _) p ≤ entries s p
        rw [entries_assign, if_neg hp]
        rfl
  | purged params' =>
      left
      refine entries_le_of_entry fun k con hentry => ?_
      exact ⟨con, (((purge_purged h.owned params').entry p k con).mp hentry).1⟩
  | _ =>
      exact .inl (Nat.le_refl _)

/-- At some moment of the run as many threads have held a handle as there are entries
now. -/
theorem entries_le_peak
    {ls : List Label}
    (hrun : Run (Steps step) System.init ls s) (p : Bytes) :
    ∃ ls₁ ls₂ s₁, ls = ls₁ ++ ls₂ ∧ Run (Steps step) System.init ls₁ s₁ ∧
      Run (Steps step) s₁ ls₂ s ∧ entries s p ≤ holders s₁ p := by
  generalize hinit : System.init = init at hrun
  induction hrun with
  | nil =>
      subst hinit
      exact ⟨[], [], System.init, rfl, .nil _, .nil _, Nat.le_refl 0⟩
  | @snoc t u ls l hrun hstep ih =>
      obtain ⟨ls₁, ls₂, s₁, rfl, hbefore, hbehind, hpeak⟩ := ih
      subst hinit
      rcases entries_step (sound_reachable hrun) hstep p with hle | hle
      · exact ⟨ls₁, ls₂ ++ [l], s₁, List.append_assoc _ _ _, hbefore,
          hbehind.snoc hstep, hle.trans hpeak⟩
      · exact ⟨ls₁ ++ ls₂ ++ [l], [], u, (List.append_nil _).symm,
          hrun.snoc hstep, .nil u, hle⟩

/-- **No connection is kept in vain.**  The pool has never more entries for a
connection string than threads have held one of its connections at once, at some
moment of the run; and `get` tries to construct a connection only when each one that
is stored is held by another thread. -/
theorem pool_bounded
    {ls : List Label}
    (hrun : Run (Steps step) System.init ls s) (p : Bytes) :
    (∃ ls₁ ls₂ s₁, ls = ls₁ ++ ls₂ ∧ Run (Steps step) System.init ls₁ s₁ ∧
      Run (Steps step) s₁ ls₂ s ∧ entries s p ≤ holders s₁ p) ∧
      ∀ stid connect,
        (¬ ∃ con s', (get stid p connect).run s = .ok con s' ∧ s'.made = s.made) →
        ∀ k con, s.entry p k = some con →
          ∃ a ∈ s.handles, a.con = con ∧ a.params_i = p ∧ a.thread ≠ stid := by
  have hsound := sound_reachable hrun
  refine ⟨entries_le_peak hrun p, ?_⟩
  intro stid connect hconstructs k con hentry
  have hbusy :
      s.entry p stid = none ∧
        ∀ j con, s.entry p j = some con → s.useCount con ≠ 1 := by
    have hcases := get_cases stid p connect s
    generalize (get stid p connect).run s = result at hcases hconstructs
    cases hcases with
    | found => exact absurd ⟨_, _, rfl, rfl⟩ hconstructs
    | reused => exact absurd ⟨_, _, rfl, rfl⟩ hconstructs
    | constructed hnone hbusy => exact ⟨hnone, hbusy⟩
    | threw hnone hbusy => exact ⟨hnone, hbusy⟩
  obtain ⟨a, ha, hcon, hthread, hparams⟩ :=
    hsound.holds_of_busy hentry (hbusy.2 k con hentry)
  refine ⟨a, ha, hcon, hparams, ?_⟩
  rintro rfl
  rw [hthread, hentry] at hbusy
  cases hbusy.1

/-- Two threads at once, and then a third one: two entries. -/
theorem pool_bounded_example :
    ∃ s : System, ∃ labels : List Label,
      Run (Steps step) System.init labels s ∧
      entries s [0x70] = 2 ∧
      ∃ ls₁ ls₂ s₁, labels = ls₁ ++ ls₂ ∧ Run (Steps step) System.init ls₁ s₁ ∧
        Run (Steps step) s₁ ls₂ s ∧ entries s [0x70] ≤ holders s₁ [0x70] := by
  let labels : List Label :=
    [.get 1 [0x70] (.ok ()), .get 2 [0x70] (.ok ()), .release ⟨1, [0x70], 0⟩,
      .get 3 [0x70] (.ok ())]
  have hrun : Run (Steps step) System.init labels _ := run_of_exec rfl
  exact ⟨_, labels, hrun, rfl, (pool_bounded hrun [0x70]).1⟩

end Peak

end ConnPool
end Bren
end Brenlib
