import Brenlib.Bren.ConnPool

/-!
# Who holds the connections of a `ConnPool`

A connection has one entry in the pool, in the map of the connection string that it has
been constructed for.  A thread that holds a handle has its entry under its own number.
So the use count of a connection is one exactly if nobody holds a handle, and neither
`get` nor `purge` touches an entry that is held.

* `Owned`: the entries and the handles agree.
* `useCount_eq_one_iff`: what the use count says.
* `Moved`, `Purged`: what `get` and `purge` do to the entries.
-/

namespace Brenlib
namespace Bren
namespace ConnPool

open NestedMap TransitionSystem

variable {s t u : System} {stid k : ThreadId} {params_i p : Bytes} {con c : ConnId}

/-- Nobody holds a handle of the connection. -/
def System.Free (s : System) (con : ConnId) : Prop :=
  ∀ h ∈ s.handles, h.con ≠ con

/-- A handle is of the connection under its thread, a connection has one entry, and
that is in the map of its connection string. -/
structure Owned (s : System) : Prop where
  held : ∀ h ∈ s.handles, s.entry h.params_i h.thread = some h.con
  one_entry : ∀ p p' k k' con, s.entry p k = some con → s.entry p' k' = some con →
    p = p' ∧ k = k'
  origin : ∀ p k con, s.entry p k = some con → s.made[con]? = some p

/-- No map in the pool is empty. -/
def NoEmpty (s : System) : Prop :=
  ∀ (p : Bytes) (cm : ConnMap), s.pool_a[p]? = some cm → cm.isEmpty = false

section UseCount

/-- The use count of a connection in the pool is one exactly if nobody holds it. -/
theorem Owned.useCount_eq_one_iff
    (h : Owned s) (hentry : s.entry p k = some con) :
    s.useCount con = 1 ↔ s.Free con := by
  have hone : (values s.pool_a).count con = 1 := by
    refine List.count_eq_one_of_mem (nodup_values ?_) (mem_values_iff.mpr ⟨p, k, hentry⟩)
    intro p p' k k' con hp hp'
    exact h.one_entry p p' k k' con hp hp'
  rw [System.useCount, hone, System.Free]
  simp [List.count_eq_zero]

theorem Owned.not_free_of_held
    {h : Handle} (hmem : h ∈ s.handles) :
    ¬ s.Free h.con :=
  fun hfree => hfree h hmem rfl

/-- Two threads that hold the same connection are the same. -/
theorem Owned.thread_eq
    (h : Owned s) {a b : Handle} (ha : a ∈ s.handles) (hb : b ∈ s.handles)
    (hcon : a.con = b.con) :
    a.thread = b.thread := by
  have hentry := h.held b hb
  rw [← hcon] at hentry
  exact (h.one_entry _ _ _ _ _ (h.held a ha) hentry).2

end UseCount

section Moves

/-- The connection gets its entry under the thread `stid`, and had no handle. -/
structure Moved (stid : ThreadId) (params_i : Bytes) (con : ConnId) (s t : System) :
    Prop where
  handles : t.handles = s.handles
  free : s.Free con
  vacant : s.entry params_i stid = none
  entry : ∀ p k c, t.entry p k = some c ↔
    (p = params_i ∧ k = stid ∧ c = con) ∨ (s.entry p k = some c ∧ c ≠ con)
  origin : t.made[con]? = some params_i
  made : ∀ (c : ConnId) p, s.made[c]? = some p → t.made[c]? = some p

theorem Owned.moved
    (h : Owned s) (hmoved : Moved stid params_i con s t) :
    Owned t where
  held a ha := by
    rw [hmoved.handles] at ha
    rw [hmoved.entry]
    exact .inr ⟨h.held a ha, hmoved.free a ha⟩
  one_entry p p' k k' c hp hp' := by
    rcases (hmoved.entry p k c).mp hp with ⟨rfl, rfl, rfl⟩ | ⟨hold, hne⟩
    · rcases (hmoved.entry p' k' c).mp hp' with ⟨rfl, rfl, -⟩ | ⟨-, hne⟩
      · exact ⟨rfl, rfl⟩
      · exact absurd rfl hne
    · rcases (hmoved.entry p' k' c).mp hp' with ⟨-, -, rfl⟩ | ⟨hold', -⟩
      · exact absurd rfl hne
      · exact h.one_entry p p' k k' c hold hold'
  origin p k c hp := by
    rcases (hmoved.entry p k c).mp hp with ⟨rfl, -, rfl⟩ | ⟨hold, -⟩
    · exact hmoved.origin
    · exact hmoved.made c p (h.origin p k c hold)

theorem Owned.receive
    (h : Owned s) (hentry : s.entry params_i stid = some con) :
    Owned (s.receive stid params_i con) where
  held a ha := by
    rcases List.mem_append.mp ha with ha | ha
    · exact h.held a ha
    · rw [List.mem_singleton.mp ha]
      exact hentry
  one_entry := h.one_entry
  origin := h.origin

/-- A connection that nobody holds is given to another thread. -/
theorem Owned.moved_of_idle
    (h : Owned s) {j : ThreadId}
    (hnone : s.entry params_i stid = none)
    (hentry : s.entry params_i j = some con)
    (hidle : s.useCount con = 1) :
    Moved stid params_i con s
      (s.assign params_i (((s.connmap params_i).erase j).insert stid con)) where
  handles := rfl
  free := (h.useCount_eq_one_iff hentry).mp hidle
  vacant := hnone
  entry p k c := by
    have helse (hother : ¬ (p = params_i ∧ k = j)) :
        s.entry p k = some c ↔ s.entry p k = some c ∧ c ≠ con := by
      refine (and_iff_left_of_imp ?_).symm
      rintro hc rfl
      exact hother (h.one_entry _ _ _ _ _ hc hentry)
    rw [entry_assign, getElem?_insert, getElem?_erase, ← entry_eq]
    by_cases hp : params_i = p
    · subst hp
      by_cases hk : stid = k
      · subst hk
        simp [hnone, eq_comm]
      · by_cases hj : j = k
        · subst hj
          simp [hk, Ne.symm hk, hentry, eq_comm]
        · simp only [hk, Ne.symm hk, hj, if_true, if_false, false_and, and_false, false_or]
          exact helse fun hother => hj hother.2.symm
    · simp only [hp, Ne.symm hp, if_false, false_and, false_or]
      exact helse fun hother => hp hother.1.symm
  origin := h.origin _ _ _ hentry
  made _ _ hc := hc

/-- A new connection is entered. -/
theorem Owned.moved_of_new
    (h : Owned s)
    (hnone : s.entry params_i stid = none) :
    Moved stid params_i s.made.length s
      ((s.construct params_i).assign params_i
        ((s.connmap params_i).insert stid s.made.length)) where
  handles := rfl
  free a ha hnew := by
    have horigin := h.origin _ _ _ (h.held a ha)
    rw [hnew] at horigin
    simp at horigin
  vacant := hnone
  entry p k c := by
    have hold (hc : s.entry p k = some c) : c ≠ s.made.length := by
      rintro rfl
      have horigin := h.origin _ _ _ hc
      simp at horigin
    rw [entry_assign, getElem?_insert, ← entry_eq]
    by_cases hp : params_i = p
    · subst hp
      by_cases hk : stid = k
      · subst hk
        simp [hnone, eq_comm]
      · simp only [hk, Ne.symm hk, if_true, if_false, false_and, and_false, false_or]
        exact (and_iff_left_of_imp hold).symm
    · simp only [hp, Ne.symm hp, if_false, false_and, false_or]
      exact (and_iff_left_of_imp hold).symm
  origin := by
    simp [System.assign, System.construct]
  made c p hc := by
    obtain ⟨hlt, -⟩ := List.getElem?_eq_some_iff.mp hc
    exact (List.getElem?_append_left hlt).trans hc

end Moves

section Purges

variable {selected selected' : Bytes → Prop}

/-- The entries of the selected maps that nobody holds are gone. -/
structure Purged (selected : Bytes → Prop) (s t : System) : Prop where
  handles : t.handles = s.handles
  made : t.made = s.made
  entry : ∀ p k c, t.entry p k = some c ↔
    s.entry p k = some c ∧ ¬ (selected p ∧ s.Free c)

theorem Purged.free_iff
    (h : Purged selected s t) :
    t.Free con ↔ s.Free con := by
  rw [System.Free, System.Free, h.handles]

theorem Owned.purged
    (h : Owned s) (hpurged : Purged selected s t) :
    Owned t where
  held a ha := by
    rw [hpurged.handles] at ha
    rw [hpurged.entry]
    exact ⟨h.held a ha, fun hfree => not_free_of_held ha hfree.2⟩
  one_entry p p' k k' c hp hp' :=
    h.one_entry p p' k k' c ((hpurged.entry p k c).mp hp).1 ((hpurged.entry p' k' c).mp hp').1
  origin p k c hp := by
    rw [hpurged.made]
    exact h.origin p k c ((hpurged.entry p k c).mp hp).1

theorem Purged.refl
    (s : System) :
    Purged (fun _ => False) s s where
  handles := rfl
  made := rfl
  entry := by simp

theorem Purged.trans
    (hfirst : Purged selected s t) (hsecond : Purged selected' t u) :
    Purged (fun p => selected p ∨ selected' p) s u where
  handles := hsecond.handles.trans hfirst.handles
  made := hsecond.made.trans hfirst.made
  entry p k c := by
    rw [hsecond.entry, hfirst.entry, hfirst.free_iff]
    tauto

theorem Purged.congr
    (h : Purged selected s t)
    (hiff : ∀ p k c, s.entry p k = some c → (selected p ↔ selected' p)) :
    Purged selected' s t where
  handles := h.handles
  made := h.made
  entry p k c := by
    rw [h.entry]
    refine and_congr_right fun hentry => ?_
    rw [hiff p k c hentry]

/-- `purge_` erases what has the use count one. -/
theorem getElem?_purge_
    (useCount : ConnId → Nat) (cm_i : ConnMap) (k : ThreadId) (c : ConnId) :
    (purge_ useCount cm_i).2[k]? = some c ↔ cm_i[k]? = some c ∧ useCount c ≠ 1 := by
  have hidle :
      k ∈ (cm_i.toList.filter fun i => useCount i.2 == 1).map Prod.fst ↔
        ∃ c, cm_i[k]? = some c ∧ useCount c = 1 := by
    simp only [List.mem_map, List.mem_filter, beq_iff_eq, Prod.exists,
      Std.TreeMap.mem_toList_iff_getElem?_eq_some]
    constructor
    · rintro ⟨k, c, hc, rfl⟩
      exact ⟨c, hc⟩
    · rintro ⟨c, hc⟩
      exact ⟨k, c, hc, rfl⟩
  rw [purge_, getElem?_eraseAll]
  by_cases hmem : k ∈ (cm_i.toList.filter fun i => useCount i.2 == 1).map Prod.fst
  · rw [if_pos hmem]
    obtain ⟨c', hc', hone⟩ := hidle.mp hmem
    constructor
    · intro hnone
      cases hnone
    · rintro ⟨hc, hne⟩
      rw [hc] at hc'
      cases hc'
      exact absurd hone hne
  · rw [if_neg hmem]
    refine (and_iff_left_of_imp ?_).symm
    intro hc hone
    exact hmem (hidle.mpr ⟨c, hc, hone⟩)

theorem purgeAt_of_none
    {i : Bytes} (hmap : s.pool_a[i]? = none) :
    purgeAt s i = (false, s) := by
  rw [purgeAt, hmap]

theorem purgeAt_of_some
    {i : Bytes} {cm : ConnMap} (hmap : s.pool_a[i]? = some cm) :
    purgeAt s i = ((purge_ s.useCount cm).1, s.assign i (purge_ s.useCount cm).2) := by
  rw [purgeAt, hmap]

/-- `purge_` takes the entries out of one map that nobody holds. -/
theorem purgeAt_purged
    (h : Owned s) (i : Bytes) :
    Purged (· = i) s (purgeAt s i).2 := by
  cases hmap : s.pool_a[i]? with
  | none =>
      rw [purgeAt_of_none hmap]
      refine (Purged.refl s).congr ?_
      rintro p k c hentry
      constructor
      · intro hfalse
        cases hfalse
      · rintro rfl
        rw [entry_eq, connmap_of_none hmap] at hentry
        cases hentry
  | some cm =>
      rw [purgeAt_of_some hmap]
      refine ⟨rfl, rfl, ?_⟩
      intro p k c
      rw [entry_assign]
      by_cases hp : i = p
      · subst hp
        have hcm : s.entry i k = cm[k]? := by
          rw [entry_eq, connmap_of_some hmap]
        rw [if_pos rfl, getElem?_purge_, ← hcm]
        refine and_congr_right fun hentry => ?_
        rw [ne_eq, h.useCount_eq_one_iff hentry]
        simp
      · simp [hp, Ne.symm hp]

theorem purgeAt_other
    {i : Bytes} (hp : p ≠ i) :
    (purgeAt s i).2.pool_a[p]? = s.pool_a[p]? := by
  cases hmap : s.pool_a[i]? with
  | none => rw [purgeAt_of_none hmap]
  | some cm =>
      rw [purgeAt_of_some hmap, System.assign, getElem?_insert, if_neg (Ne.symm hp)]

/-- What `purge_` returns says whether the map is empty. -/
theorem purgeAt_fst_iff
    (s : System) (i : Bytes) :
    (purgeAt s i).1 = true ↔
      ∃ cm : ConnMap, (purgeAt s i).2.pool_a[i]? = some cm ∧ cm.isEmpty = true := by
  cases hmap : s.pool_a[i]? with
  | none => simp [purgeAt_of_none hmap, hmap]
  | some cm =>
      rw [purgeAt_of_some hmap, System.assign, getElem?_insert, if_pos rfl]
      simp [purge_]

theorem purgeLoop_purged
    (h : Owned s) (is : List Bytes) :
    Purged (· ∈ is) s (purgeLoop s is).2 := by
  induction is generalizing s with
  | nil =>
      exact (Purged.refl s).congr fun p k c _ => by simp
  | cons i rest ih =>
      have hfirst := purgeAt_purged h i
      refine (hfirst.trans (ih (h.purged hfirst))).congr ?_
      intro p k c _
      rw [List.mem_cons]

theorem purgeLoop_other
    {is : List Bytes} (hp : p ∉ is) :
    (purgeLoop s is).2.pool_a[p]? = s.pool_a[p]? := by
  induction is generalizing s with
  | nil =>
      rfl
  | cons i rest ih =>
      rw [List.mem_cons, not_or] at hp
      exact (ih hp.2).trans (purgeAt_other hp.1)

/-- `toErase` has the maps that are empty after the loop. -/
theorem purgeLoop_fst_iff
    {is : List Bytes} (hnodup : is.Nodup) :
    p ∈ (purgeLoop s is).1 ↔
      p ∈ is ∧ ∃ cm : ConnMap, (purgeLoop s is).2.pool_a[p]? = some cm ∧ cm.isEmpty = true := by
  induction is generalizing s with
  | nil =>
      simp [purgeLoop]
  | cons i rest ih =>
      obtain ⟨hi, hrest⟩ := List.nodup_cons.mp hnodup
      have hrec := ih (s := (purgeAt s i).2) hrest
      have hsplit :
          p ∈ (purgeLoop s (i :: rest)).1 ↔
            (p = i ∧ (purgeAt s i).1 = true) ∨ p ∈ (purgeLoop (purgeAt s i).2 rest).1 := by
        rw [purgeLoop]
        by_cases hempty : (purgeAt s i).1 = true <;> simp [hempty]
      rw [hsplit, hrec, List.mem_cons, or_and_right, purgeAt_fst_iff]
      refine or_congr_left (and_congr_right ?_)
      rintro rfl
      have hsame := purgeLoop_other (s := (purgeAt s p).2) hi
      rw [purgeLoop, hsame]

theorem noEmpty_eraseAll
    {toErase : List Bytes}
    (h : ∀ (p : Bytes) (cm : ConnMap), s.pool_a[p]? = some cm → cm.isEmpty = true →
      p ∈ toErase) :
    NoEmpty { s with pool_a := eraseAll s.pool_a toErase } := by
  intro p cm hmap
  rw [getElem?_eraseAll] at hmap
  by_cases hmem : p ∈ toErase
  · simp [hmem] at hmap
  · rw [if_neg hmem] at hmap
    exact Bool.eq_false_iff.mpr fun hempty => hmem (h p cm hmap hempty)

/-- Erasing empty maps leaves the entries. -/
theorem eraseAll_purged
    {toErase : List Bytes}
    (h : ∀ p ∈ toErase, ∃ cm : ConnMap, s.pool_a[p]? = some cm ∧ cm.isEmpty = true) :
    Purged (fun _ => False) s { s with pool_a := eraseAll s.pool_a toErase } where
  handles := rfl
  made := rfl
  entry p k c := by
    rw [System.entry, System.entry, lookup, lookup, getElem?_eraseAll]
    by_cases hmem : p ∈ toErase
    · obtain ⟨cm, hmap, hempty⟩ := h p hmem
      have hnone := (isEmpty_iff cm).mp hempty k
      simp [hmem, hmap, hnone]
    · simp [hmem]

/-- The maps that `purge(params_i)` goes through. -/
def purgedMaps (params_i : Bytes) (s : System) : List Bytes :=
  if params_i = [] then s.pool_a.keys else [params_i]

/-- `purge` for one map or for all: the loop, then the maps that are empty. -/
theorem purge_eq
    (params_i : Bytes) (s : System) :
    purge params_i s =
      { (purgeLoop s (purgedMaps params_i s)).2 with
        pool_a := eraseAll (purgeLoop s (purgedMaps params_i s)).2.pool_a
          (purgeLoop s (purgedMaps params_i s)).1 } := by
  rw [purge, purgedMaps]
  by_cases hall : params_i = []
  · rw [if_pos hall, if_pos hall]
  · rw [if_neg hall, if_neg hall]
    simp only [purgeLoop]
    by_cases hempty : (purgeAt s params_i).1 = true
    · rw [if_pos hempty, if_pos hempty]
      rfl
    · rw [if_neg hempty, if_neg hempty]
      rfl

/-- `params_i` selects the map of `p`. -/
def Selected (params_i p : Bytes) : Prop :=
  params_i = [] ∨ p = params_i

theorem mem_purgedMaps_iff
    (hentry : s.entry p k = some c) :
    p ∈ purgedMaps params_i s ↔ Selected params_i p := by
  rw [purgedMaps, Selected]
  by_cases hall : params_i = []
  · obtain ⟨cm, hmap, -⟩ := lookup_eq_some_iff.mp hentry
    have hmem : p ∈ s.pool_a := by
      rw [Std.TreeMap.mem_iff_isSome_getElem?, hmap]
      rfl
    simp [hall, hmem]
  · simp [hall]

theorem nodup_purgedMaps
    (params_i : Bytes) (s : System) :
    (purgedMaps params_i s).Nodup := by
  rw [purgedMaps]
  split
  · exact nodup_keys s.pool_a
  · exact List.nodup_singleton params_i

/-- `purge` removes the entries of the selected maps that nobody holds. -/
theorem purge_purged
    (h : Owned s) (params_i : Bytes) :
    Purged (Selected params_i) s (purge params_i s) := by
  rw [purge_eq]
  have hloop := purgeLoop_purged h (purgedMaps params_i s)
  have herase := eraseAll_purged (s := (purgeLoop s (purgedMaps params_i s)).2)
    fun p hp => ((purgeLoop_fst_iff (nodup_purgedMaps params_i s)).mp hp).2
  refine (hloop.trans herase).congr ?_
  intro p k c hentry
  rw [or_false, mem_purgedMaps_iff hentry]

theorem NoEmpty.purge
    (hempty : NoEmpty s) (params_i : Bytes) :
    NoEmpty (purge params_i s) := by
  rw [purge_eq]
  refine noEmpty_eraseAll fun p cm hmap hcm => ?_
  rw [purgeLoop_fst_iff (nodup_purgedMaps params_i s)]
  by_cases hp : p ∈ purgedMaps params_i s
  · exact ⟨hp, cm, hmap, hcm⟩
  · rw [purgeLoop_other hp] at hmap
    rw [hempty p cm hmap] at hcm
    cases hcm

end Purges

end ConnPool
end Bren
end Brenlib
