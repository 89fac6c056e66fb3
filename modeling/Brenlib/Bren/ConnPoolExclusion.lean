import Brenlib.Bren.ConnPoolOwnership

/-!
# A connection of a `ConnPool` has one user

* `Sound`: the invariant of all runs.
* `exclusive_connections`: no two threads hold the same connection.
* `held_connection_stable`: a thread keeps its connection as long as it holds it, and
  `purge` removes what nobody holds.
-/

namespace Brenlib
namespace Bren
namespace ConnPool

open NestedMap TransitionSystem

variable {s t : System} {l : Label} {stid : ThreadId} {params_i : Bytes} {con : ConnId}

/-- The entries and the handles agree, and no map is empty. -/
structure Sound (s : System) : Prop where
  owned : Owned s
  noEmpty : NoEmpty s

section Invariant

theorem sound_init :
    Sound System.init where
  owned := by
    refine ⟨?_, ?_, ?_⟩
    · intro h hmem
      cases hmem
    · intro p p' k k' con hentry
      cases hentry
    · intro p k con hentry
      cases hentry
  noEmpty p cm hmap := by
    cases hmap

theorem NoEmpty.assign_insert
    (h : NoEmpty s) (params_i : Bytes) (cm : ConnMap) (k : ThreadId) (con : ConnId) :
    NoEmpty (s.assign params_i (cm.insert k con)) := by
  intro p cm' hmap
  rw [System.assign, getElem?_insert] at hmap
  by_cases hp : params_i = p
  · rw [if_pos hp] at hmap
    obtain rfl := Option.some.inj hmap
    exact Std.TreeMap.isEmpty_insert
  · rw [if_neg hp] at hmap
    exact h p cm' hmap

theorem Moved.entry_self
    (h : Moved stid params_i con s t) :
    t.entry params_i stid = some con :=
  (h.entry params_i stid con).mpr (.inl ⟨rfl, rfl, rfl⟩)

theorem Sound.step
    (h : Sound s) (hstep : Steps step s l t) :
    Sound t := by
  cases step_cases hstep with
  | found connect hentry =>
      exact ⟨h.owned.receive hentry, h.noEmpty⟩
  | reused connect hnone hentry hidle =>
      have hmoved := h.owned.moved_of_idle hnone hentry hidle
      exact ⟨(h.owned.moved hmoved).receive hmoved.entry_self,
        h.noEmpty.assign_insert _ _ _ _⟩
  | constructed connect hnone hbusy =>
      have hmoved := h.owned.moved_of_new hnone
      exact ⟨(h.owned.moved hmoved).receive hmoved.entry_self,
        NoEmpty.assign_insert (s := s.construct _) h.noEmpty _ _ _ _⟩
  | threw =>
      exact h
  | copied hmem =>
      refine ⟨⟨?_, h.owned.one_entry, h.owned.origin⟩, h.noEmpty⟩
      intro a ha
      rcases List.mem_append.mp ha with ha | ha
      · exact h.owned.held a ha
      · rw [List.mem_singleton.mp ha]
        exact h.owned.held _ hmem
  | released hmem =>
      refine ⟨⟨?_, h.owned.one_entry, h.owned.origin⟩, h.noEmpty⟩
      intro a ha
      exact h.owned.held a (List.mem_of_mem_erase ha)
  | purged params_i =>
      exact ⟨h.owned.purged (purge_purged h.owned params_i), h.noEmpty.purge params_i⟩

theorem sound_reachable
    {ls : List Label}
    (hreach : Run (Steps step) System.init ls s) :
    Sound s :=
  hreach.invariant Sound Sound.step sound_init

end Invariant

section Exclusion

/-- No two threads hold the same connection, a connection has one entry, and no map is
empty. -/
structure Exclusive (s : System) : Prop where
  threads : ∀ a ∈ s.handles, ∀ b ∈ s.handles, a.con = b.con → a.thread = b.thread
  entries : ∀ p p' k k' con, s.entry p k = some con → s.entry p' k' = some con →
    p = p' ∧ k = k'
  noEmpty : NoEmpty s

theorem Sound.exclusive
    (h : Sound s) :
    Exclusive s where
  threads _ ha _ hb hcon := h.owned.thread_eq ha hb hcon
  entries := h.owned.one_entry
  noEmpty := h.noEmpty

/-- What has been constructed stays as it is. -/
theorem made_step
    (h : Sound s) (hstep : Steps step s l t) (c : ConnId) (p : Bytes)
    (hmade : s.made[c]? = some p) :
    t.made[c]? = some p := by
  cases step_cases hstep with
  | constructed connect hnone hbusy =>
      exact (h.owned.moved_of_new hnone).made c p hmade
  | purged params_i =>
      rw [(purge_purged h.owned params_i).made]
      exact hmade
  | _ =>
      exact hmade

theorem made_run
    {ls : List Label}
    (hsound : Sound s) (hrun : Run (Steps step) s ls t) (c : ConnId) (p : Bytes)
    (hmade : s.made[c]? = some p) :
    t.made[c]? = some p :=
  hrun.relates Sound (fun s t => ∀ (c : ConnId) p, s.made[c]? = some p → t.made[c]? = some p)
    (fun _ _ _ h => h) (fun h h' c p hmade => h' c p (h c p hmade)) Sound.step made_step
    hsound c p hmade

/-- **Connections are exclusive.**  In every reachable state no two threads hold the
same connection, a connection has one entry, and no map is empty; and a connection that
has been handed out for a connection string is never in another map. -/
theorem exclusive_connections
    {ls ls' : List Label}
    (hreach : Run (Steps step) System.init ls s)
    (hrun : Run (Steps step) s ls' t) :
    Exclusive t ∧
      (∀ h ∈ s.handles, ∀ p k, t.entry p k = some h.con → p = h.params_i) ∧
      (∀ h ∈ t.handles, ∀ p k, s.entry p k = some h.con → p = h.params_i) := by
  have hs := sound_reachable hreach
  have ht := hrun.invariant Sound Sound.step hs
  refine ⟨ht.exclusive, ?_, ?_⟩
  · intro h hmem p k hentry
    have horigin := hs.owned.origin _ _ _ (hs.owned.held h hmem)
    have hlater := made_run hs hrun _ _ horigin
    exact Option.some.inj ((ht.owned.origin p k _ hentry).symm.trans hlater)
  · intro h hmem p k hentry
    have horigin := ht.owned.origin _ _ _ (ht.owned.held h hmem)
    have hlater := made_run hs hrun _ _ (hs.owned.origin p k _ hentry)
    exact Option.some.inj (hlater.symm.trans horigin)

/-- Two threads at once, and a third one that takes over the connection of the first. -/
theorem exclusive_connections_example :
    ∃ s t : System,
      Run (Steps step) System.init
        [.get 1 [0x70] (.ok ()), .get 2 [0x70] (.ok ())] s ∧
      Run (Steps step) s [.release ⟨1, [0x70], 0⟩, .get 3 [0x70] (.ok ())] t ∧
      t.handles = [⟨2, [0x70], 1⟩, ⟨3, [0x70], 0⟩] ∧
      Exclusive t := by
  let s : System := (exec step System.init
    [.get 1 [0x70] (.ok ()), .get 2 [0x70] (.ok ())]).get rfl
  have hreach :
      Run (Steps step) System.init
        [.get 1 [0x70] (.ok ()), .get 2 [0x70] (.ok ())] s :=
    run_of_exec rfl
  have hrun :
      Run (Steps step) s [.release ⟨1, [0x70], 0⟩, .get 3 [0x70] (.ok ())] _ :=
    run_of_exec rfl
  exact ⟨s, _, hreach, hrun, rfl, (exclusive_connections hreach hrun).1⟩

end Exclusion

section Stability

/-- The thread holds a handle that it has obtained with `get(params_i)`. -/
def Holds (stid : ThreadId) (params_i : Bytes) (s : System) : Prop :=
  ∃ a ∈ s.handles, a.thread = stid ∧ a.params_i = params_i

instance (stid : ThreadId) (params_i : Bytes) (s : System) :
    Decidable (Holds stid params_i s) :=
  inferInstanceAs (Decidable (∃ a ∈ s.handles, _))

/-- The thread still holds a handle behind the step. -/
def StillHolds (stid : ThreadId) (params_i : Bytes) (_ : System) (_ : Label)
    (t : System) : Prop :=
  Holds stid params_i t

instance (stid : ThreadId) (params_i : Bytes) (s : System) (l : Label) (t : System) :
    Decidable (StillHolds stid params_i s l t) :=
  inferInstanceAs (Decidable (Holds stid params_i t))

/-- The connection that a thread holds is the one of its entry. -/
theorem Owned.not_free_of_holds
    (h : Owned s) (hholds : Holds stid params_i s)
    (hentry : s.entry params_i stid = some con) :
    ¬ s.Free con := by
  obtain ⟨a, ha, rfl, rfl⟩ := hholds
  have hcon := Option.some.inj ((h.held a ha).symm.trans hentry)
  rw [← hcon]
  exact not_free_of_held ha

theorem Moved.entry_of_held
    {stid' : ThreadId} {params' : Bytes} {con' : ConnId}
    (h : Moved stid' params' con' s t)
    (hentry : s.entry params_i stid = some con) (hheld : ¬ s.Free con) :
    t.entry params_i stid = some con := by
  rw [h.entry]
  refine .inr ⟨hentry, ?_⟩
  rintro rfl
  exact hheld h.free

/-- An entry whose thread holds it stays where it is. -/
theorem entry_step
    (h : Sound s) (hholds : Holds stid params_i s)
    (hentry : s.entry params_i stid = some con) (hstep : Steps step s l t) :
    t.entry params_i stid = some con := by
  have hheld := h.owned.not_free_of_holds hholds hentry
  cases step_cases hstep with
  | reused connect hnone hentry' hidle =>
      have hmoved := h.owned.moved_of_idle hnone hentry' hidle
      have hkept := hmoved.entry_of_held hentry hheld
      exact hkept
  | constructed connect hnone hbusy =>
      have hmoved := h.owned.moved_of_new hnone
      have hkept := hmoved.entry_of_held hentry hheld
      exact hkept
  | purged params' =>
      rw [(purge_purged h.owned params').entry]
      exact ⟨hentry, fun hfree => hheld hfree.2⟩
  | _ =>
      exact hentry

/-- A thread that holds the connection `con`. -/
structure Using (stid : ThreadId) (params_i : Bytes) (con : ConnId) (s : System) :
    Prop where
  sound : Sound s
  holds : Holds stid params_i s
  entry : s.entry params_i stid = some con

theorem Using.step
    (h : Using stid params_i con s)
    (hstep : Guarded (StillHolds stid params_i) (Steps step) s l t) :
    Using stid params_i con t where
  sound := h.sound.step hstep.2
  holds := hstep.1
  entry := entry_step h.sound h.holds h.entry hstep.2

/-- **A held connection is stable.**  In every reachable state: as long as a thread holds a
handle that it has obtained with `get`, every further `get` returns the same connection;
and `purge` removes the entries of the selected maps that nobody holds, and no other. -/
theorem held_connection_stable
    {ls : List Label}
    (hreach : Run (Steps Brenlib.Bren.ConnPool.step) System.init ls s) :
    (∀ h ∈ s.handles, ∀ ls' t,
      Run (Guarded (StillHolds h.thread h.params_i) (Steps Brenlib.Bren.ConnPool.step)) s ls' t →
      ∀ connect, (get h.thread h.params_i connect).run t = .ok h.con t) ∧
    ∀ params_i u, Steps Brenlib.Bren.ConnPool.step s (.purge params_i) u →
      u.handles = s.handles ∧
      ∀ p k con, u.entry p k = some con ↔
        s.entry p k = some con ∧
          ¬ ((params_i = [] ∨ p = params_i) ∧ ∀ a ∈ s.handles, a.con ≠ con) := by
  have hsound := sound_reachable hreach
  constructor
  · intro h hheld ls' t hrun
    have hstart : Using h.thread h.params_i h.con s :=
      ⟨hsound, ⟨h, hheld, rfl, rfl⟩, hsound.owned.held h hheld⟩
    have hend := hrun.invariant (Using h.thread h.params_i h.con) Using.step hstart
    exact get_found hend.entry
  · intro params_i u hpurge
    obtain rfl := Option.some.inj hpurge
    have hpurged := purge_purged hsound.owned params_i
    exact ⟨hpurged.handles, hpurged.entry⟩

/-- A thread copies its handle and destroys the first one, while another thread takes
over an idle connection and all maps are purged. -/
theorem held_connection_stable_example :
    ∃ s t : System, ∃ labels : List Label,
      Run (Steps Brenlib.Bren.ConnPool.step) System.init
        [.get 1 [0x70] (.ok ()), .get 2 [0x70] (.ok ())] s ∧
      Run (Guarded (StillHolds 1 [0x70]) (Steps Brenlib.Bren.ConnPool.step)) s labels t ∧
      t.handles = [⟨3, [0x70], 1⟩, ⟨1, [0x70], 0⟩] ∧
      ∀ connect, (get 1 [0x70] connect).run t = .ok 0 t := by
  let s : System := (exec Brenlib.Bren.ConnPool.step System.init
    [.get 1 [0x70] (.ok ()), .get 2 [0x70] (.ok ())]).get rfl
  let labels : List Label :=
    [.release ⟨2, [0x70], 1⟩, .get 3 [0x70] (.ok ()), .copy ⟨1, [0x70], 0⟩,
      .release ⟨1, [0x70], 0⟩, .purge []]
  have hreach :
      Run (Steps Brenlib.Bren.ConnPool.step) System.init
        [.get 1 [0x70] (.ok ()), .get 2 [0x70] (.ok ())] s :=
    run_of_exec rfl
  have hheld : (⟨1, [0x70], 0⟩ : Handle) ∈ s.handles := by decide
  have hrun :
      Run (Guarded (StillHolds 1 [0x70]) (Steps Brenlib.Bren.ConnPool.step)) s labels _ :=
    guarded_of_exec rfl
  exact ⟨s, _, labels, hreach, hrun, rfl,
    (held_connection_stable hreach).1 _ hheld labels _ hrun⟩

end Stability

end ConnPool
end Bren
end Brenlib
