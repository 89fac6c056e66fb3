import Brenlib.Base.LockOrder
import Brenlib.Bren.Singleton

/-!
# Any number of threads that use singletons

* `Counted`: what has been made, what has been destroyed, and what is there.
* `one_instance`: there is never more than one object of a class, and as long as nobody
  closes it every `instance()` returns the same one.
* `Nested`: a thread waits for a mutex below those it holds.
* `calls_end`: where the classes ask for each other in an order, all calls come to an end.
-/

namespace Brenlib
namespace Bren
namespace Singleton

open TransitionSystem

variable {CLASS THREAD : Type}
variable {cs : Classes CLASS} {s t : System CLASS THREAD} {i j : THREAD} {a : Action CLASS}
variable {c : CLASS}

section Objects

variable [DecidableEq CLASS] [DecidableEq THREAD]

/-- All objects but those that are there have been destroyed, and a pointer that has been
returned is that of an object of its class. -/
structure System.Counted (s : System CLASS THREAD) : Prop where
  count : ∀ c, s.made.count c = s.deleted.count c + if s.instance_a c = none then 0 else 1
  numbered : ∀ c p, s.instance_a c = some p → s.made[p]? = some c
  returned : ∀ c p, (c, p) ∈ s.returned → s.made[p]? = some c

omit [DecidableEq THREAD] in
theorem counted_init :
    (System.init : System CLASS THREAD).Counted where
  count _ := rfl
  numbered _ _ h := by cases h
  returned _ _ h := absurd h List.not_mem_nil

omit [DecidableEq THREAD] in
/-- A step that neither makes nor destroys an object. -/
theorem System.Counted.aside
    (h : s.Counted)
    (hmade : t.made = s.made)
    (hdeleted : t.deleted = s.deleted)
    (hinst : t.instance_a = s.instance_a)
    (hreturned : ∀ c p, (c, p) ∈ t.returned → (c, p) ∈ s.returned ∨ s.instance_a c = some p) :
    t.Counted where
  count c := by
    rw [hmade, hdeleted, hinst]
    exact h.count c
  numbered c p hsome := by
    rw [hinst] at hsome
    rw [hmade]
    exact h.numbered c p hsome
  returned c p hmem := by
    rw [hmade]
    rcases hreturned c p hmem with hbefore | hsome
    · exact h.returned c p hbefore
    · exact h.numbered c p hsome

theorem System.Counted.constructed
    {rest : List (Frame CLASS)}
    (h : s.Counted)
    (hnone : s.instance_a c = none) :
    (s.constructed i c rest).Counted where
  count d := by
    have hbefore := h.count d
    by_cases hd : d = c
    · subst hd
      simp [System.constructed, System.goto, hbefore, hnone]
    · simp [System.constructed, System.goto, hbefore, hd, Ne.symm hd]
  numbered d p hsome := by
    by_cases hd : d = c
    · subst hd
      simp only [System.constructed, Function.update_self, Option.some.injEq] at hsome
      subst hsome
      simp [System.constructed]
    · simp only [System.constructed, Function.update_of_ne hd] at hsome
      have hget := h.numbered d p hsome
      simp only [System.constructed]
      rw [List.getElem?_append_left (List.getElem?_eq_some_iff.mp hget).1, hget]
  returned d p hmem := by
    simp only [System.constructed, List.mem_append, List.mem_singleton, Prod.mk.injEq] at hmem
    simp only [System.constructed]
    rcases hmem with hbefore | ⟨rfl, rfl⟩
    · have hget := h.returned d p hbefore
      rw [List.getElem?_append_left (List.getElem?_eq_some_iff.mp hget).1, hget]
    · simp

theorem System.Counted.destroyed
    {rest : List (Frame CLASS)}
    (h : s.Counted)
    (hsome : s.instance_a c ≠ none) :
    (s.destroyed i c rest).Counted where
  count d := by
    have hbefore := h.count d
    change s.made.count d = (s.deleted ++ [c]).count d + _
    by_cases hd : d = c
    · subst hd
      simp [System.destroyed, hbefore, hsome]
    · simp [System.destroyed, hbefore, hd, Ne.symm hd]
  numbered d p hp := by
    by_cases hd : d = c
    · subst hd
      simp [System.destroyed] at hp
    · simp only [System.destroyed, Function.update_of_ne hd] at hp
      exact h.numbered d p hp
  returned := h.returned

theorem StepCases.counted
    (hcases : StepCases cs s i a t)
    (hsound : s.Sound)
    (h : s.Counted) :
    t.Counted := by
  cases hcases with
  | found c p hwant hfree hsome =>
      refine h.aside rfl rfl rfl fun d q hmem => ?_
      rcases List.mem_append.mp hmem with hbefore | hnew
      · exact .inl hbefore
      · obtain ⟨rfl, rfl⟩ := Prod.mk.inj (List.mem_singleton.mp hnew)
        exact .inr hsome
  | constructed c rest hthread =>
      refine h.constructed (hsound.absent i c ?_)
      rw [hthread]
      exact List.mem_cons_self
  | destroyed c rest hthread =>
      refine h.destroyed (hsound.present i c ?_)
      rw [hthread]
      exact List.mem_cons_self
  | _ =>
      exact h.aside rfl rfl rfl fun _ _ hmem => .inl hmem

/-- Nobody closes or has closed the singleton, and all the pointers that have been returned
are its pointer. -/
structure System.Kept (c : CLASS) (s : System CLASS THREAD) : Prop where
  not_wanted : ∀ i, (s.thread i).want ≠ some (c, .close)
  not_held : ∀ i, (c, .destroy) ∉ (s.thread i).held
  not_deleted : c ∉ s.deleted
  returned : ∀ p, (c, p) ∈ s.returned → s.instance_a c = some p

omit [DecidableEq CLASS] [DecidableEq THREAD] in
theorem kept_init
    (c : CLASS) :
    (System.init : System CLASS THREAD).Kept c where
  not_wanted _ h := by cases h
  not_held _ := List.not_mem_nil
  not_deleted := List.not_mem_nil
  returned _ h := absurd h List.not_mem_nil

omit [DecidableEq CLASS] in
/-- A thread that does not set out to close the singleton. -/
theorem System.Kept.goto
    {th : Thread CLASS}
    (h : s.Kept c)
    (hthreads : t.thread = (s.goto i th).thread)
    (hwant : th.want ≠ some (c, .close))
    (hheld : (c, .destroy) ∈ th.held → (c, .destroy) ∈ (s.thread i).held)
    (hdeleted : c ∉ t.deleted)
    (hreturned : ∀ p, (c, p) ∈ t.returned →
      (c, p) ∈ s.returned ∧ t.instance_a c = s.instance_a c ∨ t.instance_a c = some p) :
    t.Kept c where
  not_wanted j := by
    rw [hthreads]
    by_cases hj : j = i
    · subst hj
      rw [goto_self]
      exact hwant
    · rw [goto_of_ne hj]
      exact h.not_wanted j
  not_held j := by
    rw [hthreads]
    by_cases hj : j = i
    · subst hj
      rw [goto_self]
      exact fun hmem => h.not_held j (hheld hmem)
    · rw [goto_of_ne hj]
      exact h.not_held j
  not_deleted := hdeleted
  returned p hmem := by
    rcases hreturned p hmem with ⟨hbefore, hsame⟩ | hnew
    · rw [hsame]
      exact h.returned p hbefore
    · exact hnew

theorem StepCases.kept
    (hcases : StepCases cs s i a t)
    (hsound : s.Sound)
    (hclose : a ≠ .call c .close)
    (h : s.Kept c) :
    t.Kept c := by
  cases hcases with
  | called d m hidle =>
      refine h.goto rfl ?_ (fun hmem => absurd hmem List.not_mem_nil) h.not_deleted
        fun p hmem => .inl ⟨hmem, rfl⟩
      rintro ⟨⟩
      exact hclose rfl
  | constructs d hwant hfree hnone =>
      refine h.goto rfl (by simp) (fun hmem => ?_) h.not_deleted
        fun p hmem => .inl ⟨hmem, rfl⟩
      exact (List.mem_cons.mp hmem).resolve_left (by simp)
  | found d p hwant hfree hsome =>
      refine h.goto rfl (by simp) id h.not_deleted fun q hmem => ?_
      rcases List.mem_append.mp hmem with hbefore | hnew
      · exact .inl ⟨hbefore, rfl⟩
      · obtain ⟨rfl, rfl⟩ := Prod.mk.inj (List.mem_singleton.mp hnew)
        exact .inr hsome
  | destroys d p hwant hfree hsome =>
      have hd : d ≠ c := by
        rintro rfl
        exact h.not_wanted i hwant
      refine h.goto rfl (by simp) (fun hmem => ?_) h.not_deleted
        fun p hmem => .inl ⟨hmem, rfl⟩
      exact (List.mem_cons.mp hmem).resolve_left (by simp [Ne.symm hd])
  | looked d m hwant hfree hnothing =>
      exact h.goto rfl (by simp) id h.not_deleted fun p hmem => .inl ⟨hmem, rfl⟩
  | asked d e w todo rest hthread =>
      refine h.goto rfl (by simp) (fun hmem => ?_) h.not_deleted
        fun p hmem => .inl ⟨hmem, rfl⟩
      rw [hthread]
      exact hmem
  | constructed d rest hthread =>
      have hheld : (d, .construct) ∈ (s.thread i).held := by
        rw [hthread]
        exact List.mem_cons_self
      refine h.goto rfl (by simp) (fun hmem => ?_) h.not_deleted fun p hmem => ?_
      · rw [hthread]
        exact List.mem_cons_of_mem _ hmem
      · rcases List.mem_append.mp hmem with hbefore | hnew
        · have hsome := h.returned p hbefore
          have hd : c ≠ d := by
            rintro rfl
            rw [hsound.absent i c hheld] at hsome
            cases hsome
          exact .inl ⟨hbefore, Function.update_of_ne hd ..⟩
        · obtain ⟨rfl, rfl⟩ := Prod.mk.inj (List.mem_singleton.mp hnew)
          exact .inr (Function.update_self ..)
  | destroyed d rest hthread =>
      have hheld : (d, .destroy) ∈ (s.thread i).held := by
        rw [hthread]
        exact List.mem_cons_self
      have hd : d ≠ c := by
        rintro rfl
        exact h.not_held i hheld
      refine h.goto rfl (by simp) (fun hmem => ?_) ?_ fun p hmem => ?_
      · rw [hthread]
        exact List.mem_cons_of_mem _ hmem
      · rw [System.destroyed, List.mem_append, List.mem_singleton, not_or]
        exact ⟨h.not_deleted, Ne.symm hd⟩
      · exact .inl ⟨hmem, Function.update_of_ne (Ne.symm hd) ..⟩

theorem sound_of_run
    {ls : List (THREAD × Action CLASS)}
    (hrun : Run (Steps (step cs)) System.init ls t) :
    t.Sound ∧ t.Counted := by
  refine hrun.invariant (fun s => s.Sound ∧ s.Counted) ?_ ⟨sound_init, counted_init⟩
  rintro s l u ⟨hsound, hcounted⟩ hstep
  exact ⟨hsound.step hstep, (step_cases hstep).counted hsound hcounted⟩

/-- The steps of a run in which nobody calls `close()` of a class. -/
theorem kept_of_run
    {ls : List (THREAD × Action CLASS)}
    (hrun : Run (Steps (step cs)) System.init ls t)
    (hclose : ∀ i, (i, .call c .close) ∉ ls) :
    t.Kept c := by
  have hguarded : Run (Guarded (fun _ l _ => l ∈ ls) (Steps (step cs))) System.init ls t :=
    hrun.guarded fun l hl _ _ => hl
  refine (hguarded.invariant (fun s => s.Sound ∧ s.Kept c) ?_ ⟨sound_init, kept_init c⟩).2
  rintro s ⟨i, a⟩ u ⟨hsound, hkept⟩ ⟨hmem, hstep⟩
  have hcases := step_cases hstep
  refine ⟨hcases.sound hsound, hcases.kept hsound ?_ hkept⟩
  rintro rfl
  exact hclose i hmem

/-- **There is at most one object of a class**, in any interleaving of any number of
threads: all that have been made but it have been destroyed, and whatever `instance()`
returns is the pointer of an object of the class.  As long as nobody calls `close()` of
the class, one object is made at most, and every `instance()` returns its pointer. -/
theorem one_instance
    {ls : List (THREAD × Action CLASS)}
    (hrun : Run (Steps (step cs)) System.init ls t) :
    (∀ c, t.made.count c = t.deleted.count c + if t.instance_a c = none then 0 else 1) ∧
    (∀ c p, (c, p) ∈ t.returned → t.made[p]? = some c) ∧
    ∀ c, (∀ i, (i, .call c .close) ∉ ls) →
      t.made.count c ≤ 1 ∧ ∀ p, (c, p) ∈ t.returned → t.instance_a c = some p := by
  obtain ⟨-, hcounted⟩ := sound_of_run hrun
  refine ⟨hcounted.count, hcounted.returned, fun c hclose => ?_⟩
  have hkept := kept_of_run hrun hclose
  refine ⟨?_, hkept.returned⟩
  rw [hcounted.count c, List.count_eq_zero.mpr hkept.not_deleted]
  split <;> decide

/-- A class that asks for another singleton when it is constructed and destroyed. -/
def userOfOther : Classes (Fin 2) where
  ctor c := if c = 1 then [0] else []
  dtor c := if c = 1 then [0] else []

/-- One thread asks for it while another one asks for the other singleton. -/
def twoThreads : List (Fin 2 × Action (Fin 2)) :=
  [(0, .call 1 .getInstance), (0, .lock), (0, .ask), (1, .call 0 .getInstance), (1, .lock),
    (1, .finish), (0, .lock), (0, .finish)]

theorem one_instance_example :
    ∃ t : System (Fin 2) (Fin 2),
      Run (Steps (step userOfOther)) System.init twoThreads t ∧
      t.returned = [(0, 0), (0, 0), (1, 1)] ∧ t.made.count 0 ≤ 1 := by
  have hrun : Run (Steps (step userOfOther))
      (System.init : System (Fin 2) (Fin 2)) twoThreads _ :=
    run_of_exec rfl
  exact ⟨_, hrun, rfl, ((one_instance hrun).2.2 0 (by decide)).1⟩

end Objects

section Order

/-- The singletons that a class asks for. -/
def Classes.asks (cs : Classes CLASS) (c : CLASS) : List CLASS :=
  cs.ctor c ++ cs.dtor c

/-- The classes of a thread: the one it waits for, and those whose mutexes it holds. -/
def Thread.classes (th : Thread CLASS) : List CLASS :=
  (th.want.map Prod.fst).toList ++ th.stack.map Frame.cls

/-- Every class of a thread has been asked for by the next one. -/
structure Thread.Nested (cs : Classes CLASS) (th : Thread CLASS) : Prop where
  chain : th.classes.IsChain fun d c => d ∈ cs.asks c
  todo : ∀ f ∈ th.stack, ∀ d ∈ f.todo, d ∈ cs.asks f.cls

theorem nested_idle
    (cs : Classes CLASS) :
    (Thread.idle : Thread CLASS).Nested cs :=
  ⟨.nil, fun _ h => absurd h List.not_mem_nil⟩

/-- How a thread goes on with its calls. -/
inductive Thread.Advances (cs : Classes CLASS) : Thread CLASS → Thread CLASS → Prop
  | entered
      (c : CLASS) (m : Method) (w : Work) (todo : List CLASS) (stack : List (Frame CLASS))
      (htodo : todo = cs.ctor c ∨ todo = cs.dtor c) :
      Advances cs ⟨some (c, m), stack⟩ ⟨none, ⟨c, w, todo⟩ :: stack⟩
  | left
      (c : CLASS) (m : Method) (stack : List (Frame CLASS)) :
      Advances cs ⟨some (c, m), stack⟩ ⟨none, stack⟩
  | asked
      (c d : CLASS) (w : Work) (todo : List CLASS) (rest : List (Frame CLASS)) :
      Advances cs ⟨none, ⟨c, w, d :: todo⟩ :: rest⟩
        ⟨some (d, .getInstance), ⟨c, w, todo⟩ :: rest⟩
  | finished
      (c : CLASS) (w : Work) (rest : List (Frame CLASS)) :
      Advances cs ⟨none, ⟨c, w, []⟩ :: rest⟩ ⟨none, rest⟩

variable {th th' : Thread CLASS}

theorem Thread.eq_of_want
    {w : CLASS × Method}
    (hwant : th.want = some w) :
    th = ⟨some w, th.stack⟩ := by
  rw [← hwant]

/-- A step that goes on is one of its thread. -/
theorem StepCases.advances
    [DecidableEq CLASS] [DecidableEq THREAD]
    (hcases : StepCases cs s i a t)
    (hgoes : a.GoesOn) :
    (s.thread i).Advances cs (t.thread i) ∧ ∀ j ≠ i, t.thread j = s.thread j := by
  cases hcases with
  | called c m hidle =>
      exact hgoes.elim
  | constructs c hwant hfree hnone =>
      refine ⟨?_, fun j hj => goto_of_ne hj s _⟩
      change (s.thread i).Advances cs ((s.goto i _).thread i)
      rw [goto_self, Thread.eq_of_want hwant]
      exact .entered c _ _ _ _ (.inl rfl)
  | found c p hwant hfree hsome =>
      refine ⟨?_, fun j hj => goto_of_ne hj s _⟩
      change (s.thread i).Advances cs ((s.goto i _).thread i)
      rw [goto_self, Thread.eq_of_want hwant]
      exact .left c _ _
  | destroys c p hwant hfree hsome =>
      refine ⟨?_, fun j hj => goto_of_ne hj s _⟩
      change (s.thread i).Advances cs ((s.goto i _).thread i)
      rw [goto_self, Thread.eq_of_want hwant]
      exact .entered c _ _ _ _ (.inr rfl)
  | looked c m hwant hfree hnothing =>
      refine ⟨?_, fun j hj => goto_of_ne hj s _⟩
      change (s.thread i).Advances cs ((s.goto i _).thread i)
      rw [goto_self, Thread.eq_of_want hwant]
      exact .left c _ _
  | asked c d w todo rest hthread =>
      refine ⟨?_, fun j hj => goto_of_ne hj s _⟩
      rw [goto_self, hthread]
      exact .asked c d w todo rest
  | constructed c rest hthread =>
      refine ⟨?_, fun j hj => goto_of_ne hj s _⟩
      change (s.thread i).Advances cs ((s.goto i _).thread i)
      rw [goto_self, hthread]
      exact .finished c _ rest
  | destroyed c rest hthread =>
      refine ⟨?_, fun j hj => goto_of_ne hj s _⟩
      change (s.thread i).Advances cs ((s.goto i _).thread i)
      rw [goto_self, hthread]
      exact .finished c _ rest

theorem Thread.Advances.nested
    (hadv : th.Advances cs th')
    (h : th.Nested cs) :
    th'.Nested cs := by
  obtain ⟨hchain, htodo⟩ := h
  cases hadv with
  | entered c m w todo stack hwork =>
      refine ⟨hchain, List.forall_mem_cons.mpr ⟨fun d hd => ?_, htodo⟩⟩
      rcases hwork with rfl | rfl
      · exact List.mem_append_left _ hd
      · exact List.mem_append_right _ hd
  | left c m stack =>
      exact ⟨hchain.tail, htodo⟩
  | asked c d w todo rest =>
      obtain ⟨htop, hrest⟩ := List.forall_mem_cons.mp htodo
      refine ⟨.cons_cons (htop d List.mem_cons_self) hchain, List.forall_mem_cons.mpr ⟨?_, hrest⟩⟩
      exact fun e he => htop e (List.mem_cons_of_mem _ he)
  | finished c w rest =>
      exact ⟨hchain.tail, fun f hf => htodo f (List.mem_cons_of_mem _ hf)⟩

/-- A thread waits for a class in front of all those whose mutexes it holds. -/
theorem Thread.Nested.lt_of_held
    {th : Thread CLASS} {d : CLASS} {m : Method} {w : Work}
    (h : th.Nested cs)
    (hwant : th.want = some (d, m))
    (hheld : (c, w) ∈ th.held) :
    Relation.TransGen (fun d c => d ∈ cs.asks c) d c := by
  have hchain := h.chain
  rw [Thread.classes, hwant] at hchain
  change (d :: th.stack.map Frame.cls).IsChain _ at hchain
  have htrans : (d :: th.stack.map Frame.cls).IsChain
      (Relation.TransGen fun d c => d ∈ cs.asks c) :=
    hchain.imp fun _ _ => Relation.TransGen.single
  obtain ⟨f, hf, heq⟩ := List.mem_map.mp hheld
  have hpairwise := List.isChain_iff_pairwise.mp htrans
  have hc := List.rel_of_pairwise_cons hpairwise (List.mem_map.mpr ⟨f, hf, rfl⟩)
  rwa [show f.cls = c from congrArg Prod.fst heq] at hc

/-- What a thread still has to do, with a weight for every class. -/
def Thread.work (weight : CLASS → Nat) (th : Thread CLASS) : Nat :=
  (th.want.map fun w => weight w.1).getD 0 +
    (th.stack.map fun f => 1 + (f.todo.map fun d => 1 + weight d).sum).sum

/-- The weight of a class is larger than what its methods have to do. -/
def Classes.Weighs (cs : Classes CLASS) (weight : CLASS → Nat) : Prop :=
  ∀ c, weight c = 2 + ((cs.asks c).map fun d => 1 + weight d).sum

theorem Thread.Advances.work_lt
    {weight : CLASS → Nat}
    (hadv : th.Advances cs th')
    (hweight : cs.Weighs weight) :
    th'.work weight < th.work weight := by
  have hasks (c : CLASS) :
      weight c = 2 + (((cs.ctor c).map fun d => 1 + weight d).sum +
        ((cs.dtor c).map fun d => 1 + weight d).sum) := by
    rw [hweight c, Classes.asks, List.map_append, List.sum_append]
  cases hadv with
  | entered c m w todo stack hwork =>
      have hc := hasks c
      simp only [Thread.work, Option.map_some, Option.getD_some, Option.map_none,
        Option.getD_none, List.map_cons, List.sum_cons]
      rcases hwork with rfl | rfl <;> omega
  | left c m stack =>
      have hc := hasks c
      simp only [Thread.work, Option.map_some, Option.getD_some, Option.map_none,
        Option.getD_none]
      omega
  | asked c d w todo rest =>
      simp only [Thread.work, Option.map_some, Option.getD_some, Option.map_none,
        Option.getD_none, List.map_cons, List.sum_cons]
      omega
  | finished c w rest =>
      simp only [Thread.work, List.map_cons, List.sum_cons, List.map_nil, List.sum_nil]
      omega

end Order

section Progress

variable [DecidableEq CLASS] [DecidableEq THREAD]

theorem nested_step
    {l : THREAD × Action CLASS}
    (h : ∀ j, (s.thread j).Nested cs)
    (hstep : Steps (step cs) s l t) :
    ∀ j, (t.thread j).Nested cs := by
  intro j
  obtain ⟨i, a⟩ := l
  have hcases := step_cases hstep
  cases a with
  | call c m =>
      cases hcases with
      | called _ _ hidle =>
          by_cases hj : j = i
          · subst hj
            rw [goto_self]
            exact ⟨.singleton c, fun _ hf => absurd hf List.not_mem_nil⟩
          · rw [goto_of_ne hj]
            exact h j
  | _ =>
      obtain ⟨hadv, hothers⟩ := hcases.advances trivial
      by_cases hj : j = i
      · subst hj
        exact hadv.nested (h j)
      · rw [hothers j hj]
        exact h j

/-- A thread that cannot go on waits for a mutex that is taken. -/
theorem waits_of_stuck
    (hbusy : s.thread i ≠ .idle)
    (hstuck : ∀ l u, l.2.GoesOn → ¬ Steps (step cs) s l u) :
    ∃ c m, (s.thread i).want = some (c, m) ∧ s.mux_a c ≠ none := by
  cases hthread : s.thread i with
  | mk want stack =>
      cases want with
      | some w =>
          refine ⟨w.1, w.2, rfl, fun hfree => hstuck (i, .lock) (locked cs s i w.1 w.2) trivial ?_⟩
          change advance cs s i .lock = _
          simp only [advance, hthread, if_pos hfree]
      | none =>
          cases stack with
          | nil =>
              exact absurd hthread hbusy
          | cons f rest =>
              obtain ⟨c, w, todo⟩ := f
              cases todo with
              | cons d todo =>
                  have hstep : Steps (step cs) s (i, .ask)
                      (s.goto i ⟨some (d, .getInstance), ⟨c, w, todo⟩ :: rest⟩) := by
                    change advance cs s i .ask = _
                    simp only [advance, hthread]
                  exact absurd hstep (hstuck _ _ trivial)
              | nil =>
                  cases w with
                  | construct =>
                      have hstep : Steps (step cs) s (i, .finish) (s.constructed i c rest) := by
                        change advance cs s i .finish = _
                        simp only [advance, hthread]
                      exact absurd hstep (hstuck _ _ trivial)
                  | destroy =>
                      have hstep : Steps (step cs) s (i, .finish) (s.destroyed i c rest) := by
                        change advance cs s i .finish = _
                        simp only [advance, hthread]
                      exact absurd hstep (hstuck _ _ trivial)

/-- Somebody can go on, unless there is nothing to go on with. -/
theorem exists_step
    (hwf : WellFounded fun d c => d ∈ cs.asks c)
    (hsound : s.Sound)
    (hnested : ∀ j, (s.thread j).Nested cs)
    (hbusy : s.thread i ≠ .idle) :
    ∃ l u, l.2.GoesOn ∧ Steps (step cs) s l u := by
  by_contra hnone
  have hstuck : ∀ l u, l.2.GoesOn → ¬ Steps (step cs) s l u :=
    fun l u hgoes hstep => hnone ⟨l, u, hgoes, hstep⟩
  have hchain : ∀ j c, s.mux_a c = some j →
      ∃ d, (∃ m, (s.thread j).want = some (d, m)) ∧
        Relation.TransGen (fun d c => d ∈ cs.asks c) d c := by
    intro j c hmux
    obtain ⟨w, hheld⟩ := (hsound.mux_iff c j).mp hmux
    have hbusy' : s.thread j ≠ .idle := by
      intro hidle
      rw [hidle] at hheld
      cases hheld
    obtain ⟨d, m, hwant, -⟩ := waits_of_stuck hbusy' hstuck
    exact ⟨d, ⟨m, hwant⟩, (hnested j).lt_of_held hwant hheld⟩
  obtain ⟨c, m, hwant, -⟩ := waits_of_stuck hbusy hstuck
  have hwaits : ∃ m, (s.thread i).want = some (c, m) := ⟨m, hwant⟩
  obtain ⟨k, d, ⟨m', hwant'⟩, hfree⟩ := LockOrder.exists_free hwf.transGen hchain hwaits
  have hbusy' : s.thread k ≠ .idle := by
    intro hidle
    rw [hidle] at hwant'
    cases hwant'
  obtain ⟨e, m'', hwant'', htaken⟩ := waits_of_stuck hbusy' hstuck
  rw [hwant', Option.some.injEq, Prod.mk.injEq] at hwant''
  obtain ⟨rfl, rfl⟩ := hwant''
  obtain ⟨j, hj⟩ := Option.ne_none_iff_exists'.mp htaken
  exact hfree j hj

variable [Fintype THREAD]

/-- What all threads still have to do. -/
def System.work (weight : CLASS → Nat) (s : System CLASS THREAD) : Nat :=
  ∑ i, (s.thread i).work weight

omit [DecidableEq CLASS] [DecidableEq THREAD] [Fintype THREAD] in
theorem weighs_weight
    (hwf : WellFounded fun d c => d ∈ cs.asks c) :
    cs.Weighs (LockOrder.weight hwf 2) :=
  fun c => LockOrder.weight_eq hwf 2 c

/-- Steps that go on lower what is left to do. -/
theorem work_lt_of_step
    {weight : CLASS → Nat} {l : THREAD × Action CLASS}
    (hweight : cs.Weighs weight)
    (hgoes : l.2.GoesOn)
    (hstep : Steps (step cs) s l t) :
    t.work weight < s.work weight := by
  obtain ⟨hadv, hothers⟩ := (step_cases hstep).advances hgoes
  refine Finset.sum_lt_sum (fun j _ => ?_) ⟨l.1, Finset.mem_univ _, hadv.work_lt hweight⟩
  by_cases hj : j = l.1
  · rw [hj]
    exact (hadv.work_lt hweight).le
  · rw [hothers j hj]

/-- A run that only goes on is no longer than what was left to do. -/
theorem length_add_work_le
    {weight : CLASS → Nat} {ls : List (THREAD × Action CLASS)}
    (hweight : cs.Weighs weight)
    (hgoes : ∀ l ∈ ls, l.2.GoesOn)
    (hrun : Run (Steps (step cs)) s ls t) :
    ls.length + t.work weight ≤ s.work weight := by
  have hguarded : Run (Guarded (fun _ l _ => l.2.GoesOn) (Steps (step cs))) s ls t :=
    hrun.guarded fun l hl _ _ => hgoes l hl
  refine hguarded.length_add_le (fun _ => True) (·.work weight) (fun _ _ => trivial) ?_ trivial
  rintro s l t - ⟨hgoes, hstep⟩
  exact work_lt_of_step hweight hgoes hstep

/-- **All calls come to an end** where the constructors and destructors of the classes ask
for each other's singletons in an order.  From whatever state any interleaving of any calls
has led to, the steps that only go on with the calls are bounded in number, and until no
thread is in a call any more one of them is possible; so no threads wait for each other. -/
theorem calls_end
    {ls : List (THREAD × Action CLASS)}
    (hwf : WellFounded fun d c => d ∈ cs.asks c)
    (hrun : Run (Steps (step cs)) System.init ls s) :
    ∃ n, ∀ ls' t, Run (Steps (step cs)) s ls' t → (∀ l ∈ ls', l.2.GoesOn) →
      ls'.length ≤ n ∧
        ((∀ i, t.thread i = .idle) ∨ ∃ l u, l.2.GoesOn ∧ Steps (step cs) t l u) := by
  refine ⟨s.work (LockOrder.weight hwf 2), fun ls' t hrun' hgoes => ⟨?_, ?_⟩⟩
  · have hlength := length_add_work_le (weighs_weight hwf) hgoes hrun'
    omega
  · have hinv : t.Sound ∧ ∀ j, (t.thread j).Nested cs := by
      refine (hrun.append hrun').invariant
        (fun s => s.Sound ∧ ∀ j, (s.thread j).Nested cs) ?_ ⟨sound_init, fun _ => nested_idle cs⟩
      rintro s l u ⟨hsound, hnested⟩ hstep
      exact ⟨hsound.step hstep, nested_step hnested hstep⟩
    by_cases hidle : ∀ i, t.thread i = .idle
    · exact .inl hidle
    · obtain ⟨i, hbusy⟩ := not_forall.mp hidle
      exact .inr (exists_step hwf hinv.1 hinv.2 hbusy)

/-- One thread has asked for the other singleton, which the other thread is constructing. -/
theorem calls_end_example :
    ∃ s : System (Fin 2) (Fin 2),
      Run (Steps (step userOfOther)) System.init (twoThreads.take 5) s ∧
      s.mux_a 0 = some 1 ∧ (s.thread 0).want = some (0, .getInstance) ∧
      ∃ l u, l.2.GoesOn ∧ Steps (step userOfOther) s l u := by
  have hrun : Run (Steps (step userOfOther))
      (System.init : System (Fin 2) (Fin 2)) (twoThreads.take 5) _ :=
    run_of_exec rfl
  have hwf : WellFounded fun d c => d ∈ userOfOther.asks c := by
    refine Subrelation.wf (fun {d c} h => ?_) (measure Fin.val).wf
    change d.val < c.val
    revert d c
    decide
  obtain ⟨n, hbound⟩ := calls_end hwf hrun
  refine ⟨_, hrun, rfl, rfl, ?_⟩
  refine (hbound [] _ (.nil _) fun l hl => absurd hl List.not_mem_nil).2.resolve_left fun h => ?_
  exact absurd (h 0) (by decide)

end Progress

end Singleton
end Bren
end Brenlib
