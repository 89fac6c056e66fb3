import Brenlib.Bren.SingletonThreads

/-!
# Singletons at the end of the program

Every construction registers `close` with `atexit`, and `exit` calls the registered
functions, the last one first.  It is one thread that calls them, when the other ones are
in no call any more.

* `exitStep`: a step of that thread.
* `Built`: the singletons that a constructor asks for are registered before its own class.
* `Exiting`: how far `exit` has come.
* `exit_order`: a program that never closes a singleton itself gets them destroyed in the
  reverse order, and none of their destructors finds a singleton missing.
-/

namespace Brenlib
namespace Bren
namespace Singleton

open TransitionSystem

/-- A step of `exit`: the next function is called, or the call goes on. -/
inductive ExitAction where
  | handler
  | lock
  | ask
  | finish
deriving DecidableEq, Repr

variable {CLASS THREAD : Type} [DecidableEq CLASS] [DecidableEq THREAD]

def exitStep (cs : Classes CLASS) (main : THREAD) (s : System CLASS THREAD) :
    ExitAction → Option (System CLASS THREAD)
  | .handler =>
      match s.handlers with
      | [] => none
      | c :: rest =>
          if s.thread main = .idle then
            some { s.goto main ⟨some (c, .close), []⟩ with handlers := rest }
          else none
  | .lock => advance cs s main .lock
  | .ask => advance cs s main .ask
  | .finish => advance cs s main .finish

variable {cs : Classes CLASS} {s s₀ t : System CLASS THREAD} {i main : THREAD}
variable {a : Action CLASS} {c d : CLASS}

section Construction

/-- What the constructors in progress have asked for has been made, or is what the method
above is about. -/
def Covers (cs : Classes CLASS) (made : List CLASS) : Option CLASS → List (Frame CLASS) → Prop
  | _, [] => True
  | above, f :: rest =>
      (∀ d ∈ cs.ctor f.cls, d ∈ f.todo ∨ d ∈ made ∨ above = some d) ∧
        Covers cs made (some f.cls) rest

omit [DecidableEq CLASS] in
theorem Covers.mono
    {made made' : List CLASS} {above above' : Option CLASS} {stack : List (Frame CLASS)}
    (h : Covers cs made above stack)
    (hmade : made ⊆ made')
    (habove : ∀ d, above = some d → d ∈ made' ∨ above' = some d) :
    Covers cs made' above' stack := by
  induction stack generalizing above above' with
  | nil =>
      trivial
  | cons f rest ih =>
      refine ⟨fun d hd => ?_, ih h.2 fun e he => .inr he⟩
      rcases h.1 d hd with htodo | hmem | hd'
      · exact .inl htodo
      · exact .inr (.inl (hmade hmem))
      · exact .inr (habove d hd')

/-- Every class in the list is in front of those that its constructor asks for. -/
def Ordered (cs : Classes CLASS) (handlers : List CLASS) : Prop :=
  ∀ l c r, handlers = l ++ c :: r → ∀ d ∈ cs.ctor c, d ∈ r

/-- Constructors and destructors call no other method than `instance()`. -/
def Thread.Outermost (th : Thread CLASS) : Prop :=
  ∀ c m, th.want = some (c, m) → m = .getInstance ∨ th.stack = []

/-- A program that closes no singleton itself. -/
structure System.Built (cs : Classes CLASS) (s : System CLASS THREAD) : Prop where
  handlers_eq : s.handlers = s.made.reverse
  ordered : Ordered cs s.handlers
  covers : ∀ i, Covers cs s.made ((s.thread i).want.map Prod.fst) (s.thread i).stack
  outermost : ∀ i, (s.thread i).Outermost

omit [DecidableEq CLASS] [DecidableEq THREAD] in
theorem built_init
    (cs : Classes CLASS) :
    (System.init : System CLASS THREAD).Built cs where
  handlers_eq := rfl
  ordered l c r h := absurd h (by simp [System.init])
  covers _ := trivial
  outermost _ c m h := by cases h

omit [DecidableEq CLASS] in
theorem Ordered.cons
    {handlers : List CLASS}
    (h : Ordered cs handlers)
    (hc : ∀ d ∈ cs.ctor c, d ∈ handlers) :
    Ordered cs (c :: handlers) := by
  intro l e r heq d hd
  cases l with
  | nil =>
      obtain ⟨rfl, rfl⟩ := List.cons.inj heq
      exact hc d hd
  | cons b l =>
      exact h l e r (List.cons.inj heq).2 d hd

omit [DecidableEq CLASS] in
/-- What a class leads to stands behind it. -/
theorem Ordered.mem_of_transGen
    {handlers l r : List CLASS}
    (h : Ordered cs handlers)
    (heq : handlers = l ++ c :: r)
    (hleads : Relation.TransGen (fun c d => d ∈ cs.ctor c) c d) :
    d ∈ r := by
  induction hleads with
  | single hd =>
      exact h l c r heq _ hd
  | @tail e d _ hd ih =>
      obtain ⟨l', r', rfl⟩ := List.append_of_mem ih
      refine List.mem_append_right _ (List.mem_cons_of_mem _ ?_)
      refine h (l ++ c :: l') e r' ?_ d hd
      rw [heq, List.append_assoc, List.cons_append]

omit [DecidableEq CLASS] in
/-- A thread goes on, and nothing is made. -/
theorem System.Built.goto
    {th : Thread CLASS}
    (h : s.Built cs)
    (hthreads : t.thread = (s.goto i th).thread)
    (hmade : t.made = s.made)
    (hhandlers : t.handlers = s.handlers)
    (hcovers : Covers cs s.made (th.want.map Prod.fst) th.stack)
    (houter : th.Outermost) :
    t.Built cs where
  handlers_eq := by rw [hmade, hhandlers, h.handlers_eq]
  ordered := by
    rw [hhandlers]
    exact h.ordered
  covers j := by
    rw [hthreads, hmade]
    by_cases hj : j = i
    · subst hj
      rw [goto_self]
      exact hcovers
    · rw [goto_of_ne hj]
      exact h.covers j
  outermost j := by
    rw [hthreads]
    by_cases hj : j = i
    · subst hj
      rw [goto_self]
      exact houter
    · rw [goto_of_ne hj]
      exact h.outermost j

omit [DecidableEq CLASS] in
theorem outermost_of_none
    (stack : List (Frame CLASS)) :
    (⟨none, stack⟩ : Thread CLASS).Outermost := by
  rintro c m ⟨⟩

theorem StepCases.built
    (hcases : StepCases cs s i a t)
    (hkept : ∀ c, s.Kept c)
    (hcounted : s.Counted)
    (h : s.Built cs) :
    t.Built cs := by
  have hcovers := h.covers i
  cases hcases with
  | called d m hidle =>
      refine h.goto rfl rfl rfl trivial ?_
      exact fun _ _ _ => .inr rfl
  | constructs d hwant hfree hnone =>
      rw [hwant] at hcovers
      exact h.goto rfl rfl rfl ⟨fun e he => .inl he, hcovers⟩ (outermost_of_none _)
  | found d p hwant hfree hsome =>
      rw [hwant] at hcovers
      refine h.goto rfl rfl rfl (hcovers.mono (List.Subset.refl _) fun e he => ?_)
        (outermost_of_none _)
      obtain rfl := Option.some.inj he
      exact .inl (List.mem_of_getElem? (hcounted.numbered d p hsome))
  | destroys d p hwant hfree hsome =>
      exact absurd hwant ((hkept d).not_wanted i)
  | looked d m hwant hfree hnothing =>
      refine h.goto rfl rfl rfl ?_ (outermost_of_none _)
      have hstack : (s.thread i).stack = [] := by
        refine (h.outermost i d m hwant).resolve_left fun hget => ?_
        rcases hnothing with rfl | ⟨rfl, -⟩
        · cases hget
        · cases hget
      change Covers cs s.made none (s.thread i).stack
      rw [hstack]
      trivial
  | asked d e w todo rest hthread =>
      rw [hthread] at hcovers
      refine h.goto rfl rfl rfl ⟨fun b hb => ?_, hcovers.2⟩ ?_
      rcases hcovers.1 b hb with htodo | hmade | hnone
      · rcases List.mem_cons.mp htodo with rfl | hlater
        · exact .inr (.inr rfl)
        · exact .inl hlater
      · exact .inr (.inl hmade)
      · cases hnone
      · rintro b m ⟨⟩
        exact .inl rfl
  | constructed d rest hthread =>
      rw [hthread] at hcovers
      have hmade : ∀ e ∈ cs.ctor d, e ∈ s.made := by
        intro e he
        rcases hcovers.1 e he with htodo | hmem | hnone
        · cases htodo
        · exact hmem
        · cases hnone
      refine ⟨?_, ?_, fun j => ?_, fun j => ?_⟩
      · change d :: s.handlers = (s.made ++ [d]).reverse
        rw [h.handlers_eq, List.reverse_append]
        rfl
      · refine h.ordered.cons fun e he => ?_
        rw [h.handlers_eq, List.mem_reverse]
        exact hmade e he
      · change Covers cs (s.made ++ [d]) (((s.goto i _).thread j).want.map Prod.fst)
          ((s.goto i _).thread j).stack
        by_cases hj : j = i
        · subst hj
          rw [goto_self]
          refine hcovers.2.mono (List.subset_append_left _ _) fun e he => ?_
          obtain rfl := Option.some.inj he
          exact .inl (List.mem_append_right _ (List.mem_singleton_self _))
        · rw [goto_of_ne hj]
          exact (h.covers j).mono (List.subset_append_left _ _) fun e he => .inr he
      · change ((s.goto i _).thread j).Outermost
        by_cases hj : j = i
        · subst hj
          rw [goto_self]
          exact outermost_of_none rest
        · rw [goto_of_ne hj]
          exact h.outermost j
  | destroyed d rest hthread =>
      refine absurd ?_ ((hkept d).not_held i)
      rw [hthread]
      exact List.mem_cons_self

end Construction

section Exit

/-- What the thread of `exit` is doing: the class that it closes, if it closes one, and how
many steps that still takes. -/
inductive Closing (cs : Classes CLASS) : List CLASS → Thread CLASS → Nat → Prop
  | between :
      Closing cs [] .idle 0
  | called
      (c : CLASS) :
      Closing cs [c] ⟨some (c, .close), []⟩ (2 + 2 * (cs.dtor c).length)
  | inside
      (c : CLASS) (todo : List CLASS)
      (htodo : todo ⊆ cs.dtor c) :
      Closing cs [c] ⟨none, [⟨c, .destroy, todo⟩]⟩ (1 + 2 * todo.length)
  | asking
      (c d : CLASS) (todo : List CLASS)
      (hd : d ∈ cs.dtor c)
      (htodo : todo ⊆ cs.dtor c) :
      Closing cs [c] ⟨some (d, .getInstance), [⟨c, .destroy, todo⟩]⟩ (2 + 2 * todo.length)

/-- `exit` behind some steps: the class in `pending` is being closed. -/
structure Exiting (cs : Classes CLASS) (main : THREAD) (s₀ s : System CLASS THREAD)
    (pending : List CLASS) (n : Nat) : Prop where
  sound : s.Sound
  others : ∀ j ≠ main, s.thread j = .idle
  made : s.made = s₀.made
  split : s₀.handlers = s.deleted ++ (pending ++ s.handlers)
  alive : ∀ c, s.instance_a c ≠ none ↔ c ∈ pending ++ s.handlers
  closing : Closing cs pending (s.thread main) n

/-- The steps that `exit` takes for a list of functions. -/
def exitCost (cs : Classes CLASS) (handlers : List CLASS) : Nat :=
  (handlers.map fun c => 3 + 2 * (cs.dtor c).length).sum

/-- What a program that is about to end has built, and what its destructors ask for. -/
structure Ready (cs : Classes CLASS) (s₀ : System CLASS THREAD) : Prop where
  ordered : Ordered cs s₀.handlers
  nodup : s₀.handlers.Nodup
  dtor : ∀ c, ∀ d ∈ cs.dtor c, Relation.TransGen (fun c d => d ∈ cs.ctor c) c d

variable {pending : List CLASS} {n : Nat} {todo : List CLASS} {w : Work}

omit [DecidableEq CLASS] [DecidableEq THREAD] in
/-- The singletons that a destructor asks for are still there. -/
theorem Exiting.mem_handlers
    (h : Exiting cs main s₀ s [c] n)
    (hready : Ready cs s₀)
    (hd : d ∈ cs.dtor c) :
    d ∈ s.handlers :=
  hready.ordered.mem_of_transGen h.split (hready.dtor c d hd)

omit [DecidableEq CLASS] [DecidableEq THREAD] in
theorem Exiting.free
    (h : Exiting cs main s₀ s pending n)
    (hnot : ∀ w, (c, w) ∉ (s.thread main).held) :
    s.mux_a c = none := by
  by_contra htaken
  obtain ⟨j, hj⟩ := Option.ne_none_iff_exists'.mp htaken
  obtain ⟨w, hheld⟩ := (h.sound.mux_iff c j).mp hj
  by_cases hmain : j = main
  · subst hmain
    exact hnot w hheld
  · rw [h.others j hmain] at hheld
    cases hheld

omit [DecidableEq CLASS] in
/-- The thread of `exit` goes on, and the objects stay as they are. -/
theorem Exiting.goto
    {th : Thread CLASS} {pending' : List CLASS} {m : Nat}
    (h : Exiting cs main s₀ s pending n)
    (hthreads : t.thread = (s.goto main th).thread)
    (hsound : t.Sound)
    (hmade : t.made = s.made)
    (hdeleted : t.deleted = s.deleted)
    (hinst : t.instance_a = s.instance_a)
    (hhandlers : pending' ++ t.handlers = pending ++ s.handlers)
    (hclosing : Closing cs pending' th m) :
    Exiting cs main s₀ t pending' m where
  sound := hsound
  others j hj := by
    rw [hthreads, goto_of_ne hj]
    exact h.others j hj
  made := hmade.trans h.made
  split := by
    rw [hdeleted, hhandlers]
    exact h.split
  alive c := by
    rw [hinst, hhandlers]
    exact h.alive c
  closing := by
    rw [hthreads, goto_self]
    exact hclosing

/-- The next function is called. -/
theorem Exiting.handler
    (h : Exiting cs main s₀ s pending n)
    (hstep : exitStep cs main s .handler = some t) :
    ∃ pending' n', Exiting cs main s₀ t pending' n' ∧
      exitCost cs t.handlers + n' + 1 = exitCost cs s.handlers + n := by
  rw [exitStep] at hstep
  split at hstep
  · cases hstep
  · rename_i c rest hhandlers
    obtain ⟨hidle, heq⟩ := Option.ite_none_right_eq_some.mp hstep
    obtain rfl := Option.some.inj heq
    have hclosing := h.closing
    rw [hidle] at hclosing
    cases hclosing with
    | between =>
        refine ⟨[c], _, h.goto rfl ?_ rfl rfl rfl ?_ (.called c), ?_⟩
        · refine h.sound.aside rfl rfl (held_goto ?_)
          rw [hidle]
          rfl
        · exact hhandlers.symm
        · simp only [exitCost, hhandlers, List.map_cons, List.sum_cons]
          omega

/-- The lock guard of a method is passed. -/
theorem Exiting.lock
    (h : Exiting cs main s₀ s pending n)
    (hready : Ready cs s₀)
    (hcases : StepCases cs s main .lock t) :
    ∃ pending' n', Exiting cs main s₀ t pending' n' ∧
      exitCost cs t.handlers + n' + 1 = exitCost cs s.handlers + n := by
  have hsound := hcases.sound h.sound
  have hclosing := h.closing
  cases hcases with
  | constructs d hwant hfree hnone =>
      generalize hth : s.thread main = th at hclosing hwant
      cases hclosing with
      | asking c e todo he htodo =>
          cases hwant
          have hmem := h.mem_handlers hready he
          exact absurd hnone ((h.alive d).mpr (List.mem_cons_of_mem _ hmem))
      | _ => cases hwant
  | found d p hwant hfree hsome =>
      generalize hth : s.thread main = th at hclosing hwant
      cases hclosing with
      | asking c e todo he htodo =>
          have hinside : Closing cs [c] ⟨none, [⟨c, .destroy, todo⟩]⟩ _ := .inside c todo htodo
          refine ⟨[c], _, h.goto ?_ hsound rfl rfl rfl rfl hinside, ?_⟩
          · change (s.goto main ⟨none, (s.thread main).stack⟩).thread = _
            rw [hth]
          · change exitCost cs s.handlers + _ + 1 = _
            omega
      | _ => cases hwant
  | destroys d p hwant hfree hsome =>
      generalize hth : s.thread main = th at hclosing hwant
      cases hclosing with
      | called c =>
          cases hwant
          have hinside : Closing cs [d] ⟨none, [⟨d, .destroy, cs.dtor d⟩]⟩ _ :=
            .inside d (cs.dtor d) (List.Subset.refl _)
          refine ⟨[d], _, h.goto ?_ hsound rfl rfl rfl rfl hinside, ?_⟩
          · change (s.goto main ⟨none, _ :: (s.thread main).stack⟩).thread = _
            rw [hth]
          · change exitCost cs s.handlers + _ + 1 = _
            omega
      | _ => cases hwant
  | looked d m hwant hfree hnothing =>
      generalize hth : s.thread main = th at hclosing hwant
      cases hclosing with
      | called c =>
          cases hwant
          rcases hnothing with hm | ⟨-, hnone⟩
          · cases hm
          · exact absurd hnone ((h.alive d).mpr List.mem_cons_self)
      | asking c e todo he htodo =>
          cases hwant
          rcases hnothing with hm | ⟨hm, -⟩
          · cases hm
          · cases hm
      | _ => cases hwant

/-- A destructor asks for a singleton. -/
theorem Exiting.ask
    (h : Exiting cs main s₀ s pending n)
    (hcases : StepCases cs s main .ask t) :
    ∃ pending' n', Exiting cs main s₀ t pending' n' ∧
      exitCost cs t.handlers + n' + 1 = exitCost cs s.handlers + n := by
  have hsound := hcases.sound h.sound
  have hclosing := h.closing
  cases hcases with
  | asked c d w todo rest hthread =>
      rw [hthread] at hclosing
      cases hclosing with
      | inside _ _ htodo =>
          obtain ⟨hd, htodo⟩ := List.cons_subset.mp htodo
          refine ⟨[c], _, h.goto rfl hsound rfl rfl rfl rfl (.asking c d todo hd htodo), ?_⟩
          rw [List.length_cons]
          change exitCost cs s.handlers + _ + 1 = _
          omega

/-- A destructor is done. -/
theorem Exiting.finish
    (h : Exiting cs main s₀ s pending n)
    (hready : Ready cs s₀)
    (hcases : StepCases cs s main .finish t) :
    ∃ pending' n', Exiting cs main s₀ t pending' n' ∧
      exitCost cs t.handlers + n' + 1 = exitCost cs s.handlers + n := by
  have hsound := hcases.sound h.sound
  have hclosing := h.closing
  cases hcases with
  | constructed c rest hthread =>
      rw [hthread] at hclosing
      cases hclosing
  | destroyed c rest hthread =>
      rw [hthread] at hclosing
      cases hclosing with
      | inside _ _ htodo =>
          refine ⟨[], 0, ⟨hsound, fun j hj => ?_, h.made, ?_, fun d => ?_, ?_⟩, rfl⟩
          · change (s.goto main _).thread j = _
            rw [goto_of_ne hj]
            exact h.others j hj
          · rw [h.split]
            exact (List.append_assoc s.deleted [c] _).symm
          · change Function.update s.instance_a c none d ≠ none ↔ d ∈ s.handlers
            by_cases hd : d = c
            · subst hd
              have hnodup := hready.nodup
              rw [h.split] at hnodup
              have hnot : d ∉ s.handlers := (List.nodup_cons.mp hnodup.of_append_right).1
              simp [hnot]
            · rw [Function.update_of_ne hd, h.alive]
              simp [hd]
          · change Closing cs [] ((s.goto main _).thread main) 0
            rw [goto_self]
            exact .between

/-- Every step of `exit` is one of those that it takes. -/
theorem Exiting.step
    (h : Exiting cs main s₀ s pending n)
    (hready : Ready cs s₀)
    {a : ExitAction}
    (hstep : exitStep cs main s a = some t) :
    ∃ pending' n', Exiting cs main s₀ t pending' n' ∧
      exitCost cs t.handlers + n' + 1 = exitCost cs s.handlers + n := by
  cases a with
  | handler => exact h.handler hstep
  | lock => exact h.lock hready (step_cases hstep)
  | ask => exact h.ask (step_cases hstep)
  | finish => exact h.finish hready (step_cases hstep)

/-- Until everything has been closed, `exit` can go on. -/
theorem Exiting.goes_on
    (h : Exiting cs main s₀ s pending n)
    (hready : Ready cs s₀)
    (hnot : pending ++ s.handlers ≠ []) :
    ∃ a t, exitStep cs main s a = some t := by
  have hclosing := h.closing
  generalize hth : s.thread main = th at hclosing
  cases hclosing with
  | between =>
      obtain ⟨c, rest, hhandlers⟩ := List.exists_cons_of_ne_nil hnot
      rw [List.nil_append] at hhandlers
      refine ⟨.handler, { s.goto main ⟨some (c, .close), []⟩ with handlers := rest }, ?_⟩
      simp only [exitStep, hhandlers, if_pos hth]
  | called c =>
      have hfree : s.mux_a c = none := by
        refine h.free fun w hheld => ?_
        rw [hth] at hheld
        cases hheld
      refine ⟨.lock, locked cs s main c .close, ?_⟩
      simp only [exitStep, advance, hth, if_pos hfree]
  | inside c todo htodo =>
      cases todo with
      | nil =>
          refine ⟨.finish, s.destroyed main c [], ?_⟩
          simp only [exitStep, advance, hth]
      | cons d todo =>
          refine ⟨.ask, s.goto main ⟨some (d, .getInstance), [⟨c, .destroy, todo⟩]⟩, ?_⟩
          simp only [exitStep, advance, hth]
  | asking c d todo hd htodo =>
      have hfree : s.mux_a d = none := by
        refine h.free fun w hheld => ?_
        rw [hth] at hheld
        obtain ⟨rfl, -⟩ := Prod.mk.inj (List.mem_singleton.mp hheld)
        have hnodup := hready.nodup
        rw [h.split] at hnodup
        exact (List.nodup_cons.mp hnodup.of_append_right).1 (h.mem_handlers hready hd)
      refine ⟨.lock, locked cs s main d .getInstance, ?_⟩
      simp only [exitStep, advance, hth, if_pos hfree]

end Exit

section Result

variable {ls : List (THREAD × Action CLASS)}

/-- What a program has built that never closes a singleton itself. -/
theorem built_of_run
    (hrun : Run (Steps (step cs)) System.init ls s)
    (hclose : ∀ i c, (i, .call c .close) ∉ ls) :
    s.Built cs := by
  have hguarded : Run (Guarded (fun _ l _ => l ∈ ls) (Steps (step cs))) System.init ls s :=
    hrun.guarded fun l hl _ _ => hl
  refine (hguarded.invariant
    (fun s => (s.Sound ∧ s.Counted) ∧ (∀ c, s.Kept c) ∧ s.Built cs) ?_
    ⟨⟨sound_init, counted_init⟩, fun c => kept_init c, built_init cs⟩).2.2
  rintro s ⟨i, a⟩ u ⟨⟨hsound, hcounted⟩, hkept, hbuilt⟩ ⟨hmem, hstep⟩
  have hcases := step_cases hstep
  refine ⟨⟨hcases.sound hsound, hcases.counted hsound hcounted⟩, fun c => ?_,
    hcases.built hkept hcounted hbuilt⟩
  refine hcases.kept hsound ?_ (hkept c)
  rintro rfl
  exact hclose i c hmem

/-- Nothing has been destroyed, and there is one object of every class that has been
made. -/
theorem alive_of_run
    (hrun : Run (Steps (step cs)) System.init ls s)
    (hclose : ∀ i c, (i, .call c .close) ∉ ls) :
    s.Sound ∧ s.deleted = [] ∧ s.made.Nodup ∧ ∀ c, s.instance_a c ≠ none ↔ c ∈ s.made := by
  obtain ⟨hsound, hcounted⟩ := sound_of_run hrun
  have hdeleted : s.deleted = [] := by
    rw [List.eq_nil_iff_forall_not_mem]
    exact fun c => (kept_of_run hrun fun i => hclose i c).not_deleted
  have hcount (c : CLASS) : s.made.count c = if s.instance_a c = none then 0 else 1 := by
    rw [hcounted.count c, hdeleted, List.count_nil, Nat.zero_add]
  refine ⟨hsound, hdeleted, List.nodup_iff_count_le_one.mpr fun c => ?_, fun c => ?_⟩
  · rw [hcount]
    split <;> decide
  · rw [← List.count_pos_iff, hcount]
    split <;> simp_all

/-- **At the end of a program that never closes a singleton itself, the singletons are
destroyed in the reverse order of their construction**, each of them once, if a destructor
asks for no other singletons than those the constructor of its class has led to.  No
singleton is constructed meanwhile, none that a destructor asks for is missing, and `exit`
goes on until it has destroyed all of them, within a known number of steps. -/
theorem exit_order
    (hdtor : ∀ c, ∀ d ∈ cs.dtor c, Relation.TransGen (fun c d => d ∈ cs.ctor c) c d)
    (hrun : Run (Steps (step cs)) System.init ls s)
    (hclose : ∀ i c, (i, .call c .close) ∉ ls)
    (hidle : ∀ i, s.thread i = .idle)
    {ls' : List ExitAction}
    (hexit : Run (Steps (exitStep cs main)) s ls' t) :
    t.made = s.made ∧ t.deleted <+: s.made.reverse ∧
    (∀ c, (c, .destroy) ∈ (t.thread main).held → ∀ d ∈ cs.dtor c, t.instance_a d ≠ none) ∧
    ls'.length ≤ exitCost cs s.made.reverse ∧
    ((∃ a u, exitStep cs main t a = some u) ∨
      t.deleted = s.made.reverse ∧ ∀ c, t.instance_a c = none) := by
  have hbuilt := built_of_run hrun hclose
  obtain ⟨hsound, hdeleted, hnodup, halive⟩ := alive_of_run hrun hclose
  have hready : Ready cs s := by
    refine ⟨hbuilt.ordered, ?_, hdtor⟩
    rw [hbuilt.handlers_eq]
    exact List.nodup_reverse.mpr hnodup
  have hstart : Exiting cs main s s [] 0 := by
    refine ⟨hsound, fun j _ => hidle j, rfl, ?_, fun c => ?_, ?_⟩
    · rw [hdeleted]
      rfl
    · rw [halive, hbuilt.handlers_eq]
      exact List.mem_reverse.symm
    · rw [hidle]
      exact .between
  have hall : ∃ pending n, Exiting cs main s t pending n ∧
      exitCost cs t.handlers + n + ls'.length = exitCost cs s.handlers := by
    clear hidle
    induction hexit with
    | nil =>
        exact ⟨[], 0, hstart, rfl⟩
    | @snoc u v ls' a hinit hlast ih =>
        obtain ⟨pending, n, hexiting, hcost⟩ := ih
        obtain ⟨pending', n', hexiting', hcost'⟩ := hexiting.step hready hlast
        refine ⟨pending', n', hexiting', ?_⟩
        rw [List.length_append, List.length_singleton]
        omega
  obtain ⟨pending, n, hexiting, hcost⟩ := hall
  rw [← hbuilt.handlers_eq]
  refine ⟨hexiting.made, ⟨_, hexiting.split.symm⟩, fun c hheld d hd => ?_, by omega, ?_⟩
  · have hpending : pending = [c] := by
      have hclosing := hexiting.closing
      generalize t.thread main = th at hclosing hheld
      cases hclosing with
      | between => cases hheld
      | called c => cases hheld
      | inside c todo htodo =>
          obtain ⟨rfl, -⟩ := Prod.mk.inj (List.mem_singleton.mp hheld)
          rfl
      | asking c e todo he htodo =>
          obtain ⟨rfl, -⟩ := Prod.mk.inj (List.mem_singleton.mp hheld)
          rfl
    subst hpending
    exact (hexiting.alive d).mpr (List.mem_cons_of_mem _ (hexiting.mem_handlers hready hd))
  · by_cases hnot : pending ++ t.handlers = []
    · refine .inr ⟨?_, fun c => ?_⟩
      · rw [hexiting.split, hnot, List.append_nil]
      · by_contra hsome
        have hmem := (hexiting.alive c).mp hsome
        rw [hnot] at hmem
        cases hmem
    · exact .inl (hexiting.goes_on hready hnot)

/-- The class that asks for the other singleton is closed first. -/
theorem exit_order_example :
    ∃ s t : System (Fin 2) (Fin 2),
      Run (Steps (step userOfOther)) System.init twoThreads s ∧
      Run (Steps (exitStep userOfOther 0)) s
        [.handler, .lock, .ask, .lock, .finish, .handler, .lock, .finish] t ∧
      t.deleted = [1, 0] ∧ t.deleted <+: s.made.reverse := by
  let s : System (Fin 2) (Fin 2) := (exec (step userOfOther) System.init twoThreads).get rfl
  have hrun : Run (Steps (step userOfOther)) System.init twoThreads s := run_of_exec rfl
  have hexit : Run (Steps (exitStep userOfOther 0)) s
      [.handler, .lock, .ask, .lock, .finish, .handler, .lock, .finish] _ :=
    run_of_exec rfl
  have hdtor : ∀ c, ∀ d ∈ userOfOther.dtor c,
      Relation.TransGen (fun c d => d ∈ userOfOther.ctor c) c d :=
    fun _ _ hd => .single hd
  have hidle : ∀ i, s.thread i = .idle := by
    decide
  exact ⟨s, _, hrun, hexit, rfl, (exit_order hdtor hrun (by decide) hidle hexit).2.1⟩

end Result

end Singleton
end Bren
end Brenlib
