import Brenlib.Base.TransitionSystem
import Mathlib.Tactic

/-!
# `Singleton`: one object of a class, and its mutex

The model follows `hdr/bren/Singleton.hpp`.  Every class that is used as `T` has its own
`instance_a` and `mux_a`.  What its constructor and its destructor do is not part of the
template; they may ask for other singletons with `instance()`, one after the other, and do
so while the mutex of their class is held.

* `advance`: one step of a thread.  `lock` takes the mutex of the method that has been
  called; where there is nothing to construct or to destroy the method returns at once.
* `StepCases`: what one step can do.
* `Sound`: which thread holds which mutex, and where there is an object.

The objects are numbered in the order in which they are made.  `made`, `deleted` and
`returned` record what has been constructed, what has been destroyed, and what
`instance()` has returned.
-/

namespace Brenlib
namespace Bren
namespace Singleton

open TransitionSystem

/-- The classes, with the singletons that their constructors and their destructors ask
for. -/
structure Classes (CLASS : Type) where
  ctor : CLASS → List CLASS
  dtor : CLASS → List CLASS

inductive Method where
  | getInstance
  | close
  | isConstructed
deriving DecidableEq, Repr

/-- What is going on between the two ends of a lock guard. -/
inductive Work where
  | construct
  | destroy
deriving DecidableEq, Repr

/-- A method in which an object is constructed or destroyed, with the singletons that are
still to be asked for. -/
structure Frame (CLASS : Type) where
  cls : CLASS
  work : Work
  todo : List CLASS
deriving DecidableEq, Repr

/-- A thread: the method whose mutex it waits for, and the methods it is in, the innermost
one first. -/
structure Thread (CLASS : Type) where
  want : Option (CLASS × Method)
  stack : List (Frame CLASS)
deriving DecidableEq, Repr

/-- No method is being executed. -/
def Thread.idle {CLASS : Type} : Thread CLASS :=
  ⟨none, []⟩

/-- What all classes and threads have in common. -/
structure System (CLASS THREAD : Type) where
  instance_a : CLASS → Option Nat
  mux_a : CLASS → Option THREAD
  handlers : List CLASS
  thread : THREAD → Thread CLASS
  made : List CLASS
  deleted : List CLASS
  returned : List (CLASS × Nat)

variable {CLASS THREAD : Type}

/-- The state in front of the first call. -/
def System.init : System CLASS THREAD where
  instance_a := fun _ => none
  mux_a := fun _ => none
  handlers := []
  thread := fun _ => .idle
  made := []
  deleted := []
  returned := []

/-- A step of a thread. -/
inductive Action (CLASS : Type) where
  | call (c : CLASS) (m : Method)
  | lock
  | ask
  | finish
deriving DecidableEq, Repr

/-- A step goes on with a call; it is not a new one. -/
def Action.GoesOn : Action CLASS → Prop
  | .call _ _ => False
  | _ => True

section Steps

variable [DecidableEq CLASS] [DecidableEq THREAD]

/-- The thread `i` goes on as `th`. -/
def System.goto (s : System CLASS THREAD) (i : THREAD) (th : Thread CLASS) :
    System CLASS THREAD :=
  { s with thread := Function.update s.thread i th }

/-- The thread `i` enters a method and keeps the mutex. -/
def System.enter (s : System CLASS THREAD) (i : THREAD) (f : Frame CLASS) :
    System CLASS THREAD :=
  { s.goto i ⟨none, f :: (s.thread i).stack⟩ with
    mux_a := Function.update s.mux_a f.cls (some i) }

/-- The thread `i` leaves a method that it has only looked into. -/
def System.leave (s : System CLASS THREAD) (i : THREAD) : System CLASS THREAD :=
  s.goto i ⟨none, (s.thread i).stack⟩

/-- `instance_a = new T()` and `atexit` behind the constructor, and the end of
`instance()`. -/
def System.constructed (s : System CLASS THREAD) (i : THREAD) (c : CLASS)
    (rest : List (Frame CLASS)) : System CLASS THREAD :=
  { s.goto i ⟨none, rest⟩ with
    instance_a := Function.update s.instance_a c (some s.made.length)
    mux_a := Function.update s.mux_a c none
    handlers := c :: s.handlers
    made := s.made ++ [c]
    returned := s.returned ++ [(c, s.made.length)] }

/-- `instance_a = nullptr` behind the destructor, and the end of `close()`. -/
def System.destroyed (s : System CLASS THREAD) (i : THREAD) (c : CLASS)
    (rest : List (Frame CLASS)) : System CLASS THREAD :=
  { s.goto i ⟨none, rest⟩ with
    instance_a := Function.update s.instance_a c none
    mux_a := Function.update s.mux_a c none
    deleted := s.deleted ++ [c] }

/-- A method behind the lock guard. -/
def locked (cs : Classes CLASS) (s : System CLASS THREAD) (i : THREAD) (c : CLASS) :
    Method → System CLASS THREAD
  | .getInstance =>
      match s.instance_a c with
      | none => s.enter i ⟨c, .construct, cs.ctor c⟩
      | some p => { s.leave i with returned := s.returned ++ [(c, p)] }
  | .close =>
      match s.instance_a c with
      | none => s.leave i
      | some _ => s.enter i ⟨c, .destroy, cs.dtor c⟩
  | .isConstructed => s.leave i

/-- A step of the thread `i`. -/
def advance (cs : Classes CLASS) (s : System CLASS THREAD) (i : THREAD) :
    Action CLASS → Option (System CLASS THREAD)
  | .call c m =>
      if s.thread i = .idle then some (s.goto i ⟨some (c, m), []⟩) else none
  | .lock =>
      match (s.thread i).want with
      | none => none
      | some (c, m) => if s.mux_a c = none then some (locked cs s i c m) else none
  | .ask =>
      match s.thread i with
      | ⟨none, ⟨c, w, d :: todo⟩ :: rest⟩ =>
          some (s.goto i ⟨some (d, .getInstance), ⟨c, w, todo⟩ :: rest⟩)
      | _ => none
  | .finish =>
      match s.thread i with
      | ⟨none, ⟨c, .construct, []⟩ :: rest⟩ => some (s.constructed i c rest)
      | ⟨none, ⟨c, .destroy, []⟩ :: rest⟩ => some (s.destroyed i c rest)
      | _ => none

/-- A step of one of the threads. -/
def step (cs : Classes CLASS) (s : System CLASS THREAD) (l : THREAD × Action CLASS) :
    Option (System CLASS THREAD) :=
  advance cs s l.1 l.2

/-- What one step can do. -/
inductive StepCases (cs : Classes CLASS) (s : System CLASS THREAD) (i : THREAD) :
    Action CLASS → System CLASS THREAD → Prop
  | called
      (c : CLASS) (m : Method)
      (hidle : s.thread i = .idle) :
      StepCases cs s i (.call c m) (s.goto i ⟨some (c, m), []⟩)
  | constructs
      (c : CLASS)
      (hwant : (s.thread i).want = some (c, .getInstance))
      (hfree : s.mux_a c = none)
      (hnone : s.instance_a c = none) :
      StepCases cs s i .lock (s.enter i ⟨c, .construct, cs.ctor c⟩)
  | found
      (c : CLASS) (p : Nat)
      (hwant : (s.thread i).want = some (c, .getInstance))
      (hfree : s.mux_a c = none)
      (hsome : s.instance_a c = some p) :
      StepCases cs s i .lock { s.leave i with returned := s.returned ++ [(c, p)] }
  | destroys
      (c : CLASS) (p : Nat)
      (hwant : (s.thread i).want = some (c, .close))
      (hfree : s.mux_a c = none)
      (hsome : s.instance_a c = some p) :
      StepCases cs s i .lock (s.enter i ⟨c, .destroy, cs.dtor c⟩)
  | looked
      (c : CLASS) (m : Method)
      (hwant : (s.thread i).want = some (c, m))
      (hfree : s.mux_a c = none)
      (hnothing : m = .isConstructed ∨ m = .close ∧ s.instance_a c = none) :
      StepCases cs s i .lock (s.leave i)
  | asked
      (c d : CLASS) (w : Work) (todo : List CLASS) (rest : List (Frame CLASS))
      (hthread : s.thread i = ⟨none, ⟨c, w, d :: todo⟩ :: rest⟩) :
      StepCases cs s i .ask (s.goto i ⟨some (d, .getInstance), ⟨c, w, todo⟩ :: rest⟩)
  | constructed
      (c : CLASS) (rest : List (Frame CLASS))
      (hthread : s.thread i = ⟨none, ⟨c, .construct, []⟩ :: rest⟩) :
      StepCases cs s i .finish (s.constructed i c rest)
  | destroyed
      (c : CLASS) (rest : List (Frame CLASS))
      (hthread : s.thread i = ⟨none, ⟨c, .destroy, []⟩ :: rest⟩) :
      StepCases cs s i .finish (s.destroyed i c rest)

variable {cs : Classes CLASS} {s t : System CLASS THREAD} {i : THREAD} {a : Action CLASS}

theorem locked_cases
    {c : CLASS} {m : Method}
    (hwant : (s.thread i).want = some (c, m))
    (hfree : s.mux_a c = none) :
    StepCases cs s i .lock (locked cs s i c m) := by
  cases m with
  | getInstance =>
      rw [locked]
      cases hinst : s.instance_a c with
      | none => exact .constructs c hwant hfree hinst
      | some p => exact .found c p hwant hfree hinst
  | close =>
      rw [locked]
      cases hinst : s.instance_a c with
      | none => exact .looked c .close hwant hfree (.inr ⟨rfl, hinst⟩)
      | some p => exact .destroys c p hwant hfree hinst
  | isConstructed =>
      exact .looked c .isConstructed hwant hfree (.inl rfl)

theorem step_cases
    (h : advance cs s i a = some t) :
    StepCases cs s i a t := by
  cases a with
  | call c m =>
      obtain ⟨hidle, heq⟩ := Option.ite_none_right_eq_some.mp h
      obtain rfl := Option.some.inj heq
      exact .called c m hidle
  | lock =>
      rw [advance] at h
      split at h
      · cases h
      · rename_i c m hwant
        obtain ⟨hfree, heq⟩ := Option.ite_none_right_eq_some.mp h
        obtain rfl := Option.some.inj heq
        exact locked_cases hwant hfree
  | ask =>
      rw [advance] at h
      split at h
      · rename_i c w d todo rest hthread
        obtain rfl := Option.some.inj h
        exact .asked c d w todo rest hthread
      · cases h
  | finish =>
      rw [advance] at h
      split at h
      · rename_i c rest hthread
        obtain rfl := Option.some.inj h
        exact .constructed c rest hthread
      · rename_i c rest hthread
        obtain rfl := Option.some.inj h
        exact .destroyed c rest hthread
      · cases h

end Steps

section Ownership

/-- The classes whose mutexes a thread holds, and what it does with them. -/
def Thread.held (th : Thread CLASS) : List (CLASS × Work) :=
  th.stack.map fun f => (f.cls, f.work)

/-- A mutex is held by the thread that is in a method of its class, and an object is there
while one is destroyed, but not while one is constructed. -/
structure System.Sound (s : System CLASS THREAD) : Prop where
  mux_iff : ∀ c i, s.mux_a c = some i ↔ ∃ w, (c, w) ∈ (s.thread i).held
  nodup : ∀ i, ((s.thread i).held.map Prod.fst).Nodup
  absent : ∀ i c, (c, .construct) ∈ (s.thread i).held → s.instance_a c = none
  present : ∀ i c, (c, .destroy) ∈ (s.thread i).held → s.instance_a c ≠ none

theorem sound_init :
    (System.init : System CLASS THREAD).Sound where
  mux_iff c i := by
    constructor
    · intro h
      cases h
    · rintro ⟨w, h⟩
      cases h
  nodup _ := List.nodup_nil
  absent _ _ h := absurd h List.not_mem_nil
  present _ _ h := absurd h List.not_mem_nil

variable {s t : System CLASS THREAD} {i j : THREAD}

/-- A step that takes no mutex, gives none back and leaves the objects alone. -/
theorem System.Sound.aside
    (h : s.Sound)
    (hmux : t.mux_a = s.mux_a)
    (hinst : t.instance_a = s.instance_a)
    (hheld : ∀ j, (t.thread j).held = (s.thread j).held) :
    t.Sound where
  mux_iff c j := by
    rw [hmux, hheld]
    exact h.mux_iff c j
  nodup j := by
    rw [hheld]
    exact h.nodup j
  absent j c hmem := by
    rw [hheld] at hmem
    rw [hinst]
    exact h.absent j c hmem
  present j c hmem := by
    rw [hheld] at hmem
    rw [hinst]
    exact h.present j c hmem

/-- A mutex that is free is held by no thread. -/
theorem System.Sound.not_held
    (h : s.Sound)
    {c : CLASS}
    (hfree : s.mux_a c = none)
    (j : THREAD) (w : Work) :
    (c, w) ∉ (s.thread j).held := by
  intro hmem
  have hsome := (h.mux_iff c j).mpr ⟨w, hmem⟩
  rw [hfree] at hsome
  cases hsome

variable [DecidableEq THREAD]

@[simp] theorem goto_self
    (s : System CLASS THREAD) (i : THREAD) (th : Thread CLASS) :
    (s.goto i th).thread i = th :=
  Function.update_self ..

theorem goto_of_ne
    (hne : j ≠ i)
    (s : System CLASS THREAD) (th : Thread CLASS) :
    (s.goto i th).thread j = s.thread j :=
  Function.update_of_ne hne ..

/-- A thread that goes on with the same mutexes. -/
theorem held_goto
    {th : Thread CLASS}
    (hheld : th.held = (s.thread i).held)
    (j : THREAD) :
    ((s.goto i th).thread j).held = (s.thread j).held := by
  by_cases hj : j = i
  · subst hj
    rw [goto_self, hheld]
  · rw [goto_of_ne hj]

variable [DecidableEq CLASS] {cs : Classes CLASS} {a : Action CLASS}

theorem System.Sound.enter
    (h : s.Sound)
    {c : CLASS} {w : Work}
    (hfree : s.mux_a c = none)
    (hinst : s.instance_a c = none ↔ w = .construct)
    (todo : List CLASS) :
    (s.enter i ⟨c, w, todo⟩).Sound := by
  have hself : ((s.enter i ⟨c, w, todo⟩).thread i).held = (c, w) :: (s.thread i).held := by
    change ((s.goto i _).thread i).held = _
    rw [goto_self]
    rfl
  have hother {j : THREAD} (hj : j ≠ i) :
      ((s.enter i ⟨c, w, todo⟩).thread j).held = (s.thread j).held := by
    change ((s.goto i _).thread j).held = _
    rw [goto_of_ne hj]
  have hinstance : ∀ j d w', (d, w') ∈ ((s.enter i ⟨c, w, todo⟩).thread j).held →
      (d, w') = (c, w) ∨ (d, w') ∈ (s.thread j).held := by
    intro j d w' hmem
    by_cases hj : j = i
    · subst hj
      rw [hself] at hmem
      exact List.mem_cons.mp hmem
    · rw [hother hj] at hmem
      exact .inr hmem
  refine ⟨fun d j => ?_, fun j => ?_, fun j d hmem => ?_, fun j d hmem => ?_⟩
  · change Function.update s.mux_a c (some i) d = some j ↔ _
    by_cases hd : d = c
    · subst hd
      rw [Function.update_self, Option.some.injEq]
      constructor
      · rintro rfl
        exact ⟨w, by rw [hself]; exact List.mem_cons_self⟩
      · rintro ⟨w', hmem⟩
        by_contra hne
        rw [hother (Ne.symm hne)] at hmem
        exact h.not_held hfree j w' hmem
    · rw [Function.update_of_ne hd, h.mux_iff]
      by_cases hj : j = i
      · subst hj
        rw [hself]
        simp [hd]
      · rw [hother hj]
  · by_cases hj : j = i
    · subst hj
      rw [hself, List.map_cons, List.nodup_cons]
      refine ⟨fun hmem => ?_, h.nodup j⟩
      obtain ⟨⟨d, w'⟩, hheld, rfl⟩ := List.mem_map.mp hmem
      exact h.not_held hfree j w' hheld
    · rw [hother hj]
      exact h.nodup j
  · rcases hinstance j d .construct hmem with heq | hmem
    · obtain ⟨rfl, rfl⟩ := Prod.mk.inj heq
      exact hinst.mpr rfl
    · exact h.absent j d hmem
  · rcases hinstance j d .destroy hmem with heq | hmem
    · obtain ⟨rfl, rfl⟩ := Prod.mk.inj heq
      exact fun hnone => absurd (hinst.mp hnone) (by decide)
    · exact h.present j d hmem

/-- A method that gives its mutex back, behind a change of its own object. -/
theorem System.Sound.exit
    (h : s.Sound)
    {c : CLASS} {w : Work} {rest : List (Frame CLASS)}
    (hthread : s.thread i = ⟨none, ⟨c, w, []⟩ :: rest⟩)
    (hthreads : t.thread = (s.goto i ⟨none, rest⟩).thread)
    (hmux : t.mux_a = Function.update s.mux_a c none)
    (hinst : ∀ d ≠ c, t.instance_a d = s.instance_a d) :
    t.Sound := by
  have hheld : (s.thread i).held = (c, w) :: (⟨none, rest⟩ : Thread CLASS).held := by
    rw [hthread]
    rfl
  have hmine : s.mux_a c = some i :=
    (h.mux_iff c i).mpr ⟨w, by rw [hheld]; exact List.mem_cons_self⟩
  have hnodup := h.nodup i
  rw [hheld, List.map_cons, List.nodup_cons] at hnodup
  have hself : (t.thread i).held = (⟨none, rest⟩ : Thread CLASS).held := by
    rw [hthreads, goto_self]
  have hother {j : THREAD} (hj : j ≠ i) : (t.thread j).held = (s.thread j).held := by
    rw [hthreads, goto_of_ne hj]
  have hgone : ∀ j w', (c, w') ∉ (t.thread j).held := by
    intro j w' hmem
    by_cases hj : j = i
    · subst hj
      rw [hself] at hmem
      exact hnodup.1 (List.mem_map.mpr ⟨_, hmem, rfl⟩)
    · rw [hother hj] at hmem
      have hsome := (h.mux_iff c j).mpr ⟨w', hmem⟩
      rw [hmine, Option.some.injEq] at hsome
      exact hj hsome.symm
  have hstays : ∀ j d w', (d, w') ∈ (t.thread j).held ↔ d ≠ c ∧ (d, w') ∈ (s.thread j).held := by
    intro j d w'
    by_cases hd : d = c
    · subst hd
      simp [hgone j w']
    · by_cases hj : j = i
      · subst hj
        rw [hself, hheld]
        simp [hd]
      · rw [hother hj]
        simp [hd]
  refine ⟨fun d j => ?_, fun j => ?_, fun j d hmem => ?_, fun j d hmem => ?_⟩
  · rw [hmux]
    by_cases hd : d = c
    · subst hd
      rw [Function.update_self]
      constructor
      · intro hnone
        cases hnone
      · rintro ⟨w', hmem⟩
        exact absurd hmem (hgone j w')
    · rw [Function.update_of_ne hd, h.mux_iff]
      simp only [hstays, ne_eq, hd, not_false_eq_true, true_and]
  · by_cases hj : j = i
    · subst hj
      rw [hself]
      exact hnodup.2
    · rw [hother hj]
      exact h.nodup j
  · obtain ⟨hd, hmem⟩ := (hstays j d _).mp hmem
    rw [hinst d hd]
    exact h.absent j d hmem
  · obtain ⟨hd, hmem⟩ := (hstays j d _).mp hmem
    rw [hinst d hd]
    exact h.present j d hmem

/-- Every step keeps the mutexes and the objects in order. -/
theorem StepCases.sound
    (hcases : StepCases cs s i a t)
    (h : s.Sound) :
    t.Sound := by
  cases hcases with
  | called c m hidle =>
      refine h.aside rfl rfl (held_goto ?_)
      rw [hidle]
      rfl
  | constructs c hwant hfree hnone =>
      exact h.enter hfree (by simp [hnone]) (cs.ctor c)
  | found c p hwant hfree hsome =>
      exact h.aside rfl rfl (held_goto rfl)
  | destroys c p hwant hfree hsome =>
      exact h.enter hfree (by simp [hsome]) (cs.dtor c)
  | looked c m hwant hfree hnothing =>
      exact h.aside rfl rfl (held_goto rfl)
  | asked c d w todo rest hthread =>
      refine h.aside rfl rfl (held_goto ?_)
      rw [hthread]
      rfl
  | constructed c rest hthread =>
      exact h.exit hthread rfl rfl fun d hd => Function.update_of_ne hd ..
  | destroyed c rest hthread =>
      exact h.exit hthread rfl rfl fun d hd => Function.update_of_ne hd ..

theorem System.Sound.step
    {l : THREAD × Action CLASS}
    (h : s.Sound)
    (hstep : Steps (step cs) s l t) :
    t.Sound :=
  (step_cases hstep).sound h

end Ownership

end Singleton
end Bren
end Brenlib
