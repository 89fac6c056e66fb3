import Brenlib.Base.TransitionSystem
import Brenlib.Bren.Observable

/-!
# `Observable` used by several threads

The calls of `set` have numbers, from whatever thread they come and also when they come
from inside `observableChanged`.  What is done under the mutex is one step: all of
`addObserver` and `removeObserver`, and the beginning and the end of `set`.  In between
`set` goes through its copy of the list, one entry a step.

An observer that is being called is owned by the call, so it is destroyed only when the
call is over.

* `step`: one step of the system.
* `step_cases`: what one step can do.
* `Tidy`: no list has two entries of one observer.
-/

namespace Brenlib
namespace Bren
namespace Observable

open TransitionSystem

variable {T : Type}

/-- How far a call of `set` has been executed, with its parameter, `foundExpired` and
what is left of its copy of the list. -/
inductive Phase (T : Type) where
  | idle
  | notifying (value_i : T) (foundExpired : Bool) (otbn : List WeakPtr)
  | calling (value_i : T) (foundExpired : Bool) (spo : ObserverId) (otbn : List WeakPtr)
  | returned (changed : Bool)
  | threw (e : StdException)
deriving DecidableEq, Repr

/-- The entries that the call has not met yet. -/
def Phase.otbn : Phase T → List WeakPtr
  | .notifying _ _ otbn => otbn
  | .calling _ _ _ otbn => otbn
  | _ => []

/-- A call of `observableChanged`: the call of `set` that it comes from, the observer
and the value. -/
structure Delivery (T : Type) where
  call : Nat
  observer : ObserverId
  value : T
deriving DecidableEq, Repr

/-- The observable, who is alive, how many calls own an observer, the calls of `set`,
the values that have been stored by which call, and the calls of `observableChanged`. -/
structure System (T : Type) where
  observable : Observable T
  alive : ObserverId → Bool
  owners : ObserverId → Nat
  phase : Nat → Phase T
  stored : List (Nat × T)
  delivered : List (Delivery T)

/-- No call has begun. -/
def System.start (observable : Observable T) (alive : ObserverId → Bool) : System T where
  observable := observable
  alive := alive
  owners := fun _ => 0
  phase := fun _ => .idle
  stored := []
  delivered := []

/-- A new observable. -/
def System.init (value_i : T) (alive : ObserverId → Bool) : System T :=
  .start (Observable.init value_i) alive

/-- A step of some thread. -/
inductive Label (T : Type) where
  | addObserver (observer_i : WeakPtr)
  | removeObserver (observer_i : WeakPtr)
  | destroy (o : ObserverId)
  | set (i : Nat) (value_i : T)
  | notify (i : Nat)
  | answer (i : Nat) (outcome : Except StdException Unit)
  | finish (i : Nat)

section Steps

/-- The call `i` goes to the phase `p`. -/
def System.goto (s : System T) (i : Nat) (p : Phase T) : System T :=
  { s with phase := Function.update s.phase i p }

@[simp] theorem goto_self
    (s : System T) (i : Nat) (p : Phase T) :
    (s.goto i p).phase i = p := by
  simp [System.goto]

theorem goto_of_ne
    {i j : Nat} (hj : j ≠ i) (s : System T) (p : Phase T) :
    (s.goto i p).phase j = s.phase j := by
  simp [System.goto, hj]

/-- Who is in the copy of a call behind a change of phase. -/
theorem owed_goto
    {s : System T} {i j : Nat} {p : Phase T} {o : ObserverId}
    (h : some o ∈ ((s.goto j p).phase i).otbn) :
    some o ∈ (s.phase i).otbn ∨ i = j ∧ some o ∈ p.otbn := by
  by_cases hij : i = j
  · subst hij
    rw [goto_self] at h
    exact .inr ⟨rfl, h⟩
  · rw [goto_of_ne hij] at h
    exact .inl h

/-- A change of phase that keeps the observer in the copy. -/
theorem owed_goto_of
    {s : System T} {i j : Nat} {p : Phase T} {o : ObserverId}
    (hp : some o ∈ (s.phase j).otbn → some o ∈ p.otbn)
    (howed : some o ∈ (s.phase i).otbn) :
    some o ∈ ((s.goto j p).phase i).otbn := by
  by_cases hij : i = j
  · subst hij
    rw [goto_self]
    exact hp howed
  · rwa [goto_of_ne hij]

/-- `spo->observableChanged(value_)` begins. -/
def System.call (s : System T) (i : Nat) (spo : ObserverId) : System T :=
  { s with
    owners := Function.update s.owners spo (s.owners spo + 1)
    delivered := s.delivered ++ [⟨i, spo, s.observable.value_⟩] }

/-- `observableChanged` is over. -/
def System.release (s : System T) (spo : ObserverId) : System T :=
  { s with owners := Function.update s.owners spo (s.owners spo - 1) }

/-- No list has two entries of one observer. -/
structure Tidy (s : System T) : Prop where
  observers : Distinct s.observable
  copies : ∀ i, (s.phase i).otbn.Nodup

theorem tidy_init
    (value_i : T) (alive : ObserverId → Bool) :
    Tidy (System.init value_i alive) where
  observers := List.nodup_nil
  copies _ := List.nodup_nil

theorem Tidy.copy
    {s : System T} (h : Tidy s) {i : Nat} {p : Phase T} (hphase : s.phase i = p) :
    p.otbn.Nodup :=
  hphase ▸ h.copies i

theorem Tidy.goto
    {s : System T} (h : Tidy s) (i : Nat) (p : Phase T) (hp : p.otbn.Nodup) :
    Tidy (s.goto i p) where
  observers := h.observers
  copies j := by
    by_cases hj : j = i
    · rwa [hj, goto_self]
    · rw [goto_of_ne hj]
      exact h.copies j

theorem Tidy.call
    {s : System T} (h : Tidy s) (i : Nat) (spo : ObserverId) :
    Tidy (s.call i spo) :=
  ⟨h.observers, h.copies⟩

theorem Tidy.release
    {s : System T} (h : Tidy s) (spo : ObserverId) :
    Tidy (s.release spo) :=
  ⟨h.observers, h.copies⟩

variable [BEq T]

/-- One step, if it is possible. -/
def step (s : System T) : Label T → Option (System T)
  | .addObserver observer_i =>
      some { s with observable := (addObserver s.alive observer_i s.observable).2 }
  | .removeObserver observer_i =>
      some { s with observable := (removeObserver s.alive observer_i s.observable).2 }
  | .destroy o =>
      if s.owners o = 0 then some { s with alive := destroyed s.alive o } else none
  | .set i value_i =>
      match s.phase i, store value_i s.observable with
      | .idle, none => some (s.goto i (.returned false))
      | .idle, some observable =>
          some { s.goto i (.notifying value_i false observable.observers_) with
            observable := observable
            stored := s.stored ++ [(i, value_i)] }
      | _, _ => none
  | .notify i =>
      match s.phase i with
      | .notifying value_i foundExpired (wp :: otbn) =>
          match lock s.alive wp with
          | none => some (s.goto i (.notifying value_i true otbn))
          | some spo =>
              some ((s.call i spo).goto i (.calling value_i foundExpired spo otbn))
      | _ => none
  | .answer i outcome =>
      match s.phase i with
      | .calling value_i foundExpired spo otbn =>
          match outcome with
          | .ok () => some ((s.release spo).goto i (.notifying value_i foundExpired otbn))
          | .error e => some ((s.release spo).goto i (.threw e))
      | _ => none
  | .finish i =>
      match s.phase i with
      | .notifying _ foundExpired [] =>
          some { s.goto i (.returned true) with
            observable :=
              if foundExpired then removeExpired s.alive s.observable else s.observable }
      | _ => none

/-- What one step can do. -/
inductive StepCases (s : System T) : Label T → System T → Prop
  | added
      (observer_i : WeakPtr) :
      StepCases s (.addObserver observer_i)
        { s with observable := (addObserver s.alive observer_i s.observable).2 }
  | removed
      (observer_i : WeakPtr) :
      StepCases s (.removeObserver observer_i)
        { s with observable := (removeObserver s.alive observer_i s.observable).2 }
  | died
      (o : ObserverId)
      (hfree : s.owners o = 0) :
      StepCases s (.destroy o) { s with alive := destroyed s.alive o }
  | unchanged
      (i : Nat) (value_i : T)
      (hidle : s.phase i = .idle)
      (hsame : (value_i == s.observable.value_) = true) :
      StepCases s (.set i value_i) (s.goto i (.returned false))
  | stored
      (i : Nat) (value_i : T)
      (hidle : s.phase i = .idle)
      (hnew : (value_i == s.observable.value_) = false) :
      StepCases s (.set i value_i)
        { s.goto i (.notifying value_i false s.observable.observers_) with
          observable := { s.observable with value_ := value_i }
          stored := s.stored ++ [(i, value_i)] }
  | skipped
      {i : Nat} {value_i : T} {foundExpired : Bool} {wp : WeakPtr} {otbn : List WeakPtr}
      (hphase : s.phase i = .notifying value_i foundExpired (wp :: otbn))
      (hexpired : lock s.alive wp = none) :
      StepCases s (.notify i) (s.goto i (.notifying value_i true otbn))
  | called
      {i : Nat} {value_i : T} {foundExpired : Bool} {spo : ObserverId}
      {otbn : List WeakPtr}
      (hphase : s.phase i = .notifying value_i foundExpired (some spo :: otbn))
      (halive : s.alive spo = true) :
      StepCases s (.notify i)
        ((s.call i spo).goto i (.calling value_i foundExpired spo otbn))
  | answered
      {i : Nat} {value_i : T} {foundExpired : Bool} {spo : ObserverId}
      {otbn : List WeakPtr}
      (hphase : s.phase i = .calling value_i foundExpired spo otbn) :
      StepCases s (.answer i (.ok ()))
        ((s.release spo).goto i (.notifying value_i foundExpired otbn))
  | threw
      {i : Nat} {value_i : T} {foundExpired : Bool} {spo : ObserverId}
      {otbn : List WeakPtr} (e : StdException)
      (hphase : s.phase i = .calling value_i foundExpired spo otbn) :
      StepCases s (.answer i (.error e)) ((s.release spo).goto i (.threw e))
  | cleaned
      {i : Nat} {value_i : T}
      (hphase : s.phase i = .notifying value_i true []) :
      StepCases s (.finish i)
        { s.goto i (.returned true) with
          observable := removeExpired s.alive s.observable }
  | finished
      {i : Nat} {value_i : T}
      (hphase : s.phase i = .notifying value_i false []) :
      StepCases s (.finish i) (s.goto i (.returned true))

variable {s t : System T}

theorem step_cases
    {l : Label T}
    (h : step s l = some t) :
    StepCases s l t := by
  cases l with
  | addObserver observer_i =>
      obtain rfl := Option.some.inj h
      exact .added observer_i
  | removeObserver observer_i =>
      obtain rfl := Option.some.inj h
      exact .removed observer_i
  | destroy o =>
      obtain ⟨hfree, h⟩ := Option.ite_none_right_eq_some.mp h
      obtain rfl := Option.some.inj h
      exact .died o hfree
  | set i value_i =>
      cases hphase : s.phase i with
      | idle =>
          cases hnew : value_i == s.observable.value_ with
          | true =>
              simp only [step, hphase, store, hnew, if_true] at h
              obtain rfl := Option.some.inj h
              exact .unchanged i value_i hphase hnew
          | false =>
              simp only [step, hphase, store, hnew, Bool.false_eq_true, if_false] at h
              obtain rfl := Option.some.inj h
              exact .stored i value_i hphase hnew
      | _ =>
          simp [step, hphase] at h
  | notify i =>
      cases hphase : s.phase i with
      | notifying value_i foundExpired otbn =>
          cases otbn with
          | nil =>
              simp [step, hphase] at h
          | cons wp otbn =>
              cases hlock : lock s.alive wp with
              | none =>
                  simp only [step, hphase, hlock] at h
                  obtain rfl := Option.some.inj h
                  exact .skipped hphase hlock
              | some spo =>
                  simp only [step, hphase, hlock] at h
                  obtain rfl := Option.some.inj h
                  obtain ⟨rfl, halive⟩ := lock_eq_some_iff.mp hlock
                  exact .called hphase halive
      | _ =>
          simp [step, hphase] at h
  | answer i outcome =>
      cases hphase : s.phase i with
      | calling value_i foundExpired spo otbn =>
          cases outcome with
          | ok =>
              simp only [step, hphase] at h
              obtain rfl := Option.some.inj h
              exact .answered hphase
          | error e =>
              simp only [step, hphase] at h
              obtain rfl := Option.some.inj h
              exact .threw e hphase
      | _ =>
          simp [step, hphase] at h
  | finish i =>
      cases hphase : s.phase i with
      | notifying value_i foundExpired otbn =>
          cases otbn with
          | nil =>
              cases foundExpired with
              | true =>
                  simp only [step, hphase, if_true] at h
                  obtain rfl := Option.some.inj h
                  exact .cleaned hphase
              | false =>
                  simp only [step, hphase, Bool.false_eq_true, if_false] at h
                  obtain rfl := Option.some.inj h
                  exact .finished hphase
          | cons wp otbn =>
              simp [step, hphase] at h
      | _ =>
          simp [step, hphase] at h

theorem step_skipped
    {i : Nat} {value_i : T} {foundExpired : Bool} {wp : WeakPtr} {otbn : List WeakPtr}
    (hphase : s.phase i = .notifying value_i foundExpired (wp :: otbn))
    (hexpired : lock s.alive wp = none) :
    Steps step s (.notify i) (s.goto i (.notifying value_i true otbn)) := by
  simp [Steps, step, hphase, hexpired]

theorem step_called
    {i : Nat} {value_i : T} {foundExpired : Bool} {spo : ObserverId} {otbn : List WeakPtr}
    (hphase : s.phase i = .notifying value_i foundExpired (some spo :: otbn))
    (halive : s.alive spo = true) :
    Steps step s (.notify i)
      ((s.call i spo).goto i (.calling value_i foundExpired spo otbn)) := by
  simp [Steps, step, hphase, lock_of_alive halive]

theorem step_answered
    {i : Nat} {value_i : T} {foundExpired : Bool} {spo : ObserverId} {otbn : List WeakPtr}
    (hphase : s.phase i = .calling value_i foundExpired spo otbn) :
    Steps step s (.answer i (.ok ()))
      ((s.release spo).goto i (.notifying value_i foundExpired otbn)) := by
  simp [Steps, step, hphase]

theorem step_threw
    {i : Nat} {value_i : T} {foundExpired : Bool} {spo : ObserverId} {otbn : List WeakPtr}
    (e : StdException) (hphase : s.phase i = .calling value_i foundExpired spo otbn) :
    Steps step s (.answer i (.error e)) ((s.release spo).goto i (.threw e)) := by
  simp [Steps, step, hphase]

theorem Tidy.step
    {l : Label T}
    (h : Tidy s) (hstep : Steps step s l t) :
    Tidy t := by
  cases step_cases hstep with
  | added observer_i =>
      exact ⟨h.observers.addObserver observer_i, h.copies⟩
  | removed observer_i =>
      exact ⟨h.observers.removeObserver observer_i, h.copies⟩
  | died o =>
      exact ⟨h.observers, h.copies⟩
  | unchanged i =>
      exact h.goto i _ List.nodup_nil
  | stored i value_i =>
      exact ⟨h.observers, (h.goto i (.notifying value_i false _) h.observers).copies⟩
  | @skipped i value_i foundExpired wp otbn hphase =>
      exact h.goto i _ (List.nodup_cons.mp (h.copy hphase)).2
  | @called i value_i foundExpired spo otbn hphase =>
      exact (h.call i spo).goto i _ (List.nodup_cons.mp (h.copy hphase)).2
  | @answered i value_i foundExpired spo otbn hphase =>
      have hcopy : otbn.Nodup := h.copy hphase
      exact (h.release spo).goto i _ hcopy
  | @threw i value_i foundExpired spo =>
      exact (h.release spo).goto i _ List.nodup_nil
  | @cleaned i =>
      exact ⟨h.observers.removeExpired, (h.goto i (.returned true) List.nodup_nil).copies⟩
  | @finished i =>
      exact h.goto i _ List.nodup_nil

theorem tidy_reachable
    {value_i : T} {alive : ObserverId → Bool} {ls : List (Label T)}
    (hreach : Run (Steps step) (System.init value_i alive) ls s) :
    Tidy s :=
  hreach.invariant Tidy Tidy.step (tidy_init value_i alive)

end Steps

end Observable
end Bren
end Brenlib
