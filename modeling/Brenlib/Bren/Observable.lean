import Mathlib.Data.List.Nodup
import Brenlib.Bren.StdLibrary

/-!
# `Observable`

The model follows `hdr/bren/Observable.hpp` and `hdr/bren/Observer.hpp`.  An observer
is an object with a number.  It is alive as long as somebody owns it, which the methods
of `Observable` find out with `lock()`; a weak pointer that is empty never had an
object.

* `addObserver`, `removeObserver`: the methods, as one step.  The test of the parameter
  in front of the mutex owns the observer until the method returns, so nobody can
  destroy it in between.
* `store`, `removeExpired`: the parts of `set` under the mutex.
* `live`: the observers in the list that are alive, in order, and what the methods do
  to it.
-/

namespace Brenlib
namespace Bren

/-- An observer object. -/
abbrev ObserverId := Nat

/-- `std::weak_ptr<Observer<T>>`: the object that it has been made from. -/
abbrev WeakPtr := Option ObserverId

/-- `wp.lock()`, with the observers that are alive. -/
def lock (alive : ObserverId → Bool) (wp : WeakPtr) : Option ObserverId :=
  wp.filter alive

/-- `wp.expired()`. -/
def expired (alive : ObserverId → Bool) (wp : WeakPtr) : Bool :=
  (lock alive wp).isNone

theorem lock_eq_some_iff
    {alive : ObserverId → Bool} {wp : WeakPtr} {o : ObserverId} :
    lock alive wp = some o ↔ wp = some o ∧ alive o = true := by
  rw [lock, Option.filter_eq_some_iff]

theorem ne_of_expired
    {alive : ObserverId → Bool} {wp : WeakPtr} {o : ObserverId}
    (hexpired : lock alive wp = none) (halive : alive o = true) :
    wp ≠ some o := by
  rintro rfl
  rw [lock_eq_some_iff.mpr ⟨rfl, halive⟩] at hexpired
  cases hexpired

structure Observable (T : Type) where
  observers_ : List WeakPtr
  value_ : T
deriving DecidableEq, Repr

namespace Observable

variable {T : Type}

/-- `Observable(value_i)`. -/
def init (value_i : T) : Observable T where
  observers_ := []
  value_ := value_i

/-- `get()`. -/
def get (ob : Observable T) : T :=
  ob.value_

/-- The loop of `addObserver` and `removeObserver`: expired entries are erased until an
entry for `psp` is found, which `found` then treats. -/
def seek (alive : ObserverId → Bool) (psp : ObserverId)
    (found : WeakPtr → List WeakPtr → List WeakPtr) :
    List WeakPtr → Bool × List WeakPtr
  | [] => (false, [])
  | i :: rest =>
      match lock alive i with
      | none => seek alive psp found rest
      | some isp =>
          if isp = psp then (true, found i rest)
          else ((seek alive psp found rest).1, i :: (seek alive psp found rest).2)

/-- `addObserver(observer_i)`. -/
def addObserver (alive : ObserverId → Bool) (observer_i : WeakPtr)
    (ob : Observable T) : Bool × Observable T :=
  match lock alive observer_i with
  | none => (false, ob)
  | some psp =>
      let (found, observers) := seek alive psp List.cons ob.observers_
      if found then (false, { ob with observers_ := observers })
      else (true, { ob with observers_ := observers ++ [observer_i] })

/-- `removeObserver(observer_i)`. -/
def removeObserver (alive : ObserverId → Bool) (observer_i : WeakPtr)
    (ob : Observable T) : Bool × Observable T :=
  match lock alive observer_i with
  | none => (false, ob)
  | some psp =>
      let (found, observers) :=
        seek alive psp (fun _ rest => rest) ob.observers_
      (found, { ob with observers_ := observers })

/-- `addObserver` and `removeObserver` for a pointer, which may be null: the weak
pointer of the object is handed on. -/
def withPointer
    (method : WeakPtr → Observable T → Bool × Observable T)
    (observer_i : Option ObserverId) (ob : Observable T) : Bool × Observable T :=
  match observer_i with
  | none => (false, ob)
  | some o => method (some o) ob

/-- `addObserver(Observer<T> *)`. -/
def addObserverPointer (alive : ObserverId → Bool) :
    Option ObserverId → Observable T → Bool × Observable T :=
  withPointer (addObserver alive)

/-- `removeObserver(Observer<T> *)`. -/
def removeObserverPointer (alive : ObserverId → Bool) :
    Option ObserverId → Observable T → Bool × Observable T :=
  withPointer (removeObserver alive)

/-- `set(value_i)` under the mutex, up to the copy of the list: `none` if the value is
the one that is stored. -/
def store [BEq T] (value_i : T) (ob : Observable T) : Option (Observable T) :=
  if value_i == ob.value_ then none else some { ob with value_ := value_i }

/-- The end of `set` when it has met an expired entry. -/
def removeExpired (alive : ObserverId → Bool) (ob : Observable T) : Observable T :=
  { ob with observers_ := ob.observers_.filter fun wp => !expired alive wp }

/-- A null pointer behaves as an empty weak pointer. -/
theorem addObserverPointer_eq
    (alive : ObserverId → Bool) (observer_i : Option ObserverId) :
    addObserverPointer alive observer_i = addObserver (T := T) alive observer_i := by
  cases observer_i <;> rfl

theorem removeObserverPointer_eq
    (alive : ObserverId → Bool) (observer_i : Option ObserverId) :
    removeObserverPointer alive observer_i =
      removeObserver (T := T) alive observer_i := by
  cases observer_i <;> rfl

section Live

/-- The entries whose observers are alive. -/
def live (alive : ObserverId → Bool) (observers : List WeakPtr) : List ObserverId :=
  observers.filterMap (lock alive)

variable {alive : ObserverId → Bool} {psp o : ObserverId}

theorem mem_live_iff
    {observers : List WeakPtr} :
    o ∈ live alive observers ↔ some o ∈ observers ∧ alive o = true := by
  simp only [live, List.mem_filterMap, lock_eq_some_iff]
  constructor
  · rintro ⟨wp, hmem, rfl, halive⟩
    exact ⟨hmem, halive⟩
  · rintro ⟨hmem, halive⟩
    exact ⟨some o, hmem, rfl, halive⟩

theorem live_append
    (first second : List WeakPtr) :
    live alive (first ++ second) = live alive first ++ live alive second :=
  List.filterMap_append

theorem live_cons_none
    {wp : WeakPtr} (h : lock alive wp = none) (rest : List WeakPtr) :
    live alive (wp :: rest) = live alive rest :=
  List.filterMap_cons_none h

theorem live_cons_some
    {wp : WeakPtr} (h : lock alive wp = some o) (rest : List WeakPtr) :
    live alive (wp :: rest) = o :: live alive rest :=
  List.filterMap_cons_some h

/-- Erasing expired entries leaves the observers that are alive. -/
theorem live_filter
    (alive : ObserverId → Bool) (observers : List WeakPtr) :
    live alive (observers.filter fun wp => !expired alive wp) = live alive observers := by
  rw [live, List.filterMap_filter]
  refine List.filterMap_congr fun wp _ => ?_
  cases hlock : lock alive wp <;> simp [expired, hlock]

/-- The loop erases the expired entries up to the one that it finds, if there is one. -/
theorem seek_cases
    (alive : ObserverId → Bool) (psp : ObserverId)
    (found : WeakPtr → List WeakPtr → List WeakPtr) (observers : List WeakPtr) :
    (psp ∉ live alive observers ∧
      seek alive psp found observers =
        (false, observers.filter fun wp => !expired alive wp)) ∨
    ∃ before i after,
      observers = before ++ i :: after ∧ lock alive i = some psp ∧ psp ∉ live alive before ∧
      seek alive psp found observers =
        (true, (before.filter fun wp => !expired alive wp) ++ found i after) := by
  induction observers with
  | nil =>
      exact .inl ⟨List.not_mem_nil, rfl⟩
  | cons i rest ih =>
      rw [seek]
      cases hlock : lock alive i with
      | none =>
          have hgone (l : List WeakPtr) :
              (i :: l).filter (fun wp => !expired alive wp) =
                l.filter fun wp => !expired alive wp :=
            List.filter_cons_of_neg (by simp [expired, hlock])
          rcases ih with ⟨hnot, h⟩ | ⟨before, j, after, rfl, hj, hnot, h⟩
          · rw [live_cons_none hlock, hgone]
            exact .inl ⟨hnot, h⟩
          · refine .inr ⟨i :: before, j, after, rfl, hj, ?_, ?_⟩
            · rwa [live_cons_none hlock]
            · rwa [hgone]
      | some isp =>
          have hstays (l : List WeakPtr) :
              (i :: l).filter (fun wp => !expired alive wp) =
                i :: l.filter fun wp => !expired alive wp :=
            List.filter_cons_of_pos (by simp [expired, hlock])
          by_cases hisp : isp = psp
          · subst hisp
            exact .inr ⟨[], i, rest, rfl, hlock, List.not_mem_nil, if_pos rfl⟩
          · have hnot' {l : List WeakPtr} (hnot : psp ∉ live alive l) :
                psp ∉ live alive (i :: l) := by
              rw [live_cons_some hlock, List.mem_cons, not_or]
              exact ⟨Ne.symm hisp, hnot⟩
            simp only [hisp, if_false]
            rcases ih with ⟨hnot, h⟩ | ⟨before, j, after, rfl, hj, hnot, h⟩
            · exact .inl ⟨hnot' hnot, by rw [h, hstays]⟩
            · exact .inr ⟨i :: before, j, after, rfl, hj, hnot' hnot, by rw [h, hstays]; rfl⟩

/-- The loop finds an observer that is alive exactly if it has an entry. -/
theorem seek_fst
    (alive : ObserverId → Bool) (psp : ObserverId)
    (found : WeakPtr → List WeakPtr → List WeakPtr) (observers : List WeakPtr) :
    (seek alive psp found observers).1 = decide (psp ∈ live alive observers) := by
  rcases seek_cases alive psp found observers with
    ⟨hnot, h⟩ | ⟨before, i, after, rfl, hlock, -, h⟩
  · rw [h]
    exact (decide_eq_false hnot).symm
  · rw [h, live_append, live_cons_some hlock]
    exact (decide_eq_true (List.mem_append_right _ List.mem_cons_self)).symm

/-- Erasing expired entries leaves the others in their order. -/
theorem live_seek_cons
    (alive : ObserverId → Bool) (psp : ObserverId) (observers : List WeakPtr) :
    live alive (seek alive psp List.cons observers).2 = live alive observers := by
  rcases seek_cases alive psp List.cons observers with
    ⟨-, h⟩ | ⟨before, i, after, rfl, -, -, h⟩
  · rw [h]
    exact live_filter alive observers
  · rw [h, live_append, live_append, live_filter]

/-- `removeObserver` takes the entry that it finds out of the list. -/
theorem live_seek_drop
    (alive : ObserverId → Bool) (psp : ObserverId) (observers : List WeakPtr) :
    live alive (seek alive psp (fun _ rest => rest) observers).2 =
      (live alive observers).erase psp := by
  rcases seek_cases alive psp (fun _ rest => rest) observers with
    ⟨hnot, h⟩ | ⟨before, i, after, rfl, hlock, hnot, h⟩
  · rw [h, List.erase_of_not_mem hnot]
    exact live_filter alive observers
  · rw [h, live_append, live_append, live_filter, live_cons_some hlock,
      List.erase_append_right _ hnot, List.erase_cons_head]

end Live

section Methods

variable {alive : ObserverId → Bool} {o : ObserverId} {ob : Observable T}

theorem addObserver_of_expired
    {wp : WeakPtr} (h : lock alive wp = none) (ob : Observable T) :
    addObserver alive wp ob = (false, ob) := by
  rw [addObserver, h]

theorem removeObserver_of_expired
    {wp : WeakPtr} (h : lock alive wp = none) (ob : Observable T) :
    removeObserver alive wp ob = (false, ob) := by
  rw [removeObserver, h]

theorem lock_of_alive
    (h : alive o = true) :
    lock alive (some o) = some o :=
  lock_eq_some_iff.mpr ⟨rfl, h⟩

/-- `addObserver` for an observer that is alive. -/
theorem addObserver_of_alive
    (h : alive o = true) (ob : Observable T) :
    addObserver alive (some o) ob =
      (decide (o ∉ live alive ob.observers_),
        { ob with
          observers_ := (seek alive o List.cons ob.observers_).2 ++
            if o ∈ live alive ob.observers_ then [] else [some o] }) := by
  rw [addObserver, lock_of_alive h]
  simp only [seek_fst, decide_eq_true_eq]
  by_cases hmem : o ∈ live alive ob.observers_ <;> simp [hmem]

/-- `removeObserver` for an observer that is alive. -/
theorem removeObserver_of_alive
    (h : alive o = true) (ob : Observable T) :
    removeObserver alive (some o) ob =
      (decide (o ∈ live alive ob.observers_),
        { ob with
          observers_ := (seek alive o (fun _ rest => rest) ob.observers_).2 }) := by
  rw [removeObserver, lock_of_alive h]
  simp only [seek_fst]

/-- The observer that a weak pointer owns, or none. -/
theorem expired_or_alive
    (alive : ObserverId → Bool) (wp : WeakPtr) :
    lock alive wp = none ∨ ∃ o, wp = some o ∧ alive o = true := by
  cases hlock : lock alive wp with
  | none =>
      exact .inl rfl
  | some o =>
      exact .inr ⟨o, lock_eq_some_iff.mp hlock⟩

/-- A method that answers false to what has expired. -/
theorem answers_iff
    {method : WeakPtr → Bool} {P : ObserverId → Prop}
    (hexpired : ∀ wp, lock alive wp = none → method wp = false)
    (hmethod : ∀ o, alive o = true → (method (some o) = true ↔ P o))
    {wp : WeakPtr} :
    method wp = true ↔ ∃ o, wp = some o ∧ alive o = true ∧ P o := by
  rcases expired_or_alive alive wp with hlock | ⟨o, rfl, halive⟩
  · rw [hexpired wp hlock]
    constructor
    · intro h
      cases h
    · rintro ⟨o, ho, halive, -⟩
      exact absurd ho (ne_of_expired hlock halive)
  · rw [hmethod o halive]
    constructor
    · intro h
      exact ⟨o, rfl, halive, h⟩
    · rintro ⟨o', ho', -, h⟩
      rwa [Option.some.inj ho']

theorem addObserver_fst_iff
    {wp : WeakPtr} :
    (addObserver alive wp ob).1 = true ↔
      ∃ o, wp = some o ∧ alive o = true ∧ some o ∉ ob.observers_ := by
  refine @answers_iff alive (fun wp => (addObserver alive wp ob).1) _
    (fun wp hlock => ?_) (fun o halive => ?_) wp
  · rw [addObserver_of_expired hlock]
  · rw [addObserver_of_alive halive]
    simp only [decide_eq_true_eq, mem_live_iff, halive, and_true]

theorem removeObserver_fst_iff
    {wp : WeakPtr} :
    (removeObserver alive wp ob).1 = true ↔
      ∃ o, wp = some o ∧ alive o = true ∧ some o ∈ ob.observers_ := by
  refine @answers_iff alive (fun wp => (removeObserver alive wp ob).1) _
    (fun wp hlock => ?_) (fun o halive => ?_) wp
  · rw [removeObserver_of_expired hlock]
  · rw [removeObserver_of_alive halive]
    simp only [decide_eq_true_eq, mem_live_iff, halive, and_true]

theorem addObserver_value
    (alive : ObserverId → Bool) (wp : WeakPtr) (ob : Observable T) :
    (addObserver alive wp ob).2.value_ = ob.value_ := by
  rcases expired_or_alive alive wp with hlock | ⟨o, rfl, halive⟩
  · rw [addObserver_of_expired hlock]
  · rw [addObserver_of_alive halive]

theorem removeObserver_value
    (alive : ObserverId → Bool) (wp : WeakPtr) (ob : Observable T) :
    (removeObserver alive wp ob).2.value_ = ob.value_ := by
  rcases expired_or_alive alive wp with hlock | ⟨o, rfl, halive⟩
  · rw [removeObserver_of_expired hlock]
  · rw [removeObserver_of_alive halive]

/-- A new observer goes behind the others. -/
theorem live_addObserver
    (halive : alive o = true) (ob : Observable T) :
    live alive (addObserver alive (some o) ob).2.observers_ =
      if o ∈ live alive ob.observers_ then live alive ob.observers_
      else live alive ob.observers_ ++ [o] := by
  rw [addObserver_of_alive halive]
  simp only [live_append, live_seek_cons]
  by_cases hmem : o ∈ live alive ob.observers_
  · rw [if_pos hmem, if_pos hmem]
    exact List.append_nil _
  · rw [if_neg hmem, if_neg hmem, live_cons_some (lock_of_alive halive)]
    rfl

theorem live_removeObserver
    (halive : alive o = true) (ob : Observable T) :
    live alive (removeObserver alive (some o) ob).2.observers_ =
      (live alive ob.observers_).erase o := by
  rw [removeObserver_of_alive halive]
  exact live_seek_drop alive o ob.observers_

/-- Removing what has expired leaves the observers that are alive. -/
theorem live_removeExpired
    (alive : ObserverId → Bool) (ob : Observable T) :
    live alive (removeExpired alive ob).observers_ = live alive ob.observers_ :=
  live_filter alive ob.observers_

/-- The loop only erases entries. -/
theorem seek_sublist
    {found : WeakPtr → List WeakPtr → List WeakPtr}
    (hfound : ∀ i rest, List.Sublist (found i rest) (i :: rest))
    (psp : ObserverId) (observers : List WeakPtr) :
    List.Sublist (seek alive psp found observers).2 observers := by
  rcases seek_cases alive psp found observers with
    ⟨-, h⟩ | ⟨before, i, after, rfl, -, -, h⟩
  · rw [h]
    exact List.filter_sublist
  · rw [h]
    exact List.filter_sublist.append (hfound i after)

/-- No observer has two entries. -/
def Distinct (ob : Observable T) : Prop :=
  ob.observers_.Nodup

theorem Distinct.addObserver
    (h : Distinct ob) (wp : WeakPtr) :
    Distinct (addObserver alive wp ob).2 := by
  rcases expired_or_alive alive wp with hlock | ⟨o, rfl, halive⟩
  · rwa [addObserver_of_expired hlock]
  · have hsub : List.Sublist (seek alive o List.cons ob.observers_).2 ob.observers_ :=
      seek_sublist (fun i rest => List.Sublist.refl (i :: rest)) o ob.observers_
    rw [addObserver_of_alive halive, Distinct]
    by_cases hmem : o ∈ live alive ob.observers_
    · rw [if_pos hmem, List.append_nil]
      exact hsub.nodup h
    · rw [if_neg hmem, ← List.concat_eq_append]
      refine List.Nodup.concat (fun ho => hmem ?_) (hsub.nodup h)
      exact mem_live_iff.mpr ⟨hsub.subset ho, halive⟩

theorem Distinct.removeObserver
    (h : Distinct ob) (wp : WeakPtr) :
    Distinct (removeObserver alive wp ob).2 := by
  rcases expired_or_alive alive wp with hlock | ⟨o, rfl, halive⟩
  · rwa [removeObserver_of_expired hlock]
  · rw [removeObserver_of_alive halive]
    exact (seek_sublist List.sublist_cons_self o ob.observers_).nodup h

theorem Distinct.removeExpired
    (h : Distinct ob) :
    Distinct (removeExpired alive ob) :=
  List.Nodup.filter _ h

theorem Distinct.live
    (h : Distinct ob) :
    (live alive ob.observers_).Nodup := by
  refine List.Nodup.filterMap (fun wp wp' o ho ho' => ?_) h
  rw [(lock_eq_some_iff.mp ho).1, (lock_eq_some_iff.mp ho').1]

/-- An observer that has been removed has no entry. -/
theorem Distinct.not_mem_removeObserver
    (h : Distinct ob) (halive : alive o = true) :
    some o ∉ (Observable.removeObserver alive (some o) ob).2.observers_ := by
  intro hmem
  have hlive := mem_live_iff.mpr ⟨hmem, halive⟩
  rw [live_removeObserver halive] at hlive
  exact h.live.not_mem_erase hlive

end Methods

section Destruction

variable {alive : ObserverId → Bool} {o : ObserverId}

/-- Whoever was alive but `o`. -/
def destroyed (alive : ObserverId → Bool) (o : ObserverId) : ObserverId → Bool :=
  Function.update alive o false

theorem lock_destroyed
    (alive : ObserverId → Bool) (o : ObserverId) (wp : WeakPtr) :
    lock (destroyed alive o) wp = if wp = some o then none else lock alive wp := by
  cases wp with
  | none =>
      simp [lock]
  | some o' =>
      by_cases ho : o' = o
      · simp [lock, destroyed, ho]
      · simp [lock, Option.filter, destroyed, ho]

theorem live_destroyed
    (alive : ObserverId → Bool) (o : ObserverId) (observers : List WeakPtr) :
    live (destroyed alive o) observers =
      (live alive observers).filter (· != o) := by
  rw [live, live, List.filter_filterMap]
  refine List.filterMap_congr fun wp _ => ?_
  rw [lock_destroyed]
  cases hlock : lock alive wp with
  | none => simp
  | some o' =>
      obtain ⟨rfl, -⟩ := lock_eq_some_iff.mp hlock
      by_cases ho : o' = o <;> simp [ho, Option.filter]

end Destruction

end Observable

end Bren
end Brenlib
