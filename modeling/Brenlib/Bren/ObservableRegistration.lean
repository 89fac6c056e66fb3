import Brenlib.Base.Registry
import Brenlib.Bren.Observable

/-!
# `Observable` in one thread

One thread registers and removes observers, sets the value and destroys observers, and
the observers do not call back.  The registry of the history says who is registered,
and the list of the observable, which keeps expired entries until it meets them, agrees
with it.

* `set`: the method as a whole, with the observers that it calls.
* `set_cases`: what `set` does.
* `Agrees`: the entries that are alive are the members of a registry, in order.
* `registration_law`: what the methods do behind every history.
-/

namespace Brenlib
namespace Bren
namespace Observable

variable {T : Type}

/-- An observable, who is alive, and the calls of `observableChanged` so far. -/
structure Site (T : Type) where
  observable : Observable T
  alive : ObserverId → Bool
  called : List (ObserverId × T)

/-- A new observable. -/
def Site.init (value_i : T) (alive : ObserverId → Bool) : Site T where
  observable := Observable.init value_i
  alive := alive
  called := []

/-- How the observers answer a call: they return or throw. -/
abbrev Reaction (T : Type) := ObserverId → T → Except StdException Unit

/-- `spo->observableChanged(value_)`. -/
def observableChanged (react : Reaction T) (spo : ObserverId) :
    EStateM StdException (Site T) Unit := do
  let value := (← getThe (Site T)).observable.value_
  modify fun s => { s with called := s.called ++ [(spo, value)] }
  match react spo value with
  | .ok () => return ()
  | .error e => throw e

/-- The loop of `set` over its copy of the list. -/
def notify (react : Reaction T) (foundExpired : Bool) :
    List WeakPtr → EStateM StdException (Site T) Bool
  | [] => return foundExpired
  | i :: otbn => do
      match lock (← getThe (Site T)).alive i with
      | none => notify react true otbn
      | some spo =>
          observableChanged react spo
          notify react foundExpired otbn

/-- `set(value_i)`. -/
def set [BEq T] (react : Reaction T) (value_i : T) :
    EStateM StdException (Site T) Bool := do
  match store value_i (← getThe (Site T)).observable with
  | none => return false
  | some stored =>
      modify fun s => { s with observable := stored }
      let foundExpired ← notify react false stored.observers_
      if foundExpired then
        modify fun s => { s with observable := removeExpired s.alive s.observable }
      return true

section Calls

variable {react : Reaction T} {s : Site T} {o : ObserverId}

/-- The site behind calls with the stored value. -/
def Site.calls (s : Site T) (os : List ObserverId) : Site T :=
  { s with called := s.called ++ os.map fun o => (o, s.observable.value_) }

@[simp] theorem calls_nil
    (s : Site T) :
    s.calls [] = s := by
  simp [Site.calls]

@[simp] theorem calls_alive
    (s : Site T) (os : List ObserverId) :
    (s.calls os).alive = s.alive := rfl

@[simp] theorem calls_observable
    (s : Site T) (os : List ObserverId) :
    (s.calls os).observable = s.observable := rfl

theorem calls_calls
    (s : Site T) (os os' : List ObserverId) :
    (s.calls os).calls os' = s.calls (os ++ os') := by
  simp [Site.calls]

theorem observableChanged_returns
    (h : react o s.observable.value_ = .ok ()) :
    (observableChanged react o).run s = .ok () (s.calls [o]) := by
  simp only [observableChanged, EStateM.run_bind, run_getThe, EStateM.run_modify]
  rw [h]
  rfl

theorem observableChanged_throws
    {e : StdException} (h : react o s.observable.value_ = .error e) :
    (observableChanged react o).run s = .error e (s.calls [o]) := by
  simp only [observableChanged, EStateM.run_bind, run_getThe, EStateM.run_modify]
  rw [h]
  rfl

/-- What the loop does: it calls the observers that are alive, until one throws. -/
inductive NotifyCases (react : Reaction T) (foundExpired : Bool) (otbn : List WeakPtr)
    (s : Site T) : EStateM.Result StdException (Site T) Bool → Prop
  | returns
      (hreact : ∀ o ∈ live s.alive otbn, react o s.observable.value_ = .ok ()) :
      NotifyCases react foundExpired otbn s
        (.ok (foundExpired || otbn.any (expired s.alive)) (s.calls (live s.alive otbn)))
  | throws
      {before after : List ObserverId} {o : ObserverId} {e : StdException}
      (hlive : live s.alive otbn = before ++ o :: after)
      (hthrows : react o s.observable.value_ = .error e) :
      NotifyCases react foundExpired otbn s (.error e (s.calls (before ++ [o])))

theorem notify_cons_expired
    {i : WeakPtr} (hlock : lock s.alive i = none)
    (react : Reaction T) (foundExpired : Bool) (otbn : List WeakPtr) :
    (notify react foundExpired (i :: otbn)).run s = (notify react true otbn).run s := by
  rw [notify, EStateM.run_bind, run_getThe]
  simp only [hlock]

theorem notify_cons_returns
    {i : WeakPtr} (hlock : lock s.alive i = some o)
    (h : react o s.observable.value_ = .ok ())
    (foundExpired : Bool) (otbn : List WeakPtr) :
    (notify react foundExpired (i :: otbn)).run s =
      (notify react foundExpired otbn).run (s.calls [o]) := by
  rw [notify, EStateM.run_bind, run_getThe]
  simp only [hlock]
  exact run_bind_ok (observableChanged_returns h) _

theorem notify_cons_throws
    {i : WeakPtr} (hlock : lock s.alive i = some o)
    {e : StdException} (h : react o s.observable.value_ = .error e)
    (foundExpired : Bool) (otbn : List WeakPtr) :
    (notify react foundExpired (i :: otbn)).run s = .error e (s.calls [o]) := by
  rw [notify, EStateM.run_bind, run_getThe]
  simp only [hlock]
  exact run_bind_error (observableChanged_throws h) _

theorem NotifyCases.cons_expired
    {foundExpired : Bool} {i : WeakPtr} {otbn : List WeakPtr}
    {result : EStateM.Result StdException (Site T) Bool}
    (hlock : lock s.alive i = none)
    (h : NotifyCases react true otbn s result) :
    NotifyCases react foundExpired (i :: otbn) s result := by
  have hlive := live_cons_none hlock otbn
  cases h with
  | returns hreact =>
      rw [← hlive] at hreact ⊢
      have hresult : NotifyCases react foundExpired (i :: otbn) s _ := .returns hreact
      simpa [expired, hlock] using hresult
  | throws hrest hthrows =>
      rw [← hlive] at hrest
      exact .throws hrest hthrows

theorem NotifyCases.cons_returns
    {foundExpired : Bool} {i : WeakPtr} {otbn : List WeakPtr}
    {result : EStateM.Result StdException (Site T) Bool}
    (hlock : lock s.alive i = some o)
    (hfirst : react o s.observable.value_ = .ok ())
    (h : NotifyCases react foundExpired otbn (s.calls [o]) result) :
    NotifyCases react foundExpired (i :: otbn) s result := by
  have hlive := live_cons_some hlock otbn
  cases h with
  | returns hreact =>
      have hall :
          ∀ o' ∈ live s.alive (i :: otbn), react o' s.observable.value_ = .ok () := by
        rw [hlive]
        exact List.forall_mem_cons.mpr ⟨hfirst, hreact⟩
      have hcalls :
          (s.calls [o]).calls (live s.alive otbn) = s.calls (live s.alive (i :: otbn)) := by
        rw [hlive, calls_calls]
        rfl
      rw [calls_alive, hcalls]
      have hresult : NotifyCases react foundExpired (i :: otbn) s _ := .returns hall
      simpa [expired, hlock] using hresult
  | @throws before after o' e hrest hthrows =>
      have hall : live s.alive (i :: otbn) = (o :: before) ++ o' :: after := by
        rw [hlive]
        exact congrArg (o :: ·) hrest
      rw [calls_calls]
      exact .throws hall hthrows

theorem notify_cases
    (react : Reaction T) (foundExpired : Bool) (otbn : List WeakPtr) (s : Site T) :
    NotifyCases react foundExpired otbn s ((notify react foundExpired otbn).run s) := by
  induction otbn generalizing foundExpired s with
  | nil =>
      have hnil : ∀ o ∈ live s.alive [], react o s.observable.value_ = .ok () := by
        simp [live]
      have hresult : NotifyCases react foundExpired [] s _ := .returns hnil
      simpa [live, notify] using hresult
  | cons i otbn ih =>
      cases hlock : lock s.alive i with
      | none =>
          rw [notify_cons_expired hlock]
          exact .cons_expired hlock (ih true s)
      | some o =>
          cases hreact : react o s.observable.value_ with
          | error e =>
              rw [notify_cons_throws hlock hreact]
              have hlive : live s.alive (i :: otbn) = [] ++ o :: live s.alive otbn :=
                live_cons_some hlock otbn
              exact .throws hlive hreact
          | ok =>
              rw [notify_cons_returns hlock hreact]
              exact .cons_returns hlock hreact (ih foundExpired _)

end Calls

section Set

variable {react : Reaction T} {s : Site T} {value_i : T}

/-- A new value is stored. -/
def Site.stored (s : Site T) (value_i : T) : Site T :=
  { s with observable := { s.observable with value_ := value_i } }

/-- The expired entries are removed. -/
def Site.cleaned (s : Site T) : Site T :=
  { s with observable := removeExpired s.alive s.observable }

theorem cleaned_of_not_expired
    (h : s.observable.observers_.any (expired s.alive) = false) :
    s.cleaned = s := by
  have hfilter :
      (s.observable.observers_.filter fun wp => !expired s.alive wp) =
        s.observable.observers_ := by
    rw [List.filter_eq_self]
    intro wp hwp
    simpa using List.any_eq_false.mp h wp hwp
  rw [Site.cleaned, removeExpired, hfilter]

variable [BEq T]

/-- What `set` does: nothing with the value that is stored; else it stores the value
and calls the observers that are alive, until one throws. -/
inductive SetCases (react : Reaction T) (value_i : T) (s : Site T) :
    EStateM.Result StdException (Site T) Bool → Prop
  | unchanged
      (hsame : (value_i == s.observable.value_) = true) :
      SetCases react value_i s (.ok false s)
  | broadcast
      (hnew : (value_i == s.observable.value_) = false)
      (hreact : ∀ o ∈ live s.alive s.observable.observers_, react o value_i = .ok ()) :
      SetCases react value_i s
        (.ok true
          ((s.stored value_i).calls (live s.alive s.observable.observers_)).cleaned)
  | interrupted
      {before after : List ObserverId} {o : ObserverId} {e : StdException}
      (hnew : (value_i == s.observable.value_) = false)
      (hlive : live s.alive s.observable.observers_ = before ++ o :: after)
      (hthrows : react o value_i = .error e) :
      SetCases react value_i s (.error e ((s.stored value_i).calls (before ++ [o])))

theorem set_unchanged
    (h : (value_i == s.observable.value_) = true) :
    (set react value_i).run s = .ok false s := by
  rw [set, EStateM.run_bind, run_getThe]
  simp [store, h]

/-- `set` with a new value: the loop, then the cleaning if it is needed. -/
theorem set_changed
    (h : (value_i == s.observable.value_) = false) :
    (set react value_i).run s =
      match (notify react false s.observable.observers_).run (s.stored value_i) with
      | .ok foundExpired s' => .ok true (if foundExpired then s'.cleaned else s')
      | .error e s' => .error e s' := by
  rw [set, EStateM.run_bind, run_getThe]
  simp only [store, h, Bool.false_eq_true, if_false, EStateM.run_bind, EStateM.run_modify]
  rw [Site.stored]
  cases (notify react false s.observable.observers_).run _ with
  | ok foundExpired s' =>
      cases foundExpired <;> rfl
  | error e s' =>
      rfl

theorem set_cases
    (react : Reaction T) (value_i : T) (s : Site T) :
    SetCases react value_i s ((set react value_i).run s) := by
  cases hnew : value_i == s.observable.value_ with
  | true =>
      rw [set_unchanged hnew]
      exact .unchanged hnew
  | false =>
      rw [set_changed hnew]
      have hnotify := notify_cases react false s.observable.observers_ (s.stored value_i)
      generalize (notify react false s.observable.observers_).run (s.stored value_i) =
        result at hnotify ⊢
      cases hnotify with
      | returns hreact =>
          have hclean :
              (if false || s.observable.observers_.any (expired s.alive) then
                ((s.stored value_i).calls (live s.alive s.observable.observers_)).cleaned
              else (s.stored value_i).calls (live s.alive s.observable.observers_)) =
                ((s.stored value_i).calls (live s.alive s.observable.observers_)).cleaned := by
            split
            · rfl
            · rename_i hexpired
              refine (cleaned_of_not_expired ?_).symm
              exact Bool.eq_false_iff.mpr hexpired
          have hresult := SetCases.broadcast hnew hreact
          rw [← hclean] at hresult
          exact hresult
      | throws hlive hthrows =>
          exact .interrupted hnew hlive hthrows

end Set

section History

/-- What the thread does with the observable.  A pointer is registered and removed as
the weak pointer of its object. -/
inductive Operation (T : Type) where
  | addObserver (observer_i : WeakPtr)
  | removeObserver (observer_i : WeakPtr)
  | set (value_i : T)
  | destroy (o : ObserverId)
deriving DecidableEq, Repr

variable [BEq T]

/-- The site behind an operation, whether it returns or throws. -/
def perform (react : Reaction T) (s : Site T) : Operation T → Site T
  | .addObserver observer_i =>
      { s with observable := (addObserver s.alive observer_i s.observable).2 }
  | .removeObserver observer_i =>
      { s with observable := (removeObserver s.alive observer_i s.observable).2 }
  | .set value_i => stateOf ((set react value_i).run s)
  | .destroy o => { s with alive := destroyed s.alive o }

/-- The site behind a history. -/
def after (react : Reaction T) (s : Site T) (ops : List (Operation T)) : Site T :=
  ops.foldl (perform react) s

/-- Who is alive behind an operation. -/
def Operation.survivors (alive : ObserverId → Bool) :
    Operation T → ObserverId → Bool
  | .addObserver _ => alive
  | .removeObserver _ => alive
  | .set _ => alive
  | .destroy o => destroyed alive o

/-- Who is registered behind an operation: who is alive can register and leave, and
who is destroyed leaves. -/
def Operation.enrol (alive : ObserverId → Bool) (r : Registry ObserverId) :
    Operation T → Registry ObserverId
  | .addObserver observer_i =>
      match lock alive observer_i with
      | none => r
      | some o => r.add o
  | .removeObserver observer_i =>
      match lock alive observer_i with
      | none => r
      | some o => r.remove o
  | .set _ => r
  | .destroy o => r.remove o

/-- Who is registered behind a history. -/
def enrolled (alive : ObserverId → Bool) (r : Registry ObserverId) :
    List (Operation T) → Registry ObserverId
  | [] => r
  | op :: ops => enrolled (op.survivors alive) (op.enrol alive r) ops

end History

section Agreement

/-- The entries of observers that are alive are the members of the registry. -/
def Agrees (r : Registry ObserverId) (s : Site T) : Prop :=
  live s.alive s.observable.observers_ = r.members

variable {r : Registry ObserverId} {s : Site T}

theorem Agrees.mem_iff
    (h : Agrees r s) {o : ObserverId} (halive : s.alive o = true) :
    some o ∈ s.observable.observers_ ↔ o ∈ r.members := by
  rw [← h, mem_live_iff, halive]
  simp

theorem not_expired_of_removeExpired
    {alive : ObserverId → Bool} {ob : Observable T} {wp : WeakPtr}
    (h : wp ∈ (removeExpired alive ob).observers_) :
    expired alive wp = false := by
  simpa using (List.mem_filter.mp h).2

theorem Agrees.addObserver
    (h : Agrees r s) {o : ObserverId} (halive : s.alive o = true) :
    Agrees (r.add o)
      { s with observable := (addObserver s.alive (some o) s.observable).2 } := by
  rw [Agrees, live_addObserver halive, h]
  by_cases hmem : o ∈ r.members
  · rw [if_pos hmem, Registry.members_add_of_mem hmem]
  · rw [if_neg hmem, Registry.members_add_of_not_mem hmem]

theorem Agrees.removeObserver
    (h : Agrees r s) {o : ObserverId} (halive : s.alive o = true) :
    Agrees (r.remove o)
      { s with observable := (removeObserver s.alive (some o) s.observable).2 } := by
  rw [Agrees, live_removeObserver halive, h, Registry.members_remove]

theorem Agrees.destroy
    (h : Agrees r s) (o : ObserverId) :
    Agrees (r.remove o) { s with alive := destroyed s.alive o } := by
  rw [Agrees, live_destroyed, h, Registry.members_remove, r.nodup.erase_eq_filter]

theorem Agrees.stored
    (h : Agrees r s) (value_i : T) :
    Agrees r (s.stored value_i) :=
  h

theorem Agrees.calls
    (h : Agrees r s) (os : List ObserverId) :
    Agrees r (s.calls os) :=
  h

theorem Agrees.cleaned
    (h : Agrees r s) :
    Agrees r s.cleaned := by
  rw [Agrees, Site.cleaned, live_removeExpired]
  exact h

variable [BEq T]

theorem Agrees.set
    (h : Agrees r s) (react : Reaction T) (value_i : T) :
    Agrees r (stateOf ((set react value_i).run s)) := by
  have hcases := set_cases react value_i s
  generalize (Observable.set react value_i).run s = result at hcases ⊢
  cases hcases with
  | unchanged =>
      exact h
  | broadcast =>
      exact ((h.stored value_i).calls _).cleaned
  | interrupted =>
      exact (h.stored value_i).calls _

/-- An operation changes the registry and the list of the observable alike. -/
theorem Agrees.perform
    (h : Agrees r s) (react : Reaction T) (op : Operation T) :
    Agrees (op.enrol s.alive r) (perform react s op) := by
  cases op with
  | addObserver observer_i =>
      rcases expired_or_alive s.alive observer_i with hlock | ⟨o, rfl, halive⟩
      · rw [Operation.enrol, hlock, Observable.perform, addObserver_of_expired hlock]
        exact h
      · rw [Operation.enrol, lock_of_alive halive]
        exact h.addObserver halive
  | removeObserver observer_i =>
      rcases expired_or_alive s.alive observer_i with hlock | ⟨o, rfl, halive⟩
      · rw [Operation.enrol, hlock, Observable.perform, removeObserver_of_expired hlock]
        exact h
      · rw [Operation.enrol, lock_of_alive halive]
        exact h.removeObserver halive
  | set value_i =>
      exact h.set react value_i
  | destroy o =>
      exact h.destroy o

theorem alive_perform
    (react : Reaction T) (s : Site T) (op : Operation T) :
    (perform react s op).alive = op.survivors s.alive := by
  cases op with
  | set value_i =>
      rw [perform, Operation.survivors]
      have hcases := set_cases react value_i s
      generalize (Observable.set react value_i).run s = result at hcases ⊢
      cases hcases <;> rfl
  | _ =>
      rfl

/-- Behind a history the list of the observable agrees with who is registered. -/
theorem Agrees.after
    (h : Agrees r s) (react : Reaction T) (ops : List (Operation T)) :
    Agrees (enrolled s.alive r ops) (after react s ops) := by
  induction ops generalizing r s with
  | nil =>
      exact h
  | cons op ops ih =>
      have hrest := ih (h.perform react op)
      rwa [alive_perform] at hrest

end Agreement

section Law

variable [BEq T] {r : Registry ObserverId} {s : Site T}

/-- What the methods do at a site where the members of the registry are registered. -/
structure Lawful (react : Reaction T) (r : Registry ObserverId) (s : Site T) : Prop where
  entries : live s.alive s.observable.observers_ = r.members
  add : ∀ observer_i,
    (addObserver s.alive observer_i s.observable).1 = true ↔
      ∃ o, observer_i = some o ∧ s.alive o = true ∧ o ∉ r.members
  remove : ∀ observer_i,
    (removeObserver s.alive observer_i s.observable).1 = true ↔
      ∃ o, observer_i = some o ∧ s.alive o = true ∧ o ∈ r.members
  removed : ∀ o, s.alive o = true →
    some o ∉ (removeObserver s.alive (some o) s.observable).2.observers_
  changes : ∀ value_i changed s', (set react value_i).run s = .ok changed s' →
    (changed = true ↔ (value_i == s.observable.value_) = false)
  broadcast : ∀ value_i s', (set react value_i).run s = .ok true s' →
    s'.observable.value_ = value_i ∧
    s'.called = s.called ++ r.members.map (fun o => (o, value_i)) ∧
    ∀ wp ∈ s'.observable.observers_, expired s'.alive wp = false
  silent : ∀ value_i s', (set react value_i).run s = .ok false s' → s' = s
  returns : ∀ value_i, (∀ o ∈ r.members, react o value_i = .ok ()) →
    ∃ changed s', (set react value_i).run s = .ok changed s'

theorem Agrees.lawful
    (h : Agrees r s) (react : Reaction T) :
    Lawful react r s where
  entries := h
  add observer_i := by
    rw [addObserver_fst_iff]
    constructor
    · rintro ⟨o, rfl, halive, hmem⟩
      exact ⟨o, rfl, halive, mt (h.mem_iff halive).mpr hmem⟩
    · rintro ⟨o, rfl, halive, hmem⟩
      exact ⟨o, rfl, halive, mt (h.mem_iff halive).mp hmem⟩
  remove observer_i := by
    rw [removeObserver_fst_iff]
    constructor
    · rintro ⟨o, rfl, halive, hmem⟩
      exact ⟨o, rfl, halive, (h.mem_iff halive).mp hmem⟩
    · rintro ⟨o, rfl, halive, hmem⟩
      exact ⟨o, rfl, halive, (h.mem_iff halive).mpr hmem⟩
  removed o halive := by
    have hremove := h.removeObserver halive
    exact mt (hremove.mem_iff halive).mp (r.not_mem_remove o)
  changes value_i changed s' hrun := by
    have hcases := set_cases react value_i s
    rw [hrun] at hcases
    cases hcases with
    | unchanged hsame => simp [hsame]
    | broadcast hnew => simp [hnew]
  broadcast value_i s' hrun := by
    have hcases := set_cases react value_i s
    rw [hrun] at hcases
    cases hcases with
    | broadcast hnew =>
        refine ⟨rfl, ?_, fun wp hwp => not_expired_of_removeExpired hwp⟩
        rw [h]
        rfl
  silent value_i s' hrun := by
    have hcases := set_cases react value_i s
    rw [hrun] at hcases
    cases hcases
    rfl
  returns value_i hreact := by
    have hcases := set_cases react value_i s
    generalize (Observable.set react value_i).run s = result at hcases ⊢
    cases hcases with
    | unchanged => exact ⟨false, _, rfl⟩
    | broadcast => exact ⟨true, _, rfl⟩
    | @interrupted before after o e hnew hlive hthrows =>
        have hmem : o ∈ r.members := by
          rw [← h, hlive]
          simp
        rw [hreact o hmem] at hthrows
        cases hthrows

/-- Registration and broadcast in one thread: behind every history the methods do what
the registry of that history says. -/
theorem registration_law
    (react : Reaction T) (value_i : T) (alive : ObserverId → Bool)
    (ops : List (Operation T)) :
    Lawful react (enrolled alive Registry.empty ops)
      (after react (Site.init value_i alive) ops) := by
  have hstart : Agrees Registry.empty (Site.init value_i alive) := rfl
  exact (hstart.after react ops).lawful react

end Law

end Observable
end Bren
end Brenlib
