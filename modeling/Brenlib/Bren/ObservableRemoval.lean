import Brenlib.Bren.ObservableBroadcast

/-!
# Observers that have been removed from an `Observable`

A call of `set` goes on with its own copy of the list.  An observer that is removed in
between still has its entry there, and is notified with whatever value is stored by
then.

* `Silent`: nobody will notify the observer.
* `canNotify_of_owed`: a call that has still to notify an observer can do it.
* `removed_silent_iff`: when a removed observer is not notified any more.
-/

namespace Brenlib
namespace Bren
namespace Observable

open TransitionSystem

variable {T : Type}

section Silence

variable {s t : System T} {l : Label T} {o : ObserverId} {i : Nat}

/-- The observer is not registered. -/
def NotRegistered (o : ObserverId) (_ : System T) (_ : Label T) (t : System T) : Prop :=
  some o ∉ t.observable.observers_

instance (o : ObserverId) (s : System T) (l : Label T) (t : System T) :
    Decidable (NotRegistered o s l t) :=
  inferInstanceAs (Decidable (some o ∉ t.observable.observers_))

variable [BEq T]

/-- The entries that a call has still to meet come from its copy or, when it begins,
from the list of the observable. -/
theorem owed_of_step
    (hstep : Steps step s l t) (howed : some o ∈ (t.phase i).otbn) :
    some o ∈ (s.phase i).otbn ∨ some o ∈ s.observable.observers_ := by
  cases step_cases hstep with
  | added | removed | died =>
      exact .inl howed
  | stored j value_i =>
      exact (owed_goto howed).imp_right And.right
  | unchanged =>
      exact .inl ((owed_goto howed).resolve_right fun h => absurd h.2 List.not_mem_nil)
  | threw =>
      exact .inl ((owed_goto howed).resolve_right fun h => absurd h.2 List.not_mem_nil)
  | cleaned =>
      exact .inl ((owed_goto howed).resolve_right fun h => absurd h.2 List.not_mem_nil)
  | finished =>
      exact .inl ((owed_goto howed).resolve_right fun h => absurd h.2 List.not_mem_nil)
  | skipped hphase | called hphase =>
      left
      rcases owed_goto howed with howed | ⟨rfl, hrest⟩
      · exact howed
      · rw [hphase]
        exact List.mem_cons_of_mem _ hrest
  | answered hphase =>
      left
      rcases owed_goto howed with howed | ⟨rfl, hrest⟩
      · exact howed
      · rwa [hphase]

/-- No list has an entry of the observer. -/
structure Silent (o : ObserverId) (s : System T) : Prop where
  observers : some o ∉ s.observable.observers_
  copies : ∀ i, some o ∉ (s.phase i).otbn

theorem Silent.step
    (h : Silent o s) (hstep : Guarded (NotRegistered o) (Steps step) s l t) :
    Silent o t where
  observers := hstep.1
  copies i howed := by
    rcases owed_of_step hstep.2 howed with howed | hregistered
    · exact h.copies i howed
    · exact h.observers hregistered

theorem Silent.received
    (h : Silent o s) (hstep : Steps Observable.step s l t) :
    t.received o = s.received o := by
  cases delivered_cases hstep with
  | nothing hdelivered =>
      exact received_of_nothing hdelivered
  | delivery i value_i foundExpired spo otbn hlabel hphase hdelivered =>
      have hspo : spo ≠ o := by
        rintro rfl
        refine h.copies i ?_
        rw [hphase]
        exact List.mem_cons_self
      exact received_of_other hspo hdelivered

end Silence

section Notification

variable [BEq T] {s t : System T} {o : ObserverId} {i : Nat}

/-- The call `i` can notify `o` while it is not registered. -/
def CanNotify (o : ObserverId) (s : System T) : Prop :=
  ∃ ls t v, Run (Guarded (NotRegistered o) (Steps step)) s ls t ∧
    t.received o = s.received o ++ [v]

theorem CanNotify.of_step
    {l : Label T} (h : CanNotify o t)
    (hstep : Guarded (NotRegistered o) (Steps step) s l t)
    (hreceived : t.received o = s.received o) :
    CanNotify o s := by
  obtain ⟨ls, u, v, hrun, hu⟩ := h
  exact ⟨l :: ls, u, v, .cons hstep hrun, hu.trans (by rw [hreceived])⟩

/-- A call that is going through its copy meets the observer, once those in front of
it have answered. -/
theorem canNotify_of_notifying
    {value_i : T} {foundExpired : Bool} {otbn : List WeakPtr}
    (hphase : s.phase i = .notifying value_i foundExpired otbn)
    (hmem : some o ∈ otbn)
    (halive : s.alive o = true)
    (hremoved : some o ∉ s.observable.observers_) :
    CanNotify o s := by
  induction otbn generalizing s foundExpired with
  | nil =>
      cases hmem
  | cons wp otbn ih =>
      rcases expired_or_alive s.alive wp with hexpired | ⟨spo, rfl, hspo⟩
      · have hrest : some o ∈ otbn := by
          rcases List.mem_cons.mp hmem with hwp | hrest
          · exact absurd hwp.symm (ne_of_expired hexpired halive)
          · exact hrest
        have hnext : CanNotify o (s.goto i (.notifying value_i true otbn)) :=
          ih (goto_self s i _) hrest halive hremoved
        exact hnext.of_step ⟨hremoved, step_skipped hphase hexpired⟩ rfl
      · have hstep := step_called hphase hspo
        by_cases ho : spo = o
        · subst ho
          refine ⟨[.notify i], (s.call i spo).goto i (.calling value_i foundExpired spo otbn),
            s.observable.value_, .single ⟨hremoved, hstep⟩, ?_⟩
          exact received_of_delivery rfl
        · have hrest : some o ∈ otbn := by
            rcases List.mem_cons.mp hmem with heq | hrest
            · exact absurd (Option.some.inj heq).symm ho
            · exact hrest
          have hcalling :=
            goto_self (s.call i spo) i (.calling value_i foundExpired spo otbn)
          have hanswer := step_answered hcalling
          have hnext : CanNotify o
              ((((s.call i spo).goto i (.calling value_i foundExpired spo otbn)).release
                spo).goto i (.notifying value_i foundExpired otbn)) :=
            ih (goto_self _ i _) hrest halive hremoved
          refine (hnext.of_step ⟨hremoved, hanswer⟩ rfl).of_step ⟨hremoved, hstep⟩ ?_
          exact received_of_other ho rfl

/-- Whoever has an entry in the copy of a call can be notified. -/
theorem canNotify_of_owed
    (howed : some o ∈ (s.phase i).otbn)
    (halive : s.alive o = true)
    (hremoved : some o ∉ s.observable.observers_) :
    CanNotify o s := by
  cases hphase : s.phase i with
  | notifying value_i foundExpired otbn =>
      rw [hphase] at howed
      exact canNotify_of_notifying hphase howed halive hremoved
  | calling value_i foundExpired spo otbn =>
      rw [hphase] at howed
      have hnext : CanNotify o
          ((s.release spo).goto i (.notifying value_i foundExpired otbn)) :=
        canNotify_of_notifying (goto_self _ i _) howed halive hremoved
      exact hnext.of_step ⟨hremoved, step_answered hphase⟩ rfl
  | _ =>
      rw [hphase] at howed
      cases howed

end Notification

section Removal

variable [BEq T] {s t : System T} {o : ObserverId}

/-- **A removed observer is not notified**, until it is registered again, exactly when
no call of `set` has still to notify it at the moment of the removal. -/
theorem removed_silent_iff
    {value_i : T} {alive : ObserverId → Bool} {ls : List (Label T)}
    (hreach : Run (Steps step) (System.init value_i alive) ls s)
    (hremoved : (removeObserver s.alive (some o) s.observable).1 = true)
    (hstep : Steps step s (.removeObserver (some o)) t) :
    (∀ ls u, Run (Guarded (NotRegistered o) (Steps step)) t ls u →
      u.received o = t.received o) ↔
      ∀ i, some o ∉ (s.phase i).otbn := by
  obtain ⟨o', ho', halive, -⟩ := removeObserver_fst_iff.mp hremoved
  obtain rfl := Option.some.inj ho'
  cases step_cases hstep with
  | removed =>
      have hgone := (tidy_reachable hreach).observers.not_mem_removeObserver halive
      constructor
      · intro hsilent i howed
        obtain ⟨ls, u, v, hrun, hu⟩ := canNotify_of_owed (i := i)
          (s := { s with
            observable := (removeObserver s.alive (some o) s.observable).2 })
          howed halive hgone
        have hsame := hsilent ls u hrun
        rw [hu] at hsame
        simp at hsame
      · intro hnone ls u hrun
        have hstart : Silent o { s with
            observable := (removeObserver s.alive (some o) s.observable).2 } :=
          ⟨hgone, hnone⟩
        exact hrun.relates (Silent o) (fun s t => t.received o = s.received o)
          (fun _ => rfl) (fun h h' => h'.trans h) Silent.step
          (fun h hstep => h.received hstep.2) hstart

/-- An observer is removed before the value changes. -/
theorem removed_silent_iff_example :
    ∃ s t : System Nat,
      Run (Steps step) (System.init 0 fun _ => true) [.addObserver (some 0)] s ∧
      (removeObserver s.alive (some 0) s.observable).1 = true ∧
      Steps step s (.removeObserver (some 0)) t ∧
      ∀ ls u, Run (Guarded (NotRegistered 0) (Steps step)) t ls u →
        u.received 0 = t.received 0 := by
  let s : System Nat := System.start ⟨[some 0], 0⟩ fun _ => true
  have hreach :
      Run (Steps step) (System.init 0 fun _ => true) [.addObserver (some 0)] s :=
    run_of_exec rfl
  have hstep : Steps step s (.removeObserver (some 0)) _ := rfl
  refine ⟨s, _, hreach, rfl, hstep, (removed_silent_iff hreach rfl hstep).mpr ?_⟩
  intro i
  exact List.not_mem_nil

/-- An observer is removed while a call is going to notify it.  Another call stores a
new value, and the first one hands it over to the observer. -/
theorem removed_observer_notified :
    ∃ s t u : System Nat,
      Run (Steps step) (System.init 0 fun _ => true)
        [.addObserver (some 0), .set 0 1] s ∧
      (removeObserver s.alive (some 0) s.observable).1 = true ∧
      Steps step s (.removeObserver (some 0)) t ∧
      Run (Guarded (NotRegistered 0) (Steps step)) t [.set 1 2, .notify 0] u ∧
      t.received 0 = [] ∧ u.received 0 = [2] := by
  let s : System Nat := (exec step (System.init 0 fun _ => true)
    [.addObserver (some 0), .set 0 1]).get rfl
  let t : System Nat := (step s (.removeObserver (some 0))).get rfl
  have hreach :
      Run (Steps step) (System.init 0 fun _ => true)
        [.addObserver (some 0), .set 0 1] s :=
    run_of_exec rfl
  have hrun :
      Run (Guarded (NotRegistered 0) (Steps step)) t [.set 1 2, .notify 0] _ :=
    guarded_of_exec rfl
  exact ⟨s, t, _, hreach, rfl, rfl, hrun, rfl, rfl⟩

end Removal

end Observable
end Bren
end Brenlib
