import Brenlib.Bren.ObservableThreads

/-!
# What the observers of an `Observable` receive

The calls of `set` notify from their own copies of the list and hand over the value
that is stored at that moment, which may have come from another call.

* `delivered_cases`, `owed_step`, `owed_of_step`: what a step does to the deliveries
  and to the entries that a call has still to meet.
* `observers_converge`: behind the last change, the last value that an observer has
  received is the stored one.
-/

namespace Brenlib
namespace Bren
namespace Observable

open TransitionSystem

variable {T : Type}

/-- What `o` has received: the calls of `set` with the values. -/
def System.ledger (s : System T) (o : ObserverId) : List (Nat × T) :=
  (s.delivered.filter (·.observer = o)).map fun d => (d.call, d.value)

/-- The values that `o` has received. -/
def System.received (s : System T) (o : ObserverId) : List T :=
  (s.ledger o).map Prod.snd

/-- The observer is registered and alive. -/
def System.Has (s : System T) (o : ObserverId) : Prop :=
  some o ∈ s.observable.observers_ ∧ s.alive o = true

/-- No call of `set` is being executed, and none has thrown. -/
def System.Quiet (s : System T) : Prop :=
  ∀ i, s.phase i = .idle ∨ ∃ changed, s.phase i = .returned changed

/-- The observer stays registered and alive. -/
def Stays (o : ObserverId) (_ : System T) (_ : Label T) (t : System T) : Prop :=
  t.Has o

instance (s : System T) (o : ObserverId) : Decidable (s.Has o) :=
  inferInstanceAs (Decidable (_ ∧ _))

instance (o : ObserverId) (s : System T) (l : Label T) (t : System T) :
    Decidable (Stays o s l t) :=
  inferInstanceAs (Decidable (t.Has o))

section Ledger

variable {s t : System T} {o : ObserverId} {i : Nat} {v : T}

theorem ledger_of_nothing
    (h : t.delivered = s.delivered) :
    t.ledger o = s.ledger o := by
  rw [System.ledger, h, System.ledger]

theorem ledger_of_delivery
    {i : Nat} {v : T}
    (h : t.delivered = s.delivered ++ [⟨i, o, v⟩]) :
    t.ledger o = s.ledger o ++ [(i, v)] := by
  simp [System.ledger, h]

theorem ledger_of_other
    {i : Nat} {v : T} {spo : ObserverId} (hother : spo ≠ o)
    (h : t.delivered = s.delivered ++ [⟨i, spo, v⟩]) :
    t.ledger o = s.ledger o := by
  simp [System.ledger, h, hother]

theorem received_of_delivery
    (h : t.delivered = s.delivered ++ [⟨i, o, v⟩]) :
    t.received o = s.received o ++ [v] := by
  rw [System.received, ledger_of_delivery h, System.received, List.map_append]
  rfl

theorem received_of_nothing
    (h : t.delivered = s.delivered) :
    t.received o = s.received o := by
  rw [System.received, ledger_of_nothing h, System.received]

theorem received_of_other
    {spo : ObserverId} (hother : spo ≠ o)
    (h : t.delivered = s.delivered ++ [⟨i, spo, v⟩]) :
    t.received o = s.received o := by
  rw [System.received, ledger_of_other hother h, System.received]

end Ledger

section Delivery

variable [BEq T] {s t : System T} {l : Label T} {o : ObserverId}

/-- The value does not change. -/
def NoChange (s : System T) (l : Label T) (_ : System T) : Prop :=
  match l with
  | .set _ value_i => (value_i == s.observable.value_) = true
  | _ => True

instance (s : System T) :
    (l : Label T) → (t : System T) → Decidable (NoChange s l t)
  | .set _ value_i, _ =>
      inferInstanceAs (Decidable ((value_i == s.observable.value_) = true))
  | .addObserver _, _ => inferInstanceAs (Decidable True)
  | .removeObserver _, _ => inferInstanceAs (Decidable True)
  | .destroy _, _ => inferInstanceAs (Decidable True)
  | .notify _, _ => inferInstanceAs (Decidable True)
  | .answer _ _, _ => inferInstanceAs (Decidable True)
  | .finish _, _ => inferInstanceAs (Decidable True)

/-- The value does not change, and the observer stays. -/
def Undisturbed (o : ObserverId) (s : System T) (l : Label T) (t : System T) : Prop :=
  NoChange s l t ∧ Stays o s l t

instance (o : ObserverId) (s : System T) (l : Label T) (t : System T) :
    Decidable (Undisturbed o s l t) :=
  inferInstanceAs (Decidable (_ ∧ _))

theorem value_step
    (hstep : Steps step s l t) (hnochange : NoChange s l t) :
    t.observable.value_ = s.observable.value_ := by
  cases step_cases hstep with
  | added observer_i => exact addObserver_value s.alive observer_i s.observable
  | removed observer_i => exact removeObserver_value s.alive observer_i s.observable
  | stored i value_i hidle hnew =>
      exact absurd hnochange (by simp [NoChange, hnew])
  | _ => rfl

/-- What a step adds to the deliveries. -/
inductive DeliveredCases (s : System T) (l : Label T) (t : System T) : Prop
  | nothing
      (hdelivered : t.delivered = s.delivered)
  | delivery
      (i : Nat) (value_i : T) (foundExpired : Bool) (spo : ObserverId)
      (otbn : List WeakPtr)
      (hlabel : l = .notify i)
      (hphase : s.phase i = .notifying value_i foundExpired (some spo :: otbn))
      (hdelivered : t.delivered = s.delivered ++ [⟨i, spo, s.observable.value_⟩])

theorem delivered_cases
    (hstep : Steps step s l t) :
    DeliveredCases s l t := by
  cases step_cases hstep with
  | called hphase => exact .delivery _ _ _ _ _ rfl hphase rfl
  | _ => exact .nothing rfl

/-- What becomes of an observer that a call has still to notify: it is notified, or it
has still to be notified, unless the call throws. -/
theorem owed_step
    (hstep : Steps step s l t) (halive : s.alive o = true) {i : Nat}
    (howed : some o ∈ (s.phase i).otbn) :
    some o ∈ (t.phase i).otbn ∨
      t.delivered = s.delivered ++ [⟨i, o, s.observable.value_⟩] ∨
      ∃ e, t.phase i = .threw e := by
  cases step_cases hstep with
  | added | removed | died =>
      exact .inl howed
  | unchanged j value_i hidle =>
      exact .inl (owed_goto_of (by simp [hidle, Phase.otbn]) howed)
  | stored j value_i hidle =>
      exact .inl (owed_goto_of (by simp [hidle, Phase.otbn]) howed)
  | @skipped j value_i foundExpired wp otbn hphase hexpired =>
      refine .inl (owed_goto_of ?_ howed)
      rw [hphase]
      intro hmem
      rcases List.mem_cons.mp hmem with hwp | hrest
      · exact absurd hwp.symm (ne_of_expired hexpired halive)
      · exact hrest
  | @called j value_i foundExpired spo otbn hphase =>
      by_cases hij : i = j
      · subst hij
        rw [hphase] at howed
        rcases List.mem_cons.mp howed with ho | hrest
        · obtain rfl := Option.some.inj ho
          exact .inr (.inl rfl)
        · rw [goto_self]
          exact .inl hrest
      · rw [goto_of_ne hij]
        exact .inl howed
  | @answered j value_i foundExpired spo otbn hphase =>
      have hreleased : some o ∈ ((s.release spo).phase i).otbn := howed
      refine .inl (owed_goto_of ?_ hreleased)
      intro hmem
      have hcopy : some o ∈ (s.phase j).otbn := hmem
      rwa [hphase] at hcopy
  | @threw j value_i foundExpired spo otbn e hphase =>
      by_cases hij : i = j
      · subst hij
        exact .inr (.inr ⟨e, goto_self _ i _⟩)
      · rw [goto_of_ne hij]
        exact .inl howed
  | @cleaned j value_i hphase =>
      exact .inl (owed_goto_of (by simp [hphase, Phase.otbn]) howed)
  | @finished j value_i hphase =>
      exact .inl (owed_goto_of (by simp [hphase, Phase.otbn]) howed)

end Delivery

section Convergence

variable {s t : System T} {l : Label T} {o : ObserverId} {i : Nat} {v : T}

/-- The call `i` has stored the value `v`, and `o` has received it as its last value or
the call has still to notify it. -/
structure Converging (o : ObserverId) (i : Nat) (v : T) (s : System T) : Prop where
  value : s.observable.value_ = v
  alive : s.alive o = true
  last : (s.received o).getLast? = some v ∨ some o ∈ (s.phase i).otbn ∨
    ∃ e, s.phase i = .threw e

/-- A call that is not being executed has nobody to notify. -/
theorem System.Quiet.last
    (hquiet : s.Quiet) (h : Converging o i v s) :
    (s.received o).getLast? = some v := by
  rcases h.last with hlast | howed | ⟨e, hthrew⟩
  · exact hlast
  · rcases hquiet i with hphase | ⟨changed, hphase⟩ <;> simp [hphase, Phase.otbn] at howed
  · rcases hquiet i with hphase | ⟨changed, hphase⟩ <;> simp [hphase] at hthrew

variable [BEq T]

/-- A delivery hands over the stored value. -/
theorem last_step
    (hstep : Steps step s l t) :
    t.received o = s.received o ∨ t.received o = s.received o ++ [s.observable.value_] := by
  cases delivered_cases hstep with
  | nothing hdelivered =>
      exact .inl (received_of_nothing hdelivered)
  | delivery i value_i foundExpired spo otbn hlabel hphase hdelivered =>
      by_cases hspo : spo = o
      · subst hspo
        exact .inr (received_of_delivery hdelivered)
      · exact .inl (received_of_other hspo hdelivered)

theorem threw_step
    (hstep : Steps step s l t) {e : StdException} (h : s.phase i = .threw e) :
    t.phase i = .threw e := by
  have hne {j : Nat} {p : Phase T} (hp : s.phase j = p) (hthrew : p ≠ .threw e) :
      i ≠ j := by
    rintro rfl
    exact hthrew (hp.symm.trans h)
  cases step_cases hstep with
  | added | removed | died =>
      exact h
  | unchanged j value_i hphase =>
      rwa [goto_of_ne (hne hphase (by simp))]
  | stored j value_i hphase =>
      exact (goto_of_ne (hne hphase (by simp)) s _).trans h
  | skipped hphase =>
      rwa [goto_of_ne (hne hphase (by simp))]
  | called hphase =>
      rwa [goto_of_ne (hne hphase (by simp))]
  | answered hphase =>
      rwa [goto_of_ne (hne hphase (by simp))]
  | threw e hphase =>
      rwa [goto_of_ne (hne hphase (by simp))]
  | cleaned hphase =>
      exact (goto_of_ne (hne hphase (by simp)) s _).trans h
  | finished hphase =>
      rwa [goto_of_ne (hne hphase (by simp))]

theorem Converging.step
    (h : Converging o i v s)
    (hstep : Guarded (Undisturbed o) (Steps step) s l t) :
    Converging o i v t := by
  obtain ⟨⟨hnochange, hstays⟩, hstep⟩ := hstep
  refine ⟨(value_step hstep hnochange).trans h.value, hstays.2, ?_⟩
  have hlast := last_step (o := o) hstep
  rw [h.value] at hlast
  rcases h.last with hlast' | howed | ⟨e, hthrew⟩
  · left
    rcases hlast with hsame | hmore
    · rwa [hsame]
    · simp [hmore]
  · rcases owed_step hstep h.alive howed with howed | hdelivered | hthrew
    · exact .inr (.inl howed)
    · left
      rw [received_of_delivery hdelivered, h.value]
      simp
    · exact .inr (.inr hthrew)
  · exact .inr (.inr ⟨e, threw_step hstep hthrew⟩)

/-- **The observers converge.**  From any state: behind the last change of the value,
when all calls of `set` have returned, an observer that was registered and alive before
the change and all the time since has received as its last value the one that `get`
returns. -/
theorem observers_converge
    {s₀ s₁ s : System T} {ls : List (Label T)}
    (hhas : s₀.Has o)
    (hset : Steps Observable.step s₀ (.set i v) s₁)
    (hchange : (v == s₀.observable.value_) = false)
    (hrun : Run (Guarded (Undisturbed o) (Steps Observable.step)) s₁ ls s)
    (hquiet : s.Quiet) :
    (s.received o).getLast? = some s.observable.get := by
  have hstored : Converging o i v s₁ := by
    cases step_cases hset with
    | unchanged j value_i hidle hsame =>
        rw [hchange] at hsame
        cases hsame
    | stored j value_i hidle hnew =>
        refine ⟨rfl, hhas.2, .inr (.inl ?_)⟩
        change some o ∈ ((s₀.goto i _).phase i).otbn
        rw [goto_self]
        exact hhas.1
  have hend := hrun.invariant (Converging o i v) Converging.step hstored
  rw [get, hend.value]
  exact hquiet.last hend

/-- Two calls: the second one stores its value before the first one notifies. -/
theorem observers_converge_example :
    ∃ s₀ s₁ s : System Nat,
      Run (Steps step) (System.init 0 fun _ => true)
        [.addObserver (some 0), .set 0 1] s₀ ∧
      Steps step s₀ (.set 1 2) s₁ ∧
      Run (Guarded (Undisturbed 0) (Steps step)) s₁
        [.notify 1, .answer 1 (.ok ()), .finish 1,
          .notify 0, .answer 0 (.ok ()), .finish 0] s ∧
      s.Quiet ∧
      (s.received 0).getLast? = some s.observable.get := by
  let s₀ : System Nat :=
    { System.start ⟨[some 0], 1⟩ fun _ => true with
      phase := Function.update (fun _ => .idle) 0 (.notifying 1 false [some 0])
      stored := [(0, 1)] }
  have hbefore :
      Run (Steps step) (System.init 0 fun _ => true) [.addObserver (some 0), .set 0 1] s₀ :=
    run_of_exec rfl
  let s₁ : System Nat := (step s₀ (.set 1 2)).get rfl
  have hset : Steps step s₀ (.set 1 2) s₁ := rfl
  let labels : List (Label Nat) :=
    [.notify 1, .answer 1 (.ok ()), .finish 1, .notify 0, .answer 0 (.ok ()), .finish 0]
  let s : System Nat := (exec step s₁ labels).get rfl
  have hrun : Run (Guarded (Undisturbed 0) (Steps step)) s₁ labels s :=
    guarded_of_exec rfl
  have hquiet : s.Quiet := by
    intro i
    rcases i with _ | _ | i
    · exact .inr ⟨true, rfl⟩
    · exact .inr ⟨true, rfl⟩
    · exact .inl rfl
  exact ⟨s₀, s₁, s, hbefore, hset, hrun, hquiet,
    observers_converge (by decide) hset rfl hrun hquiet⟩

end Convergence

end Observable
end Bren
end Brenlib
