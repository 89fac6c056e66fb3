import Brenlib.Bren.ObservableRegistration
import Brenlib.Bren.ObservableThreads

/-!
# A call of `set` that is not interrupted

When one call takes all the steps, the threads execute the code of `set` from its
beginning to its end: the call notifies the observers that `set` calls in one thread,
and leaves the observable as `set` leaves it.

* `solo_notify`: the loop over the copy of the list.
* `solo_set`: the whole call as a run of the threads.
-/

namespace Brenlib
namespace Bren
namespace Observable

open TransitionSystem

variable {T : Type}

/-- The call that takes the step. -/
def Label.call? : Label T → Option Nat
  | .set i _ => some i
  | .notify i => some i
  | .answer i _ => some i
  | .finish i => some i
  | .addObserver _ => none
  | .removeObserver _ => none
  | .destroy _ => none

/-- The observable with its observers, as one thread sees it. -/
def System.site (s : System T) (called : List (ObserverId × T)) : Site T where
  observable := s.observable
  alive := s.alive
  called := called

/-- The call `i` has notified the observers with the stored value. -/
def System.told (s : System T) (i : Nat) (os : List ObserverId) : System T :=
  { s with delivered := s.delivered ++ os.map fun o => ⟨i, o, s.observable.value_⟩ }

section Told

variable (s : System T) (i : Nat) (p q : Phase T)

theorem told_nil :
    s.told i [] = s := by
  simp [System.told]

theorem told_told
    (os os' : List ObserverId) :
    (s.told i os).told i os' = s.told i (os ++ os') := by
  simp [System.told]

theorem goto_goto :
    (s.goto i p).goto i q = s.goto i q := by
  simp [System.goto]

/-- A call of `observableChanged` gives the observer back. -/
theorem call_release
    (o : ObserverId) :
    (((s.goto i p).call i o).goto i q).release o = (s.told i [o]).goto i q := by
  simp [System.call, System.release, System.goto, System.told]

theorem site_told
    (o : ObserverId) (called : List (ObserverId × T)) :
    (s.told i [o]).site (called ++ [(o, s.observable.value_)]) =
      (s.site called).calls [o] := rfl

end Told

section Solo

variable [BEq T] {s t u : System T} {i : Nat}

/-- Steps of the call `i` alone. -/
def Solo (i : Nat) (s t : System T) : Prop :=
  ∃ ls : List (Label T), (∀ l ∈ ls, l.call? = some i) ∧ Run (Steps step) s ls t

theorem Solo.refl
    (i : Nat) (s : System T) :
    Solo i s s := by
  refine ⟨[], ?_, .nil s⟩
  intro l hl
  cases hl

theorem Solo.step
    {l : Label T} (hcall : l.call? = some i) (hstep : Steps step s l t) :
    Solo i s t := by
  refine ⟨[l], ?_, .single hstep⟩
  intro l' hl'
  rwa [List.mem_singleton.mp hl']

theorem Solo.trans
    (hfirst : Solo i s t) (hsecond : Solo i t u) :
    Solo i s u := by
  obtain ⟨ls, hls, hrun⟩ := hfirst
  obtain ⟨ls', hls', hrun'⟩ := hsecond
  refine ⟨ls ++ ls', ?_, hrun.append hrun'⟩
  intro l hl
  rcases List.mem_append.mp hl with hl | hl
  · exact hls l hl
  · exact hls' l hl

variable {react : Reaction T} {value_i : T} {foundExpired : Bool} {o : ObserverId}
variable {otbn : List WeakPtr} {wp : WeakPtr}

theorem solo_skipped
    (hexpired : lock s.alive wp = none) :
    Solo i (s.goto i (.notifying value_i foundExpired (wp :: otbn)))
      (s.goto i (.notifying value_i true otbn)) := by
  have hstep := step_skipped (goto_self s i (.notifying value_i foundExpired (wp :: otbn)))
    hexpired
  rw [goto_goto] at hstep
  exact .step rfl hstep

/-- An observer is called and returns. -/
theorem solo_returned
    (halive : s.alive o = true) :
    Solo i (s.goto i (.notifying value_i foundExpired (some o :: otbn)))
      ((s.told i [o]).goto i (.notifying value_i foundExpired otbn)) := by
  have hcall := step_called
    (goto_self s i (.notifying value_i foundExpired (some o :: otbn))) halive
  have hanswer := step_answered (goto_self
    ((s.goto i (.notifying value_i foundExpired (some o :: otbn))).call i o) i
    (.calling value_i foundExpired o otbn))
  rw [call_release, goto_goto] at hanswer
  exact (Solo.step rfl hcall).trans (.step rfl hanswer)

/-- An observer is called and throws. -/
theorem solo_threw
    (halive : s.alive o = true) (e : StdException) :
    Solo i (s.goto i (.notifying value_i foundExpired (some o :: otbn)))
      ((s.told i [o]).goto i (.threw e)) := by
  have hcall := step_called
    (goto_self s i (.notifying value_i foundExpired (some o :: otbn))) halive
  have hanswer := step_threw e (goto_self
    ((s.goto i (.notifying value_i foundExpired (some o :: otbn))).call i o) i
    (.calling value_i foundExpired o otbn))
  rw [call_release, goto_goto] at hanswer
  exact (Solo.step rfl hcall).trans (.step rfl hanswer)

/-- The loop: the call notifies whom `notify` calls, until one throws. -/
theorem solo_notify
    (i : Nat) (react : Reaction T) (value_i : T) (foundExpired : Bool)
    (otbn : List WeakPtr) (s : System T) (called : List (ObserverId × T)) :
    ∃ os,
      (∃ found,
        (notify react foundExpired otbn).run (s.site called) =
            .ok found ((s.site called).calls os) ∧
          Solo i (s.goto i (.notifying value_i foundExpired otbn))
            ((s.told i os).goto i (.notifying value_i found []))) ∨
      ∃ e,
        (notify react foundExpired otbn).run (s.site called) =
            .error e ((s.site called).calls os) ∧
          Solo i (s.goto i (.notifying value_i foundExpired otbn))
            ((s.told i os).goto i (.threw e)) := by
  induction otbn generalizing foundExpired s called with
  | nil =>
      refine ⟨[], .inl ⟨foundExpired, ?_, ?_⟩⟩
      · rw [calls_nil]
        rfl
      · rw [told_nil]
        exact .refl i _
  | cons wp otbn ih =>
      rcases expired_or_alive s.alive wp with hexpired | ⟨o, rfl, halive⟩
      · rw [notify_cons_expired hexpired]
        have hskip : Solo i (s.goto i (.notifying value_i foundExpired (wp :: otbn)))
            (s.goto i (.notifying value_i true otbn)) := solo_skipped hexpired
        obtain ⟨os, ⟨found, hrun, hsolo⟩ | ⟨e, hrun, hsolo⟩⟩ := ih true s called
        · exact ⟨os, .inl ⟨found, hrun, hskip.trans hsolo⟩⟩
        · exact ⟨os, .inr ⟨e, hrun, hskip.trans hsolo⟩⟩
      · have hlock : lock (s.site called).alive (some o) = some o := lock_of_alive halive
        cases hreact : react o s.observable.value_ with
        | error e =>
            rw [notify_cons_throws hlock hreact]
            exact ⟨[o], .inr ⟨e, rfl, solo_threw halive e⟩⟩
        | ok =>
            rw [notify_cons_returns hlock hreact]
            have hfirst : Solo i
                (s.goto i (.notifying value_i foundExpired (some o :: otbn)))
                ((s.told i [o]).goto i (.notifying value_i foundExpired otbn)) :=
              solo_returned halive
            obtain ⟨os, hrest⟩ := ih foundExpired (s.told i [o])
              (called ++ [(o, s.observable.value_)])
            rw [site_told, calls_calls, told_told] at hrest
            rcases hrest with ⟨found, hrun, hsolo⟩ | ⟨e, hrun, hsolo⟩
            · exact ⟨o :: os, .inl ⟨found, hrun, hfirst.trans hsolo⟩⟩
            · exact ⟨o :: os, .inr ⟨e, hrun, hfirst.trans hsolo⟩⟩

/-- The call has come to the same end as `set`. -/
inductive SoloEnds (i : Nat) (t : System T) (called : List (ObserverId × T)) :
    EStateM.Result StdException (Site T) Bool → Prop
  | returned
      (changed : Bool)
      (hphase : t.phase i = .returned changed) :
      SoloEnds i t called (.ok changed (t.site called))
  | threw
      (e : StdException)
      (hphase : t.phase i = .threw e) :
      SoloEnds i t called (.error e (t.site called))

/-- A new value has been stored by the call `i`. -/
def System.write (s : System T) (i : Nat) (value_i : T) : System T :=
  { s with
    observable := { s.observable with value_ := value_i }
    stored := s.stored ++ [(i, value_i)] }

theorem solo_unchanged
    (hidle : s.phase i = .idle) (hsame : (value_i == s.observable.value_) = true) :
    Solo i s (s.goto i (.returned false)) := by
  have hstep : Steps step s (.set i value_i) (s.goto i (.returned false)) := by
    simp [Steps, step, hidle, store, hsame]
  exact .step rfl hstep

theorem solo_stored
    (hidle : s.phase i = .idle) (hnew : (value_i == s.observable.value_) = false) :
    Solo i s
      ((s.write i value_i).goto i (.notifying value_i false s.observable.observers_)) := by
  have hstep : Steps step s (.set i value_i)
      ((s.write i value_i).goto i (.notifying value_i false s.observable.observers_)) := by
    simp [Steps, step, hidle, store, hnew, System.goto, System.write]
  exact .step rfl hstep

/-- The end of `set`, with the cleaning if an expired entry has been found. -/
theorem solo_finished
    (value_i : T) (found : Bool) (s : System T) :
    Solo i (s.goto i (.notifying value_i found []))
      { s.goto i (.returned true) with
        observable :=
          if found then removeExpired s.alive s.observable else s.observable } := by
  have hstep : Steps step (s.goto i (.notifying value_i found [])) (.finish i)
      { s.goto i (.returned true) with
        observable :=
          if found then removeExpired s.alive s.observable else s.observable } := by
    simp [Steps, step, System.goto]
  exact .step rfl hstep

/-- A call that nobody interrupts does what `set` does: it returns or throws as `set`,
leaves the same observable, and notifies the same observers. -/
theorem solo_set
    (react : Reaction T) (value_i : T) (hidle : s.phase i = .idle)
    (called : List (ObserverId × T)) :
    ∃ (os : List ObserverId) (t : System T), Solo i s t ∧
      t.delivered = s.delivered ++ os.map (fun o => ⟨i, o, value_i⟩) ∧
      SoloEnds i t (called ++ os.map fun o => (o, value_i))
        ((set react value_i).run (s.site called)) := by
  cases hnew : value_i == s.observable.value_ with
  | true =>
      refine ⟨[], s.goto i (.returned false), solo_unchanged hidle hnew, ?_, ?_⟩
      · simp [System.goto]
      · rw [set_unchanged hnew, List.map_nil, List.append_nil]
        exact .returned false (goto_self s i _)
  | false =>
      have hstored := solo_stored hidle hnew
      obtain ⟨os, ⟨found, hrun, hsolo⟩ | ⟨e, hrun, hsolo⟩⟩ :=
        solo_notify i react value_i false s.observable.observers_ (s.write i value_i) called
      · have hloop :
            (notify react false (s.site called).observable.observers_).run
                ((s.site called).stored value_i) =
              .ok found (((s.write i value_i).site called).calls os) := hrun
        have hfinish := solo_finished (i := i) value_i found ((s.write i value_i).told i os)
        refine ⟨os, _, (hstored.trans hsolo).trans hfinish, rfl, ?_⟩
        rw [set_changed hnew, hloop]
        cases found with
        | true => exact .returned true (goto_self _ i _)
        | false => exact .returned true (goto_self _ i _)
      · have hloop :
            (notify react false (s.site called).observable.observers_).run
                ((s.site called).stored value_i) =
              .error e (((s.write i value_i).site called).calls os) := hrun
        refine ⟨os, _, hstored.trans hsolo, rfl, ?_⟩
        rw [set_changed hnew, hloop]
        exact .threw e (goto_self _ i _)

end Solo

end Observable
end Bren
end Brenlib
