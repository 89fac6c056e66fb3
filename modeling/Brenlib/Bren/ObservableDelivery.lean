import Brenlib.Bren.ObservableBroadcast

/-!
# Which calls of an `Observable` reach an observer, and with which value

Every call of `set` that changes the value notifies an observer that stays registered
and alive exactly once.  What it hands over is the stored value, which is its own only
as long as no other call has stored another one.

* `Account`: which calls have notified the observer.
* `OwnValue`: the stored value is the one of the call that notifies.
* `broadcasts_iff_own_values`: the observer receives what has been set exactly when
  every notification finds the value of its own call.
-/

namespace Brenlib
namespace Bren
namespace Observable

open TransitionSystem

variable {T : Type}

section Account

variable {s t : System T} {o : ObserverId} {i j : Nat} {v : T}
variable {stored ledger : List (Nat × T)} {p : Phase T}

/-- What a phase of the call `i` says about the values that have been stored and those
that `o` has received. -/
def Settles (o : ObserverId) (stored ledger : List (Nat × T)) (i : Nat) : Phase T → Prop
  | .idle => i ∉ stored.map Prod.fst
  | .notifying value_i _ otbn =>
      (i, value_i) ∈ stored ∧ (i ∈ ledger.map Prod.fst ↔ some o ∉ otbn)
  | .calling value_i _ _ otbn =>
      (i, value_i) ∈ stored ∧ (i ∈ ledger.map Prod.fst ↔ some o ∉ otbn)
  | .returned true => i ∈ ledger.map Prod.fst
  | .returned false => i ∉ stored.map Prod.fst
  | .threw _ => True

theorem Settles.stored_append
    (h : Settles o stored ledger j p) (hne : j ≠ i) (v : T) :
    Settles o (stored ++ [(i, v)]) ledger j p := by
  cases p with
  | threw e => trivial
  | returned changed => cases changed <;> simpa [Settles, hne] using h
  | _ => simpa [Settles, hne] using h

theorem Settles.ledger_append
    (h : Settles o stored ledger j p) (hne : j ≠ i) (v : T) :
    Settles o stored (ledger ++ [(i, v)]) j p := by
  cases p with
  | threw e => trivial
  | returned changed => cases changed <;> simpa [Settles, hne] using h
  | _ => simpa [Settles, hne] using h

/-- Who has stored a value and who has notified `o`: each call once, and nobody has
notified who has not stored. -/
structure Account (o : ObserverId) (s : System T) : Prop where
  stored_nodup : (s.stored.map Prod.fst).Nodup
  ledger_nodup : ((s.ledger o).map Prod.fst).Nodup
  notified : ∀ i ∈ (s.ledger o).map Prod.fst, i ∈ s.stored.map Prod.fst
  calls : ∀ i, Settles o s.stored (s.ledger o) i (s.phase i)

theorem Account.settles
    (h : Account o s) (hphase : s.phase i = p) :
    Settles o s.stored (s.ledger o) i p :=
  hphase ▸ h.calls i

theorem account_start
    (o : ObserverId) (observable : Observable T) (alive : ObserverId → Bool) :
    Account o (System.start observable alive) where
  stored_nodup := List.nodup_nil
  ledger_nodup := List.nodup_nil
  notified := by simp [System.ledger, System.start]
  calls := by simp [System.start, Settles]

theorem nodup_append_key
    {l : List (Nat × T)} (h : (l.map Prod.fst).Nodup) (hi : i ∉ l.map Prod.fst) (v : T) :
    ((l ++ [(i, v)]).map Prod.fst).Nodup := by
  rw [List.map_append, List.map_singleton, ← List.concat_eq_append]
  exact List.Nodup.concat hi h

/-- What the account speaks about stays the same. -/
theorem Account.same
    (h : Account o s) (hphase : t.phase = s.phase) (hstored : t.stored = s.stored)
    (hledger : t.ledger o = s.ledger o) :
    Account o t := by
  obtain ⟨hstored_nodup, hledger_nodup, hnotified, hcalls⟩ := h
  rw [← hstored] at hstored_nodup hnotified hcalls
  rw [← hledger] at hledger_nodup hnotified hcalls
  rw [← hphase] at hcalls
  exact ⟨hstored_nodup, hledger_nodup, hnotified, hcalls⟩

theorem Account.goto
    (h : Account o s) (i : Nat) {p : Phase T}
    (hp : Settles o s.stored (s.ledger o) i p) :
    Account o (s.goto i p) where
  stored_nodup := h.stored_nodup
  ledger_nodup := h.ledger_nodup
  notified := h.notified
  calls j := by
    by_cases hj : j = i
    · subst hj
      rwa [goto_self]
    · rw [goto_of_ne hj]
      exact h.calls j

/-- A call that has been idle stores a value. -/
theorem Account.store
    (h : Account o s) (hidle : s.phase i = .idle) {observers : List WeakPtr}
    (hregistered : some o ∈ observers)
    (hphase : t.phase = (s.goto i (.notifying v false observers)).phase)
    (hstored : t.stored = s.stored ++ [(i, v)])
    (hdelivered : t.delivered = s.delivered) :
    Account o t := by
  have hnew : i ∉ s.stored.map Prod.fst := h.settles hidle
  have hledger : t.ledger o = s.ledger o := ledger_of_nothing hdelivered
  refine ⟨?_, ?_, ?_, ?_⟩
  · rw [hstored]
    exact nodup_append_key h.stored_nodup hnew v
  · rw [hledger]
    exact h.ledger_nodup
  · intro j hj
    rw [hledger] at hj
    rw [hstored, List.map_append]
    exact List.mem_append_left _ (h.notified j hj)
  · intro j
    rw [hphase, hstored, hledger]
    by_cases hj : j = i
    · subst hj
      rw [goto_self]
      refine ⟨List.mem_append_right _ (List.mem_singleton_self _), ?_⟩
      constructor
      · intro hnotified
        exact absurd (h.notified j hnotified) hnew
      · intro hother
        exact absurd hregistered hother
    · rw [goto_of_ne hj]
      exact (h.calls j).stored_append hj v

/-- A call notifies the observer, which has no other entry in its copy. -/
theorem Account.deliver
    (h : Account o s) {value_i : T} {foundExpired : Bool} {otbn : List WeakPtr}
    (hnotifying : s.phase i = .notifying value_i foundExpired (some o :: otbn))
    (honce : some o ∉ otbn)
    (hphase : t.phase = (s.goto i (.calling value_i foundExpired o otbn)).phase)
    (hstored : t.stored = s.stored)
    (hdelivered : t.delivered = s.delivered ++ [⟨i, o, v⟩]) :
    Account o t := by
  have hcall := h.settles hnotifying
  obtain ⟨hmem, hnotified⟩ := hcall
  have hnew : i ∉ (s.ledger o).map Prod.fst := by
    rw [hnotified]
    simp
  have hledger : t.ledger o = s.ledger o ++ [(i, v)] := ledger_of_delivery hdelivered
  refine ⟨?_, ?_, ?_, ?_⟩
  · rw [hstored]
    exact h.stored_nodup
  · rw [hledger]
    exact nodup_append_key h.ledger_nodup hnew v
  · intro j hj
    rw [hledger, List.map_append] at hj
    rw [hstored]
    rcases List.mem_append.mp hj with hj | hj
    · exact h.notified j hj
    · rw [List.mem_singleton.mp hj]
      exact List.mem_map.mpr ⟨(i, value_i), hmem, rfl⟩
  · intro j
    rw [hphase, hstored, hledger]
    by_cases hj : j = i
    · subst hj
      rw [goto_self]
      refine ⟨hmem, ?_⟩
      simp [honce]
    · rw [goto_of_ne hj]
      exact (h.calls j).ledger_append hj v

variable [BEq T] {l : Label T}

theorem Account.step
    (h : Account o s) (htidy : Tidy s) (hhas : s.Has o) (hstep : Steps step s l t) :
    Account o t := by
  cases step_cases hstep with
  | added | removed | died =>
      exact h.same rfl rfl rfl
  | unchanged i value_i hidle =>
      have hcall := h.settles hidle
      exact h.goto i hcall
  | stored i value_i hidle =>
      exact h.store hidle hhas.1 rfl rfl rfl
  | @skipped i value_i foundExpired wp otbn hphase hexpired =>
      have hcall := h.settles hphase
      have hother : some o ≠ wp := (ne_of_expired hexpired hhas.2).symm
      refine h.goto i ⟨hcall.1, ?_⟩
      rw [hcall.2, List.mem_cons, not_or]
      exact and_iff_right hother
  | @called i value_i foundExpired spo otbn hphase halive =>
      by_cases hspo : spo = o
      · subst hspo
        exact h.deliver hphase (List.nodup_cons.mp (htidy.copy hphase)).1 rfl rfl rfl
      · have hcall := h.settles hphase
        have hcalled : Account o (s.call i spo) :=
          h.same rfl rfl (ledger_of_other hspo rfl)
        refine hcalled.goto i ⟨hcall.1, ?_⟩
        have hledger : (s.call i spo).ledger o = s.ledger o := ledger_of_other hspo rfl
        rw [hledger, hcall.2, List.mem_cons, not_or]
        refine and_iff_right ?_
        simpa using Ne.symm hspo
  | @answered i value_i foundExpired spo otbn hphase =>
      have hcall := h.settles hphase
      have hreleased : Account o (s.release spo) := h.same rfl rfl rfl
      exact hreleased.goto i hcall
  | @threw i value_i foundExpired spo =>
      have hreleased : Account o (s.release spo) := h.same rfl rfl rfl
      exact hreleased.goto i trivial
  | @cleaned i value_i hphase =>
      have hcall := h.settles hphase
      have hreturned : Account o (s.goto i (.returned true)) :=
        h.goto i (hcall.2.mpr List.not_mem_nil)
      exact hreturned.same rfl rfl rfl
  | @finished i value_i hphase =>
      have hcall := h.settles hphase
      exact h.goto i (hcall.2.mpr List.not_mem_nil)

end Account

section Broadcast

variable {s t : System T} {o : ObserverId} {i : Nat} {v w : T}

/-- The values that the call `i` has handed over to `o`. -/
def System.receivedFrom (s : System T) (i : Nat) (o : ObserverId) : List T :=
  ((s.ledger o).filter (·.1 = i)).map Prod.snd

/-- Every call of `set` that returns true delivers its own value once, and when all
calls have returned, the observer has received what has been set. -/
structure Broadcasts (o : ObserverId) (s : System T) : Prop where
  exactly_once : ∀ i v, (i, v) ∈ s.stored → s.phase i = .returned true →
    s.receivedFrom i o = [v]
  multiset : s.Quiet → (s.received o).Perm (s.stored.map Prod.snd)

/-- What the observer has received from a call is what the call has stored. -/
def OwnValues (o : ObserverId) (s : System T) : Prop :=
  ∀ entry ∈ s.ledger o, entry ∈ s.stored

/-- A notification of `o` finds the value that its call has stored. -/
def OwnValue (o : ObserverId) (s : System T) (l : Label T) (_ : System T) : Prop :=
  ∀ i value_i foundExpired otbn, l = .notify i →
    s.phase i = .notifying value_i foundExpired (some o :: otbn) →
    s.observable.value_ = value_i

theorem eq_of_keys_nodup
    {l : List (Nat × T)} (h : (l.map Prod.fst).Nodup)
    (hv : (i, v) ∈ l) (hw : (i, w) ∈ l) :
    v = w :=
  congrArg Prod.snd (List.inj_on_of_nodup_map h hv hw rfl)

theorem filter_key
    {l : List (Nat × T)} (h : (l.map Prod.fst).Nodup) (hv : (i, v) ∈ l) :
    l.filter (·.1 = i) = [(i, v)] := by
  have hnodup : (l.filter (·.1 = i)).Nodup := (List.Nodup.of_map _ h).filter _
  rw [← List.perm_singleton, List.perm_ext_iff_of_nodup hnodup (List.nodup_singleton _)]
  rintro ⟨j, w⟩
  simp only [List.mem_filter, decide_eq_true_eq, List.mem_singleton, Prod.mk.injEq]
  constructor
  · rintro ⟨hw, rfl⟩
    exact ⟨rfl, eq_of_keys_nodup h hw hv⟩
  · rintro ⟨rfl, rfl⟩
    exact ⟨hv, rfl⟩

/-- A call that has notified the observer has stored one value. -/
theorem Account.exists_stored
    (h : Account o s) (hmem : (i, w) ∈ s.ledger o) :
    ∃ v, (i, v) ∈ s.stored := by
  have hcall := h.notified i (List.mem_map.mpr ⟨(i, w), hmem, rfl⟩)
  obtain ⟨⟨j, v⟩, hv, rfl⟩ := List.mem_map.mp hcall
  exact ⟨v, hv⟩

/-- When all calls have returned, those that have stored a value have returned true. -/
theorem Account.returned
    (h : Account o s) (hquiet : s.Quiet) (hmem : (i, v) ∈ s.stored) :
    s.phase i = .returned true := by
  have hstored : i ∈ s.stored.map Prod.fst := List.mem_map.mpr ⟨(i, v), hmem, rfl⟩
  have hcall := h.calls i
  rcases hquiet i with hphase | ⟨changed, hphase⟩
  · rw [hphase] at hcall
    exact absurd hstored hcall
  · cases changed with
    | false =>
        rw [hphase] at hcall
        exact absurd hstored hcall
    | true =>
        exact hphase

theorem Account.receivedFrom
    (h : Account o s) (hmem : (i, w) ∈ s.ledger o) :
    s.receivedFrom i o = [w] := by
  rw [System.receivedFrom, filter_key h.ledger_nodup hmem]
  rfl

/-- Each call hands over its own value: then each change is broadcast. -/
theorem Account.broadcasts
    (h : Account o s) (hown : OwnValues o s) :
    Broadcasts o s := by
  have hledger {i : Nat} {v : T} (hmem : (i, v) ∈ s.stored)
      (hphase : s.phase i = .returned true) : (i, v) ∈ s.ledger o := by
    have hcall := h.settles hphase
    obtain ⟨⟨j, w⟩, hw, rfl⟩ := List.mem_map.mp hcall
    rwa [eq_of_keys_nodup h.stored_nodup hmem (hown _ hw)]
  refine ⟨?_, ?_⟩
  · intro i v hmem hphase
    exact h.receivedFrom (hledger hmem hphase)
  · intro hquiet
    refine List.Perm.map _ ?_
    rw [List.perm_ext_iff_of_nodup (List.Nodup.of_map _ h.ledger_nodup)
      (List.Nodup.of_map _ h.stored_nodup)]
    rintro ⟨i, v⟩
    constructor
    · exact hown _
    · intro hmem
      exact hledger hmem (h.returned hquiet hmem)

theorem Account.ownValues
    (h : Account o s) (hquiet : s.Quiet) (hbroadcasts : Broadcasts o s) :
    OwnValues o s := by
  rintro ⟨i, w⟩ hw
  obtain ⟨v, hv⟩ := h.exists_stored hw
  have hone := hbroadcasts.exactly_once i v hv (h.returned hquiet hv)
  rw [h.receivedFrom hw] at hone
  rwa [List.singleton_inj.mp hone]

theorem ownValue_of_label
    {l : Label T} (h : ∀ i, l ≠ .notify i) :
    OwnValue o s l t := by
  intro i value_i foundExpired otbn hlabel hphase
  exact absurd hlabel (h i)

/-- A call that had been idle stores its value: it has not notified yet. -/
theorem ownValues_store_iff
    (h : Account o s) (hidle : s.phase i = .idle)
    (hstored : t.stored = s.stored ++ [(i, v)])
    (hdelivered : t.delivered = s.delivered) :
    OwnValues o t ↔ OwnValues o s := by
  have hnew : i ∉ s.stored.map Prod.fst := h.settles hidle
  rw [OwnValues, OwnValues, ledger_of_nothing hdelivered, hstored]
  constructor
  · intro hown entry hentry
    rcases List.mem_append.mp (hown entry hentry) with hmem | hmem
    · exact hmem
    · have hnotified := h.notified entry.1 (List.mem_map_of_mem hentry)
      rw [List.mem_singleton.mp hmem] at hnotified
      exact absurd hnotified hnew
  · intro hown entry hentry
    exact List.mem_append_left _ (hown entry hentry)

/-- A notification hands over the value of its call exactly if that is the stored
one. -/
theorem ownValues_deliver_iff
    (h : Account o s) {value_i : T} (hmem : (i, value_i) ∈ s.stored)
    (hstored : t.stored = s.stored)
    (hdelivered : t.delivered = s.delivered ++ [⟨i, o, s.observable.value_⟩]) :
    OwnValues o t ↔ OwnValues o s ∧ s.observable.value_ = value_i := by
  rw [OwnValues, OwnValues, ledger_of_delivery hdelivered, hstored]
  simp only [List.forall_mem_append, List.forall_mem_singleton]
  refine and_congr_right fun _ => ?_
  constructor
  · intro hlast
    exact eq_of_keys_nodup h.stored_nodup hlast hmem
  · intro hvalue
    rwa [hvalue]

variable [BEq T] {l : Label T}

/-- A step leaves the observer with the values of its calls exactly if it does not
hand over the value of another one. -/
theorem ownValues_step_iff
    (h : Account o s) (hhas : s.Has o) (hstep : Steps step s l t) :
    OwnValues o t ↔ OwnValues o s ∧ OwnValue o s l t := by
  cases step_cases hstep with
  | stored i value_i hidle =>
      refine Iff.trans (ownValues_store_iff h hidle rfl rfl) ?_
      exact (and_iff_left (ownValue_of_label (by simp))).symm
  | @skipped i value_i foundExpired wp otbn hphase hexpired =>
      refine (and_iff_left ?_).symm
      intro j value_j foundExpired_j otbn_j hlabel hphase_j
      cases hlabel
      rw [hphase] at hphase_j
      cases hphase_j
      exact absurd rfl (ne_of_expired hexpired hhas.2)
  | @called i value_i foundExpired spo otbn hphase halive =>
      by_cases hspo : spo = o
      · subst hspo
        have hcall := h.settles hphase
        refine Iff.trans (ownValues_deliver_iff h hcall.1 rfl rfl) ?_
        refine and_congr_right fun _ => ?_
        constructor
        · rintro hvalue j value_j foundExpired_j otbn_j hlabel hphase_j
          cases hlabel
          rw [hphase] at hphase_j
          cases hphase_j
          exact hvalue
        · intro hown
          exact hown i value_i foundExpired otbn rfl hphase
      · have hledger :
            ((s.call i spo).goto i (.calling value_i foundExpired spo otbn)).ledger o =
              s.ledger o :=
          ledger_of_other hspo rfl
        rw [OwnValues, hledger]
        refine (and_iff_left ?_).symm
        intro j value_j foundExpired_j otbn_j hlabel hphase_j
        cases hlabel
        rw [hphase] at hphase_j
        cases hphase_j
        exact absurd rfl hspo
  | _ =>
      exact (and_iff_left (ownValue_of_label (by simp))).symm

/-- An observer that is registered and alive, and who has notified it. -/
structure Watched (o : ObserverId) (s : System T) : Prop where
  account : Account o s
  tidy : Tidy s
  has : s.Has o

theorem Watched.step
    (h : Watched o s) (hstep : Guarded (Stays o) (Steps step) s l t) :
    Watched o t :=
  ⟨h.account.step h.tidy h.has hstep.2, h.tidy.step hstep.2, hstep.1⟩

theorem watched_start
    {value_i : T} {alive : ObserverId → Bool} {ls : List (Label T)}
    (hreach : Run (Steps Observable.step) (System.init value_i alive) ls s)
    (hhas : s.Has o) :
    Watched o (System.start s.observable s.alive) where
  account := account_start o s.observable s.alive
  tidy := ⟨(tidy_reachable hreach).observers, fun _ => List.nodup_nil⟩
  has := hhas

/-- **The observer receives what has been set.**  It was registered and alive when the
first of the calls began, and stays so.  If every notification finds the value of its
own call, every change is broadcast; and when all calls have returned, every change
has been broadcast only in such a run. -/
theorem broadcasts_iff_own_values
    {value_i : T} {alive : ObserverId → Bool} {ls ls' : List (Label T)}
    {s₀ t : System T}
    (hreach : Run (Steps Observable.step) (System.init value_i alive) ls s₀)
    (hhas : s₀.Has o)
    (hrun : Run (Guarded (Stays o) (Steps Observable.step))
      (System.start s₀.observable s₀.alive) ls' t) :
    (Run (Guarded (OwnValue o) (Guarded (Stays o) (Steps Observable.step)))
        (System.start s₀.observable s₀.alive) ls' t → Broadcasts o t) ∧
      (t.Quiet ∧ Broadcasts o t →
        Run (Guarded (OwnValue o) (Guarded (Stays o) (Steps Observable.step)))
          (System.start s₀.observable s₀.alive) ls' t) := by
  have hstart := watched_start hreach hhas
  have hend := hrun.invariant (Watched o) Watched.step hstart
  have hiff := hrun.iff_guarded (Deterministic.guarded (Steps.deterministic _) _)
    (Watched o) (OwnValues o) Watched.step
    (fun h hstep => ownValues_step_iff h.account h.has hstep.2)
    hstart (by simp [OwnValues, System.ledger, System.start])
  constructor
  · intro hguarded
    exact hend.account.broadcasts (hiff.mpr hguarded)
  · rintro ⟨hquiet, hbroadcasts⟩
    exact hiff.mp (hend.account.ownValues hquiet hbroadcasts)

/-- Two calls, one after the other: each one notifies with its own value. -/
theorem broadcasts_iff_own_values_example :
    ∃ s₀ t : System Nat, ∃ labels : List (Label Nat),
      Run (Steps Observable.step) (System.init 0 fun _ => true) [.addObserver (some 0)] s₀ ∧
      s₀.Has 0 ∧
      t.stored = [(0, 1), (1, 2)] ∧ t.Quiet ∧ Broadcasts 0 t ∧
      Run (Guarded (OwnValue 0) (Guarded (Stays 0) (Steps Observable.step)))
        (System.start s₀.observable s₀.alive) labels t := by
  let s₀ : System Nat := System.start ⟨[some 0], 0⟩ fun _ => true
  let labels : List (Label Nat) :=
    [.set 0 1, .notify 0, .answer 0 (.ok ()), .finish 0,
      .set 1 2, .notify 1, .answer 1 (.ok ()), .finish 1]
  let t : System Nat := (exec Observable.step s₀ labels).get rfl
  have hreach :
      Run (Steps Observable.step) (System.init 0 fun _ => true)
        [.addObserver (some 0)] s₀ :=
    run_of_exec rfl
  have hhas : s₀.Has 0 := by decide
  have hrun :
      Run (Guarded (Stays 0) (Steps Observable.step))
        (System.start s₀.observable s₀.alive) labels t :=
    guarded_of_exec rfl
  have hquiet : t.Quiet := by
    intro i
    rcases i with _ | _ | i
    · exact .inr ⟨true, rfl⟩
    · exact .inr ⟨true, rfl⟩
    · exact .inl rfl
  have hbroadcasts : Broadcasts 0 t := by
    refine ⟨?_, fun _ => List.Perm.refl _⟩
    intro i v hmem _
    have hstored : (i, v) = (0, 1) ∨ (i, v) = (1, 2) := by
      simpa using (show (i, v) ∈ [(0, 1), (1, 2)] from hmem)
    rcases hstored with h | h
    · cases h
      rfl
    · cases h
      rfl
  exact ⟨s₀, t, labels, hreach, hhas, rfl, hquiet, hbroadcasts,
    (broadcasts_iff_own_values hreach hhas hrun).2 ⟨hquiet, hbroadcasts⟩⟩

/-- Two calls store their values before the first one notifies: both notify with the
second value, and the first value is lost. -/
theorem overlapping_sets_lose_value :
    ∃ s₀ t : System Nat,
      Run (Steps Observable.step) (System.init 0 fun _ => true) [.addObserver (some 0)] s₀ ∧
      s₀.Has 0 ∧
      Run (Guarded (Stays 0) (Steps Observable.step))
        (System.start s₀.observable s₀.alive)
        [.set 0 1, .set 1 2, .notify 0, .answer 0 (.ok ()), .finish 0,
          .notify 1, .answer 1 (.ok ()), .finish 1] t ∧
      t.phase 0 = .returned true ∧ t.phase 1 = .returned true ∧
      t.stored = [(0, 1), (1, 2)] ∧ t.received 0 = [2, 2] ∧ ¬ Broadcasts 0 t := by
  refine ⟨System.start ⟨[some 0], 0⟩ fun _ => true, _, run_of_exec rfl, by decide,
    guarded_of_exec rfl, rfl, rfl, rfl, rfl, ?_⟩
  intro hbroadcasts
  have hone := hbroadcasts.exactly_once 0 1 (by decide) rfl
  cases hone

end Broadcast

end Observable
end Bren
end Brenlib
