import Brenlib.Base.NestedMap
import Brenlib.Base.TransitionSystem
import Brenlib.Bren.StdLibrary

/-!
# `ConnPool`

The model follows `hdr/bren/ConnPool.hpp`.  A connection is an object with a number;
the objects are numbered in the order in which their constructors have returned.  Its
owners are the entries of `pool_a` and the handles, the shared pointers that `get` has
returned and their copies.  A handle stays with the thread that has called `get`.

The threads have pairwise different numbers, so a thread is its number.  `get` and
`purge` hold the mutex from their first test to their end and are one step each.

* `useCount`: how many shared pointers own a connection.
* `get`, `purge_`, `purge`: the methods.
* `step`: one step of a thread.
* `get_cases`: what `get` does.
* `step_cases`: what one step can do.
-/

namespace Brenlib
namespace Bren
namespace ConnPool

open NestedMap TransitionSystem

/-- A connection, which an object of class `T` stands for. -/
abbrev ConnId := Nat

/-- The number that a thread prints as its identifier. -/
abbrev ThreadId := UInt64

/-- `connmap_t`. -/
abbrev ConnMap := Std.TreeMap ThreadId ConnId

/-- `pool_t`. -/
abbrev PoolMap := Std.TreeMap Bytes ConnMap

/-- A shared pointer that `get(params_i)` has returned to a thread, or a copy. -/
structure Handle where
  thread : ThreadId
  params_i : Bytes
  con : ConnId
deriving DecidableEq, Repr

/-- The pool, the handles, and the connection strings of the connections that have been
constructed. -/
structure System where
  pool_a : PoolMap
  handles : List Handle
  made : List Bytes

/-- A new pool. -/
def System.init : System where
  pool_a := ∅
  handles := []
  made := []

namespace System

/-- `use_count()` of a shared pointer to `con`. -/
def useCount (s : System) (con : ConnId) : Nat :=
  (values s.pool_a).count con + (s.handles.map Handle.con).count con

/-- The connection in the map of `params_i` under the thread `stid`. -/
def entry (s : System) (params_i : Bytes) (stid : ThreadId) : Option ConnId :=
  lookup s.pool_a params_i stid

/-- The map of `params_i`, empty if there is none. -/
def connmap (s : System) (params_i : Bytes) : ConnMap :=
  s.pool_a[params_i]?.getD ∅

/-- `pool_a[params_i] = cm`. -/
def assign (s : System) (params_i : Bytes) (cm : ConnMap) : System :=
  { s with pool_a := s.pool_a.insert params_i cm }

end System

/-- `new T(params_i)`, which returns or throws. -/
def construct (params_i : Bytes) (connect : Except StdException Unit) :
    EStateM StdException System ConnId := do
  match connect with
  | .error e => throw e
  | .ok () =>
      let con := (← getThe System).made.length
      modify fun s => { s with made := s.made ++ [params_i] }
      return con

/-- `get(params_i)` in the thread `stid`. -/
def get (stid : ThreadId) (params_i : Bytes) (connect : Except StdException Unit) :
    EStateM StdException System ConnId := do
  let s ← getThe System
  match s.pool_a[params_i]? with
  | none =>
      let con ← construct params_i connect
      modify fun s => s.assign params_i ((∅ : ConnMap).insert stid con)
      return con
  | some cm =>
      match cm[stid]? with
      | some con => return con
      | none =>
          match cm.toList.find? fun j => s.useCount j.2 == 1 with
          | some (j, con) =>
              modify fun s => s.assign params_i ((cm.erase j).insert stid con)
              return con
          | none =>
              let con ← construct params_i connect
              modify fun s => s.assign params_i (cm.insert stid con)
              return con

/-- `purge_(cm_i)`: whether the map is empty afterwards, and the map. -/
def purge_ (useCount : ConnId → Nat) (cm_i : ConnMap) : Bool × ConnMap :=
  let idles := (cm_i.toList.filter fun i => useCount i.2 == 1).map Prod.fst
  let cm := eraseAll cm_i idles
  (cm.isEmpty, cm)

/-- `purge_` for the map of `i`, if there is one. -/
def purgeAt (s : System) (i : Bytes) : Bool × System :=
  match s.pool_a[i]? with
  | none => (false, s)
  | some cm => ((purge_ s.useCount cm).1, s.assign i (purge_ s.useCount cm).2)

/-- The loop of `purge` over all maps, with `toErase`. -/
def purgeLoop (s : System) : List Bytes → List Bytes × System
  | [] => ([], s)
  | i :: rest =>
      let (empty, s) := purgeAt s i
      let (toErase, s) := purgeLoop s rest
      (if empty then i :: toErase else toErase, s)

/-- `purge(params_i)`. -/
def purge (params_i : Bytes) (s : System) : System :=
  if params_i = [] then
    let (toErase, s) := purgeLoop s s.pool_a.keys
    { s with pool_a := eraseAll s.pool_a toErase }
  else
    let (empty, s) := purgeAt s params_i
    if empty then { s with pool_a := s.pool_a.erase params_i } else s

/-- A step of a thread: the methods, copying one of its handles and destroying it. -/
inductive Label where
  | get (stid : ThreadId) (params_i : Bytes) (connect : Except StdException Unit)
  | copy (h : Handle)
  | release (h : Handle)
  | purge (params_i : Bytes)

/-- The thread `stid` receives the connection. -/
def System.receive (s : System) (stid : ThreadId) (params_i : Bytes) (con : ConnId) :
    System :=
  { s with handles := s.handles ++ [⟨stid, params_i, con⟩] }

/-- One step, if it is possible. -/
def step (s : System) : Label → Option System
  | .get stid params_i connect =>
      match (get stid params_i connect).run s with
      | .ok con s' => some (s'.receive stid params_i con)
      | .error _ s' => some s'
  | .copy h =>
      if h ∈ s.handles then some { s with handles := s.handles ++ [h] } else none
  | .release h =>
      if h ∈ s.handles then some { s with handles := s.handles.erase h } else none
  | .purge params_i => some (purge params_i s)

section Get

variable {s : System} {stid : ThreadId} {params_i : Bytes}

theorem entry_eq
    (s : System) (params_i : Bytes) (stid : ThreadId) :
    s.entry params_i stid = (s.connmap params_i)[stid]? := by
  rw [System.entry, lookup, System.connmap]
  cases s.pool_a[params_i]? <;> rfl

theorem connmap_of_some
    {cm : ConnMap} (h : s.pool_a[params_i]? = some cm) :
    s.connmap params_i = cm := by
  rw [System.connmap, h]
  rfl

theorem connmap_of_none
    (h : s.pool_a[params_i]? = none) :
    s.connmap params_i = ∅ := by
  rw [System.connmap, h]
  rfl

theorem connmap_assign
    (s : System) (params_i params' : Bytes) (cm : ConnMap) :
    (s.assign params_i cm).connmap params' =
      if params_i = params' then cm else s.connmap params' := by
  rw [System.connmap, System.assign, getElem?_insert]
  by_cases h : params_i = params' <;> simp [h, System.connmap]

theorem entry_assign
    (s : System) (params_i params' : Bytes) (cm : ConnMap) (k : ThreadId) :
    (s.assign params_i cm).entry params' k =
      if params_i = params' then cm[k]? else s.entry params' k := by
  rw [entry_eq, connmap_assign, entry_eq]
  split <;> rfl

/-- A connection for `params_i` has been constructed. -/
def System.construct (s : System) (params_i : Bytes) : System :=
  { s with made := s.made ++ [params_i] }

/-- What `get` does: it returns the connection of the thread, or gives a connection
that nobody holds to the thread, or constructs one if there is none. -/
inductive GetCases (stid : ThreadId) (params_i : Bytes) (s : System) :
    EStateM.Result StdException System ConnId → Prop
  | found
      {con : ConnId}
      (hentry : s.entry params_i stid = some con) :
      GetCases stid params_i s (.ok con s)
  | reused
      {j : ThreadId} {con : ConnId}
      (hnone : s.entry params_i stid = none)
      (hentry : s.entry params_i j = some con)
      (hidle : s.useCount con = 1) :
      GetCases stid params_i s
        (.ok con (s.assign params_i (((s.connmap params_i).erase j).insert stid con)))
  | constructed
      (hnone : s.entry params_i stid = none)
      (hbusy : ∀ j con, s.entry params_i j = some con → s.useCount con ≠ 1) :
      GetCases stid params_i s
        (.ok s.made.length
          ((s.construct params_i).assign params_i
            ((s.connmap params_i).insert stid s.made.length)))
  | threw
      (hnone : s.entry params_i stid = none)
      (hbusy : ∀ j con, s.entry params_i j = some con → s.useCount con ≠ 1)
      (e : StdException) :
      GetCases stid params_i s (.error e s)

/-- A connection is constructed and entered into the map. -/
theorem construct_cases
    {cm : ConnMap} (hcm : s.connmap params_i = cm)
    (hnone : s.entry params_i stid = none)
    (hbusy : ∀ j con, s.entry params_i j = some con → s.useCount con ≠ 1)
    (connect : Except StdException Unit) :
    GetCases stid params_i s
      ((do
        let con ← construct params_i connect
        modify fun s => s.assign params_i (cm.insert stid con)
        return con : EStateM StdException System ConnId).run s) := by
  subst hcm
  cases connect with
  | error e => exact .threw hnone hbusy e
  | ok => exact .constructed hnone hbusy

theorem get_cases
    (stid : ThreadId) (params_i : Bytes) (connect : Except StdException Unit)
    (s : System) :
    GetCases stid params_i s ((get stid params_i connect).run s) := by
  rw [get, EStateM.run_bind, run_getThe]
  cases hmap : s.pool_a[params_i]? with
  | none =>
      have hempty (j : ThreadId) : s.entry params_i j = none := by
        rw [entry_eq, connmap_of_none hmap]
        rfl
      have hbusy (j : ThreadId) (con : ConnId) (hj : s.entry params_i j = some con) :
          s.useCount con ≠ 1 := by
        rw [hempty] at hj
        cases hj
      simp only [hmap]
      exact construct_cases (connmap_of_none hmap) (hempty stid) hbusy connect
  | some cm =>
      have hentry (j : ThreadId) : s.entry params_i j = cm[j]? := by
        rw [entry_eq, connmap_of_some hmap]
      simp only [hmap]
      cases hown : cm[stid]? with
      | some con =>
          exact .found ((hentry stid).trans hown)
      | none =>
          have hnone := (hentry stid).trans hown
          simp only
          cases hfind : cm.toList.find? fun j => s.useCount j.2 == 1 with
          | some j =>
              have hmem := List.mem_of_find?_eq_some hfind
              have hidle := List.find?_some hfind
              have hreused := GetCases.reused hnone
                ((hentry j.1).trans (Std.TreeMap.mem_toList_iff_getElem?_eq_some.mp hmem))
                (by simpa using hidle)
              rw [connmap_of_some hmap] at hreused
              exact hreused
          | none =>
              refine construct_cases (connmap_of_some hmap) hnone ?_ connect
              intro j con hj
              rw [hentry, ← Std.TreeMap.mem_toList_iff_getElem?_eq_some] at hj
              simpa using List.find?_eq_none.mp hfind _ hj

/-- A thread that has a connection receives that one. -/
theorem get_found
    {con : ConnId} (hentry : s.entry params_i stid = some con)
    (connect : Except StdException Unit) :
    (get stid params_i connect).run s = .ok con s := by
  obtain ⟨cm, hmap, hown⟩ := lookup_eq_some_iff.mp hentry
  rw [get, EStateM.run_bind, run_getThe]
  simp only [hmap, hown]
  rfl

end Get

section Steps

/-- What one step can do. -/
inductive StepCases (s : System) : Label → System → Prop
  | found
      {stid : ThreadId} {params_i : Bytes} {con : ConnId}
      (connect : Except StdException Unit)
      (hentry : s.entry params_i stid = some con) :
      StepCases s (.get stid params_i connect) (s.receive stid params_i con)
  | reused
      {stid j : ThreadId} {params_i : Bytes} {con : ConnId}
      (connect : Except StdException Unit)
      (hnone : s.entry params_i stid = none)
      (hentry : s.entry params_i j = some con)
      (hidle : s.useCount con = 1) :
      StepCases s (.get stid params_i connect)
        ((s.assign params_i (((s.connmap params_i).erase j).insert stid con)).receive
          stid params_i con)
  | constructed
      {stid : ThreadId} {params_i : Bytes}
      (connect : Except StdException Unit)
      (hnone : s.entry params_i stid = none)
      (hbusy : ∀ j con, s.entry params_i j = some con → s.useCount con ≠ 1) :
      StepCases s (.get stid params_i connect)
        (((s.construct params_i).assign params_i
          ((s.connmap params_i).insert stid s.made.length)).receive
            stid params_i s.made.length)
  | threw
      (stid : ThreadId) (params_i : Bytes) (connect : Except StdException Unit) :
      StepCases s (.get stid params_i connect) s
  | copied
      {h : Handle}
      (hmem : h ∈ s.handles) :
      StepCases s (.copy h) { s with handles := s.handles ++ [h] }
  | released
      {h : Handle}
      (hmem : h ∈ s.handles) :
      StepCases s (.release h) { s with handles := s.handles.erase h }
  | purged
      (params_i : Bytes) :
      StepCases s (.purge params_i) (purge params_i s)

variable {s t : System}

theorem step_cases
    {l : Label}
    (h : step s l = some t) :
    StepCases s l t := by
  cases l with
  | get stid params_i connect =>
      have hcases := get_cases stid params_i connect s
      rw [step] at h
      generalize (get stid params_i connect).run s = result at hcases h
      cases hcases with
      | found hentry =>
          obtain rfl := Option.some.inj h
          exact .found connect hentry
      | reused hnone hentry hidle =>
          obtain rfl := Option.some.inj h
          exact .reused connect hnone hentry hidle
      | constructed hnone hbusy =>
          obtain rfl := Option.some.inj h
          exact .constructed connect hnone hbusy
      | threw hnone hbusy e =>
          obtain rfl := Option.some.inj h
          exact .threw stid params_i connect
  | copy a =>
      obtain ⟨hmem, h⟩ := Option.ite_none_right_eq_some.mp h
      obtain rfl := Option.some.inj h
      exact .copied hmem
  | release a =>
      obtain ⟨hmem, h⟩ := Option.ite_none_right_eq_some.mp h
      obtain rfl := Option.some.inj h
      exact .released hmem
  | purge params_i =>
      obtain rfl := Option.some.inj h
      exact .purged params_i

end Steps

end ConnPool
end Bren
end Brenlib
