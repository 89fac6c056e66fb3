import Brenlib.Bren.ChildProfile
import Brenlib.Bren.Run

/-!
# What a child process is started with

The model follows the branch of `Child::run` behind `fork` in which the child process
builds the arrays for `execve`.  The order in which the loop comes to the entries of `env_`
is an input, since an `std::unordered_map` has no order of its own.

* `runInChild`: `run`, as the child process executes it.
* `argsArray_eq`, `envArray_eq`: what the loops make of the arrays.
* `runInChild_ok`, `runInChild_run`: when the process comes to `execve`.
* `exists_profileEntries`: what a profile says, whatever the object.
-/

namespace Brenlib
namespace Bren
namespace Child

open Run (Slot)

/-- What `execve` is called with. -/
structure Execve where
  path : Slot
  argv : List Slot
  env : List Slot
deriving DecidableEq, Repr

/-- What the system answers to the calls in the child process: the texts of `strerror` of
those that fail. -/
structure ChildAnswers where
  pipe : Option String
  dupStdout : Option String
  dupStderr : Option String
  execve : Option String

/-- What becomes of the child process. -/
inductive Outcome where
  | replaced (call : Execve)
  | exited (call : Execve) (status : UInt8)
deriving DecidableEq, Repr

/-- A loop that copies strings into an array, one behind the other. -/
def copyAll (slots : List Slot) (pos : Nat) : List Bytes → List Slot
  | [] => slots
  | s :: rest => copyAll (slots.set pos (.string (cString s))) (pos + 1) rest

/-- The array `args`. -/
def argsArray (child : Child) : List Slot :=
  let args := List.replicate (child.args_.length + 2) Slot.uninitialized
  let args := args.set 0 (.string (cString child.cmd_))
  let args := args.set (child.args_.length + 1) .null
  copyAll args 1 child.args_

/-- `fmt::format("{:s}={:s}", pr.first, pr.second)`. -/
def envline (pr : Σ _ : Bytes, Bytes) : Bytes :=
  pr.1 ++ Byte.equalSign :: pr.2

/-- The array `env`, if the loop comes to the entries of `env_` in this order. -/
def envArray (order : List (Σ _ : Bytes, Bytes)) : List Slot :=
  let env := List.replicate (order.length + 1) Slot.uninitialized
  let env := env.set order.length .null
  copyAll env 0 (order.map envline)

/-- `dup2` of the pipe to a stream, if its output is to be captured. -/
def duplicate (captured : Bool) (failed : Option String) (stream : String) : Method Unit :=
  if captured then
    fcet (failed = none) .runtimeError
      ("Failed duplicating pipe to " ++ stream ++ ": " ++ failed.getD "")
  else pure ()

/-- The pipe for the output. -/
def redirect (answers : ChildAnswers) (child : Child) : Method Unit :=
  if child.capStdout_ || child.capStderr_ then do
    fcet (answers.pipe = none) .runtimeError
      ("Failed to create pipe: " ++ answers.pipe.getD "")
    duplicate child.capStdout_ answers.dupStdout "stdout"
    duplicate child.capStderr_ answers.dupStderr "stderr"
  else pure ()

/-- The arrays are built, and `execve` is called. -/
def execute
    (answers : ChildAnswers) (order : List (Σ _ : Bytes, Bytes)) (child : Child) : Outcome :=
  let args := child.argsArray
  let call : Execve := ⟨args.headD .uninitialized, args, envArray order⟩
  match answers.execve with
  | none => .replaced call
  | some _ => .exited call 1

/-- `run`, as the child process executes it. -/
def runInChild
    (profenv : Option Bytes) (answers : ChildAnswers) (order : List (Σ _ : Bytes, Bytes)) :
    Method Outcome := do
  fcet ((← get).cmd_ ≠ []) .logicError "No executable command set yet"
  readEnv_ profenv
  let child ← get
  redirect answers child
  return execute answers order child

section Arrays

variable {before after : List Slot} {strings : List Bytes}

/-- The loop fills the middle of an array. -/
theorem copyAll_append
    {middle : List Slot} {pos : Nat}
    (hpos : pos = before.length)
    (hlength : middle.length = strings.length)
    (after : List Slot) :
    copyAll (before ++ middle ++ after) pos strings =
      before ++ strings.map (fun s => .string (cString s)) ++ after := by
  induction strings generalizing before middle pos with
  | nil =>
      rw [List.length_nil, List.length_eq_zero_iff] at hlength
      rw [hlength]
      rfl
  | cons s strings ih =>
      obtain ⟨slot, middle, rfl⟩ := List.exists_cons_of_length_eq_add_one hlength
      have hset : (before ++ slot :: middle ++ after).set pos (.string (cString s)) =
          before ++ [.string (cString s)] ++ middle ++ after := by
        rw [hpos, List.append_assoc, List.set_append_right _ _ le_rfl, Nat.sub_self]
        simp
      rw [copyAll, hset, ih (by rw [hpos]; simp) (Nat.succ.inj hlength)]
      simp

theorem argsArray_eq
    (child : Child) :
    child.argsArray =
      (child.cmd_ :: child.args_).map (fun s => .string (cString s)) ++ [.null] := by
  have hargs :
      ((List.replicate (child.args_.length + 2) Slot.uninitialized).set 0
          (.string (cString child.cmd_))).set (child.args_.length + 1) .null =
        [.string (cString child.cmd_)] ++
          List.replicate child.args_.length .uninitialized ++ [.null] := by
    rw [List.replicate_succ, List.set_cons_zero, List.set_cons_succ, List.replicate_succ',
      List.set_append_right _ _ (by simp)]
    simp
  rw [argsArray, hargs]
  exact copyAll_append rfl List.length_replicate [.null]

theorem envArray_eq
    (order : List (Σ _ : Bytes, Bytes)) :
    envArray order = order.map (fun pr => .string (cString (envline pr))) ++ [.null] := by
  have henv :
      (List.replicate (order.length + 1) Slot.uninitialized).set order.length .null =
        [] ++ List.replicate (order.map envline).length .uninitialized ++ [.null] := by
    rw [List.replicate_succ', List.set_append_right _ _ (by simp)]
    simp
  rw [envArray, henv]
  refine (copyAll_append rfl List.length_replicate [.null]).trans ?_
  rw [List.map_map]
  rfl

end Arrays

section Started

variable {child child' : Child} {profenv : Option Bytes}
variable {answers : ChildAnswers} {order : List (Σ _ : Bytes, Bytes)} {outcome : Outcome}

/-- What `execve` has been called with, whether it has failed or not. -/
def Outcome.call : Outcome → Execve
  | .replaced call => call
  | .exited call _ => call

theorem duplicate_ok
    {captured : Bool} {failed : Option String} {stream : String} {a : Unit}
    (h : (duplicate captured failed stream).run child = .ok a child') :
    child' = child := by
  cases captured with
  | true => exact (fcet_run_ok h).2
  | false =>
      cases h
      rfl

theorem redirect_ok
    {c : Child} {a : Unit}
    (h : (redirect answers c).run child = .ok a child') :
    child' = child := by
  unfold redirect at h
  split at h
  · obtain ⟨_, t, hpipe, hdups⟩ := run_bind_cases h
    obtain ⟨_, u, hstdout, hstderr⟩ := run_bind_cases hdups
    calc child' = u := duplicate_ok hstderr
      _ = t := duplicate_ok hstdout
      _ = child := (fcet_run_ok hpipe).2
  · cases h
    rfl

/-- A child process that comes to `execve` has read the environment, and calls it with its
arrays. -/
theorem runInChild_ok
    (h : (runInChild profenv answers order).run child = .ok outcome child') :
    (readEnv_ profenv).run child = .ok () child' ∧
      outcome.call =
        ⟨child'.argsArray.headD .uninitialized, child'.argsArray, envArray order⟩ := by
  rw [runInChild, run_bind_ok (EStateM.run_get child)] at h
  obtain ⟨_, t, hcmd, hrest⟩ := run_bind_cases h
  obtain ⟨-, rfl⟩ := fcet_run_ok hcmd
  obtain ⟨_, u, hread, hgot⟩ := run_bind_cases hrest
  rw [run_bind_ok (EStateM.run_get u)] at hgot
  obtain ⟨_, v, hredirect, hreturn⟩ := run_bind_cases hgot
  obtain rfl := redirect_ok hredirect
  cases hreturn
  refine ⟨hread, ?_⟩
  rw [execute]
  cases answers.execve <;> rfl

/-- A child process comes to `execve` if no call of the system fails. -/
theorem runInChild_run
    (hcmd : child.cmd_ ≠ [])
    (hread : (readEnv_ profenv).run child = .ok () child')
    (hpipe : answers.pipe = none)
    (hstdout : answers.dupStdout = none)
    (hstderr : answers.dupStderr = none) :
    (runInChild profenv answers order).run child =
      .ok (execute answers order child') child' := by
  have hduplicate (captured : Bool) (stream : String) :
      (duplicate captured none stream).run child' = .ok () child' := by
    cases captured with
    | true =>
        rw [duplicate, if_pos rfl]
        exact fcet_run rfl _ _ child'
    | false => rfl
  have hredirect : (redirect answers child').run child' = .ok () child' := by
    rw [redirect, hstdout, hstderr]
    split
    · rw [run_bind_ok (fcet_run hpipe _ _ child'), run_bind_ok (hduplicate _ _)]
      exact hduplicate _ _
    · rfl
  rw [runInChild, run_bind_ok (EStateM.run_get child), run_bind_ok (fcet_run hcmd _ _ child),
    run_bind_ok hread, run_bind_ok (EStateM.run_get child'), run_bind_ok hredirect]
  rfl

end Started

/-- What a loop comes to: it ends, or an exception is thrown. -/
def ending (thrown : Option StdException) (child : Child) :
    EStateM.Result StdException Child Unit :=
  match thrown with
  | none => .ok () child
  | some e => .error e child

@[simp] theorem stateOf_ending
    (thrown : Option StdException) (child : Child) :
    stateOf (ending thrown child) = child := by
  cases thrown <;> rfl

/-- The entries of a profile, and the exception that ends the loop. -/
structure ProfileEntries (lines : List Bytes) (entries : List (Σ _ : Bytes, Bytes))
    (thrown : Option StdException) : Prop where
  run : ∀ child : Child,
    (readLines lines).run child =
      ending thrown { child with env_ := insertAll child.env_ entries }
  name : ∀ pr ∈ entries, Byte.equalSign ∉ pr.1
  bytes : ∀ pr ∈ entries, ∃ line ∈ lines, pr.1 ⊆ line ∧ pr.2 ⊆ line

section Profiles

variable {line : Bytes} {lines : List Bytes}

/-- Whether a line is skipped, throws or gives an entry does not depend on the object. -/
theorem profileEntries_line
    (line : Bytes) :
    ∃ entries thrown, ProfileEntries [line] entries thrown := by
  have hskipped (hskip : ∀ child : Child, (readLine line).run child = .ok () child) :
      ∃ entries thrown, ProfileEntries [line] entries thrown := by
    refine ⟨[], none, fun child => ?_, by simp, by simp⟩
    rw [readLines_singleton, hskip]
    rfl
  by_cases hexport : ∃ after, line = literal "export " ++ after ∧ 3 ≤ after.length
  · obtain ⟨after, rfl, hlength⟩ := hexport
    by_cases hmem : Byte.equalSign ∈ after
    · obtain ⟨name, rest, rfl, hname⟩ := List.eq_append_cons_of_mem hmem
      rw [List.length_append, List.length_cons] at hlength
      have hline (child : Child) :=
        readLine_exportLine hname (Nat.le_of_succ_le_succ hlength) child
      change ∃ entries thrown, ProfileEntries [exportLine name rest] entries thrown
      cases rest with
      | nil =>
          refine ⟨[], some ⟨.outOfRange, substrText (name.length + 9) (name.length + 8)⟩,
            fun child => ?_, by simp, by simp⟩
          rw [readLines_singleton, hline, readVariable_throws]
          rfl
      | cons c rest =>
          refine ⟨[⟨name, rest.dropLast⟩], none, fun child => ?_, ?_, ?_⟩
          · rw [readLines_singleton, hline, readVariable_exportLine]
            rfl
          · simpa using hname
          · simp only [List.mem_singleton, forall_eq, exists_eq_left]
            refine ⟨fun b hb => ?_, fun b hb => ?_⟩
            · exact List.mem_append_right _ (List.mem_append_left _ hb)
            · have hrest := List.mem_cons_of_mem c (List.dropLast_subset rest hb)
              exact List.mem_append_right _
                (List.mem_append_right _ (List.mem_cons_of_mem _ hrest))
    · have hnone : find (literal "export " ++ after) Byte.equalSign 7 = none :=
        find_append_eq_none hmem (literal "export ")
      refine hskipped fun child => ?_
      rw [readLine_of_export hlength, hnone]
  · refine hskipped fun child => readLine_of_not_export (fun after h => ?_) child
    exact Nat.lt_of_not_le fun hle => hexport ⟨after, h, hle⟩

/-- What the loop reads does not depend on the object. -/
theorem exists_profileEntries
    (lines : List Bytes) :
    ∃ entries thrown, ProfileEntries lines entries thrown := by
  induction lines with
  | nil => exact ⟨[], none, fun _ => rfl, by simp, by simp⟩
  | cons line lines ih =>
      obtain ⟨entries, thrown, hline⟩ := profileEntries_line line
      cases thrown with
      | some e =>
          refine ⟨entries, some e, fun child => ?_, hline.name, fun pr hpr => ?_⟩
          · have hrun := hline.run child
            rw [readLines_singleton] at hrun
            exact run_bind_error hrun _
          · obtain ⟨line', hmem, hsub⟩ := hline.bytes pr hpr
            exact ⟨line', List.mem_cons.mpr (.inl (List.mem_singleton.mp hmem)), hsub⟩
      | none =>
          obtain ⟨entries', thrown', hlines⟩ := ih
          refine ⟨entries ++ entries', thrown', fun child => ?_, fun pr hpr => ?_, fun pr hpr => ?_⟩
          · have hrun := hline.run child
            rw [readLines_singleton] at hrun
            refine (run_bind_ok hrun _).trans ((hlines.run _).trans ?_)
            simp only [insertAll, List.foldl_append]
          · exact (List.mem_append.mp hpr).elim (hline.name pr) (hlines.name pr)
          · rcases List.mem_append.mp hpr with hpr | hpr
            · obtain ⟨line', hmem, hsub⟩ := hline.bytes pr hpr
              exact ⟨line', List.mem_cons.mpr (.inl (List.mem_singleton.mp hmem)), hsub⟩
            · obtain ⟨line', hmem, hsub⟩ := hlines.bytes pr hpr
              exact ⟨line', List.mem_cons_of_mem line hmem, hsub⟩

end Profiles

end Child
end Bren
end Brenlib
