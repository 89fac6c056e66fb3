import Brenlib.Base.WhileLoop
import Brenlib.Bren.StdLibrary

/-!
# `run`: start a program and wait for it

The model follows `src/run.cpp`.  What the system answers to `fork` and `waitpid` is an
input.  In the child, `run` comes to the loop that builds `argv`; the loop has its own
definition, `Argv.body`, since it need not terminate.

**Results.**  The loop variable is a `uint16_t`, which is compared with the number of
arguments.  Up to 65535 arguments are copied as C strings (`finishes_copied`), and with
more of them the loop is never left (`not_finishes`).  So `argv` holds the arguments
exactly if there are at most 65535 of them and none contains a null byte
(`passes_all_iff`).
-/

namespace Brenlib
namespace Bren

open Loops

namespace Run

/-- An element of `argv`. -/
inductive Slot where
  | uninitialized
  | null
  | string (s : Bytes)
deriving DecidableEq, Repr

/-- The variables of the loop in the child. -/
structure Argv where
  argv : List Slot
  i : UInt16
deriving DecidableEq, Repr

/-- What `waitpid` answers: whether it returned the PID of the child, and the exit status
of a child that has exited. -/
structure Wait where
  isChild : Bool
  exitStatus : Option UInt8
deriving DecidableEq, Repr

/-- What `fork` answers. -/
inductive Fork where
  | failed
  | child
  | parent (wait : Wait)
deriving DecidableEq, Repr

/-- How far `run` comes without an exception. -/
inductive Progress where
  | child (loop : Argv)
  | returned (status : UInt8)
deriving DecidableEq, Repr

namespace Argv

/-- `argv` is allocated, and `i` is 0. -/
def start (arguments_i : List Bytes) : Argv where
  argv := List.replicate (arguments_i.length + 1) .uninitialized
  i := 0

/-- One iteration of the loop.  There is an argument with the number `i` exactly if `i` is
less than their number. -/
def body (arguments_i : List Bytes) (σ : Argv) : Option Argv :=
  match arguments_i[σ.i.toNat]? with
  | some argument =>
      some
        { argv := σ.argv.set σ.i.toNat (.string (cString argument))
          i := σ.i + 1 }
  | none => none

/-- `argv[i] = NULL` behind the loop. -/
def terminated (σ : Argv) : List Slot :=
  σ.argv.set σ.i.toNat .null

end Argv

/-- `run(command_i, arguments_i)`, in the child as far as the loop. -/
def run (command_i : Bytes) (arguments_i : List Bytes) (fork : Fork) :
    Except StdException Progress := do
  if command_i.length = 0 then
    throw ⟨.logicError, "Command can't be empty"⟩
  if arguments_i.length = 0 then
    throw ⟨.logicError, "At least one argument required as argv[0]"⟩
  match fork with
  | .failed => throw ⟨.runtimeError, "Failed to fork"⟩
  | .child => return .child (Argv.start arguments_i)
  | .parent wait =>
      if ¬ wait.isChild then
        throw ⟨.runtimeError, "Waitpid(2) returned incorrect PID"⟩
      match wait.exitStatus with
      | none => throw ⟨.runtimeError, "Child exited abnormally"⟩
      | some status => return .returned status

section Loop

variable {arguments_i : List Bytes} {k n : Nat} {σ τ : Argv}

/-- The variables when `k` arguments have been copied. -/
def copied (arguments_i : List Bytes) (k : Nat) : Argv where
  argv :=
    (arguments_i.take k).map (fun a => .string (cString a)) ++
      List.replicate (arguments_i.length + 1 - k) .uninitialized
  i := UInt16.ofNat k

theorem body_copied
    (hk : k < arguments_i.length)
    (hsmall : arguments_i.length < 2 ^ 16) :
    (copied arguments_i k).body arguments_i = some (copied arguments_i (k + 1)) := by
  have hi : (UInt16.ofNat k).toNat = k :=
    UInt16.toNat_ofNat_of_lt' (hk.trans hsmall)
  have hlen : ((arguments_i.take k).map fun a => Slot.string (cString a)).length = k := by
    rw [List.length_map, List.length_take]
    omega
  have hrest : arguments_i.length + 1 - k = arguments_i.length + 1 - (k + 1) + 1 := by
    omega
  simp only [Argv.body, copied, hi, List.getElem?_eq_getElem hk, Option.some.injEq,
    Argv.mk.injEq]
  refine ⟨?_, (UInt16.ofNat_add k 1).symm⟩
  rw [List.set_append_right _ _ (le_of_eq hlen), hlen, Nat.sub_self, hrest,
    List.replicate_succ, List.set_cons_zero, List.take_succ_eq_append_getElem hk,
    List.map_append, List.append_assoc]
  rfl

/-- A number of arguments that the loop variable can count. -/
theorem finishes_copied
    (hsmall : arguments_i.length < 2 ^ 16)
    (hk : k + n = arguments_i.length) :
    Finishes (Argv.body arguments_i) (copied arguments_i k) n
      (copied arguments_i arguments_i.length) := by
  induction n generalizing k with
  | zero =>
      obtain rfl : k = arguments_i.length := hk
      refine .zero ?_
      have hi : (UInt16.ofNat arguments_i.length).toNat = arguments_i.length :=
        UInt16.toNat_ofNat_of_lt' hsmall
      simp only [Argv.body, copied, hi, List.getElem?_eq_none le_rfl]
  | succ n ih =>
      exact .succ (body_copied (by omega) hsmall) (ih (by omega))

/-- The loop variable wraps around in front of the last argument. -/
theorem not_finishes
    (hlarge : 2 ^ 16 ≤ arguments_i.length) :
    ¬ Finishes (Argv.body arguments_i) σ n τ := by
  refine not_finishes_of_invariant (fun _ => True) ?_ trivial
  intro σ _
  have hi : σ.i.toNat < arguments_i.length := lt_of_lt_of_le σ.i.toNat_lt hlarge
  rw [Argv.body, List.getElem?_eq_getElem hi]
  exact ⟨_, rfl, trivial⟩

theorem terminated_copied
    (hsmall : arguments_i.length < 2 ^ 16) :
    (copied arguments_i arguments_i.length).terminated =
      arguments_i.map (fun a => .string (cString a)) ++ [.null] := by
  have hi : (UInt16.ofNat arguments_i.length).toNat = arguments_i.length :=
    UInt16.toNat_ofNat_of_lt' hsmall
  have hlen : (arguments_i.map fun a => Slot.string (cString a)).length =
      arguments_i.length :=
    List.length_map _
  rw [Argv.terminated, copied, hi, List.take_length, Nat.add_sub_cancel_left,
    List.set_append_right _ _ (le_of_eq hlen), hlen, Nat.sub_self]
  rfl

/-- The elements of `argv` are copies of the arguments, with a null pointer behind
them. -/
structure Passed (arguments_i : List Bytes) (argv : List Slot) : Prop where
  copies : ∀ i (_ : i < arguments_i.length), argv[i]? = some (.string arguments_i[i])
  null : argv[arguments_i.length]? = some .null

/-- Copies of C strings are copies of the arguments without null bytes. -/
theorem passed_iff :
    Passed arguments_i (arguments_i.map (fun a => .string (cString a)) ++ [.null]) ↔
      ∀ a ∈ arguments_i, 0 ∉ a := by
  have hget {i : Nat} (hi : i < arguments_i.length) :
      (arguments_i.map (fun a => Slot.string (cString a)) ++ [.null])[i]? =
        some (.string (cString arguments_i[i])) := by
    rw [List.getElem?_append_left (by rwa [List.length_map]), List.getElem?_map,
      List.getElem?_eq_getElem hi]
    rfl
  constructor
  · intro h a ha
    obtain ⟨i, hi, rfl⟩ := List.getElem_of_mem ha
    have hcopy := (hget hi).symm.trans (h.copies i hi)
    rw [Option.some.injEq, Slot.string.injEq] at hcopy
    exact cString_eq_self_iff.mp hcopy
  · intro h
    refine ⟨fun i hi => ?_, ?_⟩
    · rw [hget hi, cString_eq_self_iff.mpr (h _ (List.getElem_mem hi))]
    · rw [List.getElem?_append_right (by rw [List.length_map]), List.length_map,
        Nat.sub_self]
      rfl

/-- **Every argument is passed** exactly if the loop variable can count the arguments
and none of them contains a null byte. -/
theorem passes_all_iff
    {command_i : Bytes}
    (hcommand : command_i ≠ [])
    (harguments : arguments_i ≠ []) :
    (∃ σ τ,
      run command_i arguments_i .child = .ok (.child σ) ∧
      Finishes (Argv.body arguments_i) σ arguments_i.length τ ∧
      Passed arguments_i τ.terminated) ↔
    arguments_i.length < 2 ^ 16 ∧ ∀ a ∈ arguments_i, 0 ∉ a := by
  have hrun : run command_i arguments_i .child = .ok (.child (copied arguments_i 0)) := by
    rw [run, if_neg (by rwa [List.length_eq_zero_iff]),
      if_neg (by rwa [List.length_eq_zero_iff])]
    rfl
  rw [hrun]
  constructor
  · rintro ⟨σ, τ, hσ, hfinishes, hpassed⟩
    cases hσ
    by_cases hsmall : arguments_i.length < 2 ^ 16
    · obtain ⟨-, rfl⟩ := hfinishes.unique (finishes_copied hsmall (Nat.zero_add _))
      rw [terminated_copied hsmall, passed_iff] at hpassed
      exact ⟨hsmall, hpassed⟩
    · exact absurd hfinishes (not_finishes (Nat.le_of_not_lt hsmall))
  · rintro ⟨hsmall, hnull⟩
    refine ⟨_, _, rfl, finishes_copied hsmall (Nat.zero_add _), ?_⟩
    rw [terminated_copied hsmall, passed_iff]
    exact hnull

theorem passes_all_iff_echo :
    ∃ σ τ,
      run (literal "/bin/echo") [literal "echo", literal "hi"] .child = .ok (.child σ) ∧
      Finishes (Argv.body [literal "echo", literal "hi"]) σ 2 τ ∧
      Passed [literal "echo", literal "hi"] τ.terminated :=
  (passes_all_iff (by decide) (by decide)).mpr ⟨by decide, by decide⟩

/-- With 65536 arguments the child never comes to `execv`. -/
theorem runs_forever :
    run (literal "/bin/true") (List.replicate 65536 []) .child =
        .ok (.child (Argv.start (List.replicate 65536 []))) ∧
      ∀ n τ,
        ¬ Finishes (Argv.body (List.replicate 65536 []))
          (Argv.start (List.replicate 65536 [])) n τ := by
  constructor
  · rw [run, if_neg (by decide), if_neg (by rw [List.length_replicate]; decide)]
    rfl
  · intro n τ
    exact not_finishes (by rw [List.length_replicate]; decide)

end Loop

end Run

end Bren
end Brenlib
