import Brenlib.Bren.ChildEnvironment

/-!
# The output that `run` captures

`read` gives the output in chunks.  The invariant of the loop is `Holds`: the bytes read so
far stand at the front of the buffer, and `pos` is behind them.

**Results.**  The buffer holds all bytes (`captureLoop_chunks`), but it becomes a string
through a terminator.  So the output ends at the first null byte (`captured_chunks`), and
`run` captures everything exactly if there is none (`captures_all_iff`).
-/

namespace Brenlib
namespace Bren

/-- `read` gives 0. -/
def ReadResult.eof : ReadResult :=
  .bytes [] (Nat.zero_le BATCH)

namespace Child

/-- What one `read` gives before the end: at least one byte. -/
structure Chunk where
  bytes : Bytes
  nonempty : 0 < bytes.length
  length_le : bytes.length ≤ BATCH

def Chunk.read (chunk : Chunk) : ReadResult :=
  .bytes chunk.bytes chunk.length_le

/-- The bytes read so far are in the buffer. -/
structure Holds (got data : Bytes) (pos : Nat) : Prop where
  pos_eq : pos = got.length
  front : got <+: data

section Buffer

variable {got data : Bytes} {pos count : Nat}

/-- A buffer that is cut off behind its front keeps it. -/
theorem prefix_resize
    (h : got <+: data)
    (hcount : got.length ≤ count) :
    got <+: resize data count :=
  (List.prefix_take_iff.mpr ⟨h, hcount⟩).trans (List.prefix_append _ _)

/-- Bytes are stored behind the front. -/
theorem prefix_storeAt
    (h : got <+: data)
    (bytes : Bytes) :
    got ++ bytes <+: storeAt data got.length bytes := by
  rw [storeAt, ← List.prefix_iff_eq_take.mp h]
  exact List.prefix_append _ _

theorem cString_append_zero
    (s rest : Bytes) :
    cString (s ++ 0x00 :: rest) = cString s := by
  induction s with
  | nil =>
      rfl
  | cons c s ih =>
      by_cases hc : c = 0x00
      · subst hc
        rfl
      · have hcons (t : Bytes) : cString (c :: t) = c :: cString t :=
          List.takeWhile_cons_of_pos (decide_eq_true hc)
        rw [List.cons_append, hcons, hcons, ih]

end Buffer

section Loop

variable {got data : Bytes} {pos : Nat}

/-- What one iteration does with the bytes that it reads. -/
theorem Holds.step
    (h : Holds got data pos)
    (chunk : Bytes) :
    Holds (got ++ chunk) (storeAt (resize data (pos + BATCH)) pos chunk)
      (pos + chunk.length) := by
  obtain ⟨rfl, hfront⟩ := h
  refine ⟨List.length_append.symm, prefix_storeAt (prefix_resize hfront ?_) chunk⟩
  exact Nat.le_add_right _ _

/-- The loop reads all chunks up to the end. -/
theorem captureLoop_chunks
    (h : Holds got data pos)
    (chunks : List Chunk) (rest : List ReadResult) :
    let (data', pos') := captureLoop (chunks.map Chunk.read ++ .eof :: rest) data pos
    Holds (got ++ (chunks.map Chunk.bytes).flatten) data' pos' := by
  induction chunks generalizing got data pos with
  | nil =>
      exact (h.step [] : Holds (got ++ []) _ _)
  | cons chunk chunks ih =>
      rw [List.map_cons, List.map_cons, List.flatten_cons, ← List.append_assoc]
      have hstep := ih (h.step chunk.bytes)
      have hloop : captureLoop (chunk.read :: (chunks.map Chunk.read ++ .eof :: rest)) data pos =
          captureLoop (chunks.map Chunk.read ++ .eof :: rest)
            (storeAt (resize data (pos + BATCH)) pos chunk.bytes) (pos + chunk.bytes.length) :=
        if_pos chunk.nonempty
      rw [List.cons_append, hloop]
      exact hstep

/-- The terminator goes behind the bytes that have been read. -/
theorem Holds.cString_eq
    (h : Holds got data pos) :
    cString (storeAt (resize data (pos + 1)) pos [0x00]) = cString got := by
  obtain ⟨rfl, hfront⟩ := h
  obtain ⟨rest, hrest⟩ := prefix_storeAt (prefix_resize hfront (Nat.le_succ _)) [0x00]
  rw [← hrest, List.append_assoc]
  exact cString_append_zero got rest

/-- The output ends at the first null byte. -/
theorem captured_chunks
    (chunks : List Chunk) (rest : List ReadResult) :
    captured (chunks.map Chunk.read ++ .eof :: rest) =
      cString (chunks.map Chunk.bytes).flatten :=
  (captureLoop_chunks ⟨rfl, List.nil_prefix⟩ chunks rest).cString_eq

end Loop

section Run

variable {profenv : Option Bytes} {answers : Answers} {child child' : Child}

theorem stateOf_waitForChild
    (answers : Answers) (child : Child) :
    stateOf ((waitForChild answers).run child) = child := by
  by_cases hwait : answers.waitpid = answers.fork
  · rw [waitForChild, run_bind_ok (fcet_run hwait _ _ child)]
    cases answers.status <;> rfl
  · rw [waitForChild, run_bind_error (fcet_run_throws hwait _ _ child)]
    rfl

theorem stateOf_run
    (hcmd : child.cmd_ ≠ [])
    (hcapture : child.capStdout_ = true ∨ child.capStderr_ = true)
    (henv : (readEnv_ profenv).run child = .ok () child')
    (hpipe : answers.pipe = none) :
    stateOf ((run profenv answers).run child) =
      { child' with output := captured answers.reads } := by
  have hcapture' : child'.capStdout_ = true ∨ child'.capStderr_ = true := by
    obtain ⟨env, tried, rfl⟩ := eq_of_readEnv_ok henv
    exact hcapture
  rw [run, run_bind_ok (EStateM.run_get child), run_bind_ok (fcet_run hcmd _ _ child),
    run_bind_ok henv, run_bind_ok (EStateM.run_get child'),
    if_pos (Bool.or_eq_true_iff.mpr hcapture'), run_bind_ok (fcet_run hpipe _ _ child')]
  exact stateOf_waitForChild answers _

/-- **`run` captures everything** exactly if there is no null byte in it. -/
theorem captures_all_iff
    {chunks : List Chunk} {rest : List ReadResult}
    (hcmd : child.cmd_ ≠ [])
    (hcapture : child.capStdout_ = true ∨ child.capStderr_ = true)
    (henv : (readEnv_ profenv).run child = .ok () child')
    (hpipe : answers.pipe = none)
    (hreads : answers.reads = chunks.map Chunk.read ++ .eof :: rest) :
    (stateOf ((run profenv answers).run child)).output = (chunks.map Chunk.bytes).flatten ↔
      0x00 ∉ (chunks.map Chunk.bytes).flatten := by
  rw [stateOf_run hcmd hcapture henv hpipe, hreads, captured_chunks, cString_eq_self_iff]

/-- Two chunks without a null byte. -/
theorem captures_all_iff_two :
    (stateOf ((run none
      { pipe := none
        fork := 7
        reads := [.bytes [0x61, 0x62] (by decide), .bytes [0x0A] (by decide), .eof]
        waitpid := 7
        status := .exited 0 }).run
      { cmd_ := literal "/bin/echo", capStdout_ := true })).output = [0x61, 0x62, 0x0A] :=
  (@captures_all_iff none _ _ { cmd_ := literal "/bin/echo", capStdout_ := true, triedEnv_ := true }
    [⟨[0x61, 0x62], by decide, by decide⟩, ⟨[0x0A], by decide, by decide⟩] []
    (by decide) (.inl rfl) rfl rfl rfl).mpr (by decide)

/-- Of three bytes, the second of them null, only the first one is captured. -/
theorem stops_at_null :
    (stateOf ((run none
      { pipe := none
        fork := 7
        reads := [.bytes [0x61, 0x00, 0x62] (by decide), .eof]
        waitpid := 7
        status := .exited 0 }).run
      { cmd_ := literal "/bin/printf", capStdout_ := true })).output ≠ [0x61, 0x00, 0x62] := by
  decide

end Run

end Child

end Bren
end Brenlib
