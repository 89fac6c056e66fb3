import Brenlib.Bren.Table

/-!
# `readCSV`: the reader loop

The model follows `src/readCSV.cpp` branch by branch.  A `Reader` holds the
local variables of the function, `step` is one iteration of its loop and `loop`
runs the iterations while the stream is good.

An iteration ends in one of three ways: the loop goes on (`Flow.next`), the
function returns the table (`Flow.done`), or an exception leaves the function.
-/

namespace Brenlib
namespace Bren

/-- `last_e`: what the reader has seen last. -/
inductive Last where
  | beginQuote
  | endQuote
  | fieldData
  | separator
  | startOfRecord
deriving DecidableEq, Repr

/-- The local variables of `readCSV`. -/
structure Reader where
  stream_i : IStream
  t : Table Bytes
  h : List Bytes
  readingHeader : Bool
  quoted : Bool
  c : Byte
  f : Bytes
  col : UInt16
  row : UInt32
  line : Nat
  pos : Nat
  last : Last
deriving DecidableEq, Repr

/-- How one iteration of the loop ends when it does not throw. -/
inductive Flow where
  | next (s : Reader)
  | done (t : Table Bytes)
deriving DecidableEq, Repr

/-- `UINT16_MAX`. -/
def uint16Max : Nat := 65535

/-- `UINT32_MAX`. -/
def uint32Max : Nat := 4294967295

namespace Reader

/-- The variables before the loop. -/
def init (stream_i : IStream) : Reader where
  stream_i := stream_i
  t := Table.empty
  h := []
  readingHeader := true
  quoted := false
  c := 0
  f := []
  col := 0
  row := 0
  line := 1
  pos := 1
  last := .startOfRecord

/-- The macro `ERR` followed by a message. -/
def err (s : Reader) (message : String) : String :=
  s!"Error at line {s.line}, character {s.pos}: " ++ message

/-- `throw std::runtime_error(ERR + message)`. -/
def runtimeError {α : Type} (s : Reader) (message : String) :
    Except StdException α :=
  .error ⟨.runtimeError, s.err message⟩

/-- `stream_i.read(&c, 1)`. -/
def readChar (s : Reader) : Reader :=
  { s with
    c := (s.stream_i.read s.c).1
    stream_i := (s.stream_i.read s.c).2 }

/-- The head of the loop: read one `char`, or `EOF` at the end of the data. -/
def nextChar (s : Reader) : Reader :=
  let s := s.readChar
  if s.stream_i.eof then { s with c := Byte.eof }
  else { s with pos := s.pos + 1 }

/-- The lambda `fieldReady`. -/
def fieldReady (s : Reader) : Except StdException Reader :=
  if s.readingHeader then
    .ok { s with h := s.h ++ [s.f], f := [] }
  else do
    let t ← outcome ((Table.assign s.col s.row s.f).run s.t)
    return { s with t := t, f := [] }

/-- `for (col = 0; col < h.size(); col++) t.cell(col, 0) = h.at(col)`. -/
def storeHeader : UInt16 → List Bytes → EStateM StdException (Table Bytes) Unit
  | _, [] => pure ()
  | col, field :: rest => do
      Table.assign col 0 field
      storeHeader (col + 1) rest

/-- Fix the number of columns and store row 0. -/
def makeHeader (fields : List Bytes) : EStateM StdException (Table Bytes) Unit := do
  Table.setColumns (UInt16.ofNat fields.length)
  storeHeader 0 fields

/-- End of the header record. -/
def headerReady (s : Reader) : Except StdException Reader :=
  if s.h.isEmpty then
    s.runtimeError "Empty line at beginning, unable to determine number of columns"
  else if uint16Max ≤ s.h.length then
    .error ⟨.outOfRange, s.err (s!"Encountered too many columns {s.h.length}" ++
      s!", maximum is {uint16Max - 1}")⟩
  else do
    let t ← outcome ((makeHeader s.h).run s.t)
    return { s with t := t, h := [], row := 1, col := 0, pos := 0, readingHeader := false }

/-- End of a data record: check the column count and go to the next row. -/
def dataReady (s : Reader) : Except StdException Reader :=
  if 0 < s.col ∧ s.f ≠ [] ∧ (s.col.toNat : Int) ≠ (s.t.columns.toNat : Int) - 1 then
    s.runtimeError (s!"Found EndOfRecord after {s.col.toNat + 1}" ++
      s!" column(s), but column count should be {s.t.columns.toNat}")
  else if s.row.toNat = uint32Max then
    s.runtimeError s!"Input data has more than {uint32Max} rows"
  else
    .ok { s with col := 0, row := s.row + 1 }

/-- End of a record that is not empty: store its last field, then finish it. -/
def recordReady (s : Reader) : Except StdException Reader := do
  let s ← s.fieldReady
  if s.readingHeader then s.headerReady else s.dataReady

/-- `\r\n` counts as one end of record. -/
def swallowNewline (s : Reader) : Reader :=
  if s.c = Byte.cr then
    let (p, stream) := s.stream_i.peek
    let s := { s with stream_i := stream }
    if p = some Byte.lf then
      { s.readChar with pos := s.pos + 1 }
    else s
  else s

/-- The branch for an unquoted `\r`, `\n` or `EOF`. -/
def endOfRecord (s : Reader) : Except StdException Flow :=
  let s := s.swallowNewline
  match s.last with
  | .beginQuote =>
      s.runtimeError "Found End Of Record just after begin quote"
  | .startOfRecord =>
      if s.stream_i.peek.1 ≠ none then
        s.runtimeError "Found empty line"
      else
        .ok (.done s.t)
  | .endQuote | .fieldData | .separator => do
      let s ← s.recordReady
      return .next { s with line := s.line + 1, pos := 0, last := .startOfRecord }

/-- `\r\n` inside a quoted field is stored as two `char`s. -/
def keepNewline (s : Reader) : Reader :=
  if s.c = Byte.cr then
    let (p, stream) := s.stream_i.peek
    let s := { s with stream_i := stream }
    if p = some Byte.lf then
      ({ s with f := s.f ++ [s.c] }).readChar
    else s
  else s

/-- The branch for a `char` of a quoted field. -/
def quotedChar (s : Reader) : Except StdException Flow :=
  if s.c = Byte.eof then
    s.runtimeError "Encountered EOF while reading quoted field"
  else if s.c = Byte.cr ∨ s.c = Byte.lf then
    let s := s.keepNewline
    .ok (.next { s with
      f := s.f ++ [s.c], line := s.line + 1, pos := 0, last := .fieldData })
  else if s.c = Byte.quote then
    let (p, stream) := s.stream_i.peek
    let s := { s with stream_i := stream }
    if p = some Byte.quote then
      -- Escaped quote
      let s := s.readChar
      .ok (.next { s with pos := s.pos + 1, f := s.f ++ [s.c], last := .fieldData })
    else
      -- The field is stored on the next separator or end of record
      .ok (.next { s with quoted := false, last := .endQuote })
  else
    .ok (.next { s with f := s.f ++ [s.c], last := .fieldData })

/-- The branch for an unquoted `"`. -/
def quoteChar (s : Reader) : Except StdException Flow :=
  match s.last with
  | .beginQuote | .endQuote =>
      s.runtimeError "Found quote character after quote, but not quoted field?"
  | .fieldData =>
      .ok (.next { s with f := s.f ++ [s.c] })
  | .separator | .startOfRecord =>
      .ok (.next { s with quoted := true, f := [] })

/-- The branch for the separator. -/
def separatorChar (s : Reader) : Except StdException Flow := do
  let s ← s.fieldReady
  let s := { s with last := .separator }
  if s.readingHeader then
    return .next s
  else if (s.t.columns.toNat : Int) - 1 ≤ (s.col.toNat : Int) then
    s.runtimeError (s!"Field count {s.col.toNat + 1}" ++
      s!" would exceed column count {s.t.columns.toNat}")
  else
    return .next { s with col := s.col + 1 }

/-- The test for 8-bit characters that are skipped at the start of the CSV. -/
def skipsChar (s : Reader) : Prop :=
  s.readingHeader ∧ s.last = .startOfRecord ∧ s.col = 0 ∧ s.row = 0 ∧
    s.c ≠ Byte.eof ∧ Byte.isHigh s.c

instance (s : Reader) : Decidable s.skipsChar :=
  inferInstanceAs (Decidable (_ ∧ _ ∧ _ ∧ _ ∧ _ ∧ _))

/-- One iteration of the loop. -/
def step (separator_i : Byte) (s : Reader) : Except StdException Flow :=
  let s := s.nextChar
  if s.skipsChar then
    .ok (.next s)
  else if s.quoted then
    s.quotedChar
  else if s.c = Byte.cr ∨ s.c = Byte.lf ∨ s.c = Byte.eof then
    s.endOfRecord
  else if s.c = Byte.quote then
    s.quoteChar
  else if s.c = separator_i then
    s.separatorChar
  else
    .ok (.next { s with f := s.f ++ [s.c], last := .fieldData })

section Termination

theorem remaining_readChar_le
    (s : Reader) :
    s.readChar.stream_i.remaining ≤ s.stream_i.remaining :=
  IStream.remaining_read_le s.c s.stream_i

theorem nextChar_stream
    (s : Reader) :
    s.nextChar.stream_i = (s.stream_i.read s.c).2 := by
  rw [nextChar]
  split <;> rfl

theorem fieldReady_stream
    {s s' : Reader}
    (h : s.fieldReady = .ok s') :
    s'.stream_i = s.stream_i := by
  unfold fieldReady at h
  split at h
  · cases h
    rfl
  · obtain ⟨t, _, ht⟩ := bind_eq_ok.mp h
    cases ht
    rfl

theorem headerReady_stream
    {s s' : Reader}
    (h : s.headerReady = .ok s') :
    s'.stream_i = s.stream_i := by
  unfold headerReady at h
  split at h
  · cases h
  · split at h
    · cases h
    · obtain ⟨t, _, ht⟩ := bind_eq_ok.mp h
      cases ht
      rfl

theorem dataReady_stream
    {s s' : Reader}
    (h : s.dataReady = .ok s') :
    s'.stream_i = s.stream_i := by
  unfold dataReady at h
  split at h
  · cases h
  · split at h
    · cases h
    · cases h
      rfl

theorem recordReady_stream
    {s s' : Reader}
    (h : s.recordReady = .ok s') :
    s'.stream_i = s.stream_i := by
  obtain ⟨s₁, h₁, hs₁⟩ := bind_eq_ok.mp h
  rw [← fieldReady_stream h₁]
  split at hs₁
  · exact headerReady_stream hs₁
  · exact dataReady_stream hs₁

theorem swallowNewline_remaining_le
    (s : Reader) :
    s.swallowNewline.stream_i.remaining ≤ s.stream_i.remaining := by
  unfold swallowNewline
  split
  · have hpeek := IStream.remaining_peek_le s.stream_i
    simp only
    split
    · exact le_trans (remaining_readChar_le _) hpeek
    · exact hpeek
  · exact le_rfl

theorem keepNewline_remaining_le
    (s : Reader) :
    s.keepNewline.stream_i.remaining ≤ s.stream_i.remaining := by
  unfold keepNewline
  split
  · have hpeek := IStream.remaining_peek_le s.stream_i
    simp only
    split
    · exact le_trans (remaining_readChar_le _) hpeek
    · exact hpeek
  · exact le_rfl

theorem endOfRecord_remaining_le
    {s s' : Reader}
    (h : s.endOfRecord = .ok (.next s')) :
    s'.stream_i.remaining ≤ s.stream_i.remaining := by
  have hswallow := swallowNewline_remaining_le s
  unfold endOfRecord at h
  simp only at h
  split at h
  · cases h
  · split at h
    · cases h
    · cases h
  all_goals
    obtain ⟨s₁, h₁, hs₁⟩ := bind_eq_ok.mp h
    cases hs₁
    simpa [recordReady_stream h₁] using hswallow

theorem quotedChar_remaining_le
    {s s' : Reader}
    (h : s.quotedChar = .ok (.next s')) :
    s'.stream_i.remaining ≤ s.stream_i.remaining := by
  have hpeek := IStream.remaining_peek_le s.stream_i
  unfold quotedChar at h
  split at h
  · cases h
  · split at h
    · cases h
      exact keepNewline_remaining_le s
    · split at h
      · simp only at h
        split at h
        · cases h
          exact le_trans (remaining_readChar_le _) hpeek
        · cases h
          exact hpeek
      · cases h
        exact le_rfl

theorem quoteChar_stream
    {s s' : Reader}
    (h : s.quoteChar = .ok (.next s')) :
    s'.stream_i = s.stream_i := by
  unfold quoteChar at h
  split at h <;> cases h <;> rfl

theorem separatorChar_stream
    {s s' : Reader}
    (h : s.separatorChar = .ok (.next s')) :
    s'.stream_i = s.stream_i := by
  obtain ⟨s₁, h₁, hs₁⟩ := bind_eq_ok.mp h
  rw [← fieldReady_stream h₁]
  simp only at hs₁
  split at hs₁
  · cases hs₁
    rfl
  · split at hs₁
    · cases hs₁
    · cases hs₁
      rfl

/-- Every iteration that goes on has used up a part of the stream. -/
theorem step_remaining_lt
    {separator_i : Byte} {s s' : Reader}
    (hgood : s.stream_i.good = true)
    (h : step separator_i s = .ok (.next s')) :
    s'.stream_i.remaining < s.stream_i.remaining := by
  have hread : s.nextChar.stream_i.remaining < s.stream_i.remaining := by
    rw [nextChar_stream]
    exact IStream.remaining_read_lt s.c hgood
  refine lt_of_le_of_lt ?_ hread
  unfold step at h
  simp only at h
  split at h
  · cases h
    exact le_rfl
  · split at h
    · exact quotedChar_remaining_le h
    · split at h
      · exact endOfRecord_remaining_le h
      · split at h
        · rw [quoteChar_stream h]
        · split at h
          · rw [separatorChar_stream h]
          · cases h
            exact le_rfl

end Termination

/-- `while (stream_i.good())`. -/
def loop (separator_i : Byte) (s : Reader) : Except StdException (Table Bytes) :=
  if _ : s.stream_i.good then
    match _ : step separator_i s with
    | .error e => .error e
    | .ok (.done t) => .ok t
    | .ok (.next s') => loop separator_i s'
  else
    .ok s.t
termination_by s.stream_i.remaining
decreasing_by exact step_remaining_lt ‹_› ‹_›

end Reader

/-- `readCSV` on a stream over the given bytes. -/
def readCSV (data : Bytes) (separator_i : Byte) : Except StdException (Table Bytes) :=
  Reader.loop separator_i (Reader.init (IStream.ofBytes data))

namespace Reader

section LoopRules

variable {separator_i : Byte} {s s' : Reader}

theorem loop_not_good
    (h : s.stream_i.good = false) :
    loop separator_i s = .ok s.t := by
  rw [loop]
  simp [h]

theorem loop_next
    (hgood : s.stream_i.good = true)
    (h : step separator_i s = .ok (.next s')) :
    loop separator_i s = loop separator_i s' := by
  rw [loop]
  simp only [hgood, dif_pos]
  split <;> simp_all

theorem loop_done
    {t : Table Bytes}
    (hgood : s.stream_i.good = true)
    (h : step separator_i s = .ok (.done t)) :
    loop separator_i s = .ok t := by
  rw [loop]
  simp only [hgood, dif_pos]
  split <;> simp_all

theorem loop_error
    {e : StdException}
    (hgood : s.stream_i.good = true)
    (h : step separator_i s = .error e) :
    loop separator_i s = .error e := by
  rw [loop]
  simp only [hgood, dif_pos]
  split <;> simp_all

end LoopRules

end Reader

end Bren
end Brenlib
