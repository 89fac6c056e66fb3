import Brenlib.Bren.ReadCSVTable

/-!
# `readCSV` refines the scanner

`Scan.answer` is what the reader does with a scanned text: the table of the
layout, or the class of the exception it throws.  Two of its cases are where the
loop is left by `peek()` setting `eofbit` before the last field has been stored:

* `Mode.quoteSeen`: the text ends right behind a closing quote;
* `Mode.quoted _ true`: the text ends in a `\r` inside quotes.

The main result `readCSV_eq_answer` says that the loop computes this answer on
every input and for every separator.  It rests on `Reader.Reads s σ l`, the
relation between the variables at the head of the loop, the state of the scanner
on the bytes read so far, and the layout of its tokens; one iteration of the loop
corresponds to one or two bytes of the scan.
-/

namespace Brenlib
namespace Bren

namespace Csv

/-- What the reader answers when the text ends in the state `σ` and the tokens
have the layout `l`. -/
def Scan.finish (σ : Scan) (l : Layout) : Except ExceptionClass (Table Bytes) :=
  match σ.mode with
  | .afterSep | .bare => (l.accept (.record σ.f)).map Layout.table
  | .quoted _ cr => if cr then .ok l.table else .error .runtimeError
  | .start _ | .afterCr | .emptyLine _ | .quoteSeen => .ok l.table

/-- What the reader answers to a scanned text. -/
def Scan.answer (σ : Scan) : Except ExceptionClass (Table Bytes) :=
  Layout.run σ.out >>= σ.finish

/-- A refused token decides the answer, whatever follows. -/
theorem Scan.answer_of_refused
    {σ : Scan} {k : ExceptionClass}
    (h : Layout.run σ.out = .error k)
    (sep : Byte) (text : Bytes) :
    (Scan.scanFrom sep σ text).answer = .error k := by
  rw [Scan.answer,
    Layout.run_error_of_prefix (Scan.out_prefix_scanFrom sep σ text) h]
  rfl

theorem Scan.answer_of_run
    {σ : Scan} {l : Layout}
    (h : Layout.run σ.out = .ok l) :
    σ.answer = σ.finish l := by
  rw [Scan.answer, h]
  rfl

end Csv

open Csv

namespace Reader

/-- The place of the loop head that corresponds to a mode of the scanner. -/
def AtMode (s : Reader) : Mode → Prop
  | .start first =>
      s.quoted = false ∧ s.last = .startOfRecord ∧ s.readingHeader = first ∧
        s.f = []
  | .afterCr =>
      s.quoted = false ∧ s.last = .startOfRecord ∧ s.readingHeader = false ∧
        s.f = [] ∧ s.stream_i.data.head? ≠ some Byte.lf
  | .emptyLine _ => False
  | .afterSep => s.quoted = false ∧ s.last = .separator ∧ s.f = []
  | .bare => s.quoted = false ∧ s.last = .fieldData
  | .quoted fresh cr =>
      s.quoted = true ∧
        (fresh = true ↔ s.readingHeader = true ∧ s.last = .startOfRecord) ∧
        (cr = true → fresh = false ∧ s.stream_i.data ≠ [])
  | .quoteSeen =>
      s.quoted = false ∧ s.last = .endQuote ∧ s.stream_i.data ≠ [] ∧
        s.stream_i.data.head? ≠ some Byte.quote

/-- The loop head, the scanner and the layout describe the same reading. -/
structure Reads (s : Reader) (σ : Scan) (l : Layout) : Prop where
  run : Layout.run σ.out = .ok l
  holds : s.Holds l
  f : s.f = σ.f
  atMode : s.AtMode σ.mode

theorem Holds.of_eq
    {s s' : Reader} {l : Layout}
    (h : s.Holds l)
    (hreading : s'.readingHeader = s.readingHeader)
    (ht : s'.t = s.t) (hrow : s'.row = s.row)
    (hcol : s'.col = s.col) (hh : s'.h = s.h) :
    s'.Holds l where
  accepted := h.accepted
  readingHeader := hreading.trans h.readingHeader
  table := ht.trans h.table
  row := by rw [hrow]; exact h.row
  col := by rw [hcol]; exact h.col
  header_col := by rw [hcol]; exact h.header_col
  header := by rw [hh]; exact h.header

/-- The variables after one byte has been read. -/
def afterRead (s : Reader) (b : Byte) (rest : Bytes) : Reader :=
  { s with c := b, stream_i := IStream.ofBytes rest, pos := s.pos + 1 }

theorem nextChar_cons
    {s : Reader} {b : Byte} {rest : Bytes}
    (h : s.stream_i = IStream.ofBytes (b :: rest)) :
    s.nextChar = s.afterRead b rest := by
  simp [nextChar, readChar, h, afterRead]

/-- The variables after the end of the data has been read. -/
def afterEof (s : Reader) : Reader :=
  { s with
    c := Byte.eof
    stream_i := { data := [], eofbit := true, failbit := true } }

theorem nextChar_nil
    {s : Reader}
    (h : s.stream_i = IStream.ofBytes []) :
    s.nextChar = s.afterEof := by
  simp [nextChar, readChar, h, afterEof, IStream.eof]

theorem Holds.afterRead
    {s : Reader} {l : Layout}
    (h : s.Holds l) (b : Byte) (rest : Bytes) :
    (s.afterRead b rest).Holds l :=
  h.of_eq rfl rfl rfl rfl rfl

theorem Holds.afterEof
    {s : Reader} {l : Layout}
    (h : s.Holds l) :
    s.afterEof.Holds l :=
  h.of_eq rfl rfl rfl rfl rfl

/-- Which bytes are skipped, in terms of the mode. -/
theorem Holds.skipsChar_iff
    {s : Reader} {l : Layout}
    (h : s.Holds l) :
    s.skipsChar ↔
      (s.readingHeader = true ∧ s.last = .startOfRecord) ∧ Scan.skipped s.c := by
  constructor
  · rintro ⟨hheader, hlast, -, -, hskip⟩
    exact ⟨⟨hheader, hlast⟩, hskip⟩
  · rintro ⟨⟨hheader, hlast⟩, hskip⟩
    have hrec : l.records = [] := by
      rw [h.readingHeader] at hheader
      simpa using hheader
    have hrow : s.row = 0 := by
      rw [← UInt32.toNat_inj, h.row, hrec]
      rfl
    exact ⟨hheader, hlast, h.header_col hrec, hrow, hskip⟩

/-- The loop answers like the scanner, on every rest of the input of at most `n`
bytes. -/
def AnswersUpTo (sep : Byte) (n : Nat) : Prop :=
  ∀ (text : Bytes) (s : Reader) (σ : Scan) (l : Layout),
    text.length ≤ n →
    s.stream_i = IStream.ofBytes text →
    s.Reads σ l →
    (loop sep s).mapError StdException.kind =
      (Scan.scanFrom sep σ text).answer

section Iteration

variable {sep : Byte} {s s' : Reader} {σ : Scan} {l : Layout} {n : Nat}
  {b : Byte} {rest : Bytes}

/-- The loop goes on with the next iteration. -/
theorem answer_of_next
    (s' : Reader)
    (ih : AnswersUpTo sep n)
    (hlen : rest.length ≤ n)
    (hgood : s.stream_i.good = true)
    (hstep : step sep s = .ok (.next s'))
    (hstream : s'.stream_i = IStream.ofBytes rest)
    (h : s'.Reads σ l) :
    (loop sep s).mapError StdException.kind =
      (Scan.scanFrom sep σ rest).answer := by
  rw [loop_next hgood hstep]
  exact ih rest s' σ l hlen hstream h

/-- The loop is left because the stream is no longer good. -/
theorem answer_of_exit
    (s' : Reader)
    (hgood : s.stream_i.good = true)
    (hstep : step sep s = .ok (.next s'))
    (hstream : s'.stream_i.good = false)
    (hrun : Layout.run σ.out = .ok l)
    (htable : s'.t = l.table)
    (hfinish : σ.finish l = .ok l.table) :
    (loop sep s).mapError StdException.kind = σ.answer := by
  rw [loop_next hgood hstep, loop_not_good hstream,
    Scan.answer_of_run hrun, hfinish, htable]
  rfl

theorem answer_of_error
    {k : ExceptionClass} {what : String}
    (hgood : s.stream_i.good = true)
    (hstep : step sep s = .error ⟨k, what⟩)
    (hrun : Layout.run σ.out = .error k) :
    (loop sep s).mapError StdException.kind =
      (Scan.scanFrom sep σ rest).answer := by
  rw [loop_error hgood hstep, Scan.answer_of_refused hrun]
  rfl

/-- The separator ends a field. -/
theorem answer_closeField
    (ih : AnswersUpTo sep rest.length)
    (hstream : s.stream_i = IStream.ofBytes (b :: rest))
    (h : s.Reads σ l)
    (hquoted : s.quoted = false)
    (hstep : step sep s = (s.afterRead b rest).separatorChar) :
    (loop sep s).mapError StdException.kind =
      (Scan.scanFrom sep σ.closeField rest).answer := by
  have hgood := IStream.good_of_eq hstream
  have hholds := h.holds.afterRead b rest
  have hf : (s.afterRead b rest).f = σ.f := h.f
  have hrun :
      Layout.run σ.closeField.out = l.accept (.field σ.f) := by
    rw [Scan.closeField, Layout.run_append_singleton, h.run]
    rfl
  cases hacc : l.accept (.field σ.f) with
  | error k =>
      rw [← hf] at hacc
      obtain ⟨what, hthrow⟩ := hholds.separatorChar_error hacc
      rw [hf] at hacc
      exact answer_of_error hgood (hstep.trans hthrow) (hrun.trans hacc)
  | ok l' =>
      rw [← hf] at hacc
      obtain ⟨s', hnext, hholds', hs', hq', hlast', hf'⟩ :=
        hholds.separatorChar_ok hacc
      rw [hf] at hacc
      refine answer_of_next (l := l') _ ih le_rfl hgood (hstep.trans hnext) hs' ?_
      exact {
        run := hrun.trans hacc
        holds := hholds'
        f := hf'
        atMode := ⟨hq'.trans hquoted, hlast', hf'⟩ }

/-- A byte of an unquoted field. -/
theorem answer_push
    (ih : AnswersUpTo sep rest.length)
    (hstream : s.stream_i = IStream.ofBytes (b :: rest))
    (h : s.Reads σ l)
    (hquoted : s.quoted = false)
    (hstep :
      step sep s =
        .ok (.next { s.afterRead b rest with
          f := s.f ++ [b], last := .fieldData })) :
    (loop sep s).mapError StdException.kind =
      (Scan.scanFrom sep (σ.push b) rest).answer := by
  have hgood := IStream.good_of_eq hstream
  refine answer_of_next (l := l) _ ih le_rfl hgood hstep rfl ?_
  exact {
    run := h.run
    holds := h.holds.of_eq rfl rfl rfl rfl rfl
    f := by simp [Scan.push, h.f]
    atMode := ⟨hquoted, rfl⟩ }

/-- An opening quote. -/
theorem answer_openQuote
    {fresh : Bool}
    (ih : AnswersUpTo sep rest.length)
    (hstream : s.stream_i = IStream.ofBytes (b :: rest))
    (h : s.Reads σ l)
    (hfresh :
      fresh = true ↔ s.readingHeader = true ∧ s.last = .startOfRecord)
    (hstep :
      step sep s =
        .ok (.next { s.afterRead b rest with quoted := true, f := [] })) :
    (loop sep s).mapError StdException.kind =
      (Scan.scanFrom sep (σ.openQuote fresh) rest).answer := by
  have hgood := IStream.good_of_eq hstream
  refine answer_of_next (l := l) _ ih le_rfl hgood hstep rfl ?_
  exact {
    run := h.run
    holds := h.holds.of_eq rfl rfl rfl rfl rfl
    f := rfl
    atMode := ⟨rfl, hfresh, by simp⟩ }

end Iteration

section EndOfRecord

variable {s : Reader}

/-- The stream after an end of record `b`: the `\n` of `\r\n` is swallowed, and
looking for it at the end of the data sets `eofbit`. -/
def afterNewline (b : Byte) (rest : Bytes) : IStream :=
  if b = Byte.cr then
    match rest with
    | [] => { data := [], eofbit := true, failbit := false }
    | c :: rest' => IStream.ofBytes (if c = Byte.lf then rest' else rest)
  else
    IStream.ofBytes rest

theorem afterNewline_nil :
    afterNewline Byte.cr [] =
      { data := [], eofbit := true, failbit := false } := rfl

theorem afterNewline_cons
    (c : Byte) (rest : Bytes) :
    afterNewline Byte.cr (c :: rest) =
      IStream.ofBytes (if c = Byte.lf then rest else c :: rest) := rfl

theorem afterNewline_of_ne
    {b : Byte} (h : b ≠ Byte.cr) (rest : Bytes) :
    afterNewline b rest = IStream.ofBytes rest :=
  if_neg h

theorem swallowNewline_afterRead
    (s : Reader) (b : Byte) (rest : Bytes) :
    ∃ c pos,
      (s.afterRead b rest).swallowNewline =
        { s with c := c, pos := pos, stream_i := afterNewline b rest } := by
  unfold swallowNewline afterRead afterNewline
  by_cases hb : b = Byte.cr
  · cases rest with
    | nil =>
        exact ⟨b, s.pos + 1, by simp [hb]⟩
    | cons c rest' =>
        by_cases hc : c = Byte.lf
        · exact ⟨c, s.pos + 1 + 1, by simp [hb, hc, readChar]⟩
        · exact ⟨b, s.pos + 1, by simp [hb, hc]⟩
  · exact ⟨b, s.pos + 1, by simp [hb]⟩

theorem swallowNewline_last
    (s : Reader) :
    s.swallowNewline.last = s.last := by
  unfold swallowNewline
  split
  · simp only
    split <;> rfl
  · rfl

/-- The end of a record that is not empty, for the bytes read so far. -/
theorem endOfRecord_of_begun
    (hlast : s.last = .endQuote ∨ s.last = .fieldData ∨ s.last = .separator) :
    s.endOfRecord =
      s.swallowNewline.recordReady >>= fun s => .ok (.next
        { s with line := s.line + 1, pos := 0, last := .startOfRecord }) := by
  unfold endOfRecord
  simp only [swallowNewline_last]
  rcases hlast with hlast | hlast | hlast <;> rw [hlast] <;> rfl

/-- An empty line: the last one of the text ends the reading. -/
theorem endOfRecord_of_empty
    (hlast : s.last = .startOfRecord) :
    s.endOfRecord =
      if s.swallowNewline.stream_i.peek.1 ≠ none then
        s.swallowNewline.runtimeError "Found empty line"
      else .ok (.done s.swallowNewline.t) := by
  unfold endOfRecord
  simp only [swallowNewline_last, hlast]

variable {sep : Byte} {σ : Scan} {l : Layout} {b : Byte} {rest : Bytes}

/-- The end of a record that is not empty. -/
theorem answer_closeRecord
    (ih : AnswersUpTo sep rest.length)
    (hstream : s.stream_i = IStream.ofBytes (b :: rest))
    (h : s.Reads σ l)
    (hquoted : s.quoted = false)
    (hlast : s.last = .endQuote ∨ s.last = .fieldData ∨ s.last = .separator)
    (hstep : step sep s = (s.afterRead b rest).endOfRecord) :
    (loop sep s).mapError StdException.kind =
      (Scan.scanFrom sep (σ.closeRecord b) rest).answer := by
  have hgood := IStream.good_of_eq hstream
  obtain ⟨c, pos, hswallow⟩ := swallowNewline_afterRead s b rest
  rw [endOfRecord_of_begun (s := s.afterRead b rest) hlast, hswallow] at hstep
  set s₁ : Reader :=
    { s with c := c, pos := pos, stream_i := afterNewline b rest } with hs₁
  have hholds : s₁.Holds l := h.holds.of_eq rfl rfl rfl rfl rfl
  have hf : s₁.f = σ.f := h.f
  have hrun :
      Layout.run (σ.closeRecord b).out = l.accept (.record σ.f) := by
    rw [Scan.closeRecord, Layout.run_append_singleton, h.run]
    rfl
  cases hacc : l.accept (.record σ.f) with
  | error k =>
      rw [← hf] at hacc
      obtain ⟨what, hthrow⟩ := hholds.recordReady_error hacc
      rw [hf] at hacc
      have hstep' : step sep s = .error ⟨k, what⟩ := by
        rw [hstep, hthrow]
        rfl
      exact answer_of_error hgood hstep' (hrun.trans hacc)
  | ok l' =>
      rw [← hf] at hacc
      obtain ⟨s₂, hready, hholds₂, hstream₂, hquoted₂, hf₂⟩ :=
        hholds.recordReady_ok hacc
      rw [hf] at hacc
      set s₃ : Reader :=
        { s₂ with line := s₂.line + 1, pos := 0, last := .startOfRecord }
        with hs₃
      have hnext : step sep s = .ok (.next s₃) := by
        rw [hstep, hready]
        rfl
      have hholds₃ : s₃.Holds l' := hholds₂.of_eq rfl rfl rfl rfl rfl
      have hheader : s₃.readingHeader = false := by
        have hrec : l'.records ≠ [] := Layout.records_ne_nil_of_accept hacc
        rw [hholds₃.readingHeader]
        simp [hrec]
      have hstream₃ : s₃.stream_i = afterNewline b rest := hstream₂
      have hquoted₃ : s₃.quoted = false := hquoted₂.trans hquoted
      -- the scanner, once the `\n` of a `\r\n` has been read as well
      have hreads (mode : Mode) (hmode : s₃.AtMode mode) :
          s₃.Reads { mode := mode, f := [], out := (σ.closeRecord b).out } l' :=
        ⟨hrun.trans hacc, hholds₃, hf₂, hmode⟩
      have hstart : s₃.AtMode (.start false) :=
        ⟨hquoted₃, rfl, hheader, hf₂⟩
      by_cases hb : b = Byte.cr
      · cases rest with
        | nil =>
            rw [hb, afterNewline_nil] at hstream₃
            refine answer_of_exit (l := l') _ hgood hnext (by rw [hstream₃]; rfl)
              (hrun.trans hacc) hholds₃.table ?_
            simp [Scan.closeRecord, hb, Scan.finish]
        | cons d rest' =>
            rw [hb, afterNewline_cons] at hstream₃
            by_cases hd : d = Byte.lf
            · rw [Scan.scanFrom_cons]
              have hscan :
                  Scan.step sep (σ.closeRecord b) d =
                    { mode := .start false, f := [],
                      out := (σ.closeRecord b).out } := by
                simp [Scan.closeRecord, Scan.step, hb, hd]
              rw [hscan]
              exact answer_of_next _ ih (by simp) hgood hnext
                (by simpa [hd] using hstream₃) (hreads _ hstart)
            · have hscan :
                  σ.closeRecord b =
                    { mode := .afterCr, f := [],
                      out := (σ.closeRecord b).out } := by
                simp [Scan.closeRecord, hb]
              rw [hscan]
              rw [if_neg hd] at hstream₃
              refine answer_of_next _ ih le_rfl hgood hnext hstream₃
                (hreads _ ⟨hquoted₃, rfl, hheader, hf₂, ?_⟩)
              simp [hstream₃, hd]
      · have hscan :
            σ.closeRecord b =
              { mode := .start false, f := [], out := (σ.closeRecord b).out } := by
          simp [Scan.closeRecord, hb]
        rw [afterNewline_of_ne hb] at hstream₃
        rw [hscan]
        exact answer_of_next _ ih le_rfl hgood hnext hstream₃ (hreads _ hstart)

/-- Any byte behind an empty line is a fault. -/
theorem answer_afterEmpty
    {cr : Bool}
    (hrun : Layout.run σ.out = .ok l)
    (hmode : σ.mode = .emptyLine cr)
    (hb : ¬ (cr = true ∧ b = Byte.lf)) :
    (Scan.scanFrom sep σ (b :: rest)).answer = .error .runtimeError := by
  rw [Scan.scanFrom_cons]
  refine Scan.answer_of_refused ?_ sep rest
  have hfault : Layout.run (σ.out ++ [.fault]) = .error .runtimeError := by
    rw [Layout.run_append_singleton, hrun]
    rfl
  refine Layout.run_error_of_prefix ?_ hfault
  rw [Scan.step, hmode]
  simp only [Scan.afterEmpty, if_neg hb]
  exact Scan.out_prefix_atStart sep false
    { mode := .start false, f := [], out := σ.out ++ [.fault] } b

/-- The reader stops at an empty line. -/
theorem answer_emptyLine
    (hstream : s.stream_i = IStream.ofBytes (b :: rest))
    (h : s.Reads σ l)
    (hlast : s.last = .startOfRecord)
    (hstep : step sep s = (s.afterRead b rest).endOfRecord) :
    (loop sep s).mapError StdException.kind =
      (Scan.scanFrom sep { σ with mode := .emptyLine (b = Byte.cr) } rest).answer
        := by
  have hgood := IStream.good_of_eq hstream
  obtain ⟨c, pos, hswallow⟩ := swallowNewline_afterRead s b rest
  rw [endOfRecord_of_empty (s := s.afterRead b rest) hlast, hswallow] at hstep
  simp only [h.holds.table] at hstep
  -- whether the reader finds anything behind the empty line
  have hdone
      (hpeek : (afterNewline b rest).peek.1 = none) :
      (loop sep s).mapError StdException.kind = .ok l.table := by
    rw [loop_done (t := l.table) hgood]
    · rfl
    · simpa [hpeek] using hstep
  have herror
      (hpeek : (afterNewline b rest).peek.1 ≠ none) :
      (loop sep s).mapError StdException.kind = .error .runtimeError := by
    rw [if_pos hpeek] at hstep
    rw [loop_error hgood hstep]
    rfl
  have hend (cr : Bool) :
      Scan.answer { σ with mode := .emptyLine cr } = .ok l.table := by
    rw [Scan.answer, h.run]
    rfl
  have hfault (cr : Bool) (d : Byte) (rest' : Bytes)
      (hd : ¬ (cr = true ∧ d = Byte.lf)) :
      (Scan.scanFrom sep { σ with mode := .emptyLine cr } (d :: rest')).answer =
        .error .runtimeError :=
    answer_afterEmpty (σ := { σ with mode := .emptyLine cr }) h.run rfl hd
  by_cases hb : b = Byte.cr
  · subst hb
    cases rest with
    | nil =>
        rw [hdone rfl]
        exact (hend true).symm
    | cons d rest' =>
        by_cases hd : d = Byte.lf
        · subst hd
          have hscan :
              Scan.step sep { σ with mode := .emptyLine true } Byte.lf =
                { σ with mode := .emptyLine false } := by
            simp [Scan.step, Scan.afterEmpty]
          simp only [decide_true, Scan.scanFrom_cons, hscan]
          cases rest' with
          | nil =>
              rw [hdone rfl]
              exact (hend false).symm
          | cons e rest'' =>
              rw [herror (by simp [afterNewline_cons])]
              exact (hfault false e rest'' (by simp)).symm
        · rw [herror (by simp [afterNewline_cons, hd])]
          exact (hfault true d rest' (by simp [hd])).symm
  · cases rest with
    | nil =>
        rw [hdone (by rw [afterNewline_of_ne hb]; rfl)]
        exact (hend _).symm
    | cons d rest' =>
        rw [herror (by simp [afterNewline_of_ne hb])]
        exact (hfault _ d rest' (by simp [hb])).symm

end EndOfRecord

section Quoted

variable {sep : Byte} {s : Reader} {σ : Scan} {l : Layout} {b : Byte}
  {rest : Bytes}

/-- One iteration on a byte of the data. -/
theorem step_cons
    (sep : Byte)
    (hstream : s.stream_i = IStream.ofBytes (b :: rest)) :
    step sep s =
      if (s.afterRead b rest).skipsChar then .ok (.next (s.afterRead b rest))
      else if s.quoted then (s.afterRead b rest).quotedChar
      else if Scan.endsRecord b then (s.afterRead b rest).endOfRecord
      else if b = Byte.quote then (s.afterRead b rest).quoteChar
      else if b = sep then (s.afterRead b rest).separatorChar
      else .ok (.next { s.afterRead b rest with
        f := s.f ++ [b], last := .fieldData }) := by
  rw [step, nextChar_cons hstream]
  rfl

/-- Reading on inside quotes, with one or two more bytes of content. -/
theorem Reads.content
    {s' : Reader} {f : Bytes} {cr : Bool}
    (h : s.Reads σ l)
    (hholds : s'.Holds l)
    (hf : s'.f = f)
    (hquoted : s'.quoted = true)
    (hlast : s'.last = .fieldData)
    (hcr : cr = true → s'.stream_i.data ≠ []) :
    s'.Reads { mode := .quoted false cr, f := f, out := σ.out } l where
  run := h.run
  holds := hholds
  f := hf
  atMode := ⟨hquoted, by simp [hlast], fun hc => ⟨rfl, hcr hc⟩⟩

/-- The end of the data inside quotes is only noticed if no `peek()` comes first. -/
theorem answer_carriageReturn
    (ih : AnswersUpTo sep rest.length)
    (hstream : s.stream_i = IStream.ofBytes (Byte.cr :: rest))
    (h : s.Reads σ l)
    (hquoted : s.quoted = true)
    (hstep : step sep s = (s.afterRead Byte.cr rest).quotedChar) :
    (loop sep s).mapError StdException.kind =
      (Scan.scanFrom sep
        { mode := .quoted false true, f := σ.f ++ [Byte.cr], out := σ.out }
        rest).answer := by
  have hgood := IStream.good_of_eq hstream
  have hcr : ¬ Byte.cr = Byte.eof := by decide
  cases rest with
  | nil =>
      refine answer_of_exit (l := l)
        { s with
          c := Byte.cr, pos := 0, f := s.f ++ [Byte.cr], line := s.line + 1
          last := .fieldData
          stream_i := { data := [], eofbit := true, failbit := false } }
        hgood ?_ rfl h.run h.holds.table rfl
      rw [hstep]
      simp [quotedChar, keepNewline, afterRead, hcr]
  | cons d rest' =>
      by_cases hd : d = Byte.lf
      · subst hd
        have hscan :
            Scan.step sep
                { mode := .quoted false true, f := σ.f ++ [Byte.cr], out := σ.out }
                Byte.lf =
              { mode := .quoted false false, f := σ.f ++ [Byte.cr, Byte.lf],
                out := σ.out } := by
          have hlf : ¬ Byte.lf = Byte.quote ∧ ¬ Byte.lf = Byte.eof ∧
              ¬ Byte.lf = Byte.cr := by decide
          simp [Scan.step, Scan.inQuotes, hlf]
        rw [Scan.scanFrom_cons, hscan]
        refine answer_of_next (l := l)
          { s with
            c := Byte.lf, pos := 0, f := s.f ++ [Byte.cr, Byte.lf]
            line := s.line + 1, last := .fieldData
            stream_i := IStream.ofBytes rest' }
          ih (by simp) hgood ?_ rfl ?_
        · rw [hstep]
          simp [quotedChar, keepNewline, readChar, afterRead, hcr]
        · exact h.content (h.holds.of_eq rfl rfl rfl rfl rfl)
            (by rw [h.f]) hquoted rfl (by simp)
      · refine answer_of_next (l := l)
          { s.afterRead Byte.cr (d :: rest') with
            pos := 0, f := s.f ++ [Byte.cr], line := s.line + 1
            last := .fieldData }
          ih le_rfl hgood ?_ rfl ?_
        · rw [hstep]
          simp [quotedChar, keepNewline, afterRead, hcr, hd]
        · exact h.content (h.holds.of_eq rfl rfl rfl rfl rfl)
            (by rw [h.f]) hquoted rfl (by simp [afterRead])

/-- A quote inside quotes: doubled, or the end of the field. -/
theorem answer_quoteInQuotes
    (ih : AnswersUpTo sep rest.length)
    (hstream : s.stream_i = IStream.ofBytes (Byte.quote :: rest))
    (h : s.Reads σ l)
    (hquoted : s.quoted = true)
    (hstep : step sep s = (s.afterRead Byte.quote rest).quotedChar) :
    (loop sep s).mapError StdException.kind =
      (Scan.scanFrom sep { σ with mode := .quoteSeen } rest).answer := by
  have hgood := IStream.good_of_eq hstream
  have hquote : ¬ Byte.quote = Byte.eof ∧ ¬ Byte.quote = Byte.cr ∧
      ¬ Byte.quote = Byte.lf := by decide
  cases rest with
  | nil =>
      refine answer_of_exit (l := l)
        { s with
          c := Byte.quote, pos := s.pos + 1, quoted := false, last := .endQuote
          stream_i := { data := [], eofbit := true, failbit := false } }
        hgood ?_ rfl h.run h.holds.table rfl
      rw [hstep]
      simp [quotedChar, afterRead, hquote]
  | cons d rest' =>
      by_cases hd : d = Byte.quote
      · subst hd
        have hscan :
            Scan.step sep { σ with mode := .quoteSeen } Byte.quote =
              { mode := .quoted false false, f := σ.f ++ [Byte.quote],
                out := σ.out } := by
          simp [Scan.step, Scan.afterQuote]
        rw [Scan.scanFrom_cons, hscan]
        refine answer_of_next (l := l)
          { s with
            c := Byte.quote, pos := s.pos + 1 + 1, f := s.f ++ [Byte.quote]
            last := .fieldData, stream_i := IStream.ofBytes rest' }
          ih (by simp) hgood ?_ rfl ?_
        · rw [hstep]
          simp [quotedChar, readChar, afterRead, hquote]
        · exact h.content (h.holds.of_eq rfl rfl rfl rfl rfl)
            (by rw [h.f]) hquoted rfl (by simp)
      · refine answer_of_next (l := l)
          { s.afterRead Byte.quote (d :: rest') with
            quoted := false, last := .endQuote }
          ih le_rfl hgood ?_ rfl ?_
        · rw [hstep]
          simp [quotedChar, afterRead, hquote, hd]
        · exact {
            run := h.run
            holds := h.holds.of_eq rfl rfl rfl rfl rfl
            f := h.f
            atMode := ⟨rfl, rfl, by simp [afterRead], by simp [afterRead, hd]⟩ }

/-- A byte inside quotes. -/
theorem answer_inQuotes
    {fresh cr : Bool}
    (ih : AnswersUpTo sep rest.length)
    (hstream : s.stream_i = IStream.ofBytes (b :: rest))
    (h : s.Reads σ l)
    (hmode : σ.mode = .quoted fresh cr) :
    (loop sep s).mapError StdException.kind =
      (Scan.scanFrom sep (Scan.inQuotes fresh σ b) rest).answer := by
  have hgood := IStream.good_of_eq hstream
  have hat := h.atMode
  rw [hmode] at hat
  obtain ⟨hquoted, hfresh, hcr⟩ := hat
  have hskips : (s.afterRead b rest).skipsChar ↔ fresh = true ∧ Scan.skipped b :=
    ((h.holds.afterRead b rest).skipsChar_iff).trans
      (and_congr_left' hfresh.symm)
  by_cases hskip : fresh = true ∧ Scan.skipped b
  · have hstep : step sep s = .ok (.next (s.afterRead b rest)) := by
      rw [step_cons sep hstream, if_pos (hskips.mpr hskip)]
    rw [Scan.inQuotes, if_pos hskip]
    refine answer_of_next (l := l) _ ih le_rfl hgood hstep rfl ?_
    refine ⟨h.run, h.holds.afterRead b rest, h.f, ?_⟩
    rw [hmode]
    exact ⟨hquoted, hfresh, fun hc => absurd (hcr hc).1 (by simp [hskip.1])⟩
  · have hstep : step sep s = (s.afterRead b rest).quotedChar := by
      rw [step_cons sep hstream, if_neg (mt hskips.mp hskip), if_pos hquoted]
    rw [Scan.inQuotes, if_neg hskip]
    by_cases hquote : b = Byte.quote
    · subst hquote
      rw [if_pos rfl]
      exact answer_quoteInQuotes ih hstream h hquoted hstep
    · rw [if_neg hquote]
      by_cases heof : b = Byte.eof
      · subst heof
        have hthrow :
            step sep s =
              (s.afterRead Byte.eof rest).runtimeError
                "Encountered EOF while reading quoted field" := by
          rw [hstep]
          rfl
        refine answer_of_error hgood hthrow ?_
        simp only [if_true]
        rw [Layout.run_append_singleton, h.run]
        rfl
      · by_cases hcreturn : b = Byte.cr
        · subst hcreturn
          simp only [decide_true, if_neg heof]
          exact answer_carriageReturn ih hstream h hquoted hstep
        · simp only [decide_eq_false hcreturn, if_neg heof]
          by_cases hlf : b = Byte.lf
          · subst hlf
            refine answer_of_next (l := l)
              { s.afterRead Byte.lf rest with
                f := s.f ++ [Byte.lf], line := s.line + 1, pos := 0
                last := .fieldData }
              ih le_rfl hgood ?_ rfl ?_
            · rw [hstep]
              simp [quotedChar, keepNewline, afterRead, heof, hcreturn]
            · exact h.content (h.holds.of_eq rfl rfl rfl rfl rfl)
                (by rw [h.f]) hquoted rfl (by simp)
          · refine answer_of_next (l := l)
              { s.afterRead b rest with
                f := s.f ++ [b], last := .fieldData }
              ih le_rfl hgood ?_ rfl ?_
            · rw [hstep]
              simp [quotedChar, afterRead, heof, hcreturn, hlf, hquote]
            · exact h.content (h.holds.of_eq rfl rfl rfl rfl rfl)
                (by rw [h.f]) hquoted rfl (by simp)

end Quoted

section Unquoted

variable {sep : Byte} {s : Reader} {σ : Scan} {l : Layout} {b : Byte}
  {rest : Bytes}

/-- The first byte of a record, or of the text. -/
theorem answer_atStart
    {first : Bool}
    (ih : AnswersUpTo sep rest.length)
    (hstream : s.stream_i = IStream.ofBytes (b :: rest))
    (h : s.Reads σ l)
    (hmode : σ.mode = .start first)
    (hat : s.AtMode (.start first)) :
    (loop sep s).mapError StdException.kind =
      (Scan.scanFrom sep (Scan.atStart sep first σ b) rest).answer := by
  have hgood := IStream.good_of_eq hstream
  obtain ⟨hquoted, hlast, hheader, hf⟩ := id hat
  have hskips : (s.afterRead b rest).skipsChar ↔ first = true ∧ Scan.skipped b := by
    refine ((h.holds.afterRead b rest).skipsChar_iff).trans (and_congr_left' ?_)
    rw [← hheader]
    exact ⟨fun hs => hs.1, fun hs => ⟨hs, hlast⟩⟩
  by_cases hskip : first = true ∧ Scan.skipped b
  · rw [Scan.atStart, if_pos hskip]
    refine answer_of_next (l := l) (s.afterRead b rest) ih le_rfl hgood
      (by rw [step_cons sep hstream, if_pos (hskips.mpr hskip)]) rfl ?_
    exact ⟨h.run, h.holds.afterRead b rest, h.f, by rw [hmode]; exact hat⟩
  · have hstep := step_cons sep hstream
    rw [if_neg (mt hskips.mp hskip), if_neg (by simp [hquoted])] at hstep
    rw [Scan.atStart, if_neg hskip]
    by_cases hend : Scan.endsRecord b
    · rw [if_pos hend] at hstep ⊢
      exact answer_emptyLine hstream h hlast hstep
    · rw [if_neg hend] at hstep ⊢
      by_cases hquote : b = Byte.quote
      · rw [if_pos hquote] at hstep ⊢
        refine answer_openQuote ih hstream h ?_ (hstep.trans ?_)
        · rw [← hheader]
          exact ⟨fun hs => ⟨hs, hlast⟩, fun hs => hs.1⟩
        · simp [quoteChar, afterRead, hlast]
      · rw [if_neg hquote] at hstep ⊢
        by_cases hsep : b = sep
        · rw [if_pos hsep] at hstep ⊢
          exact answer_closeField ih hstream h hquoted hstep
        · rw [if_neg hsep] at hstep ⊢
          exact answer_push ih hstream h hquoted hstep

/-- The first byte behind a separator. -/
theorem answer_atField
    (ih : AnswersUpTo sep rest.length)
    (hstream : s.stream_i = IStream.ofBytes (b :: rest))
    (h : s.Reads σ l)
    (hat : s.AtMode .afterSep) :
    (loop sep s).mapError StdException.kind =
      (Scan.scanFrom sep (Scan.atField sep σ b) rest).answer := by
  obtain ⟨hquoted, hlast, hf⟩ := hat
  have hskips : ¬ (s.afterRead b rest).skipsChar := by
    rw [(h.holds.afterRead b rest).skipsChar_iff]
    simp [afterRead, hlast]
  have hstep := step_cons sep hstream
  rw [if_neg hskips, if_neg (by simp [hquoted])] at hstep
  unfold Scan.atField
  by_cases hend : Scan.endsRecord b
  · rw [if_pos hend] at hstep ⊢
    exact answer_closeRecord ih hstream h hquoted (.inr (.inr hlast)) hstep
  · rw [if_neg hend] at hstep ⊢
    by_cases hquote : b = Byte.quote
    · rw [if_pos hquote] at hstep ⊢
      refine answer_openQuote ih hstream h (by simp [hlast]) (hstep.trans ?_)
      simp [quoteChar, afterRead, hlast]
    · rw [if_neg hquote] at hstep ⊢
      by_cases hsep : b = sep
      · rw [if_pos hsep] at hstep ⊢
        exact answer_closeField ih hstream h hquoted hstep
      · rw [if_neg hsep] at hstep ⊢
        exact answer_push ih hstream h hquoted hstep

/-- A later byte of a field that is not in quotes. -/
theorem answer_inField
    (ih : AnswersUpTo sep rest.length)
    (hstream : s.stream_i = IStream.ofBytes (b :: rest))
    (h : s.Reads σ l)
    (hquoted : s.quoted = false)
    (hlast : s.last = .fieldData ∨ s.last = .endQuote ∧ b ≠ Byte.quote) :
    (loop sep s).mapError StdException.kind =
      (Scan.scanFrom sep (Scan.inField sep σ b) rest).answer := by
  have hskips : ¬ (s.afterRead b rest).skipsChar := by
    rw [(h.holds.afterRead b rest).skipsChar_iff]
    rcases hlast with hlast | ⟨hlast, -⟩ <;> simp [afterRead, hlast]
  have hstep := step_cons sep hstream
  rw [if_neg hskips, if_neg (by simp [hquoted])] at hstep
  unfold Scan.inField
  by_cases hend : Scan.endsRecord b
  · rw [if_pos hend] at hstep ⊢
    refine answer_closeRecord ih hstream h hquoted ?_ hstep
    rcases hlast with hlast | ⟨hlast, -⟩
    · exact .inr (.inl hlast)
    · exact .inl hlast
  · rw [if_neg hend] at hstep ⊢
    by_cases hquote : b = Byte.quote
    · have hlast : s.last = .fieldData :=
        hlast.resolve_right fun hs => hs.2 hquote
      rw [if_pos hquote] at hstep
      rw [if_neg (by simp [hquote])]
      refine answer_push ih hstream h hquoted (hstep.trans ?_)
      simp [quoteChar, afterRead, hlast]
    · rw [if_neg hquote] at hstep
      by_cases hsep : b = sep
      · rw [if_pos hsep] at hstep
        rw [if_pos ⟨hsep, hquote⟩]
        exact answer_closeField ih hstream h hquoted hstep
      · rw [if_neg hsep] at hstep
        rw [if_neg fun hs => hsep hs.1]
        exact answer_push ih hstream h hquoted hstep

end Unquoted

section Main

variable {sep : Byte} {s : Reader} {σ : Scan} {l : Layout}

/-- One iteration on a byte of the data, in any mode. -/
theorem answer_cons
    {b : Byte} {rest : Bytes}
    (ih : AnswersUpTo sep rest.length)
    (hstream : s.stream_i = IStream.ofBytes (b :: rest))
    (h : s.Reads σ l) :
    (loop sep s).mapError StdException.kind =
      (Scan.scanFrom sep σ (b :: rest)).answer := by
  have hat := h.atMode
  rw [Scan.scanFrom_cons, Scan.step]
  cases hmode : σ.mode with
  | start first =>
      rw [hmode] at hat
      exact answer_atStart ih hstream h hmode hat
  | afterCr =>
      rw [hmode] at hat
      obtain ⟨hquoted, hlast, hheader, hf, hhead⟩ := hat
      have hlf : ¬ b = Byte.lf := by
        intro hb
        simp [hstream, hb] at hhead
      simp only [if_neg hlf]
      exact answer_atStart ih hstream
        ⟨h.run, h.holds, h.f, hquoted, hlast, hheader, hf⟩ rfl
        ⟨hquoted, hlast, hheader, hf⟩
  | emptyLine cr =>
      rw [hmode] at hat
      exact hat.elim
  | afterSep =>
      rw [hmode] at hat
      exact answer_atField ih hstream h hat
  | bare =>
      rw [hmode] at hat
      exact answer_inField ih hstream h hat.1 (.inl hat.2)
  | quoted fresh cr =>
      exact answer_inQuotes ih hstream h hmode
  | quoteSeen =>
      rw [hmode] at hat
      obtain ⟨hquoted, hlast, -, hhead⟩ := hat
      have hquote : ¬ b = Byte.quote := by
        intro hb
        simp [hstream, hb] at hhead
      simp only [Scan.afterQuote, if_neg hquote]
      exact answer_inField ih hstream h hquoted (.inr ⟨hlast, hquote⟩)

/-- The iteration that reads the end of the data. -/
theorem step_nil
    (sep : Byte)
    (hstream : s.stream_i = IStream.ofBytes []) :
    step sep s =
      if s.quoted then s.afterEof.quotedChar else s.afterEof.endOfRecord := by
  have hskips : ¬ s.afterEof.skipsChar := by
    simp [skipsChar, afterEof]
  rw [step, nextChar_nil hstream]
  simp only [if_neg hskips]
  rfl

/-- The last field is stored when the end of the data ends its record. -/
theorem answer_lastField
    (hstream : s.stream_i = IStream.ofBytes [])
    (h : s.Reads σ l)
    (hquoted : s.quoted = false)
    (hlast : s.last = .fieldData ∨ s.last = .separator) :
    (loop sep s).mapError StdException.kind =
      (l.accept (.record σ.f)).map Layout.table := by
  have hgood := IStream.good_of_eq hstream
  have hswallow : s.afterEof.swallowNewline = s.afterEof := by
    have hne : ¬ Byte.eof = Byte.cr := by decide
    simp [swallowNewline, afterEof, hne]
  have hstep := step_nil sep hstream
  rw [if_neg (by simp [hquoted]),
    endOfRecord_of_begun (s := s.afterEof) (.inr hlast), hswallow] at hstep
  have hholds := h.holds.afterEof
  have hf : s.afterEof.f = σ.f := h.f
  cases hacc : l.accept (.record σ.f) with
  | error k =>
      rw [← hf] at hacc
      obtain ⟨what, hthrow⟩ := hholds.recordReady_error hacc
      rw [hthrow] at hstep
      rw [loop_error hgood hstep]
      rfl
  | ok l' =>
      rw [← hf] at hacc
      obtain ⟨s₂, hready, hholds₂, hstream₂, -⟩ := hholds.recordReady_ok hacc
      rw [hready] at hstep
      rw [loop_next hgood hstep, loop_not_good]
      · exact congrArg Except.ok hholds₂.table
      · change s₂.stream_i.good = false
        rw [hstream₂]
        rfl

/-- The end of the data. -/
theorem answer_nil
    (hstream : s.stream_i = IStream.ofBytes [])
    (h : s.Reads σ l) :
    (loop sep s).mapError StdException.kind = σ.answer := by
  have hgood := IStream.good_of_eq hstream
  have hstep := step_nil sep hstream
  have hat := h.atMode
  -- behind the end of a record the reading is done
  have hempty
      (hquoted : s.quoted = false) (hlast : s.last = .startOfRecord) :
      (loop sep s).mapError StdException.kind = .ok l.table := by
    have hne : ¬ Byte.eof = Byte.cr := by decide
    rw [if_neg (by simp [hquoted]),
      endOfRecord_of_empty (s := s.afterEof) hlast] at hstep
    rw [loop_done (t := l.table) hgood]
    · rfl
    · rw [hstep]
      simp [swallowNewline, afterEof, hne, IStream.peek, IStream.good,
        h.holds.table]
  rw [Scan.answer_of_run h.run]
  cases hmode : σ.mode with
  | start first =>
      rw [hmode] at hat
      simp only [Scan.finish, hmode]
      exact hempty hat.1 hat.2.1
  | afterCr =>
      rw [hmode] at hat
      simp only [Scan.finish, hmode]
      exact hempty hat.1 hat.2.1
  | emptyLine cr =>
      rw [hmode] at hat
      exact hat.elim
  | afterSep =>
      rw [hmode] at hat
      simp only [Scan.finish, hmode]
      exact answer_lastField hstream h hat.1 (.inr hat.2.1)
  | bare =>
      rw [hmode] at hat
      simp only [Scan.finish, hmode]
      exact answer_lastField hstream h hat.1 (.inl hat.2)
  | quoted fresh cr =>
      rw [hmode] at hat
      obtain ⟨hquoted, -, hcr⟩ := hat
      have hcr : ¬ cr = true := fun hc => (hcr hc).2 (by rw [hstream]; rfl)
      simp only [Scan.finish, hmode, if_neg hcr]
      have hthrow :
          step sep s =
            s.afterEof.runtimeError
              "Encountered EOF while reading quoted field" := by
        rw [hstep, if_pos hquoted]
        rfl
      rw [loop_error hgood hthrow]
      rfl
  | quoteSeen =>
      rw [hmode] at hat
      exact absurd (by rw [hstream]; rfl) hat.2.2.1

/-- The loop answers like the scanner, from every head of the loop. -/
theorem answersUpTo
    (sep : Byte) (n : Nat) :
    AnswersUpTo sep n := by
  induction n with
  | zero =>
      intro text s σ l hlen hstream h
      obtain rfl : text = [] := List.length_eq_zero_iff.mp (Nat.le_zero.mp hlen)
      exact answer_nil hstream h
  | succ n ih =>
      intro text s σ l hlen hstream h
      cases text with
      | nil =>
          exact answer_nil hstream h
      | cons b rest =>
          have hrest : rest.length ≤ n := Nat.le_of_succ_le_succ hlen
          refine answer_cons ?_ hstream h
          intro text' s' σ' l' hlen'
          exact ih text' s' σ' l' (hlen'.trans hrest)

end Main

end Reader

/-- **`readCSV` refines the scanner**: on every input and for every separator it
returns the table of the scanned layout, or throws an exception of the class the
scan calls for. -/
theorem readCSV_eq_answer
    (text : Bytes) (sep : Byte) :
    (readCSV text sep).mapError StdException.kind = (scan sep text).answer := by
  refine Reader.answersUpTo sep text.length text _ Scan.init Layout.empty le_rfl
    rfl ?_
  exact ⟨rfl, Reader.holds_init _, rfl, rfl, rfl, rfl, rfl⟩

end Bren
end Brenlib
