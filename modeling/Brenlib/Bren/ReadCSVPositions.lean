import Mathlib.Data.List.DropRight
import Brenlib.Bren.ReadCSVBounds

/-!
# Where `readCSV` finds an error

The messages of `readCSV` start with a line and a character.  The lines are counted by their
ends, where `\r\n` is one, and so is a byte that the reader takes for `EOF`.  The characters
are those of the line that have been read; in the first line there is one more, since `pos`
starts at 1 there and at 0 in the other lines.

**Results.**
* `lineEnds`, `charsBefore`: the numbers for a text that has been read.
* `step_position`: what an iteration does to the variables that count.
* `readCSV_error_position`: a message names the place at which the reading has stopped.
-/

namespace Brenlib
namespace Bren

open Loops

section Lines

/-- A byte that can end a line. -/
def endsLine (c : Byte) : Bool :=
  c = Byte.cr || c = Byte.lf || c = Byte.eof

/-- The line ends of a text behind the byte `prev`. -/
def lineEndsFrom (prev : Byte) : Bytes → Nat
  | [] => 0
  | c :: rest =>
      (if endsLine c ∧ ¬ (prev = Byte.cr ∧ c = Byte.lf) then 1 else 0) + lineEndsFrom c rest

/-- The line ends of a text. -/
def lineEnds (text : Bytes) : Nat :=
  lineEndsFrom 0 text

/-- The last line of a text, which has not ended yet. -/
def lastLine (text : Bytes) : Bytes :=
  text.rtakeWhile (!endsLine ·)

/-- The value of `pos` behind a text. -/
def charsBefore (text : Bytes) : Nat :=
  (lastLine text).length + if lineEnds text = 0 then 1 else 0

variable {text : Bytes} {c prev : Byte}

theorem lineEndsFrom_append
    (text text' : Bytes) :
    lineEndsFrom prev (text ++ text') =
      lineEndsFrom prev text + lineEndsFrom (text.getLastD prev) text' := by
  induction text generalizing prev with
  | nil =>
      rw [List.nil_append, lineEndsFrom, Nat.zero_add]
      rfl
  | cons c text ih =>
      rw [List.cons_append, lineEndsFrom, lineEndsFrom, ih, List.getLastD_cons, Nat.add_assoc]

/-- A byte that is not the second half of a line end. -/
theorem lineEnds_concat
    (hwhole : text.getLastD 0 = Byte.cr → c ≠ Byte.lf) :
    lineEnds (text ++ [c]) = lineEnds text + if endsLine c then 1 else 0 := by
  rw [lineEnds, lineEndsFrom_append, lineEndsFrom, lineEndsFrom, Nat.add_zero]
  by_cases hc : endsLine c = true
  · rw [if_pos hc, if_pos ⟨hc, fun h => hwhole h.1 h.2⟩]
    rfl
  · rw [if_neg hc, if_neg fun h => hc h.1]
    rfl

/-- `\r\n` is one line end. -/
theorem lineEnds_newline
    (text : Bytes) :
    lineEnds (text ++ [Byte.cr, Byte.lf]) = lineEnds text + 1 := by
  rw [lineEnds, lineEndsFrom_append, lineEndsFrom, lineEndsFrom, lineEndsFrom,
    if_pos ⟨by decide, fun h => absurd h.2 (by decide)⟩,
    if_neg fun h => h.2 ⟨rfl, rfl⟩]
  rfl

theorem charsBefore_concat
    (hwhole : text.getLastD 0 = Byte.cr → c ≠ Byte.lf)
    (hc : endsLine c = false) :
    lineEnds (text ++ [c]) = lineEnds text ∧ charsBefore (text ++ [c]) = charsBefore text + 1 := by
  have hlines : lineEnds (text ++ [c]) = lineEnds text := by
    rw [lineEnds_concat hwhole, hc]
    rfl
  refine ⟨hlines, ?_⟩
  have hlast : lastLine (text ++ [c]) = lastLine text ++ [c] := by
    rw [lastLine, List.rtakeWhile_concat, if_pos (by rw [hc]; rfl)]
    rfl
  rw [charsBefore, hlast, hlines, List.length_append, List.length_singleton, charsBefore]
  omega

/-- Behind a line end the characters are counted anew. -/
theorem charsBefore_of_end
    (hpos : lineEnds (text ++ [c]) ≠ 0)
    (hc : endsLine c = true) :
    charsBefore (text ++ [c]) = 0 := by
  rw [charsBefore, if_neg hpos, lastLine, List.rtakeWhile_concat, if_neg (by rw [hc]; decide)]
  rfl

end Lines

namespace Reader

/-- The variables within an iteration that has read `char` behind `read`. -/
structure Reading (text read char : Bytes) (s : Reader) : Prop where
  text_eq : text = read ++ (char ++ s.stream_i.data)
  line_eq : s.line = lineEnds read + 1
  pos_eq : s.pos = charsBefore read + char.length
  whole : read.getLastD 0 = Byte.cr → (char ++ s.stream_i.data).head? ≠ some Byte.lf

/-- What the `char`s of an end of line are, in front of `rest`. -/
inductive LineEnd : Bytes → Bytes → Prop
  | one
      {c : Byte} {rest : Bytes}
      (hc : endsLine c = true)
      (hrest : c = Byte.cr → rest.head? ≠ some Byte.lf) :
      LineEnd [c] rest
  | two
      {rest : Bytes} :
      LineEnd [Byte.cr, Byte.lf] rest

/-- What an iteration has read when it throws: nothing at the end of the text, the two `char`s
of `\r\n`, or one that does not begin `\r\n`. -/
inductive Fault : Bytes → Bytes → Prop
  | eof : Fault [] []
  | one
      {c : Byte} {rest : Bytes}
      (hrest : c = Byte.cr → rest.head? ≠ some Byte.lf) :
      Fault [c] rest
  | two
      {rest : Bytes} :
      Fault [Byte.cr, Byte.lf] rest

/-- A message that names the line and the character that has been read behind `read`. -/
def Located (text read : Bytes) (e : StdException) : Prop :=
  ∃ char rest message,
    text = read ++ (char ++ rest) ∧ Fault char rest ∧
    e.what = s!"Error at line {lineEnds read + 1}, character {charsBefore read + char.length}: " ++
      message

section Readings

variable {text read char : Bytes} {c : Byte} {s s' : Reader}

theorem reading_init
    (text : Bytes) :
    Reading text [] [] (init (IStream.ofBytes text)) where
  text_eq := rfl
  line_eq := rfl
  pos_eq := rfl
  whole := fun h => absurd h (by decide)

/-- One more `char` of the stream. -/
theorem Reading.fetch
    {rest : Bytes}
    (h : Reading text read [] s)
    (hdata : s.stream_i.data = c :: rest)
    (hrest : s'.stream_i.data = rest)
    (hline : s'.line = s.line)
    (hpos : s'.pos = s.pos + 1) :
    Reading text read [c] s' where
  text_eq := by
    rw [hrest, h.text_eq, hdata]
    rfl
  line_eq := hline.trans h.line_eq
  pos_eq := by
    rw [hpos, h.pos_eq]
    rfl
  whole := by
    rw [hrest]
    have hwhole := h.whole
    rwa [hdata] at hwhole

/-- The next iteration, behind a `char` that ends no line. -/
theorem Reading.plain
    (h : Reading text read [c] s)
    (hc : endsLine c = false)
    (hdata : s'.stream_i.data = s.stream_i.data)
    (hline : s'.line = s.line)
    (hpos : s'.pos = s.pos) :
    Reading text (read ++ [c]) [] s' := by
  obtain ⟨hlines, hchars⟩ := charsBefore_concat
    (fun hcr hlf => h.whole hcr (congrArg some hlf)) hc
  refine ⟨?_, ?_, ?_, fun hcr => ?_⟩
  · rw [hdata, h.text_eq, List.append_assoc]
    rfl
  · rw [hline, h.line_eq, hlines]
  · rw [hpos, h.pos_eq, hchars]
    rfl
  · rw [List.getLastD_concat] at hcr
    rw [hcr] at hc
    cases hc

/-- The next iteration, behind an end of line. -/
theorem Reading.lineEnd
    (h : Reading text read char s)
    (hend : LineEnd char s.stream_i.data)
    (hdata : s'.stream_i.data = s.stream_i.data)
    (hline : s'.line = s.line + 1)
    (hpos : s'.pos = 0) :
    Reading text (read ++ char) [] s' := by
  have htext : text = read ++ char ++ ([] ++ s'.stream_i.data) := by
    rw [hdata, h.text_eq, List.append_assoc]
    rfl
  generalize s.stream_i.data = data at hend hdata
  cases hend with
  | @one c rest hc hrest =>
      have hlines : lineEnds (read ++ [c]) = lineEnds read + 1 := by
        rw [lineEnds_concat fun hcr hlf => h.whole hcr (congrArg some hlf), if_pos hc]
      refine ⟨htext, ?_, ?_, fun hcr => ?_⟩
      · rw [hline, h.line_eq, hlines]
      · rw [hpos, charsBefore_of_end (by omega) hc]
        rfl
      · rw [hdata]
        rw [List.getLastD_concat] at hcr
        exact hrest hcr
  | @two rest =>
      have hlines := lineEnds_newline read
      have hsplit : read ++ [Byte.cr, Byte.lf] = (read ++ [Byte.cr]) ++ [Byte.lf] := by
        rw [List.append_assoc]
        rfl
      refine ⟨htext, ?_, ?_, fun hcr => ?_⟩
      · rw [hline, h.line_eq, hlines]
      · rw [hsplit] at hlines ⊢
        rw [hpos, charsBefore_of_end (by omega) (by decide)]
        rfl
      · rw [hsplit, List.getLastD_concat] at hcr
        exact absurd hcr (by decide)

/-- The head of an iteration: a `char` has been read, or there is none. -/
def Fetched (text read char : Bytes) (s : Reader) : Prop :=
  Reading text read char s ∧
    (char = [s.c] ∧ s.stream_i.good = true ∨
      char = [] ∧ s.c = Byte.eof ∧ s.stream_i.data = [] ∧ s.stream_i.good = false)

theorem Reading.nextChar
    (h : Reading text read [] s)
    (hgood : s.stream_i.good = true) :
    ∃ char, Fetched text read char s.nextChar := by
  have hstream := IStream.eq_ofBytes hgood
  cases hdata : s.stream_i.data with
  | nil =>
      rw [hdata] at hstream
      rw [nextChar_nil hstream]
      refine ⟨[], ⟨?_, h.line_eq, h.pos_eq, fun _ => (Option.some_ne_none _).symm⟩, ?_⟩
      · rw [h.text_eq, hdata]
        rfl
      · exact .inr ⟨rfl, rfl, rfl, rfl⟩
  | cons b rest =>
      rw [hdata] at hstream
      rw [nextChar_cons hstream]
      exact ⟨[b], h.fetch hdata rfl rfl rfl, .inl ⟨rfl, rfl⟩⟩

theorem err_eq
    {line pos : Nat}
    (hline : s.line = line)
    (hpos : s.pos = pos)
    (message : String) :
    s.err message = s!"Error at line {line}, character {pos}: " ++ message := by
  subst hline hpos
  rfl

theorem Reading.located
    {message : String} {kind : ExceptionClass}
    (h : Reading text read char s)
    (hfault : Fault char s.stream_i.data) :
    Located text read ⟨kind, s.err message⟩ :=
  ⟨char, s.stream_i.data, message, h.text_eq, hfault, err_eq h.line_eq h.pos_eq message⟩

theorem Fetched.fault
    (h : Fetched text read char s)
    (hcr : s.c ≠ Byte.cr) :
    Fault char s.stream_i.data := by
  obtain ⟨-, ⟨rfl, -⟩ | ⟨rfl, -, hdata, -⟩⟩ := h
  · exact .one fun h => absurd h hcr
  · rw [hdata]
    exact .eof

theorem LineEnd.fault
    {rest : Bytes}
    (h : LineEnd char rest) :
    Fault char rest := by
  cases h with
  | one hc hrest => exact .one hrest
  | two => exact .two

/-- The stream behind a peek has the same bytes in front of it. -/
theorem data_peek
    (stream : IStream) :
    stream.peek.2.data = stream.data := by
  unfold IStream.peek
  split
  · split <;> rfl
  · rfl

theorem peek_eq_head?
    {stream : IStream}
    (hgood : stream.good = true) :
    stream.peek.1 = stream.data.head? := by
  rw [IStream.eq_ofBytes hgood]
  cases stream.data <;> rfl

/-- Behind `\r` the reader looks for `\n`. -/
theorem swallowNewline_cases
    (hgood : s.stream_i.good = true)
    (hcr : s.c = Byte.cr) :
    (s.stream_i.data.head? ≠ some Byte.lf ∧
      s.swallowNewline = { s with stream_i := s.stream_i.peek.2 }) ∨
    ∃ rest, s.stream_i.data = Byte.lf :: rest ∧
      s.swallowNewline =
        { s with c := Byte.lf, stream_i := IStream.ofBytes rest, pos := s.pos + 1 } := by
  by_cases hlf : s.stream_i.data.head? = some Byte.lf
  · obtain ⟨rest, hdata⟩ := List.head?_eq_some_iff.mp hlf
    have hstream := IStream.eq_ofBytes hgood
    rw [hdata] at hstream
    exact .inr ⟨rest, hdata, by simp [Reader.swallowNewline, hcr, hstream, readChar]⟩
  · refine .inl ⟨hlf, ?_⟩
    simp only [Reader.swallowNewline, if_pos hcr, peek_eq_head? hgood, if_neg hlf]

/-- Inside quotes the reader looks for `\n` in the same way. -/
theorem keepNewline_eq
    (s : Reader) :
    s.keepNewline.stream_i = s.swallowNewline.stream_i ∧ s.keepNewline.line = s.line := by
  unfold keepNewline swallowNewline
  split_ifs
  · simp only
    split <;> exact ⟨rfl, rfl⟩
  · exact ⟨rfl, rfl⟩

/-- The rest of an end of line has been read. -/
theorem Reading.swallowNewline
    (h : Reading text read [s.c] s)
    (hgood : s.stream_i.good = true)
    (hc : endsLine s.c = true) :
    ∃ char, Reading text read char s.swallowNewline ∧
      LineEnd char s.swallowNewline.stream_i.data := by
  by_cases hcr : s.c = Byte.cr
  · obtain ⟨hhead, hs⟩ | ⟨rest, hdata, hs⟩ := swallowNewline_cases hgood hcr
    · rw [hs]
      refine ⟨[s.c], ⟨?_, h.line_eq, h.pos_eq, ?_⟩, .one hc fun _ => ?_⟩
      · rw [data_peek]
        exact h.text_eq
      · rw [data_peek]
        exact h.whole
      · rw [data_peek]
        exact hhead
    · rw [hs]
      refine ⟨[Byte.cr, Byte.lf], ⟨?_, h.line_eq, ?_, ?_⟩, .two⟩
      · rw [h.text_eq, hdata, hcr]
        rfl
      · rw [h.pos_eq]
        rfl
      · intro _ hhead
        exact absurd (Option.some.inj hhead) (by decide)
  · refine ⟨[s.c], ?_, .one hc fun heq => absurd heq hcr⟩
    rwa [Reader.swallowNewline, if_neg hcr]

end Readings

/-- A method that throws no `std::runtime_error`. -/
def NotRuntime {σ α : Type} (x : EStateM StdException σ α) : Prop :=
  ∀ s e s', x.run s = .error e s' → e.kind ≠ .runtimeError

section Kinds

variable {σ α β : Type} {x : EStateM StdException σ α}

theorem NotRuntime.pure
    (a : α) :
    NotRuntime (Pure.pure a : EStateM StdException σ α) :=
  fun _ _ _ h => by cases h

theorem NotRuntime.bind
    {f : α → EStateM StdException σ β}
    (hx : NotRuntime x)
    (hf : ∀ a, NotRuntime (f a)) :
    NotRuntime (x >>= f) := by
  intro s e s' h
  cases hrun : x.run s with
  | ok a t => exact hf a t e s' ((run_bind_ok hrun f).symm.trans h)
  | error e' t =>
      cases (run_bind_error hrun f).symm.trans h
      exact hx s _ _ hrun

theorem NotRuntime.get :
    NotRuntime (MonadState.get : EStateM StdException σ σ) :=
  fun _ _ _ h => by cases h

theorem NotRuntime.set
    (t : σ) :
    NotRuntime (MonadState.set t : EStateM StdException σ Unit) :=
  fun _ _ _ h => by cases h

theorem NotRuntime.throw
    {kind : ExceptionClass} (hkind : kind ≠ .runtimeError) (what : String) :
    NotRuntime (MonadExcept.throw ⟨kind, what⟩ : EStateM StdException σ α) :=
  fun _ _ _ h => by cases h; exact hkind

theorem NotRuntime.ite
    {cond : Prop} [Decidable cond] {y : EStateM StdException σ α}
    (hx : NotRuntime x)
    (hy : NotRuntime y) :
    NotRuntime (if cond then x else y) := by
  split
  · exact hx
  · exact hy

/-- `if (cond) throw kind(what)` in front of `y`. -/
theorem NotRuntime.check
    {cond : Prop} [Decidable cond] {kind : ExceptionClass} {what : String}
    {y : EStateM StdException σ α}
    (hkind : kind ≠ .runtimeError)
    (hy : NotRuntime y) :
    NotRuntime (if cond then do
      let _ : PUnit ← MonadExcept.throw ⟨kind, what⟩
      y else y) :=
  .ite (.bind (.throw hkind what) fun _ => hy) hy

variable {T : Type} [Inhabited T]

theorem notRuntime_setRows
    (rows : UInt32) :
    NotRuntime (Table.setRows rows : EStateM StdException (Table T) Unit) := by
  unfold Table.setRows
  exact .bind .get fun t => .check (by decide) (.set _)

omit [Inhabited T] in
theorem notRuntime_at
    (pos : UInt32) :
    NotRuntime (Table.at_ pos : EStateM StdException (Table T) Nat) := by
  unfold Table.at_
  exact .bind .get fun t => .ite (.throw (by decide) _) (.pure _)

theorem notRuntime_cell
    (column : UInt16) (row : UInt32) :
    NotRuntime (Table.cell column row : EStateM StdException (Table T) Nat) := by
  unfold Table.cell
  have hend (t : Table T) : NotRuntime (do
      if t.rows ≤ row then
        Table.setRows (row + 1)
      Table.at_ (row * t.cols_.toUInt32 + column.toUInt32)) :=
    .ite (.bind (notRuntime_setRows (T := T) _) fun _ => notRuntime_at _) (notRuntime_at _)
  exact .bind .get fun t => .check (by decide) (.check (by decide) (hend t))

theorem notRuntime_assign
    (column : UInt16) (row : UInt32) (value : T) :
    NotRuntime (Table.assign column row value) := by
  unfold Table.assign
  exact .bind (notRuntime_cell column row) fun _ _ _ _ h => by cases h

theorem notRuntime_makeHeader
    (fields : List Bytes) :
    NotRuntime (makeHeader fields) := by
  have hstore (col : UInt16) : NotRuntime (storeHeader col fields) := by
    induction fields generalizing col with
    | nil => exact .pure ()
    | cons field rest ih => exact .bind (notRuntime_assign _ _ _) fun _ => ih (col + 1)
  unfold makeHeader Table.setColumns
  refine .bind ?_ fun _ => hstore 0
  exact .bind .get fun t => .check (by decide) (.check (by decide) (.set _))

theorem kind_of_outcome
    {s : σ} {e : StdException}
    (hx : NotRuntime x)
    (h : outcome (x.run s) = .error e) :
    e.kind ≠ .runtimeError := by
  cases hrun : x.run s with
  | ok a t =>
      rw [hrun] at h
      cases h
  | error e' t =>
      rw [hrun] at h
      cases h
      exact hx s _ t hrun

end Kinds

section Branches

/-- A computation that continues another one throws exactly when one of the parts does. -/
theorem bind_eq_error
    {α β : Type} {x : Except StdException α} {f : α → Except StdException β} {e : StdException} :
    (x >>= f) = .error e ↔ x = .error e ∨ ∃ a, x = .ok a ∧ f a = .error e := by
  cases x <;> simp [bind, Except.bind]

variable {text read char : Bytes} {s s' : Reader} {e : StdException}

theorem fieldReady_ok
    (h : s.fieldReady = .ok s') :
    s'.line = s.line ∧ s'.pos = s.pos := by
  unfold fieldReady at h
  split at h
  · cases h
    exact ⟨rfl, rfl⟩
  · obtain ⟨t, -, ht⟩ := bind_eq_ok.mp h
    cases ht
    exact ⟨rfl, rfl⟩

theorem fieldReady_kind
    (h : s.fieldReady = .error e) :
    e.kind ≠ .runtimeError := by
  unfold fieldReady at h
  split at h
  · cases h
  · obtain hthrow | ⟨t, -, ht⟩ := bind_eq_error.mp h
    · exact kind_of_outcome (notRuntime_assign _ _ _) hthrow
    · cases ht

theorem headerReady_ok
    (h : s.headerReady = .ok s') :
    s'.line = s.line := by
  unfold headerReady at h
  split at h
  · cases h
  split at h
  · cases h
  · obtain ⟨t, -, ht⟩ := bind_eq_ok.mp h
    cases ht
    rfl

theorem headerReady_message
    (h : s.headerReady = .error e)
    (hkind : e.kind = .runtimeError) :
    ∃ message, e = ⟨.runtimeError, s.err message⟩ := by
  unfold headerReady at h
  split_ifs at h
  · cases h
    exact ⟨_, rfl⟩
  · cases h
    cases hkind
  · obtain hthrow | ⟨t, -, ht⟩ := bind_eq_error.mp h
    · exact absurd hkind (kind_of_outcome (notRuntime_makeHeader _) hthrow)
    · cases ht

theorem dataReady_ok
    (h : s.dataReady = .ok s') :
    s'.line = s.line := by
  unfold dataReady at h
  split_ifs at h <;> cases h
  rfl

theorem dataReady_message
    (h : s.dataReady = .error e) :
    ∃ message, e = ⟨.runtimeError, s.err message⟩ := by
  unfold dataReady at h
  split_ifs at h <;> cases h <;> exact ⟨_, rfl⟩

theorem err_congr
    (hline : s'.line = s.line)
    (hpos : s'.pos = s.pos) :
    s'.err = s.err := by
  funext message
  exact err_eq hline hpos message

theorem recordReady_line
    (h : s.recordReady = .ok s') :
    s'.line = s.line := by
  obtain ⟨s₁, h₁, h₂⟩ := bind_eq_ok.mp h
  rw [← (fieldReady_ok h₁).1]
  split at h₂
  · exact headerReady_ok h₂
  · exact dataReady_ok h₂

theorem recordReady_message
    (h : s.recordReady = .error e)
    (hkind : e.kind = .runtimeError) :
    ∃ message, e = ⟨.runtimeError, s.err message⟩ := by
  obtain h₁ | ⟨s₁, h₁, h₂⟩ := bind_eq_error.mp h
  · exact absurd hkind (fieldReady_kind h₁)
  · obtain ⟨hline, hpos⟩ := fieldReady_ok h₁
    rw [← err_congr hline hpos]
    split at h₂
    · exact headerReady_message h₂ hkind
    · exact dataReady_message h₂

/-- What an iteration that starts behind `read` leaves: the next one starts at a known place
too, and a message names the place of this one. -/
inductive Placed (text read : Bytes) : Except StdException Flow → Prop
  | next
      {s : Reader}
      (h : s.stream_i.good = true → ∃ read', Reading text read' [] s) :
      Placed text read (.ok (.next s))
  | done
      {t : Table Bytes} :
      Placed text read (.ok (.done t))
  | error
      {e : StdException}
      (h : e.kind = .runtimeError → Located text read e) :
      Placed text read (.error e)

theorem Fetched.runtimeError
    (h : Fetched text read char s)
    (hcr : s.c ≠ Byte.cr)
    (message : String) :
    Placed text read (s.runtimeError message) :=
  .error fun _ => h.1.located (h.fault hcr)

/-- A `char` that is kept. -/
theorem Fetched.plain
    (h : Fetched text read char s)
    (hc : endsLine s.c = false)
    (hstream : s'.stream_i.data = s.stream_i.data)
    (hline : s'.line = s.line)
    (hpos : s'.pos = s.pos) :
    Placed text read (.ok (.next s')) := by
  obtain ⟨hreading, ⟨rfl, -⟩ | ⟨-, heof, -⟩⟩ := h
  · exact .next fun _ => ⟨_, hreading.plain hc hstream hline hpos⟩
  · rw [heof] at hc
    cases hc

/-- The branch for a `char` of a quoted field. -/
theorem quotedChar_placed
    (h : Fetched text read char s) :
    Placed text read s.quotedChar := by
  unfold quotedChar
  split_ifs with heof hend hquote
  · exact h.runtimeError (by rw [heof]; decide) _
  · obtain ⟨hreading, ⟨rfl, hgood⟩ | ⟨-, hc, -⟩⟩ := h
    · have hc : endsLine s.c = true := by
        obtain hc | hc := hend <;> rw [hc] <;> rfl
      obtain ⟨char, hswallow, hlineEnd⟩ := hreading.swallowNewline hgood hc
      obtain ⟨hstream, hline⟩ := keepNewline_eq s
      refine .next fun _ => ⟨_, hswallow.lineEnd hlineEnd ?_ ?_ rfl⟩
      · exact congrArg IStream.data hstream
      · rw [hswallow.line_eq, ← hreading.line_eq]
        exact congrArg (· + 1) hline
    · exact absurd hc heof
  · have hc : endsLine s.c = false := by
      rw [hquote]
      rfl
    simp only
    split_ifs with hpeek
    · obtain ⟨hreading, ⟨rfl, hgood⟩ | ⟨-, hceof, -⟩⟩ := h
      · rw [peek_eq_head? hgood] at hpeek
        obtain ⟨rest, hdata⟩ := List.head?_eq_some_iff.mp hpeek
        have hstream := IStream.eq_ofBytes hgood
        rw [hdata] at hstream
        -- the second quote is read in the same iteration
        have hfirst : Reading text (read ++ [s.c]) [] s := hreading.plain hc rfl rfl rfl
        have hsecond : Reading text (read ++ [s.c]) [Byte.quote]
            { s with stream_i := IStream.ofBytes rest, pos := s.pos + 1 } :=
          hfirst.fetch hdata rfl rfl rfl
        refine .next fun _ => ⟨_, hsecond.plain rfl ?_ rfl rfl⟩
        simp [readChar, hstream]
      · exact absurd hceof heof
    · exact h.plain hc (data_peek _) rfl rfl
  · exact h.plain (by simp [endsLine, not_or.mp hend, heof]) rfl rfl rfl

/-- The branch for the end of a record. -/
theorem endOfRecord_placed
    (h : Fetched text read char s)
    (hc : endsLine s.c = true) :
    Placed text read s.endOfRecord := by
  -- behind the rest of an end of line
  have hswallow :
      ∃ char', Fault char' s.swallowNewline.stream_i.data ∧
        Reading text read char' s.swallowNewline ∧
        (s.swallowNewline.stream_i.good = true →
          LineEnd char' s.swallowNewline.stream_i.data) := by
    obtain ⟨hreading, ⟨rfl, hgood⟩ | ⟨rfl, heof, hdata, hgood⟩⟩ := h
    · obtain ⟨char', hreading', hlineEnd⟩ := hreading.swallowNewline hgood hc
      exact ⟨char', hlineEnd.fault, hreading', fun _ => hlineEnd⟩
    · have hs : s.swallowNewline = s := by
        rw [swallowNewline, heof]
        rfl
      rw [hs]
      refine ⟨[], ?_, hreading, fun h => ?_⟩
      · rw [hdata]
        exact .eof
      · rw [hgood] at h
        cases h
  obtain ⟨char', hfault, hreading, hlineEnd⟩ := hswallow
  have hrecord (hlast : s.last = .endQuote ∨ s.last = .fieldData ∨ s.last = .separator) :
      Placed text read s.endOfRecord := by
    rw [endOfRecord_of_begun hlast]
    cases hready : s.swallowNewline.recordReady with
    | ok s' =>
        have hstream := recordReady_stream hready
        refine .next fun hgood => ⟨_, hreading.lineEnd (hlineEnd ?_) ?_ ?_ rfl⟩
        · rw [← hstream]
          exact hgood
        · exact congrArg IStream.data hstream
        · exact congrArg (· + 1) (recordReady_line hready)
    | error e =>
        refine .error fun hkind => ?_
        obtain ⟨message, rfl⟩ := recordReady_message hready hkind
        exact hreading.located hfault
  cases hlast : s.last with
  | beginQuote =>
      unfold endOfRecord
      simp only [swallowNewline_last, hlast]
      exact .error fun _ => hreading.located hfault
  | startOfRecord =>
      rw [endOfRecord_of_empty hlast]
      split_ifs
      · exact .error fun _ => hreading.located hfault
      · exact .done
  | endQuote => exact hrecord (.inl hlast)
  | fieldData => exact hrecord (.inr (.inl hlast))
  | separator => exact hrecord (.inr (.inr hlast))

theorem ne_cr_of_plain
    {c : Byte}
    (hc : endsLine c = false) :
    c ≠ Byte.cr := by
  rintro rfl
  cases hc

/-- The branch for an unquoted `"`. -/
theorem quoteChar_placed
    (h : Fetched text read char s)
    (hc : endsLine s.c = false) :
    Placed text read s.quoteChar := by
  unfold quoteChar
  split
  · exact h.runtimeError (ne_cr_of_plain hc) _
  · exact h.runtimeError (ne_cr_of_plain hc) _
  · exact h.plain hc rfl rfl rfl
  · exact h.plain hc rfl rfl rfl
  · exact h.plain hc rfl rfl rfl

/-- The branch for the separator. -/
theorem separatorChar_placed
    (h : Fetched text read char s)
    (hc : endsLine s.c = false) :
    Placed text read s.separatorChar := by
  unfold separatorChar
  cases hready : s.fieldReady with
  | error e =>
      exact .error fun hkind => absurd hkind (fieldReady_kind hready)
  | ok s' =>
      have hdata := congrArg IStream.data (fieldReady_stream hready)
      obtain ⟨hline, hpos⟩ := fieldReady_ok hready
      rw [ok_bind]
      simp only
      split_ifs
      · exact h.plain hc hdata hline hpos
      · refine .error fun _ => ?_
        have herr : ({ s' with last := .separator } : Reader).err = s.err := err_congr hline hpos
        rw [herr]
        exact h.1.located (h.fault (ne_cr_of_plain hc))
      · exact h.plain hc hdata hline hpos

theorem endsLine_of_high
    {c : Byte}
    (hhigh : Byte.isHigh c)
    (heof : c ≠ Byte.eof) :
    endsLine c = false := by
  have hcr : c ≠ Byte.cr := by
    rintro rfl
    exact absurd hhigh (by decide)
  have hlf : c ≠ Byte.lf := by
    rintro rfl
    exact absurd hhigh (by decide)
  simp [endsLine, hcr, hlf, heof]

/-- What an iteration does to the place. -/
theorem step_position
    {sep : Byte}
    (hgood : s.stream_i.good = true)
    (h : Reading text read [] s) :
    Placed text read (step sep s) := by
  obtain ⟨char, hfetched⟩ := h.nextChar hgood
  unfold step
  simp only
  split_ifs with hskip hquoted hend hquote hsep
  · exact hfetched.plain (endsLine_of_high hskip.2.2.2.2.2 hskip.2.2.2.2.1) rfl rfl rfl
  · exact quotedChar_placed hfetched
  · refine endOfRecord_placed hfetched ?_
    obtain hc | hc | hc := hend <;> rw [hc] <;> rfl
  all_goals
    have hc : endsLine s.nextChar.c = false := by
      simpa [endsLine, not_or, and_assoc] using hend
  · exact quoteChar_placed hfetched hc
  · exact separatorChar_placed hfetched hc
  · exact hfetched.plain hc rfl rfl rfl

end Branches

section Result

variable {text : Bytes} {sep : Byte} {s s' : Reader} {e : StdException} {n : Nat}

theorem next_eq_some
    (h : next sep s = some s') :
    s.stream_i.good = true ∧ step sep s = .ok (.next s') := by
  unfold next at h
  split at h
  · rename_i hgood
    split at h
    · rename_i hstep
      cases h
      exact ⟨hgood, hstep⟩
    · cases h
  · cases h

theorem loop_of_iterates
    (h : Iterates (next sep) s n s') :
    loop sep s = loop sep s' := by
  induction h with
  | zero =>
      rfl
  | @succ s t u n hbody hrest ih =>
      obtain ⟨hgood, hstep⟩ := next_eq_some hbody
      rw [loop_next hgood hstep, ih]

/-- An iteration that goes on keeps the line and the character. -/
theorem reading_next
    (h : s.stream_i.good = true → ∃ read, Reading text read [] s)
    (hnext : next sep s = some s')
    (hgood : s'.stream_i.good = true) :
    ∃ read, Reading text read [] s' := by
  obtain ⟨hgood₀, hstep⟩ := next_eq_some hnext
  obtain ⟨read, hreading⟩ := h hgood₀
  have hplaced : Placed text read (step sep s) := step_position hgood₀ hreading
  rw [hstep] at hplaced
  cases hplaced with
  | next h => exact h hgood

/-- At every head of the loop the line and the character belong to what has been read. -/
theorem reading_of_iterates
    (h : Iterates (next sep) (init (IStream.ofBytes text)) n s)
    (hgood : s.stream_i.good = true) :
    ∃ read, Reading text read [] s :=
  h.invariant (fun s => s.stream_i.good = true → ∃ read, Reading text read [] s)
    (fun hplace hnext => reading_next hplace hnext) (fun _ => ⟨[], reading_init text⟩) hgood

/-- A message of `readCSV` names the place at which the iteration that throws has stopped
reading. -/
theorem readCSV_error_position
    (h : readCSV text sep = .error e)
    (hkind : e.kind = .runtimeError) :
    ∃ n s read,
      Iterates (next sep) (init (IStream.ofBytes text)) n s ∧ step sep s = .error e ∧
      text = read ++ s.stream_i.data ∧ Located text read e := by
  obtain ⟨n, s, hiter, hstep⟩ := exists_of_loop_error h
  have hgood : s.stream_i.good = true := by
    by_contra hbad
    have hloop := (loop_of_iterates hiter).symm.trans h
    rw [loop_not_good (Bool.eq_false_iff.mpr hbad)] at hloop
    cases hloop
  obtain ⟨read, hreading⟩ := reading_of_iterates hiter hgood
  have hplaced : Placed text read (step sep s) := step_position hgood hreading
  rw [hstep] at hplaced
  cases hplaced with
  | error hlocated => exact ⟨n, s, read, hiter, hstep, hreading.text_eq, hlocated hkind⟩

/-- The second line is empty: `a\n\nb`. -/
theorem readCSV_error_position_empty_line :
    readCSV [97, 10, 10, 98] 44 =
        .error ⟨.runtimeError, "Error at line 2, character 1: Found empty line"⟩ ∧
      ∃ n s read,
        Iterates (next 44) (init (IStream.ofBytes [97, 10, 10, 98])) n s ∧
        step 44 s =
          .error ⟨.runtimeError, "Error at line 2, character 1: Found empty line"⟩ ∧
        [97, 10, 10, 98] = read ++ s.stream_i.data ∧
        Located [97, 10, 10, 98] read
          ⟨.runtimeError, "Error at line 2, character 1: Found empty line"⟩ := by
  have herror : readCSV [97, 10, 10, 98] 44 =
      .error ⟨.runtimeError, "Error at line 2, character 1: Found empty line"⟩ := by
    rw [readCSV, loop_next rfl rfl, loop_next rfl rfl, loop_error rfl rfl]
    rfl
  exact ⟨herror, readCSV_error_position herror rfl⟩

end Result

end Reader

end Bren
end Brenlib
