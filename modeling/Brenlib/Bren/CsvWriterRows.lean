import Brenlib.Bren.CsvWriterCalls

/-!
# The rows that a `CsvWriter` writes

Rows are ended by `endRow`, and by the writer itself in the middle of a call.  As long
as `endRow` is not called before the first field, the counters of the writer, its output
and the sheet of its history stay in step.

* `output_rectangular`: the output is that of complete rows of one width and of a row
  begun.
* `rejected_unchanged_iff`: a call that throws leaves no trace exactly when its first
  field, or a check ahead of it, is refused.
-/

namespace Brenlib
namespace Bren

open Csv TransitionSystem

namespace CsvWriter

section Rectangular

variable {w : CsvWriter} {sheet : Sheet}

/-- The counters, the output and the sheet are in step, and all rows have one width. -/
structure Rectangular (w : CsvWriter) (sheet : Sheet) : Prop where
  output : w.output = sheet.text w.settings_
  lines : w.lines_ = sheet.rows.length
  column : w.column_ = sheet.current.length
  columns : w.columns_ = 0 ↔ w.lines_ = 0
  width : ∀ row ∈ sheet.rows, row.length = w.columns_
  column_lt : w.lines_ ≠ 0 → w.column_ < w.columns_

theorem Rectangular.open
    (h : Rectangular w sheet) :
    w.Open := by
  by_cases hzero : w.columns_ = 0
  · exact .inl hzero
  · exact .inr (h.column_lt (mt h.columns.mpr hzero))

theorem rectangular_init
    (settings : CsvSettings) :
    Rectangular (CsvWriter.init settings) .empty where
  output := rfl
  lines := rfl
  column := rfl
  columns := Iff.rfl
  width := by
    intro row hrow
    cases hrow
  column_lt := fun h => absurd rfl h

/-- The next fields of the row begun are the next ones in the text. -/
theorem Rectangular.output_afterFields
    (h : Rectangular w sheet) (es : List Entry) :
    (w.afterFields (es.map Entry.content)).output =
      (sheet.add es false).text w.settings_ := by
  have hcurrent : w.column_ = 0 ↔ sheet.current = [] := by
    rw [h.column, List.length_eq_zero_iff]
  rw [Sheet.text_add, afterFields, h.output]
  simp only [nextFields, hcurrent]

/-- Fields inside a row. -/
theorem Rectangular.afterFields
    (h : Rectangular w sheet) {es : List Entry}
    (hroom : w.columns_ = 0 ∨ w.column_ + es.length < w.columns_) :
    Rectangular (w.afterFields (es.map Entry.content)) (sheet.add es false) where
  output := h.output_afterFields es
  lines := h.lines
  column := by
    change w.column_ + (es.map Entry.content).length = (sheet.current ++ es).length
    rw [List.length_map, List.length_append, h.column]
  columns := h.columns
  width := h.width
  column_lt := by
    intro hlines
    change w.column_ + (es.map Entry.content).length < w.columns_
    rw [List.length_map]
    exact hroom.resolve_left (mt h.columns.mp hlines)

/-- The end of a row that is not empty fixes the width, or finds it. -/
theorem Rectangular.afterRow
    (h : Rectangular w sheet) {es : List Entry}
    (hne : sheet.current ++ es ≠ [])
    (hfull : w.columns_ = 0 ∨ w.column_ + es.length = w.columns_) :
    Rectangular
      { (w.afterFields (es.map Entry.content)).afterRow with
        columns_ := w.column_ + es.length }
      (sheet.add es true) where
  output := by
    have htext := Sheet.text_add_ended w.settings_ sheet es
    rw [← h.output_afterFields es] at htext
    exact htext.symm
  lines := by
    change w.lines_ + 1 = (sheet.rows ++ [sheet.current ++ es]).length
    rw [List.length_append, h.lines, List.length_singleton]
  column := rfl
  columns := by
    have hpos : 0 < w.column_ + es.length := by
      rw [h.column, ← List.length_append]
      exact List.length_pos_iff.mpr hne
    exact iff_of_false (Nat.ne_of_gt hpos) (Nat.succ_ne_zero _)
  width := by
    intro row hrow
    rcases List.mem_append.mp hrow with hrow | hrow
    · have hlines : w.lines_ ≠ 0 := by
        rw [h.lines]
        exact Nat.ne_of_gt (List.length_pos_of_mem hrow)
      rw [h.width row hrow, hfull.resolve_left (mt h.columns.mp hlines)]
    · rw [List.mem_singleton.mp hrow, List.length_append, h.column]
  column_lt := by
    intro _
    change 0 < w.column_ + es.length
    rw [h.column, ← List.length_append]
    exact List.length_pos_iff.mpr hne

end Rectangular

section Steps

variable {utf8 : Utf8Cpp} {s t : Session} {c : Call}

/-- What a call can do to a session. -/
inductive CallStep (s : Session) (c : Call) : Session → Prop
  | kept
      (out : Option Nat) :
      CallStep s c { s with writer := { s.writer with out_ := out } }
  | extended
      (es : List Entry)
      (hadmitted : c.Admitted s.writer)
      (hcontents : es.map Entry.content <+: c.contents)
      (hheader : ∀ e ∈ es, e.header = c.isHeader)
      (hroom : s.writer.columns_ = 0 ∨
        s.writer.column_ + es.length < s.writer.columns_) :
      CallStep s c
        { writer := s.writer.afterFields (es.map Entry.content)
          sheet := s.sheet.add es false }
  | ended
      (es : List Entry)
      (hadmitted : c.Admitted s.writer)
      (hcontents : es.map Entry.content <+: c.contents)
      (hheader : ∀ e ∈ es, e.header = c.isHeader)
      (hfull : s.writer.columns_ = 0 ∨
        s.writer.column_ + es.length = s.writer.columns_)
      (hrow : es = [] → c = .endRow ∧
        (s.writer.columns_ = 0 ∨ s.writer.column_ ≠ 0)) :
      CallStep s c
        { writer :=
            { (s.writer.afterFields (es.map Entry.content)).afterRow with
              columns_ := s.writer.column_ + es.length }
          sheet := s.sheet.add es true }

theorem header_of_mem_map
    {fs : List Bytes} {header : Bool} {e : Entry}
    (he : e ∈ fs.map (Entry.mk header)) :
    e.header = header := by
  obtain ⟨f, -, rfl⟩ := List.mem_map.mp he
  rfl

theorem map_content_mk
    (header : Bool) (fs : List Bytes) :
    (fs.map (Entry.mk header)).map Entry.content = fs := by
  rw [List.map_map]
  exact List.map_id fs

theorem add_nil
    (sheet : Sheet) :
    sheet.add [] false = sheet := by
  simp [Sheet.add]

theorem callStep
    (hopen : s.writer.Open)
    (hcall : Calls utf8 s c t) :
    CallStep s c t := by
  obtain rfl : s.call utf8 c = t := hcall
  have hcases := call_cases utf8 hopen c
  unfold Session.call
  generalize (c.method utf8).run s.writer = result at hcases ⊢
  cases hcases with
  | connected destination_i hadmitted =>
      have hnone : (Call.destination destination_i).accepted utf8 s.writer = [] :=
        accepted_of_all hadmitted (fun f hf => absurd hf List.not_mem_nil)
      simp only [stateOf_ok, hnone, ne_eq, not_true_eq_false, decide_false, add_nil]
      exact .kept destination_i
  | rejected hrejected =>
      simp only [stateOf_error, accepted_of_rejected hrejected, ne_eq,
        not_true_eq_false, decide_false, add_nil]
      exact .kept s.writer.out_
  | interrupted hadmitted hcontents hroom hprint hrefused =>
      rename_i e before after f
      have hstep :=
        CallStep.extended (before.map (Entry.mk c.isHeader)) hadmitted
          (by rw [map_content_mk, hcontents]; exact List.prefix_append _ _)
          (fun e he => header_of_mem_map he) (by rwa [List.length_map])
      rw [map_content_mk] at hstep
      rw [accepted_of_refused hadmitted hcontents hprint hrefused]
      simpa [afterFields] using hstep
  | rowEnded hadmitted hrow =>
      have hnone : (Call.endRow).accepted utf8 s.writer = [] :=
        accepted_of_all hadmitted (fun f hf => absurd hf List.not_mem_nil)
      have hfull : s.writer.columns_ = 0 ∨
          s.writer.column_ + ([] : List Entry).length = s.writer.columns_ := by
        rcases hadmitted.2 with hzero | hcolumn | hfull
        · exact .inl hzero
        · exact .inl (hrow.resolve_right (not_not_intro hcolumn))
        · exact .inr hfull
      have hstep :=
        CallStep.ended [] hadmitted List.nil_prefix (fun e he => absurd he List.not_mem_nil) hfull
          (fun _ => ⟨rfl, hrow⟩)
      simpa [hnone, afterRow] using hstep
  | written hadmitted hout hfits hprint =>
      rw [accepted_of_all hadmitted hprint, stateOf_ok]
      unfold filled
      split_ifs with hfull
      · have hstep :=
          CallStep.ended (c.contents.map (Entry.mk c.isHeader)) hadmitted
            (by rw [map_content_mk]) (fun e he => header_of_mem_map he)
            (.inr (by rw [List.length_map]; exact hfull.2.2))
            (fun hnil => absurd (List.map_eq_nil_iff.mp hnil) hfull.1)
        rw [map_content_mk, List.length_map, hfull.2.2] at hstep
        simpa [afterRow, afterFields] using hstep
      · have hroom : s.writer.columns_ = 0 ∨
            s.writer.column_ + c.contents.length < s.writer.columns_ := by
          by_cases hnil : c.contents = []
          · rw [hnil]
            exact hopen
          · by_cases hzero : s.writer.columns_ = 0
            · exact .inl hzero
            · have hle := hfits.resolve_left hzero
              have hne : s.writer.column_ + c.contents.length ≠ s.writer.columns_ :=
                fun heq => hfull ⟨hnil, hzero, heq⟩
              exact .inr (lt_of_le_of_ne hle hne)
        have hstep :=
          CallStep.extended (c.contents.map (Entry.mk c.isHeader)) hadmitted
            (by rw [map_content_mk]) (fun e he => header_of_mem_map he) (by rwa [List.length_map])
        rw [map_content_mk] at hstep
        simpa [afterFields] using hstep

/-- The rows of a sheet stay, and rows are added at the end. -/
theorem CallStep.rows_prefix
    (hstep : CallStep s c t) :
    s.sheet.rows <+: t.sheet.rows := by
  cases hstep with
  | kept out =>
      exact List.prefix_rfl
  | extended es hadmitted hcontents hheader hroom =>
      exact List.prefix_rfl
  | ended es hadmitted hcontents hheader hfull hrow =>
      exact List.prefix_append _ _

theorem CallStep.settings
    (hstep : CallStep s c t) :
    t.writer.settings_ = s.writer.settings_ := by
  cases hstep <;> rfl

theorem CallStep.open
    (hstep : CallStep s c t)
    (hopen : s.writer.Open) :
    t.writer.Open := by
  cases hstep with
  | kept out =>
      exact hopen
  | extended es hadmitted hcontents hheader hroom =>
      refine hroom.imp id fun hlt => ?_
      simpa [afterFields] using hlt
  | ended es hadmitted hcontents hheader hfull hrow =>
      exact (Nat.eq_zero_or_pos _).imp id id

/-- `endRow` is not called on a writer with a destination before the first field has
been written. -/
def AfterFirstField (s : Session) (c : Call) (_ : Session) : Prop :=
  c = .endRow → s.writer.out_ ≠ none → s.sheet.entries ≠ []

instance (s : Session) (c : Call) (t : Session) : Decidable (AfterFirstField s c t) :=
  inferInstanceAs (Decidable (_ → _ → _))

/-- While nothing is written, neither the width nor the row begun is known. -/
theorem Rectangular.entries_eq_nil
    (h : Rectangular s.writer s.sheet)
    (hcurrent : s.sheet.current = [])
    (hrow : s.writer.columns_ = 0 ∨ s.writer.column_ ≠ 0) :
    s.sheet.entries = [] := by
  have hcolumn : s.writer.column_ = 0 := by
    rw [h.column, hcurrent]
    rfl
  have hlines := h.columns.mp (hrow.resolve_right (not_not_intro hcolumn))
  rw [h.lines, List.length_eq_zero_iff] at hlines
  simp [Sheet.entries, hlines, hcurrent]

theorem Rectangular.step
    (h : Rectangular s.writer s.sheet)
    (hstep : CallStep s c t)
    (hcond : AfterFirstField s c t) :
    Rectangular t.writer t.sheet := by
  cases hstep with
  | kept out =>
      exact ⟨h.output, h.lines, h.column, h.columns, h.width, h.column_lt⟩
  | extended es hadmitted hcontents hheader hroom =>
      exact h.afterFields hroom
  | ended es hadmitted hcontents hheader hfull hrow =>
      refine h.afterRow ?_ hfull
      intro hnil
      obtain ⟨hcurrent, hes⟩ := List.append_eq_nil_iff.mp hnil
      obtain ⟨rfl, hcolumns⟩ := hrow hes
      exact hcond rfl hadmitted.1 (h.entries_eq_nil hcurrent hcolumns)

/-- Once a row is complete, the width stays. -/
theorem Rectangular.columns_step
    (h : Rectangular s.writer s.sheet)
    (hstep : CallStep s c t)
    (hlines : s.writer.lines_ ≠ 0) :
    t.writer.columns_ = s.writer.columns_ ∧ t.writer.lines_ ≠ 0 := by
  cases hstep with
  | kept out =>
      exact ⟨rfl, hlines⟩
  | extended es hadmitted hcontents hheader hroom =>
      exact ⟨rfl, hlines⟩
  | ended es hadmitted hcontents hheader hfull hrow =>
      exact ⟨hfull.resolve_left (mt h.columns.mp hlines), Nat.succ_ne_zero _⟩

end Steps

section Output

variable {utf8 : Utf8Cpp} {s t : Session} {calls : List Call}

theorem deterministic_calls
    (utf8 : Utf8Cpp) :
    Deterministic (Calls utf8) :=
  fun _ _ _ _ hcall hcall' => hcall.symm.trans hcall'

/-- The sheet holds what the calls have accepted. -/
theorem entries_of_run
    (hrun : Run (Calls utf8) s calls t) :
    t.sheet.entries = s.sheet.entries ++ acceptedBy utf8 s calls := by
  obtain rfl := hrun.unique (deterministic_calls utf8) (run_foldl (Session.call utf8) s calls)
  induction calls generalizing s with
  | nil =>
      simp [acceptedBy]
  | cons c calls ih =>
      have hrest := ih (run_foldl (Session.call utf8) (s.call utf8 c) calls)
      rw [List.foldl_cons, hrest]
      simp [Session.call, acceptedBy]

/-- A rectangular session stays rectangular while the steps meet the condition. -/
theorem Rectangular.guarded
    {c : Call}
    (h : Rectangular s.writer s.sheet)
    (hstep : Guarded AfterFirstField (Calls utf8) s c t) :
    Rectangular t.writer t.sheet :=
  h.step (callStep h.open hstep.2) hstep.1

/-- **The output is rectangular** behind every history in which `endRow` is not called
before the first field, whichever calls throw. -/
theorem output_rectangular
    (utf8 : Utf8Cpp) (settings : CsvSettings)
    (hrun : Run (Guarded AfterFirstField (Calls utf8)) (Session.init settings) calls s) :
    s.writer.settings_ = settings ∧
    Rectangular s.writer s.sheet ∧
    s.sheet.entries = acceptedBy utf8 (Session.init settings) calls ∧
    ∀ {more t},
      Run (Guarded AfterFirstField (Calls utf8)) s more t →
        s.writer.lines_ ≠ 0 → t.writer.columns_ = s.writer.columns_ := by
  have hrect : Rectangular s.writer s.sheet :=
    hrun.invariant (fun s => Rectangular s.writer s.sheet) Rectangular.guarded
      (rectangular_init settings)
  refine ⟨?_, hrect, entries_of_run hrun.unguarded, ?_⟩
  · refine hrun.relates (fun s => Rectangular s.writer s.sheet)
      (fun s t => t.writer.settings_ = s.writer.settings_) (fun _ => rfl) ?_
      Rectangular.guarded
      (fun h hstep => (callStep h.open hstep.2).settings) (rectangular_init settings)
    intro s t u hst htu
    exact htu.trans hst
  · intro more t hmore hlines
    refine (hmore.relates (fun s => Rectangular s.writer s.sheet)
      (fun s t => s.writer.lines_ ≠ 0 →
        t.writer.columns_ = s.writer.columns_ ∧ t.writer.lines_ ≠ 0)
      (fun _ h => ⟨rfl, h⟩) ?_ Rectangular.guarded
      (fun h hstep => h.columns_step (callStep h.open hstep.2)) hrect hlines).1
    intro s t u hst htu hs
    obtain ⟨hcolumns, ht⟩ := hst hs
    obtain ⟨hcolumns', hu⟩ := htu ht
    exact ⟨hcolumns'.trans hcolumns, hu⟩

/-- Settings for the examples: no quotes, so that the output is easy to read. -/
def plainSettings (forceHeader : Bool) : CsvSettings where
  fieldSep := 0x3B
  carriageReturn := false
  forceHeader := forceHeader
  quoting := .never

/-- Two columns without quoting: a header, a row, and between its two fields a call that
throws. -/
theorem output_rectangular_example :
    ∃ s : Session,
      s.writer.output = [0x61, 0x3B, 0x62, 0x0A, 0x31, 0x3B, 0x32, 0x0A] ∧
      Rectangular s.writer s.sheet := by
  have hrun :
      Run (Guarded AfterFirstField (Calls leanUtf8))
        (Session.init (plainSettings true))
        [.destination (some 1), .headers [[0x61], [0x62]], .endRow, .field [0x31],
          .fields [[0x3B]], .field [0x32]] _ :=
    .cons ⟨by decide, rfl⟩ <| .cons ⟨by decide, rfl⟩ <| .cons ⟨by decide, rfl⟩ <|
      .cons ⟨by decide, rfl⟩ <| .cons ⟨by decide, rfl⟩ <| .cons ⟨by decide, rfl⟩ (.nil _)
  exact ⟨_, by decide, (output_rectangular leanUtf8 _ hrun).2.1⟩

end Output

section Rejection

variable {utf8 : Utf8Cpp} {s : Session} {c : Call}

/-- The bytes written and the three counters are the same. -/
structure Unchanged (w w' : CsvWriter) : Prop where
  output : w'.output = w.output
  column : w'.column_ = w.column_
  columns : w'.columns_ = w.columns_
  lines : w'.lines_ = w.lines_

/-- A check ahead of the fields fails, or the first field is refused. -/
def RefusedAtOnce (utf8 : Utf8Cpp) (w : CsvWriter) (c : Call) : Prop :=
  c.Admitted w → ∀ f ∈ c.contents.head?, ¬ Printable utf8 w.settings_ f

theorem open_of_run
    {settings : CsvSettings} {calls : List Call}
    (hrun : Run (Calls utf8) (Session.init settings) calls s) :
    s.writer.Open :=
  hrun.invariant (fun s => s.writer.Open)
    (fun hopen hcall => (callStep hopen hcall).open hopen) (.inl rfl)

/-- **A call that throws leaves no trace** exactly when it is refused at once. -/
theorem rejected_unchanged_iff
    (utf8 : Utf8Cpp) (settings : CsvSettings)
    {calls : List Call}
    (hrun : Run (Calls utf8) (Session.init settings) calls s)
    {e : StdException} {w' : CsvWriter}
    (hthrows : (c.method utf8).run s.writer = .error e w') :
    Unchanged s.writer w' ↔ RefusedAtOnce utf8 s.writer c := by
  have hcases := call_cases utf8 (open_of_run hrun) c
  rw [hthrows] at hcases
  cases hcases with
  | rejected hrejected =>
      exact iff_of_true ⟨rfl, rfl, rfl, rfl⟩ (fun hadmitted => absurd hadmitted hrejected)
  | interrupted hadmitted hcontents hroom hprint hrefused =>
      rename_i before after f
      cases before with
      | nil =>
          rw [afterFields_nil]
          refine iff_of_true ⟨rfl, rfl, rfl, rfl⟩ fun _ g hg => ?_
          rw [hcontents] at hg
          obtain rfl : f = g := Option.some.inj hg
          exact hrefused
      | cons g before =>
          refine iff_of_false ?_ ?_
          · intro h
            have hcolumn := h.column
            simp [afterFields] at hcolumn
          · intro h
            refine h hadmitted g ?_ (hprint g (by simp))
            rw [hcontents]
            rfl

/-- A field that holds the separator, alone. -/
theorem rejected_unchanged_iff_example :
    ∃ (s : Session) (e : StdException) (w' : CsvWriter),
      ((Call.fields [[0x3B], [0x61]]).method leanUtf8).run s.writer = .error e w' ∧
      (Unchanged s.writer w' ↔
        RefusedAtOnce leanUtf8 s.writer (.fields [[0x3B], [0x61]])) := by
  have hrun :
      Run (Calls leanUtf8) (Session.init (plainSettings false))
        [.destination (some 1)] _ :=
    .cons rfl (.nil _)
  have hthrows :
      ((Call.fields [[0x3B], [0x61]]).method leanUtf8).run
        (Session.call leanUtf8 (Session.init (plainSettings false))
          (.destination (some 1))).writer = .error _ _ := rfl
  exact ⟨_, _, _, hthrows, rejected_unchanged_iff leanUtf8 (plainSettings false) hrun hthrows⟩

/-- The field before one that is refused stays in the output. -/
theorem rejected_fields_leave_trace :
    ∃ (s : Session) (e : StdException) (w' : CsvWriter),
      Run (Calls leanUtf8) (Session.init (plainSettings false))
        [.destination (some 1)] s ∧
      ((Call.fields [[0x61], [0x3B]]).method leanUtf8).run s.writer = .error e w' ∧
      s.writer.output = [] ∧ w'.output = [0x61] ∧ ¬ Unchanged s.writer w' := by
  refine ⟨_, _, _, .cons rfl (.nil _), rfl, by decide, by decide, ?_⟩
  intro h
  exact absurd h.column (by decide)

end Rejection

end CsvWriter

end Bren
end Brenlib
