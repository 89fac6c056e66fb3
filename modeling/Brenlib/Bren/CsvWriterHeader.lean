import Brenlib.Bren.CsvWriterRows

/-!
# The header that a `CsvWriter` can force

With `forceHeader` the methods `field` and `fields` wait for the first complete row,
which `header` and `headers` write.  They look at the number of lines only, and `endRow`
counts a line as well.

* `HeaderKept`: fields are accepted behind a row of header fields only.
* `Headed`: what every history without an empty row has led to.
* `header_kept_iff`: the header is kept exactly when `endRow` is not called before the
  first field.
-/

namespace Brenlib
namespace Bren

open Csv TransitionSystem

namespace CsvWriter

section Header

variable {utf8 : Utf8Cpp} {s t : Session} {c : Call}

/-- No complete row is empty. -/
def NoEmptyRow (s : Session) : Prop :=
  ∀ row ∈ s.sheet.rows, row ≠ []

/-- A field that is not handed over as a header is only accepted behind a complete row
of header fields, and no complete row is empty. -/
structure HeaderKept (utf8 : Utf8Cpp) (s : Session) : Prop where
  headed :
    ∀ c : Call, c.isHeader = false → c.contents ≠ [] →
      ∀ w', (c.method utf8).run s.writer = .ok () w' →
        ∃ row rest, s.sheet.rows = row :: rest ∧ row ≠ [] ∧
          (∀ e ∈ row, e.header = true) ∧
          (recordOf s.writer.settings_ (row.map Entry.content)).encode
            s.writer.settings_.fieldSep <+: s.writer.output
  noEmptyRow : NoEmptyRow s

/-- The first row, complete or begun, has been handed over as a header. -/
def FirstRowHeader (s : Session) : Prop :=
  ∀ row ∈ (s.sheet.rows ++ [s.sheet.current]).head?, ∀ e ∈ row, e.header = true

/-- What holds in a history without an empty row, if a header is forced. -/
structure Headed (s : Session) : Prop where
  rectangular : Rectangular s.writer s.sheet
  forced : s.writer.settings_.forceHeader = true
  firstRow : FirstRowHeader s

/-- Fields are only accepted as a header until the first row is complete. -/
theorem Headed.header_of_no_line
    (h : Headed s)
    {es : List Entry}
    (hadmitted : c.Admitted s.writer)
    (hcontents : es.map Entry.content <+: c.contents)
    (hheader : ∀ e ∈ es, e.header = c.isHeader)
    (hlines : s.sheet.rows = []) :
    ∀ e ∈ es, e.header = true := by
  intro e he
  have hne : e.content ∈ c.contents := hcontents.subset (List.mem_map_of_mem he)
  have hforced := h.forced
  have hline : s.writer.lines_ = 0 := by
    rw [h.rectangular.lines, hlines]
    rfl
  rw [hheader e he]
  cases c with
  | header name_i =>
      rfl
  | headers names_i =>
      rfl
  | field field_i =>
      have hpass := hadmitted.2
      simp [hforced, hline] at hpass
  | fields fields_i =>
      have hpass := hadmitted.2.1
      simp [hforced, hline] at hpass
  | destination destination_i =>
      cases hne
  | endRow =>
      cases hne

theorem Headed.step
    (h : Headed s)
    (hstep : CallStep s c t)
    (hcond : AfterFirstField s c t) :
    Headed t where
  rectangular := h.rectangular.step hstep hcond
  forced := by
    rw [hstep.settings]
    exact h.forced
  firstRow := by
    have hfirst := h.firstRow
    cases hstep with
    | kept out =>
        exact hfirst
    | extended es hadmitted hcontents hheader hroom =>
        cases hrows : s.sheet.rows with
        | nil =>
            have hes := h.header_of_no_line hadmitted hcontents hheader hrows
            simp only [FirstRowHeader, hrows, Sheet.add, Bool.false_eq_true, if_false,
              List.nil_append, List.head?_cons, Option.mem_some_iff, forall_eq'] at hfirst ⊢
            intro e he
            exact (List.mem_append.mp he).elim (hfirst e) (hes e)
        | cons row rows =>
            simpa [FirstRowHeader, hrows, Sheet.add] using hfirst
    | ended es hadmitted hcontents hheader hfull hrow =>
        cases hrows : s.sheet.rows with
        | nil =>
            have hes := h.header_of_no_line hadmitted hcontents hheader hrows
            simp only [FirstRowHeader, hrows, Sheet.add, if_true, List.nil_append,
              List.cons_append, List.head?_cons, Option.mem_some_iff, forall_eq']
              at hfirst ⊢
            intro e he
            exact (List.mem_append.mp he).elim (hfirst e) (hes e)
        | cons row rows =>
            simpa [FirstRowHeader, hrows, Sheet.add] using hfirst

theorem headed_init
    {settings : CsvSettings} (hforce : settings.forceHeader = true) :
    Headed (Session.init settings) where
  rectangular := rectangular_init settings
  forced := hforce
  firstRow := by
    intro row hrow e he
    obtain rfl : [] = row := Option.some.inj hrow
    cases he

/-- `endRow` on a writer of unknown width ends the row begun, whatever it holds. -/
theorem rows_call_endRow
    (utf8 : Utf8Cpp)
    (hout : s.writer.out_ ≠ none)
    (hcolumns : s.writer.columns_ = 0) :
    (s.call utf8 .endRow).sheet.rows = s.sheet.rows ++ [s.sheet.current] := by
  have hnone : (Call.endRow).accepted utf8 s.writer = [] := by
    simp [Call.accepted, Call.contents]
  have hrun :
      ((Call.endRow).method utf8).run s.writer =
        .ok () { s.writer.afterRow with columns_ := s.writer.column_ } := by
    rw [Call.method, run_discard, endRow_run_first hout hcolumns]
  simp [Session.call, hrun, hnone, Sheet.add, afterRow]

/-- An early `endRow` leaves an empty row. -/
theorem Headed.condition
    (h : Headed s)
    (hcall : Calls utf8 s c t)
    (hrows : NoEmptyRow t) :
    AfterFirstField s c t := by
  rintro rfl hout hentries
  obtain rfl : s.call utf8 .endRow = t := hcall
  obtain ⟨hflat, hcurrent⟩ := List.append_eq_nil_iff.mp hentries
  have hnone : s.sheet.rows = [] := by
    refine List.eq_nil_iff_forall_not_mem.mpr fun row hrow => ?_
    have hlen := h.rectangular.width row hrow
    have hlines : s.writer.lines_ ≠ 0 := by
      rw [h.rectangular.lines]
      exact Nat.ne_of_gt (List.length_pos_of_mem hrow)
    rw [List.flatten_eq_nil_iff.mp hflat row hrow] at hlen
    exact hlines (h.rectangular.columns.mp hlen.symm)
  have hcolumns : s.writer.columns_ = 0 := by
    rw [h.rectangular.columns, h.rectangular.lines, hnone]
    rfl
  refine hrows [] ?_ rfl
  rw [rows_call_endRow utf8 hout hcolumns, hcurrent]
  simp

theorem NoEmptyRow.before
    (hstep : CallStep s c t)
    (hrows : NoEmptyRow t) :
    NoEmptyRow s :=
  fun row hrow => hrows row (hstep.rows_prefix.subset hrow)

/-- The rows that a call ends are not empty. -/
theorem NoEmptyRow.step
    (hrows : NoEmptyRow s)
    (h : Headed s)
    (hstep : CallStep s c t)
    (hcond : AfterFirstField s c t) :
    NoEmptyRow t := by
  have hrect := h.rectangular.step hstep hcond
  cases hstep with
  | kept out =>
      exact hrows
  | extended es hadmitted hcontents hheader hroom =>
      exact hrows
  | ended es hadmitted hcontents hheader hfull hrow =>
      intro row hmem
      have hlen := hrect.width row hmem
      rintro rfl
      exact absurd (hrect.columns.mp hlen.symm) (Nat.succ_ne_zero _)

/-- Behind a history without an empty row the header is kept. -/
theorem Headed.kept
    (h : Headed s)
    (hrows : NoEmptyRow s) :
    HeaderKept utf8 s where
  noEmptyRow := hrows
  headed := by
    intro c hfield hcontents w' hrun
    obtain ⟨hadmitted, -⟩ := accepted_of_returns h.rectangular.open hrun
    have hforced := h.forced
    have hlines : s.writer.lines_ ≠ 0 := by
      cases c with
      | field field_i =>
          simpa [hforced] using hadmitted.2
      | fields fields_i =>
          simpa [hforced] using hadmitted.2.1
      | header name_i =>
          cases hfield
      | headers names_i =>
          cases hfield
      | destination destination_i =>
          exact absurd rfl hcontents
      | endRow =>
          exact absurd rfl hcontents
    have hne : s.sheet.rows ≠ [] := by
      rwa [h.rectangular.lines, ne_eq, List.length_eq_zero_iff] at hlines
    obtain ⟨row, rest, hcons⟩ := List.exists_cons_of_ne_nil hne
    refine ⟨row, rest, hcons, hrows row (by simp [hcons]), ?_, ?_⟩
    · exact h.firstRow row (by simp [hcons])
    · rw [h.rectangular.output, Sheet.text, hcons, List.flatMap_cons, List.append_assoc]
      exact List.prefix_append _ _

/-- What holds behind every history, with an empty row or without. -/
structure Tracked (s : Session) : Prop where
  isOpen : s.writer.Open
  headed : NoEmptyRow s → Headed s

theorem Tracked.step
    (h : Tracked s)
    (hcall : Calls utf8 s c t) :
    Tracked t := by
  have hstep := callStep h.isOpen hcall
  refine ⟨hstep.open h.isOpen, fun hrows => ?_⟩
  have hbefore := h.headed (hrows.before hstep)
  exact hbefore.step hstep (hbefore.condition hcall hrows)

theorem tracked_init
    {settings : CsvSettings} (hforce : settings.forceHeader = true) :
    Tracked (Session.init settings) :=
  ⟨.inl rfl, fun _ => headed_init hforce⟩

/-- A call leaves no empty row exactly when it meets the condition. -/
theorem noEmptyRow_step_iff
    (h : Tracked s)
    (hcall : Calls utf8 s c t) :
    NoEmptyRow t ↔ NoEmptyRow s ∧ AfterFirstField s c t := by
  have hstep := callStep h.isOpen hcall
  constructor
  · intro hrows
    have hbefore := hrows.before hstep
    exact ⟨hbefore, (h.headed hbefore).condition hcall hrows⟩
  · rintro ⟨hbefore, hcond⟩
    exact hbefore.step (h.headed hbefore) hstep hcond

/-- **A forced header is kept** behind a history exactly when `endRow` has not been
called before the first field. -/
theorem header_kept_iff
    (utf8 : Utf8Cpp) {settings : CsvSettings}
    (hforce : settings.forceHeader = true)
    {calls : List Call}
    (hrun : Run (Calls utf8) (Session.init settings) calls s) :
    HeaderKept utf8 s ↔
      Run (Guarded AfterFirstField (Calls utf8)) (Session.init settings) calls s := by
  have htracked : Tracked s :=
    hrun.invariant Tracked Tracked.step (tracked_init hforce)
  have hrows : NoEmptyRow s ↔
      Run (Guarded AfterFirstField (Calls utf8)) (Session.init settings) calls s :=
    hrun.iff_guarded (deterministic_calls utf8) Tracked NoEmptyRow Tracked.step
      noEmptyRow_step_iff (tracked_init hforce) (fun row hrow => by cases hrow)
  rw [← hrows]
  constructor
  · exact HeaderKept.noEmptyRow
  · intro h
    exact (htracked.headed h).kept h

/-- A header of one column, and one row. -/
theorem header_kept_iff_example :
    ∃ s : Session,
      s.writer.output = [0x61, 0x0A, 0x31, 0x0A] ∧
      (HeaderKept leanUtf8 s ↔
        Run (Guarded AfterFirstField (Calls leanUtf8))
          (Session.init (plainSettings true))
          [.destination (some 1), .header [0x61], .endRow, .field [0x31]] s) := by
  have hrun :
      Run (Calls leanUtf8)
        (Session.init (plainSettings true))
        [.destination (some 1), .header [0x61], .endRow, .field [0x31]] _ :=
    .cons rfl <| .cons rfl <| .cons rfl <| .cons rfl (.nil _)
  exact ⟨_, by decide, header_kept_iff leanUtf8 rfl hrun⟩

/-- `endRow` writes an empty row, and a field is accepted although there is no header. -/
theorem endRow_bypasses_header :
    ∃ (s : Session) (w' : CsvWriter),
      Run (Calls leanUtf8) (Session.init (plainSettings true))
        [.destination (some 1), .endRow] s ∧
      s.sheet.rows = [[]] ∧
      ((Call.field [0x61]).method leanUtf8).run s.writer = .ok () w' ∧
      w'.output = [0x0A, 0x61] ∧
      ¬ HeaderKept leanUtf8 s := by
  refine ⟨_, _, .cons rfl (.cons rfl (.nil _)), by decide, rfl, by decide, ?_⟩
  intro h
  exact h.noEmptyRow [] (by decide) rfl

end Header

end CsvWriter

end Bren
end Brenlib
