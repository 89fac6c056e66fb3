import Brenlib.Bren.CsvWriterText
import Brenlib.Bren.ReadCSVDecoding

/-!
# Writing a CSV and reading it back

A table is written with `headers` and `endRow` for its first row and `fields` for
the others, or field by field.  The bytes written are the text of a document in
the grammar of `CsvText` (`writeTable_run`), which the reader decodes exactly.

**Result.**  `readCSV_writeTable`: `readCSV` returns the table that was written.
-/

namespace Brenlib
namespace Bren

open Csv

namespace CsvWriter

/-- How the fields of a row are handed to the writer. -/
inductive RowCalls where
  | together
  | fieldByField
deriving DecidableEq, Repr

section Calls

variable (utf8 : Utf8Cpp)

def writeHeader [Raising] (row : RowCalls × List Bytes) : Method Unit :=
  match row.1 with
  | .together => discard (headers utf8 row.2)
  | .fieldByField => forM row.2 fun name => discard (header utf8 name)

def writeRow [Raising] (row : RowCalls × List Bytes) : Method Unit :=
  match row.1 with
  | .together => discard (fields utf8 row.2)
  | .fieldByField => forM row.2 fun fld => discard (field utf8 fld)

/-- Write a whole table to a new destination. -/
def writeTable
    [Raising] (destination_i : Nat) (names : RowCalls × List Bytes)
    (rows : List (RowCalls × List Bytes)) : Method Unit := do
  destination (some destination_i)
  writeHeader utf8 names
  discard endRow
  forM rows fun row => writeRow utf8 row

end Calls

/-- A table that can be written and read back: rows of `N` fields of valid UTF-8,
within the limits of a table, and no row whose text is empty. -/
structure Writable
    (settings : CsvSettings) (N : Nat) (table : List (List Bytes)) : Prop where
  separator : Separator settings.fieldSep
  quoting : settings.quoting = .always ∨ settings.quoting = .needed
  columns_pos : 1 ≤ N
  columns_le : N ≤ 65534
  rows_ne : table ≠ []
  cells_lt : table.length * N < 2 ^ 32
  width : ∀ row ∈ table, row.length = N
  valid : ∀ row ∈ table, ∀ f ∈ row, ∃ cs, f = Utf8.encode cs
  ascii_start : ∀ b ∈ ((table.headD []).headD []).head?, b < 0x80
  not_empty :
    N = 1 → settings.quoting = .needed → ∀ row ∈ table, [] ∉ row

/-- The document that is written for a table. -/
def documentOf (settings : CsvSettings) (table : List (List Bytes)) : Document where
  bom := false
  records := table.map (recordOf settings)

section Document

variable {settings : CsvSettings} {N : Nat} {table : List (List Bytes)}

theorem contents_recordOf
    (settings : CsvSettings) (row : List Bytes) :
    (recordOf settings row).contents = row := by
  have hcontent : Field.content ∘ fieldOf settings = id := rfl
  simp [Record.contents, recordOf, hcontent]

theorem contents_documentOf
    (settings : CsvSettings) (table : List (List Bytes)) :
    (documentOf settings table).contents = table := by
  have hcontents : Record.contents ∘ recordOf settings = id := by
    funext row
    exact contents_recordOf settings row
  simp [Document.contents, documentOf, hcontents]

/-- The text of a row is only empty for one empty field without quotes. -/
theorem joined_recordOf_ne
    (h : Writable settings N table)
    {row : List Bytes} (hrow : row ∈ table) :
    joined settings.fieldSep (recordOf settings row).fields ≠ [] := by
  have hlen := h.width row hrow
  have hpos := h.columns_pos
  cases row with
  | nil =>
      rw [List.length_nil] at hlen
      omega
  | cons f row =>
      rw [recordOf, List.map_cons, joined_cons]
      cases row with
      | cons g row =>
          simp [following]
      | nil =>
          have hN : N = 1 := by simpa using hlen.symm
          by_cases hq : (fieldOf settings f).quoted = true
          · simp [Field.encode, hq]
          · rcases h.quoting with halways | hneeded
            · simp [fieldOf, halways] at hq
            · have hf : (fieldOf settings f).content ≠ [] := by
                intro hnil
                obtain rfl : f = [] := hnil
                exact h.not_empty hN hneeded _ hrow (by simp)
              rw [Field.encode, if_neg hq]
              exact List.append_ne_nil_of_left_ne_nil hf _

theorem Writable.wellFormed
    (h : Writable settings N table) :
    (documentOf settings table).WellFormed settings.fieldSep N where
  columns_pos := h.columns_pos
  columns_le := h.columns_le
  records_ne := by simpa [documentOf] using h.rows_ne
  cells_lt := by simpa [documentOf] using h.cells_lt
  width := by
    intro r hr
    obtain ⟨row, hrow, rfl⟩ := List.mem_map.mp hr
    simpa [recordOf] using h.width row hrow
  not_empty := by
    intro r hr
    obtain ⟨row, hrow, rfl⟩ := List.mem_map.mp hr
    exact joined_recordOf_ne h hrow
  fields := by
    intro r hr fd hfd
    obtain ⟨row, hrow, rfl⟩ := List.mem_map.mp hr
    obtain ⟨f, hf, rfl⟩ := List.mem_map.mp hfd
    refine fieldOf_wellFormed (h.valid row hrow f hf) fun hnever => ?_
    rcases h.quoting with hq | hq <;> rw [hq] at hnever <;> cases hnever

theorem Writable.asciiStart
    (h : Writable settings N table) :
    (documentOf settings table).AsciiStart := by
  rw [Document.AsciiStart, Document.firstContent, contents_documentOf]
  exact h.ascii_start

end Document

section Rows

variable {utf8 : Utf8Cpp} {w : CsvWriter} {row : RowCalls × List Bytes}

/-- The writer behind a complete row. -/
def afterRecord (w : CsvWriter) (row : List Bytes) : CsvWriter :=
  { w with
    lines_ := w.lines_ + 1
    output := w.output ++ (recordOf w.settings_ row).encode w.settings_.fieldSep }

theorem afterRow_afterFields
    (hcolumn : w.column_ = 0) (row : List Bytes) :
    (w.afterFields row).afterRow = w.afterRecord row := by
  simp [afterRow, afterFields, afterRecord, nextFields, hcolumn, Record.encode,
    recordOf]

/-- The first row is written field by field, in both ways of handing it over. -/
theorem writeHeader_like
    (utf8 : Utf8Cpp) (row : RowCalls × List Bytes)
    (hout : w.out_ ≠ none)
    (hlines : w.lines_ = 0)
    (hfits : w.Fits row.2) :
    ∃ method,
      WritesLike utf8 w method ∧
      (writeHeader utf8 row).run w = (forM row.2 fun f => discard (method f)).run w := by
  obtain ⟨calls, names⟩ := row
  cases calls with
  | together =>
      refine ⟨quotedField_ utf8, fun _ _ _ _ _ => rfl, ?_⟩
      rw [← discard_writeFields_run hfits]
      simp only [writeHeader, headers, run_discard, EStateM.run_bind,
        checkHeader_run hout hlines]
  | fieldByField =>
      refine ⟨header utf8, ?_, rfl⟩
      intro f w' hout' hlines' _
      have hcheck : (checkHeader).run w' = .ok () w' :=
        checkHeader_run (by rwa [hout']) (by rwa [hlines'])
      simp only [header, EStateM.run_bind, hcheck]

/-- The same for a later row. -/
theorem writeRow_like
    (utf8 : Utf8Cpp) (row : RowCalls × List Bytes)
    (hout : w.out_ ≠ none)
    (hheader : w.settings_.forceHeader = false ∨ w.lines_ ≠ 0)
    (hfits : w.Fits row.2) :
    ∃ method,
      WritesLike utf8 w method ∧
      (writeRow utf8 row).run w = (forM row.2 fun f => discard (method f)).run w := by
  obtain ⟨calls, flds⟩ := row
  cases calls with
  | together =>
      refine ⟨quotedField_ utf8, fun _ _ _ _ _ => rfl, ?_⟩
      rw [← discard_writeFields_run hfits]
      simp only [writeRow, fields, run_discard, EStateM.run_bind,
        checkField_run hout hheader]
  | fieldByField =>
      refine ⟨field utf8, ?_, rfl⟩
      intro f w' hout' hlines' hsettings'
      have hcheck : (checkField).run w' = .ok () w' :=
        checkField_run (by rwa [hout']) (by rwa [hsettings', hlines'])
      simp only [field, EStateM.run_bind, hcheck]

variable
  (hout : w.out_ ≠ none)
  (hprint : ∀ f ∈ row.2, Printable utf8 w.settings_ f)
include hout hprint

/-- Writing the fields of the first row. -/
theorem writeHeader_run
    (hlines : w.lines_ = 0)
    (hcolumns : w.columns_ = 0) :
    (writeHeader utf8 row).run w = .ok () (w.afterFields row.2) := by
  obtain ⟨method, hmethod, hrun⟩ :=
    writeHeader_like utf8 row hout hlines (.inl hcolumns)
  rw [hrun]
  exact forM_run hmethod hprint (.inl hcolumns)

/-- Writing a later row. -/
theorem writeRow_run
    (hheader : w.settings_.forceHeader = false ∨ w.lines_ ≠ 0)
    (hcolumn : w.column_ = 0)
    (hcolumns : row.2.length = w.columns_)
    (hne : row.2 ≠ []) :
    (writeRow utf8 row).run w = .ok () (w.afterRecord row.2) := by
  have hlast : w.column_ + row.2.length = w.columns_ := by
    rw [hcolumn, Nat.zero_add]
    exact hcolumns
  obtain ⟨method, hmethod, hrun⟩ :=
    writeRow_like utf8 row hout hheader (.inr (le_of_eq hlast))
  rw [hrun, ← afterRow_afterFields hcolumn]
  exact forM_run_last hmethod hout hprint hlast hne

end Rows

section Table

variable {utf8 : Utf8Cpp}

/-- The writer behind several complete rows. -/
def afterRecords (w : CsvWriter) (rows : List (List Bytes)) : CsvWriter :=
  { w with
    lines_ := w.lines_ + rows.length
    output :=
      w.output ++ (rows.map (recordOf w.settings_)).flatMap
        (Record.encode w.settings_.fieldSep) }

theorem afterRecords_cons
    (w : CsvWriter) (row : List Bytes) (rows : List (List Bytes)) :
    (w.afterRecord row).afterRecords rows = w.afterRecords (row :: rows) := by
  have hcount : w.lines_ + 1 + rows.length = w.lines_ + (rows.length + 1) := by
    omega
  simp [afterRecords, afterRecord, hcount]

/-- All later rows are written one behind the other. -/
theorem writeRows_run
    {w : CsvWriter} {rows : List (RowCalls × List Bytes)}
    (hout : w.out_ ≠ none)
    (hlines : w.lines_ ≠ 0)
    (hcolumn : w.column_ = 0)
    (hcolumns : w.columns_ ≠ 0)
    (hwidth : ∀ row ∈ rows, row.2.length = w.columns_)
    (hprint : ∀ row ∈ rows, ∀ f ∈ row.2, Printable utf8 w.settings_ f) :
    (forM rows fun row => writeRow utf8 row).run w =
      .ok () (w.afterRecords (rows.map Prod.snd)) := by
  induction rows generalizing w with
  | nil =>
      simp [afterRecords]
  | cons row rows ih =>
      have hlen := hwidth row (by simp)
      have hne : row.2 ≠ [] := by
        intro hnil
        rw [hnil, List.length_nil] at hlen
        exact hcolumns hlen.symm
      have hrow :=
        writeRow_run hout (hprint row (by simp)) (.inr hlines) hcolumn hlen hne
      rw [List.forM_cons, EStateM.run_bind, hrow]
      simp only
      rw [List.map_cons, ← afterRecords_cons]
      exact ih (w := w.afterRecord row.2) hout (Nat.succ_ne_zero _)
        hcolumn hcolumns (fun r hr => hwidth r (by simp [hr]))
        (fun r hr => hprint r (by simp [hr]))

variable {settings : CsvSettings} {names : RowCalls × List Bytes}
  {rows : List (RowCalls × List Bytes)}

/-- The writer behind its header. -/
def headed (settings : CsvSettings) (destination_i : Nat) (names : List Bytes) :
    CsvWriter :=
  { ({ init settings with out_ := some destination_i } : CsvWriter).afterRecord names with
    columns_ := names.length }

/-- A writer whose destination has just been set. -/
theorem destination_run
    (settings : CsvSettings) (destination_i : Nat) :
    (destination (some destination_i)).run (init settings) =
      .ok () { init settings with out_ := some destination_i } := by
  simp [destination, init]

/-- Behind the header, writing a table goes on with its other rows. -/
theorem writeTable_headed
    (hprint : ∀ f ∈ names.2, Printable utf8 settings f)
    (destination_i : Nat) :
    (writeTable utf8 destination_i names rows).run (init settings) =
      (forM rows fun row => writeRow utf8 row).run
        (headed settings destination_i names.2) := by
  set w : CsvWriter := { init settings with out_ := some destination_i } with hw
  have hheader :
      (writeHeader utf8 names).run w = .ok () (w.afterFields names.2) :=
    writeHeader_run (by simp [hw]) hprint rfl rfl
  have hcount : (w.afterFields names.2).column_ = names.2.length :=
    Nat.zero_add _
  have hend :
      (endRow).run (w.afterFields names.2) =
        .ok names.2.length (headed settings destination_i names.2) := by
    rw [endRow_run_first (w := w.afterFields names.2) (by simp [afterFields, hw]) rfl,
      afterRow_afterFields (w := w) rfl, hcount]
    rfl
  simp only [writeTable, EStateM.run_bind, destination_run, ← hw, hheader, run_discard,
    hend]

/-- Writing a whole table succeeds, and its bytes are the text of a document. -/
theorem writeTable_run
    {N : Nat}
    (hpos : 1 ≤ N)
    (hwidth : ∀ row ∈ names :: rows, row.2.length = N)
    (hprint : ∀ row ∈ names :: rows, ∀ f ∈ row.2, Printable utf8 settings f)
    (destination_i : Nat) :
    ∃ w,
      (writeTable utf8 destination_i names rows).run (init settings) = .ok () w ∧
      w.output =
        (documentOf settings ((names :: rows).map Prod.snd)).encode
          settings.fieldSep := by
  have hlen := hwidth names (by simp)
  set w := headed settings destination_i names.2 with hw
  have hcolumns : w.columns_ = N := hlen
  have hrows :
      (forM rows fun row => writeRow utf8 row).run w =
        .ok () (w.afterRecords (rows.map Prod.snd)) :=
    writeRows_run (by simp [hw, headed, afterRecord]) (Nat.succ_ne_zero _) rfl
      (by omega)
      (fun row hrow => (hwidth row (by simp [hrow])).trans hcolumns.symm)
      (fun row hrow => hprint row (by simp [hrow]))
  refine ⟨w.afterRecords (rows.map Prod.snd), ?_, ?_⟩
  · rw [writeTable_headed (hprint names (by simp)), hrows]
  · simp [afterRecords, afterRecord, hw, headed, init, documentOf, Document.encode,
      Document.mark]

/-- The fields of a table that can be written and read back are printable. -/
theorem Writable.printable
    {N : Nat} {table : List (List Bytes)}
    (h : Writable settings N table)
    (utf8 : Utf8Cpp)
    {row : List Bytes} (hrow : row ∈ table)
    {f : Bytes} (hf : f ∈ row) :
    Printable utf8 settings f := by
  refine ⟨(utf8.is_valid_iff f).mpr (h.valid row hrow f hf), ?_⟩
  intro hnever
  rcases h.quoting with hq | hq <;> rw [hq] at hnever <;> cases hnever

end Table

end CsvWriter

/-- **Writing a table and reading it back is the identity**, for every way of
handing the rows to the writer and all settings that quote. -/
theorem readCSV_writeTable
    (utf8 : Utf8Cpp) {settings : CsvSettings} {N : Nat}
    {names : CsvWriter.RowCalls × List Bytes}
    {rows : List (CsvWriter.RowCalls × List Bytes)}
    (h : CsvWriter.Writable settings N ((names :: rows).map Prod.snd))
    (destination_i : Nat) :
    ∃ w t,
      (CsvWriter.writeTable utf8 destination_i names rows).run
          (CsvWriter.init settings) = .ok () w ∧
      readCSV w.output settings.fieldSep = .ok t ∧
      t.Shows N ((names :: rows).map Prod.snd) := by
  obtain ⟨w, hwrite, houtput⟩ :=
    CsvWriter.writeTable_run h.columns_pos
      (fun row hrow => h.width row.2 (List.mem_map_of_mem hrow))
      (fun row hrow f hf => h.printable utf8 (List.mem_map_of_mem hrow) hf)
      destination_i
  have hanswer :=
    Document.answer_encode h.separator h.wellFormed h.asciiStart
  have hshows := h.wellFormed.shows
  rw [CsvWriter.contents_documentOf] at hshows
  rw [← houtput] at hanswer
  exact ⟨w, _, hwrite, readCSV_eq_ok_iff.mpr hanswer, hshows⟩

/-- A header and one row with a quote, a line end and an empty field. -/
theorem readCSV_writeTable_example :
    ∃ w t,
      (CsvWriter.writeTable leanUtf8 1 (.together, [[0x61], [0x62]])
          [(.fieldByField, [[0x22, 0x0D, 0x0A, 0x3B], []])]).run
          (CsvWriter.init CsvWriter.TicketMatic) = .ok () w ∧
      readCSV w.output CsvWriter.TicketMatic.fieldSep = .ok t ∧
      t.Shows 2 [[[0x61], [0x62]], [[0x22, 0x0D, 0x0A, 0x3B], []]] :=
  readCSV_writeTable leanUtf8
    { separator := by decide
      quoting := by decide
      columns_pos := by decide
      columns_le := by decide
      rows_ne := by decide
      cells_lt := by decide
      width := by decide
      valid := fun row hrow f hf => Utf8.exists_encode_of_ascii <| by
        intro b hb
        fin_cases hrow <;> fin_cases hf <;> fin_cases hb <;> decide
      ascii_start := by
        intro b hb
        obtain rfl := Option.some.inj hb
        decide
      not_empty := by decide } 1

end Bren
end Brenlib
