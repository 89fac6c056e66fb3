import Brenlib.Bren.CsvText
import Brenlib.Bren.ReadCSVRefinement

/-!
# What `readCSV` returns for a well-formed document

The scan of a document is known from its text, and the reader answers like the
scanner, so the table it returns is that of the records of the document.

**Results.**  For a well-formed document whose first field starts with an ASCII
byte:
* `readCSV_encode`: the table shows the contents of the fields, whichever
  encodings and line ends were chosen;
* `readCSV_encodeOpen_asciiStart_iff`: without the last line end the same table is returned
  exactly when the last field is not in quotes, or its absence makes no
  difference.
-/

namespace Brenlib
namespace Bren

open Csv PaddedRows

/-- The reader returns a table exactly when the scan calls for it. -/
theorem readCSV_eq_ok_iff
    {text : Bytes} {sep : Byte} {t : Table Bytes} :
    readCSV text sep = .ok t ↔ (scan sep text).answer = .ok t := by
  rw [← readCSV_eq_answer]
  cases readCSV text sep with
  | error e =>
      simp [Except.mapError]
  | ok t' =>
      simp [Except.mapError]

/-- The reader throws an exception of a class exactly when the scan calls for it. -/
theorem readCSV_eq_error_iff
    {text : Bytes} {sep : Byte} {k : ExceptionClass} :
    (∃ what, readCSV text sep = .error ⟨k, what⟩) ↔
      (scan sep text).answer = .error k := by
  rw [← readCSV_eq_answer]
  cases readCSV text sep with
  | error e =>
      obtain ⟨kind, what⟩ := e
      simp [Except.mapError]
  | ok t' =>
      simp [Except.mapError]

namespace Csv

namespace Layout

/-- Complete records and the fields of the one begun last, without a fault. -/
def ofRecords (records : List (List Bytes)) (current : List Bytes) : Layout :=
  { records := records, current := current, faulty := false }

theorem foldl_push_fieldTokens
    (records : List (List Bytes)) (current fs : List Bytes) :
    (fs.map Token.field).foldl push (ofRecords records current) =
      ofRecords records (current ++ fs) := by
  induction fs generalizing current with
  | nil =>
      simp
  | cons f fs ih =>
      have hpush :
          (ofRecords records current).push (.field f) =
            ofRecords records (current ++ [f]) := rfl
      rw [List.map_cons, List.foldl_cons, hpush, ih]
      simp

theorem dropLast_append_getLastD
    {row : List Bytes} (hrow : row ≠ []) :
    row.dropLast ++ [row.getLastD []] = row := by
  rw [List.getLastD_eq_getLast?, List.getLast?_eq_getLast_of_ne_nil hrow]
  exact List.dropLast_append_getLast hrow

/-- The fields of a record that is not complete yet. -/
theorem ofTokens_append_fields
    {before : List Token} {records : List (List Bytes)}
    (h : ofTokens before = ofRecords records [])
    (fs : List Bytes) :
    ofTokens (before ++ fs.map Token.field) = ofRecords records fs := by
  rw [ofTokens, List.foldl_append]
  rw [ofTokens] at h
  rw [h, foldl_push_fieldTokens, List.nil_append]

theorem ofTokens_append_fieldTokens
    {before : List Token} {records : List (List Bytes)}
    (h : ofTokens before = ofRecords records [])
    (contents : List Bytes) :
    ofTokens (before ++ Scan.fieldTokens contents) =
      ofRecords records contents.dropLast :=
  ofTokens_append_fields h contents.dropLast

/-- The tokens of records that are not empty are grouped into these records. -/
theorem ofTokens_tokens
    (rows : List (List Bytes))
    (hne : ∀ row ∈ rows, row ≠ []) :
    ofTokens (tokens rows) = ofRecords rows [] := by
  induction rows using List.reverseRecOn with
  | nil =>
      rfl
  | append_singleton rows row ih =>
      have hrow : row ≠ [] := hne row (by simp)
      have hlast := dropLast_append_getLastD hrow
      have htokens :
          tokens (rows ++ [row]) =
            tokens rows ++ Scan.fieldTokens row ++ [.record (row.getLastD [])] := by
        simp [tokens, Scan.recordTokens]
      rw [htokens, ofTokens_append_singleton,
        ofTokens_append_fieldTokens (ih fun r hr => hne r (by simp [hr]))]
      change ofRecords (rows ++ [row.dropLast ++ [row.getLastD []]]) [] = _
      rw [hlast]

/-- Records of `N` fields within the limits can be accepted. -/
theorem accepted_ofRecords
    {N : Nat} {records : List (List Bytes)} {current : List Bytes}
    (hwidth : ∀ r ∈ records, r.length = N)
    (hN : N ≤ 65534)
    (hcells : (records.length + if current = [] then 0 else 1) * N < 2 ^ 32)
    (hcurrent : current.length < N) :
    (ofRecords records current).Accepted := by
  by_cases hrec : records = []
  · subst hrec
    exact ⟨.inl rfl, by simp [Malformed, ofRecords]⟩
  · obtain ⟨hdr, rest, hcons⟩ := List.exists_cons_of_ne_nil hrec
    have hw : (ofRecords records current).width = N := by
      have hhdr := hwidth hdr (by simp [hcons])
      simpa [width, ofRecords, hcons] using hhdr
    refine ⟨.inr ⟨?_, ?_⟩, ?_⟩
    · rw [hw]
      omega
    · rw [hw, Nat.mul_comm]
      exact hcells
    · rintro (hfaulty | ⟨-, ⟨r, hr, hlt⟩ | hle⟩)
      · cases hfaulty
      · rw [hw, hwidth r hr] at hlt
        omega
      · rw [hw] at hle
        exact absurd hcurrent (not_lt.mpr hle)

/-- The table of complete records shows them. -/
theorem table_ofRecords_shows
    {N : Nat} {records : List (List Bytes)}
    (hrec : records ≠ [])
    (hwidth : ∀ r ∈ records, r.length = N)
    (hacc : (ofRecords records []).Accepted) :
    (ofRecords records []).table.Shows N records := by
  have hrec' : (ofRecords records []).records ≠ [] := hrec
  obtain ⟨hdr, rest, hcons⟩ := List.exists_cons_of_ne_nil hrec
  have hw : (ofRecords records []).width = N := by
    have hhdr := hwidth hdr (by simp [hcons])
    simpa [width, ofRecords, hcons] using hhdr
  have hcols := hacc.cols_toNat hrec'
  rw [hw] at hcols
  have hholds := hacc.holdsRows hrec'
  have hbegun : (ofRecords records []).begun = records.length := by
    simp [begun, ofRecords]
  rw [hbegun] at hholds
  have hshows := hholds.shows (fun r hr => by rw [hcols, hwidth r hr]) (by
    rw [hcols, table_eq hrec', hw]
    simp [rows, ofRecords]
    rfl)
  rwa [hcols] at hshows

/-- Leaving out the last field of the last record makes no difference to the table exactly
when the field is empty and the row is begun without it. -/
theorem table_push_record_eq_iff
    {l : Layout} {f : Bytes}
    (hshort : l.records ≠ [] → l.current.length < l.width)
    (hacc : (l.push (.record f)).Accepted) :
    l.table = (l.push (.record f)).table ↔
      f = [] ∧ l.current ≠ [] ∧ l.records ≠ [] := by
  have hfull : (l.push (.record f)).records ≠ [] := by simp [push]
  by_cases hrec : l.records = []
  · have hcols := hacc.cols_toNat hfull
    have hwidth : (l.push (.record f)).width = l.current.length + 1 := by
      simp [push, width, hrec]
    rw [table_of_no_record hrec]
    simp only [hrec, ne_eq, not_true_eq_false, and_false, iff_false]
    intro heq
    rw [← heq, hwidth] at hcols
    simp [Table.empty] at hcols
  · have hlt := hshort hrec
    have hrows : (l.push (.record f)).rows = l.records ++ [l.current ++ [f]] := by
      simp [push, rows]
    rw [table_eq hrec, table_eq hfull, width_push hrec, hrows, rows]
    simp only [Table.mk.injEq, true_and, flat_append, List.append_cancel_left_eq, flat_cons,
      flat_nil, List.append_nil]
    obtain ⟨k, hk⟩ : ∃ k, l.width - l.current.length = k + 1 :=
      ⟨l.width - l.current.length - 1, by omega⟩
    have hk' : l.width - (l.current ++ [f]).length = k := by
      rw [List.length_append, List.length_singleton]
      omega
    by_cases hcur : l.current = []
    · simp [hcur, pad, List.rightpad]
    · simp only [hcur, if_false, flat_cons, flat_nil, List.append_nil, pad, List.rightpad, hk,
        hk', List.replicate_succ, List.append_assoc, List.append_cancel_left_eq,
        List.singleton_append, List.cons.injEq, and_true, hrec, ne_eq, not_false_eq_true]
      exact eq_comm

/-- Leaving out the last entry of the last row makes no difference to the table
exactly when that entry is empty and the row is begun without it. -/
theorem table_dropLast_eq_iff
    {N : Nat} {rows : List (List Bytes)} {last : List Bytes}
    (hpos : 1 ≤ N)
    (hwidth : ∀ r ∈ rows ++ [last], r.length = N)
    (hacc : (ofRecords (rows ++ [last]) []).Accepted) :
    (ofRecords rows last.dropLast).table = (ofRecords (rows ++ [last]) []).table ↔
      last.getLastD [] = [] ∧ rows ≠ [] ∧ 2 ≤ N := by
  have hlen : last.length = N := hwidth last (by simp)
  have hlast : last ≠ [] := by
    rintro rfl
    simp at hlen
    omega
  have hpush :
      (ofRecords rows last.dropLast).push (.record (last.getLastD [])) =
        ofRecords (rows ++ [last]) [] := by
    change ofRecords (rows ++ [last.dropLast ++ [last.getLastD []]]) [] = _
    rw [dropLast_append_getLastD hlast]
  have hshort :
      (ofRecords rows last.dropLast).records ≠ [] →
        (ofRecords rows last.dropLast).current.length <
          (ofRecords rows last.dropLast).width := by
    intro hrows
    obtain ⟨hdr, rest, rfl⟩ := List.exists_cons_of_ne_nil hrows
    change last.dropLast.length < hdr.length
    rw [hwidth hdr (by simp), List.length_dropLast]
    omega
  have hmany : last.dropLast ≠ [] ↔ 2 ≤ N := by
    rw [← List.length_pos_iff, List.length_dropLast]
    omega
  rw [← hpush] at hacc ⊢
  rw [table_push_record_eq_iff hshort hacc]
  change _ ∧ last.dropLast ≠ [] ∧ rows ≠ [] ↔ _
  rw [hmany, and_comm (a := 2 ≤ N)]

end Layout

namespace Document

section Answer

variable {sep : Byte} {N : Nat} {d : Document}

theorem WellFormed.contents_ne
    (h : d.WellFormed sep N) :
    d.contents ≠ [] := by
  simpa [contents] using h.records_ne

theorem WellFormed.contents_width
    (h : d.WellFormed sep N) :
    ∀ row ∈ d.contents, row.length = N := by
  intro row hrow
  obtain ⟨r, hr, rfl⟩ := List.mem_map.mp hrow
  simpa [Record.contents] using h.width r hr

theorem WellFormed.accepted
    (h : d.WellFormed sep N) :
    (Layout.ofRecords d.contents []).Accepted :=
  Layout.accepted_ofRecords h.contents_width h.columns_le
    (by simpa [contents] using h.cells_lt) h.columns_pos

/-- The table that shows the contents of a document. -/
def table (d : Document) : Table Bytes :=
  (Layout.ofRecords d.contents []).table

theorem WellFormed.shows
    (h : d.WellFormed sep N) :
    d.table.Shows N d.contents :=
  Layout.table_ofRecords_shows h.contents_ne h.contents_width h.accepted

/-- The scan of a document calls for its table. -/
theorem answer_encode
    (hsep : Separator sep)
    (h : d.WellFormed sep N)
    (hstart : d.AsciiStart) :
    (scan sep (d.encode sep)).answer = .ok d.table := by
  obtain ⟨m, hm, hscan⟩ := scan_encode hsep h hstart
  have hne : ∀ row ∈ d.contents, row ≠ [] := by
    intro row hrow hnil
    have hlen := h.contents_width row hrow
    have hpos := h.columns_pos
    simp [hnil] at hlen
    omega
  have hrun : Layout.run (tokens d.contents) = .ok (.ofRecords d.contents []) :=
    (Layout.run_eq_ok_iff _ _).mpr
      ⟨(Layout.ofTokens_tokens _ hne).symm, h.accepted.within, h.accepted.shape⟩
  rw [hscan, Scan.answer_of_run hrun]
  rcases hm with rfl | ⟨-, rfl⟩ <;> rfl

/-- The scan stops behind the last field: what was read before its record, and
where in the record. -/
theorem run_encodeOpen
    (hsep : Separator sep)
    (h : d.WellFormed sep N)
    (hstart : d.AsciiStart)
    {rs : List Record} {r : Record}
    (hlast : d.records = rs ++ [r]) :
    Layout.run (scan sep (d.encodeOpen sep)).out =
      .ok (.ofRecords (rs.map Record.contents) r.contents.dropLast) := by
  have hmem : r ∈ d.records := by simp [hlast]
  have hcontents : d.contents = rs.map Record.contents ++ [r.contents] := by
    simp [contents, hlast]
  have hwidth : ∀ row ∈ rs.map Record.contents, row.length = N :=
    fun row hrow => h.contents_width row (by simp [hcontents, hrow])
  have hr : r.contents.length = N := h.contents_width _ (by simp [hcontents])
  have hpos := h.columns_pos
  have hne : ∀ row ∈ rs.map Record.contents, row ≠ [] := by
    intro row hrow hnil
    have hlen := hwidth row hrow
    simp [hnil] at hlen
    omega
  have hcells := h.cells_lt
  rw [hlast, List.length_append, List.length_singleton] at hcells
  have hacc :
      (Layout.ofRecords (rs.map Record.contents) r.contents.dropLast).Accepted := by
    refine Layout.accepted_ofRecords hwidth h.columns_le ?_ ?_
    · refine lt_of_le_of_lt (Nat.mul_le_mul_right _ ?_) hcells
      rw [List.length_map]
      split <;> omega
    · rw [List.length_dropLast, hr]
      omega
  rw [scan_encodeOpen hsep h hstart hlast]
  refine (Layout.run_eq_ok_iff _ _).mpr ⟨?_, hacc.within, hacc.shape⟩
  exact (Layout.ofTokens_append_fieldTokens (Layout.ofTokens_tokens _ hne) _).symm

/-- The last field of a document. -/
def lastField (d : Document) : Option Field :=
  d.records.getLast?.bind fun r => r.fields.getLast?

theorem lastField_eq
    {rs : List Record} {r : Record}
    (hlast : d.records = rs ++ [r]) :
    d.lastField = r.fields.getLast? := by
  simp [lastField, hlast]

/-- Behind a bare field the end of the data still ends the record. -/
theorem answer_encodeOpen_of_bare
    (hsep : Separator sep)
    (h : d.WellFormed sep N)
    (hstart : d.AsciiStart)
    (hbare : ∀ fd ∈ d.lastField, fd.quoted = false) :
    (scan sep (d.encodeOpen sep)).answer = .ok d.table := by
  obtain ⟨rs, r, hlast⟩ := List.eq_nil_or_concat'  d.records |>.resolve_left h.records_ne
  have hmem : r ∈ d.records := by simp [hlast]
  have hrun := run_encodeOpen hsep h hstart hlast
  have hscan := scan_encodeOpen hsep h hstart hlast
  have hmode :
      Scan.fieldsEnd (.start rs.isEmpty) r.fields = .afterSep ∨
        Scan.fieldsEnd (.start rs.isEmpty) r.fields = .bare := by
    rcases Scan.inRecord_fieldsEnd (m := .start rs.isEmpty)
      (h.not_empty r hmem) with hm | hm | hm
    · exact .inl hm
    · exact .inr hm
    · obtain ⟨fd, hfd, hq⟩ := (Scan.fieldsEnd_eq_quoteSeen (.start _)).mp hm
      rw [← lastField_eq hlast] at hfd
      simp [hbare fd hfd] at hq
  have hcontents : d.contents = rs.map Record.contents ++ [r.contents] := by
    simp [contents, hlast]
  have hne : r.contents ≠ [] := by
    intro hnil
    have hlen := h.contents_width r.contents (by simp [hcontents])
    have hpos := h.columns_pos
    simp [hnil] at hlen
    omega
  have haccept :
      (Layout.ofRecords (rs.map Record.contents) r.contents.dropLast).accept
          (.record (r.contents.getLastD [])) =
        .ok (.ofRecords d.contents []) := by
    have hpush :
        (Layout.ofRecords (rs.map Record.contents) r.contents.dropLast).push
            (.record (r.contents.getLastD [])) =
          .ofRecords d.contents [] := by
      rw [hcontents, ← Layout.dropLast_append_getLastD hne]
      simp [Layout.push, Layout.ofRecords]
    obtain ⟨-, hw, hm⟩ := (Layout.run_eq_ok_iff _ _).mp hrun
    rw [Layout.accept_eq hw hm, hpush]
    simp [h.accepted.within, h.accepted.shape]
  have hf : (scan sep (d.encodeOpen sep)).f = r.contents.getLastD [] := by
    rw [hscan]
  rw [Scan.answer_of_run hrun, Scan.finish, hf, haccept]
  rcases hmode with hm | hm <;> rw [hscan] <;> simp only [hm] <;> rfl

/-- Behind a closing quote the record begun is left as it is. -/
theorem answer_encodeOpen_of_quoted
    (hsep : Separator sep)
    (h : d.WellFormed sep N)
    (hstart : d.AsciiStart)
    (hquoted : ∃ fd ∈ d.lastField, fd.quoted = true)
    {rs : List Record} {r : Record}
    (hlast : d.records = rs ++ [r]) :
    (scan sep (d.encodeOpen sep)).answer =
      .ok (Layout.ofRecords (rs.map Record.contents) r.contents.dropLast).table := by
  rw [lastField_eq hlast] at hquoted
  have hmode := (Scan.fieldsEnd_eq_quoteSeen (.start rs.isEmpty)).mpr hquoted
  rw [Scan.answer_of_run (run_encodeOpen hsep h hstart hlast), Scan.finish,
    scan_encodeOpen hsep h hstart hlast, hmode]

end Answer

end Document

end Csv

section Decoding

variable {sep : Byte} {N : Nat} {d : Document}

/-- **The whole grammar is decoded exactly**: the reader returns a table with the
columns, the rows and the contents of the document. -/
theorem readCSV_encode
    (hsep : Separator sep)
    (h : d.WellFormed sep N)
    (hstart : d.AsciiStart) :
    ∃ t,
      readCSV (d.encode sep) sep = .ok t ∧
      t.Shows N d.contents :=
  ⟨d.table, readCSV_eq_ok_iff.mpr (Document.answer_encode hsep h hstart), h.shows⟩

/-- The records `id`, `a;\r\n"` and the empty string, `5"`, with a byte order mark,
both encodings and two kinds of line end. -/
def mixedDocument : Document where
  bom := true
  records :=
    [ { fields :=
          [⟨false, [0x69, 0x64]⟩, ⟨true, [0x61, 0x3B, 0x0D, 0x0A, 0x22]⟩]
        lineEnd := .crlf },
      { fields := [⟨true, []⟩, ⟨false, [0x35, 0x22]⟩]
        lineEnd := .cr } ]

theorem readCSV_encode_mixedDocument :
    ∃ t,
      readCSV (mixedDocument.encode 0x3B) 0x3B = .ok t ∧
      t.Shows 2 mixedDocument.contents :=
  readCSV_encode (by decide) (by decide) (by decide)

/-- The last line end is optional exactly for a last field that is not in quotes, or
that is empty and not the first one of a data record. -/
theorem readCSV_encodeOpen_asciiStart_iff
    (hsep : Separator sep)
    (h : d.WellFormed sep N)
    (hstart : d.AsciiStart) :
    (∃ t,
      readCSV (d.encode sep) sep = .ok t ∧
      readCSV (d.encodeOpen sep) sep = .ok t) ↔
      ∀ fd ∈ d.lastField,
        fd.quoted = false ∨
          (fd.content = [] ∧ 2 ≤ d.records.length ∧ 2 ≤ N) := by
  have hfull := Document.answer_encode hsep h hstart
  obtain ⟨rs, r, hlast⟩ :=
    List.eq_nil_or_concat' d.records |>.resolve_left h.records_ne
  have hcontents : d.contents = rs.map Record.contents ++ [r.contents] := by
    simp [Document.contents, hlast]
  have hfields : r.fields ≠ [] := by
    intro hnil
    have hwidth := h.width r (by simp [hlast])
    have hpos := h.columns_pos
    simp [hnil] at hwidth
    omega
  obtain ⟨fds, fd, hfd⟩ :=
    List.eq_nil_or_concat' r.fields |>.resolve_left hfields
  have hlastField : d.lastField = some fd := by
    rw [Document.lastField_eq hlast, hfd, List.getLast?_concat]
  have hcontent : r.contents.getLastD [] = fd.content := by
    simp [Record.contents, hfd]
  simp only [readCSV_eq_ok_iff, hfull, hlastField, Option.mem_some_iff,
    forall_eq', Except.ok.injEq, exists_eq_left']
  cases hquoted : fd.quoted with
  | false =>
      have hopen :=
        Document.answer_encodeOpen_of_bare hsep h hstart
          (by simpa [hlastField] using hquoted)
      simp [hopen]
  | true =>
      have hopen :=
        Document.answer_encodeOpen_of_quoted hsep h hstart
          ⟨fd, by simp [hlastField], hquoted⟩ hlast
      have hwidth := h.contents_width
      have hacc := h.accepted
      rw [hcontents] at hwidth hacc
      have heq :=
        Layout.table_dropLast_eq_iff h.columns_pos hwidth hacc
      have hrows : rs.map Record.contents ≠ [] ↔ 2 ≤ d.records.length := by
        rw [hlast, List.length_append, List.length_singleton, ne_eq,
          List.map_eq_nil_iff, ← List.length_eq_zero_iff]
        omega
      rw [hopen, Except.ok.injEq, Document.table, hcontents, heq, hcontent, hrows]
      simp

end Decoding

end Bren
end Brenlib
