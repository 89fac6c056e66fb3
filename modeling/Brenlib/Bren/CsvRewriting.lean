import Brenlib.Bren.CsvRoundTrip
import Brenlib.Bren.ReadCSVLoss

/-!
# Writing a table that has been read

A text in UTF-8 is cut only at ASCII bytes, and the bytes that are skipped at its start are
whole characters.  So the fields of a scan are in UTF-8 again (`encoded_scan`), which the
writer asks for.  A record that is shorter than the header is written with its empty cells.

**Result.**  `readCSV_rewritten`: a table that has been read from a text in UTF-8 can be
written, with any separator, and `readCSV` then returns the same table.
-/

namespace Brenlib
namespace Bren

open Csv PaddedRows

namespace Csv

/-- Bytes in UTF-8. -/
def Encoded (f : Bytes) : Prop :=
  ∃ cs, f = Utf8.encode cs

theorem encoded_nil : Encoded [] :=
  ⟨[], rfl⟩

theorem Encoded.append
    {f : Bytes} (h : Encoded f) (c : Char) :
    Encoded (f ++ String.utf8EncodeChar c) := by
  obtain ⟨cs, rfl⟩ := h
  exact ⟨cs ++ [c], by rw [Utf8.encode_append, Utf8.encode, Utf8.encode, List.flatMap_singleton]⟩

namespace Scan

/-- The contents of the fields that have been reported. -/
def contents (σ : Scan) : List Bytes :=
  σ.out.filterMap Token.content

/-- All fields have a property, the one begun too. -/
def Fields (P : Bytes → Prop) (σ : Scan) : Prop :=
  P σ.f ∧ ∀ f ∈ σ.contents, P f

section Steps

variable {P : Bytes → Prop} {sep b : Byte} {σ τ : Scan}

/-- A token that reports the field begun. -/
theorem Fields.report
    {token : Token}
    (h : σ.Fields P)
    (hnil : P [])
    (htoken : token.content = some σ.f)
    (hf : τ.f = [])
    (hout : τ.out = σ.out ++ [token]) :
    τ.Fields P := by
  refine ⟨by rw [hf]; exact hnil, fun f hmem => ?_⟩
  rw [contents, hout, List.filterMap_append, List.mem_append] at hmem
  obtain hmem | hmem := hmem
  · exact h.2 f hmem
  · simp only [List.filterMap_cons, htoken, List.filterMap_nil, List.mem_singleton] at hmem
    rw [hmem]
    exact h.1

theorem Fields.congr
    (h : σ.Fields P)
    (hf : P τ.f)
    (hcontents : τ.contents = σ.contents) :
    τ.Fields P :=
  ⟨hf, by rw [hcontents]; exact h.2⟩

variable (hnil : P []) (hpush : P (σ.f ++ [b])) (h : σ.Fields P)
include hnil hpush h

theorem fields_atStart
    (first : Bool) :
    (atStart sep first σ b).Fields P := by
  unfold atStart
  split_ifs
  · exact h
  · exact h.congr h.1 rfl
  · exact h.congr hnil rfl
  · exact h.report hnil rfl rfl rfl
  · exact h.congr hpush rfl

theorem fields_inField :
    (inField sep σ b).Fields P := by
  unfold inField
  split_ifs
  · exact h.report hnil rfl rfl rfl
  · exact h.report hnil rfl rfl rfl
  · exact h.congr hpush rfl

omit hpush in
/-- A byte keeps what it can be appended with. -/
theorem fields_step
    (hpush : ∀ f, P f → P (f ++ [b])) :
    (step sep σ b).Fields P := by
  have hf := hpush σ.f h.1
  unfold step
  split
  · exact fields_atStart hnil hf h _
  · split_ifs
    · exact h.congr h.1 rfl
    · exact fields_atStart (σ := { σ with mode := .start false }) hnil hf (h.congr h.1 rfl) _
  · unfold afterEmpty
    split_ifs
    · exact h.congr h.1 rfl
    · refine fields_atStart (σ := { mode := .start false, f := [], out := σ.out ++ [.fault] })
        hnil (hpush [] hnil) (h.congr hnil ?_) _
      simp [contents, Token.content]
  · unfold atField
    split_ifs
    · exact h.report hnil rfl rfl rfl
    · exact h.congr hnil rfl
    · exact h.report hnil rfl rfl rfl
    · exact h.congr hf rfl
  · exact fields_inField hnil hf h
  · unfold inQuotes
    split_ifs
    · exact h
    · exact h.congr h.1 rfl
    · exact h.congr hf (by simp [contents, Token.content])
    · exact h.congr hf rfl
  · unfold afterQuote
    split_ifs
    · exact h.congr hf rfl
    · exact fields_inField hnil hf h

end Steps

/-- Inside a field, where bytes of the upper half are kept. -/
def Inside (σ : Scan) : Prop :=
  σ.mode = .bare ∨ ∃ cr, σ.mode = .quoted false cr

/-- A byte that has no meaning of its own outside the start of the text. -/
structure Plain (sep b : Byte) : Prop where
  not_end : ¬ endsRecord b
  ne_quote : b ≠ Byte.quote
  ne_sep : b ≠ sep

section High

variable {sep b : Byte} {σ : Scan}

theorem step_inside
    (hb : Plain sep b)
    (h : σ.Inside) :
    (step sep σ b).Inside ∧ (step sep σ b).f = σ.f ++ [b] ∧ (step sep σ b).out = σ.out := by
  have heof : b ≠ Byte.eof := fun h => hb.not_end (.inr (.inr h))
  obtain hmode | ⟨cr, hmode⟩ := h
  · have hstep : step sep σ b = σ.push b := by
      simp only [step, hmode, inField, if_neg hb.not_end, hb.ne_sep, false_and, if_false]
    rw [hstep]
    exact ⟨.inl rfl, rfl, rfl⟩
  · have hstep : step sep σ b =
        { mode := .quoted false (b = Byte.cr), f := σ.f ++ [b], out := σ.out } := by
      simp [step, hmode, inQuotes, hb.ne_quote, heof]
    rw [hstep]
    exact ⟨.inr ⟨_, rfl⟩, rfl, rfl⟩

theorem scan_inside
    {bs : Bytes}
    (hbs : ∀ b ∈ bs, Plain sep b)
    (h : σ.Inside) :
    (scanFrom sep σ bs).f = σ.f ++ bs ∧ (scanFrom sep σ bs).out = σ.out := by
  induction bs generalizing σ with
  | nil =>
      exact ⟨(List.append_nil _).symm, rfl⟩
  | cons b bs ih =>
      obtain ⟨hin, hf, hout⟩ := step_inside (hbs b List.mem_cons_self) h
      obtain ⟨hf', hout'⟩ := ih (fun c hc => hbs c (List.mem_cons_of_mem b hc)) hin
      rw [scanFrom_cons, hf', hout', hf, hout, List.append_assoc]
      exact ⟨rfl, rfl⟩

/-- In front of the first field, where bytes of the upper half are skipped. -/
def Skips (σ : Scan) : Prop :=
  σ.mode = .start true ∨ ∃ cr, σ.mode = .quoted true cr

theorem scan_skips
    {bs : Bytes}
    (hbs : ∀ b ∈ bs, skipped b)
    (h : σ.Skips) :
    scanFrom sep σ bs = σ := by
  induction bs with
  | nil =>
      rfl
  | cons b bs ih =>
      have hb := hbs b List.mem_cons_self
      have hstep : step sep σ b = σ := by
        obtain hmode | ⟨cr, hmode⟩ := h
        · simp only [step, hmode, atStart, hb, and_self, if_true]
        · simp only [step, hmode, inQuotes, hb, and_self, if_true]
      rw [scanFrom_cons, hstep]
      exact ih fun c hc => hbs c (List.mem_cons_of_mem b hc)

/-- Elsewhere such a byte is one more byte of the field, or the first one behind an empty
line. -/
theorem step_plain
    (hb : Plain sep b)
    (h : ¬ σ.Skips) :
    (step sep σ b).Inside ∧ (step sep σ b).contents = σ.contents ∧
      ((step sep σ b).f = σ.f ++ [b] ∨ (step sep σ b).f = [b]) := by
  have hlf : b ≠ Byte.lf := fun h => hb.not_end (.inr (.inl h))
  have hstart (τ : Scan) : atStart sep false τ b = τ.push b := by
    simp only [atStart, if_neg hb.not_end, if_neg hb.ne_quote, if_neg hb.ne_sep,
      Bool.false_eq_true, false_and, if_false]
  have hinside (hin : σ.Inside) :
      (step sep σ b).Inside ∧ (step sep σ b).contents = σ.contents ∧
        ((step sep σ b).f = σ.f ++ [b] ∨ (step sep σ b).f = [b]) := by
    obtain ⟨hin', hf, hout⟩ := step_inside hb hin
    exact ⟨hin', congrArg (List.filterMap Token.content) hout, .inl hf⟩
  cases hmode : σ.mode with
  | start first =>
      cases first with
      | true => exact absurd (.inl hmode) h
      | false =>
          simp only [step, hmode, hstart]
          exact ⟨.inl rfl, rfl, .inl rfl⟩
  | afterCr =>
      simp only [step, hmode, if_neg hlf, hstart]
      exact ⟨.inl rfl, rfl, .inl rfl⟩
  | emptyLine cr =>
      simp only [step, hmode, afterEmpty, hlf, and_false, if_false, hstart]
      exact ⟨.inl rfl, by simp [contents, push, Token.content], .inr rfl⟩
  | afterSep =>
      simp only [step, hmode, atField, if_neg hb.not_end, if_neg hb.ne_quote, if_neg hb.ne_sep]
      exact ⟨.inl rfl, rfl, .inl rfl⟩
  | bare => exact hinside (.inl hmode)
  | quoted fresh cr =>
      cases fresh with
      | true => exact absurd (.inr ⟨cr, hmode⟩) h
      | false => exact hinside (.inr ⟨cr, hmode⟩)
  | quoteSeen =>
      simp only [step, hmode, afterQuote, inField, if_neg hb.ne_quote, if_neg hb.not_end,
        hb.ne_sep, false_and, if_false]
      exact ⟨.inl rfl, rfl, .inl rfl⟩

/-- The bytes of a character are kept together. -/
theorem scan_plain
    {bs : Bytes}
    (hbs : ∀ b ∈ bs, Plain sep b)
    (hne : bs ≠ [])
    (h : ¬ σ.Skips) :
    (scanFrom sep σ bs).contents = σ.contents ∧
      ((scanFrom sep σ bs).f = σ.f ++ bs ∨ (scanFrom sep σ bs).f = bs) := by
  obtain ⟨b, bs, rfl⟩ := List.exists_cons_of_ne_nil hne
  obtain ⟨hin, hcontents, hf⟩ := step_plain (hbs b List.mem_cons_self) h
  obtain ⟨hf', hout⟩ := scan_inside (fun c hc => hbs c (List.mem_cons_of_mem b hc)) hin
  rw [scanFrom_cons]
  refine ⟨?_, ?_⟩
  · rw [contents, hout]
    exact hcontents
  · rw [hf']
    refine hf.imp (fun hf => ?_) (fun hf => ?_) <;> rw [hf]
    · exact List.append_assoc _ _ _
    · rfl

end High

section Text

variable {sep : Byte} {σ : Scan}

/-- The bytes of a character outside ASCII. -/
theorem skipped_and_plain
    {b : Byte}
    (hsep : sep < 0x80)
    (hhigh : 0x80 ≤ b.toNat)
    (hlow : b.toNat < 0xF8) :
    skipped b ∧ Plain sep b := by
  have hne {c : Byte} (hc : c.toNat < 0x80 ∨ 0xF8 ≤ c.toNat) : b ≠ c := by
    rintro rfl
    omega
  have heof : b ≠ Byte.eof := hne (.inr (by decide))
  refine ⟨⟨heof, (Byte.isHigh_iff b).mpr hhigh⟩, ?_, ?_, ?_⟩
  · rintro (hcr | hlf | hend)
    · exact hne (.inl (by decide)) hcr
    · exact hne (.inl (by decide)) hlf
    · exact heof hend
  · exact hne (.inl (by decide))
  · exact hne (.inl (UInt8.lt_iff_toNat_lt.mp hsep))

/-- A character of the text. -/
theorem encoded_char
    (hsep : sep < 0x80)
    (h : σ.Fields Encoded)
    (c : Char) :
    (scanFrom sep σ (String.utf8EncodeChar c)).Fields Encoded := by
  by_cases hc : c.toNat < 0x80
  · obtain ⟨b, hencode, hb⟩ := Utf8.encodeChar_of_ascii hc
    have hpush (f : Bytes) (hf : Encoded f) : Encoded (f ++ [b]) := by
      rw [← hencode]
      exact hf.append c
    rw [hencode, scanFrom_cons]
    exact fields_step encoded_nil h hpush
  · have hbytes (b : Byte) (hb : b ∈ String.utf8EncodeChar c) : skipped b ∧ Plain sep b :=
      skipped_and_plain hsep (Utf8.le_toNat_of_mem_encodeChar (Nat.le_of_not_lt hc) hb)
        (Utf8.toNat_lt_of_mem_encodeChar hb)
    have hne : String.utf8EncodeChar c ≠ [] := by
      obtain ⟨b, bs, hencode, -⟩ := Utf8.head_encodeChar_of_not_ascii (Nat.le_of_not_lt hc)
      rw [hencode]
      exact List.cons_ne_nil b bs
    by_cases hskips : σ.Skips
    · rw [scan_skips (fun b hb => (hbytes b hb).1) hskips]
      exact h
    · obtain ⟨hcontents, hf⟩ := scan_plain (fun b hb => (hbytes b hb).2) hne hskips
      refine h.congr ?_ hcontents
      obtain hf | hf := hf <;> rw [hf]
      · exact h.1.append c
      · exact encoded_nil.append c

/-- The fields of a text in UTF-8 are in UTF-8. -/
theorem encoded_scan
    (hsep : sep < 0x80)
    (cs : List Char) :
    (scan sep (Utf8.encode cs)).Fields Encoded := by
  have hfrom (σ : Scan) (h : σ.Fields Encoded) :
      (scanFrom sep σ (Utf8.encode cs)).Fields Encoded := by
    induction cs generalizing σ with
    | nil => exact h
    | cons c cs ih =>
        rw [Utf8.encode, List.flatMap_cons, scanFrom_append]
        exact ih _ (encoded_char hsep h c)
  exact hfrom init ⟨encoded_nil, by simp [contents, init]⟩

theorem Fields.closed
    {P : Bytes → Prop}
    (h : σ.Fields P) :
    ∀ f ∈ σ.closed.filterMap Token.content, P f := by
  have hrecord : ∀ f ∈ (σ.out ++ [Token.record σ.f]).filterMap Token.content, P f := by
    intro f hmem
    rw [List.filterMap_append, List.mem_append] at hmem
    obtain hmem | hmem := hmem
    · exact h.2 f hmem
    · simp only [List.filterMap_cons, Token.content, List.filterMap_nil,
        List.mem_singleton] at hmem
      rw [hmem]
      exact h.1
  unfold Scan.closed
  split
  · exact hrecord
  · exact hrecord
  · exact h.2

end Text

end Scan

namespace Layout

variable {l : Layout}

/-- The rows of the table, each filled up with empty cells. -/
def fullRows (l : Layout) : List (List Bytes) :=
  l.rows.map (pad l.width [])

theorem Accepted.width_fullRows
    (h : l.Accepted)
    (hrec : l.records ≠ [])
    {row : List Bytes} (hrow : row ∈ l.fullRows) :
    row.length = l.width := by
  obtain ⟨r, hr, rfl⟩ := List.mem_map.mp hrow
  exact length_pad [] (h.rows_le hrec hr)

theorem Accepted.flat_fullRows
    (h : l.Accepted)
    (hrec : l.records ≠ []) :
    flat l.width [] l.fullRows = flat l.width [] l.rows := by
  rw [flat, fullRows, List.flatMap_map, flat]
  refine List.flatMap_congr fun row hrow => ?_
  exact pad_full [] (length_pad [] (h.rows_le hrec hrow))

theorem Accepted.shows_fullRows
    (h : l.Accepted)
    (hrec : l.records ≠ []) :
    l.table.Shows l.width l.fullRows := by
  have hcols := h.cols_toNat hrec
  have hholds := h.holdsRows hrec
  rw [← length_rows, ← List.length_map (f := pad l.width [])] at hholds
  have hshows := hholds.shows
    (fun row hrow => (h.width_fullRows hrec hrow).trans hcols.symm) (by
      rw [hcols]
      exact (congrArg Table.data_ (table_eq hrec)).trans (h.flat_fullRows hrec).symm)
  rwa [hcols] at hshows

theorem fullRows_ne
    (hrec : l.records ≠ []) :
    l.fullRows ≠ [] := by
  simp [fullRows, rows, hrec]

/-- Laid out as complete records, the rows make the same table. -/
theorem Accepted.table_fullRows
    (h : l.Accepted)
    (hrec : l.records ≠ []) :
    (ofRecords l.fullRows []).table = l.table := by
  have hne := fullRows_ne hrec
  obtain ⟨row, rest, hcons⟩ := List.exists_cons_of_ne_nil hne
  have hwidth : (ofRecords l.fullRows []).width = l.width := by
    have hrow := h.width_fullRows hrec (hcons ▸ List.mem_cons_self)
    simpa [width, ofRecords, hcons] using hrow
  have hrows : (ofRecords l.fullRows []).rows = l.fullRows := by
    simp [rows, ofRecords]
  rw [table_eq (l := ofRecords l.fullRows []) hne, table_eq hrec, hwidth, hrows,
    h.flat_fullRows hrec]

/-- The cells of the rows are fields, or empty. -/
theorem Accepted.mem_fullRows
    (h : l.Accepted)
    (hrec : l.records ≠ [])
    {row : List Bytes} (hrow : row ∈ l.fullRows)
    {f : Bytes} (hf : f ∈ row) :
    f = [] ∨ f ∈ l.fields := by
  refine mem_data_table ?_
  rw [table_eq hrec]
  show f ∈ flat l.width [] l.rows
  rw [← h.flat_fullRows hrec]
  refine List.mem_flatMap.mpr ⟨row, hrow, ?_⟩
  rwa [pad_full [] (h.width_fullRows hrec hrow)]

end Layout

end Csv

namespace Table

/-- A table shows only one list of rows. -/
theorem Shows.unique
    {T : Type} [Inhabited T] {t : Table T} {N : Nat} {rows rows' : List (List T)}
    (h : t.Shows N rows)
    (h' : t.Shows N rows')
    (hwidth : ∀ row ∈ rows, row.length = N)
    (hwidth' : ∀ row ∈ rows', row.length = N) :
    rows = rows' := by
  refine List.ext_getElem (h.row_count.symm.trans h'.row_count) fun i hi hi' => ?_
  have hlen := hwidth _ (List.getElem_mem hi)
  have hlen' := hwidth' _ (List.getElem_mem hi')
  refine List.ext_getElem (hlen.trans hlen'.symm) fun j hj hj' => ?_
  have hrow : (UInt32.ofNat i).toNat = i := by
    refine UInt32.toNat_ofNat_of_lt' ?_
    exact hi.trans (h.row_count ▸ t.rows.toNat_lt)
  have hcolumn : (UInt16.ofNat j).toNat = j := by
    refine UInt16.toNat_ofNat_of_lt' ?_
    exact (hlen ▸ hj).trans (h.columns ▸ t.columns.toNat_lt)
  have hfetch := h.cell (UInt16.ofNat j) (UInt32.ofNat i) rows[i][j] (by
    simp [hrow, hcolumn, hi, hj])
  have hfetch' := h'.cell (UInt16.ofNat j) (UInt32.ofNat i) rows'[i][j] (by
    simp [hrow, hcolumn, hi', hj'])
  rw [hfetch] at hfetch'
  exact (EStateM.Result.ok.inj hfetch').1

end Table

section Rewriting

open CsvWriter

variable {utf8 : Utf8Cpp} {settings : CsvSettings} {N : Nat} {t : Table Bytes} {sep : Byte}
  {cs : List Char} {names : RowCalls × List Bytes} {rows : List (RowCalls × List Bytes)}

/-- **A table that has been read can be written and read again**, with any separator. -/
theorem readCSV_rewritten
    (hsep : sep < 0x80)
    (hread : readCSV (Utf8.encode cs) sep = .ok t)
    (hshows : t.Shows N ((names :: rows).map Prod.snd))
    (hwidth : ∀ row ∈ (names :: rows).map Prod.snd, row.length = N)
    (hstart : ∀ b ∈ (names.2.headD []).head?, b < 0x80)
    (hnew : Separator settings.fieldSep)
    (hquoting : settings.quoting = .always ∨
      settings.quoting = .needed ∧ (N = 1 → ∀ row ∈ (names :: rows).map Prod.snd, [] ∉ row))
    (destination_i : Nat) :
    ∃ w,
      (writeTable utf8 destination_i names rows).run (init settings) = .ok () w ∧
      readCSV w.output settings.fieldSep = .ok t := by
  obtain ⟨haccepted, rfl⟩ := Scan.table_of_answer (readCSV_eq_ok_iff.mp hread)
  set l := Layout.ofTokens (scan sep (Utf8.encode cs)).closed with hl
  have hrec : l.records ≠ [] := by
    intro hnil
    have hcount := hshows.row_count
    rw [Layout.table_of_no_record hnil] at hcount
    cases hcount
  obtain rfl : l.width = N := (haccepted.shows_fullRows hrec).columns.symm.trans hshows.columns
  have hrows : (names :: rows).map Prod.snd = l.fullRows :=
    hshows.unique (haccepted.shows_fullRows hrec) hwidth
      fun row hrow => haccepted.width_fullRows hrec hrow
  have hlength : ((names :: rows).map Prod.snd).length = l.begun := by
    rw [hrows, Layout.fullRows, List.length_map, Layout.length_rows]
  have hwritable : Writable settings l.width ((names :: rows).map Prod.snd) :=
    { separator := hnew
      quoting := hquoting.imp_right And.left
      columns_pos := Nat.zero_lt_of_lt (haccepted.current_lt hrec)
      columns_le := Nat.le_of_lt_succ (haccepted.width_lt hrec)
      rows_ne := List.cons_ne_nil _ _
      cells_lt := by
        rw [hlength, Nat.mul_comm]
        exact haccepted.cells_lt hrec
      width := hwidth
      valid := fun row hrow f hf => by
        rw [hrows] at hrow
        obtain rfl | hfield := haccepted.mem_fullRows hrec hrow hf
        · exact encoded_nil
        · rw [hl, Layout.fields_ofTokens] at hfield
          exact (Scan.encoded_scan hsep cs).closed f hfield
      ascii_start := hstart
      not_empty := fun hone hneeded => by
        obtain halways | ⟨-, hcells⟩ := hquoting
        · rw [halways] at hneeded
          cases hneeded
        · exact hcells hone }
  obtain ⟨w, hwrite, houtput⟩ :=
    writeTable_run hwritable.columns_pos
      (fun row hrow => hwidth row.2 (List.mem_map_of_mem hrow))
      (fun row hrow f hf => hwritable.printable utf8 (List.mem_map_of_mem hrow) hf)
      destination_i
  refine ⟨w, hwrite, readCSV_eq_ok_iff.mpr ?_⟩
  rw [houtput, Document.answer_encode hnew hwritable.wellFormed hwritable.asciiStart,
    Document.table, contents_documentOf, hrows, haccepted.table_fullRows hrec]

/-- The table of `a;b` and the shorter record `c`. -/
def shortTable : Table Bytes :=
  { cols_ := 2, data_ := [[0x61], [0x62], [0x63], []] }

/-- With commas, the shorter record is written with its empty cell. -/
theorem readCSV_rewritten_short :
    readCSV (Utf8.encode ['a', ';', 'b', '\n', 'c', '\n']) 0x3B = .ok shortTable ∧
      ∃ w,
        (writeTable leanUtf8 1 (.together, [[0x61], [0x62]])
            [(.fieldByField, [[0x63], []])]).run
          (init { TicketMatic with fieldSep := 0x2C }) = .ok () w ∧
        readCSV w.output 0x2C = .ok shortTable := by
  have hread : readCSV (Utf8.encode ['a', ';', 'b', '\n', 'c', '\n']) 0x3B = .ok shortTable :=
    readCSV_eq_ok_iff.mpr (by decide)
  have hshows : shortTable.Shows 2 [[[0x61], [0x62]], [[0x63], []]] :=
    Table.HoldsRows.shows (t := shortTable) ⟨by decide, rfl, by decide⟩ (by decide) rfl
  refine ⟨hread, readCSV_rewritten (by decide) hread hshows (by decide) ?_ (by decide)
    (.inr ⟨rfl, fun hone => absurd hone (by decide)⟩) 1⟩
  intro b hb
  obtain rfl := Option.some.inj hb
  decide

end Rewriting

end Bren
end Brenlib
