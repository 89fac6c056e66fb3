import Brenlib.Bren.CsvRoundTrip
import Brenlib.Bren.HeaderedTableLookup

/-!
# From the writer to a lookup by name

A table is written with its header, read back, and its cells are looked up by the names of
their columns.

* `HeaderedTable.fetch`: a cell by its name, and its value.
* `Unread s₀ s₁`, `Served`: the table before its header has been read, and behind it.
* `fetch_written`: whatever lookups there have been, a lookup gives what has been written.
-/

namespace Brenlib
namespace Bren

open TransitionSystem

namespace Table

variable {T : Type} [Inhabited T] {t : Table T} {N : Nat} {rows : List (List T)}

/-- The value in a cell that a table shows. -/
theorem Shows.value_eq
    (h : t.Shows N rows)
    (hholds : HoldsRows t rows.length)
    {column : UInt16} {row : UInt32} {x : T}
    (hcol : column.toNat < N)
    (hcell : rows[row.toNat]?.bind (·[column.toNat]?) = some x) :
    t.value column.toNat row.toNat = x := by
  obtain ⟨fields, hfields, -⟩ := Option.bind_eq_some_iff.mp hcell
  have hrow : row.toNat < rows.length := (List.getElem?_eq_some_iff.mp hfields).1
  have hfetch := h.cell column row x hcell
  rw [fetch_present hholds (by rw [← h.columns] at hcol; exact hcol) hrow] at hfetch
  exact (EStateM.Result.ok.inj hfetch).1

end Table

namespace HeaderedTable

section Fetch

/-- Reading `cell(colname_i, row_i)`. -/
def fetch (colname_i : Bytes) (row_i : UInt32) :
    EStateM StdException HeaderedTable Bytes := do
  let pos ← cell colname_i row_i
  let t ← get
  return t.data_.getD pos default

/-- A client looks up a cell by name, within the limit of 2^32 cells. -/
def Looks (s : HeaderedTable) (l : Bytes × UInt32) (s' : HeaderedTable) : Prop :=
  s.columns.toNat * (l.2.toNat + 1) < 2 ^ 32 ∧ stateOf ((cell l.1 l.2).run s) = s'

variable {s s₀ s₁ s' : HeaderedTable} {hdr hdr₁ : List Bytes} {colname_i : Bytes} {row_i : UInt32}

/-- A table with a header that has been read, and the same cells below it. -/
structure Served (s₀ : HeaderedTable) (hdr : List Bytes) (s : HeaderedTable) : Prop where
  settled : Settled hdr s
  filled : s.hdrs_.entries ≠ []
  below : Below s₀ s

theorem Served.lookup
    (h : Served s₀ hdr s)
    (colname_i : Bytes)
    (hfit : s.columns.toNat * (row_i.toNat + 1) < 2 ^ 32) :
    Looked hdr s colname_i row_i ((cell colname_i row_i).run s) ∧
      Served s₀ hdr (stateOf ((cell colname_i row_i).run s)) := by
  obtain ⟨hdr₁, hsame, hlooked⟩ := h.settled.lookup colname_i hfit
  obtain rfl := hsame h.filled
  obtain ⟨k, hk⟩ := h.settled.header.holds
  exact ⟨hlooked, hlooked.settled, hlooked.filled (.inl h.filled),
    h.below.trans (below_lookup hk.valid colname_i hfit)⟩

/-- A name that the header has stands in the first row. -/
theorem Served.value_zero
    (h : Served s₀ hdr s)
    {column : Nat}
    (hcolumn : hdr[column]? = some colname_i) :
    s.value column 0 = colname_i := by
  rw [← h.settled.header.row, headerRow, List.getElem?_take] at hcolumn
  obtain ⟨-, hcell⟩ := Option.ite_none_right_eq_some.mp hcolumn
  rw [Table.value, Nat.mul_zero, Nat.zero_add, List.getD_eq_getElem?_getD, hcell,
    Option.getD_some]

/-- A lookup gives the value of the cell, in the first row the name itself. -/
theorem Served.fetch_run
    (h : Served s₀ hdr s)
    {column : UInt16}
    (hcolumn : hdr[column.toNat]? = some colname_i)
    (hfit : s.columns.toNat * (row_i.toNat + 1) < 2 ^ 32) :
    ∃ s', (fetch colname_i row_i).run s =
      .ok (if row_i.toNat = 0 then colname_i else s₀.value column.toNat row_i.toNat) s' := by
  obtain ⟨hlooked, hserved⟩ := h.lookup colname_i hfit
  have hanswers := hlooked.answers
  generalize hrun : (cell colname_i row_i).run s = r at hanswers hserved
  cases hanswers with
  | unknown what hname => exact absurd (List.mem_of_getElem? hcolumn) hname
  | @found s₁ _ k hk hk₁ hcols hmax hunique =>
      obtain rfl := (hunique column).mp hcolumn
      rw [stateOf_ok] at hserved
      refine ⟨{ s₁ with toTable := s₁.toTable.resizeTo (max k (row_i.toNat + 1)) }, ?_⟩
      have hvalue : (s₁.toTable.resizeTo (max k (row_i.toNat + 1))).value column.toNat
          row_i.toNat =
            if row_i.toNat = 0 then colname_i else s₀.value column.toNat row_i.toNat := by
        by_cases hzero : row_i.toNat = 0
        · rw [if_pos hzero]
          refine Eq.trans ?_ (hserved.value_zero hcolumn)
          rw [hzero]
        · have hcol : column.toNat < s₀.columns.toNat := by
            rw [← h.below.columns]
            refine lt_of_lt_of_eq (List.getElem?_eq_some_iff.mp hcolumn).1 ?_
            exact h.settled.header.firstRow.length_eq
          rw [if_neg hzero]
          exact hserved.below.value column.toNat row_i.toNat hcol (Nat.one_le_iff_ne_zero.mpr hzero)
      rw [fetch, run_bind_ok hrun, run_bind_ok (EStateM.run_get _), ← hvalue, ← hcols]
      rfl

theorem Served.unknown
    (h : Served s₀ hdr s)
    (hname : colname_i ∉ hdr)
    (hfit : s.columns.toNat * (row_i.toNat + 1) < 2 ^ 32) :
    UnknownColumn s colname_i row_i := by
  have hlooked := (h.lookup colname_i hfit).1
  exact (hlooked.agrees h.settled.header.firstRow.length_eq hfit).2 hname

/-- `cell` behind its first checks. -/
theorem FirstRow.cell_eq
    (h : FirstRow s hdr)
    (colname_i : Bytes) (row_i : UInt32) :
    (cell colname_i row_i).run s =
      if colname_i = [] then
        .error ⟨.invalidArgument, "Given column name is empty"⟩ s
      else if s.hdrs_.entries = [] then
        (readHeaders_ >>= fun _ => find_ colname_i row_i).run s
      else (find_ colname_i row_i).run s := by
  have hrows : ¬ s.rows < 1 := by
    intro hlt
    rw [UInt32.lt_iff_toNat_lt, UInt32.toNat_one, Nat.lt_one_iff] at hlt
    exact h.rows_ne (UInt32.toNat_inj.mp hlt)
  rw [cell, run_bind_ok (EStateM.run_get s), if_neg h.columns_ne, if_neg hrows]
  by_cases hname : colname_i = []
  · simp only [if_pos hname]
    rfl
  · simp only [if_neg hname]
    by_cases hempty : s.hdrs_.entries = []
    · simp only [if_pos hempty]
    · simp only [if_neg hempty]

/-- The first lookup makes the names distinct; a lookup of no name is refused before. -/
theorem exists_served
    (hheader : HasHeader s₀ hdr)
    (hnonempty : [] ∉ hdr)
    (hnew : s₀.hdrs_.entries = []) :
    ∃ hdr' s₁,
      DistinctNames.Conserves candidate hdr hdr' ∧ hdr'.Nodup ∧ (hdr.Nodup → hdr' = hdr) ∧
      Served s₀ hdr' s₁ ∧ [] ∉ hdr' ∧
      (∀ row_i, ∃ what,
        (cell [] row_i).run s₀ = .error ⟨.invalidArgument, what⟩ s₀) ∧
      ∀ colname_i row_i, colname_i ≠ [] →
        (cell colname_i row_i).run s₀ = (cell colname_i row_i).run s₁ := by
  obtain ⟨hdr', hren, hconserves, hnodup, hcases⟩ := readHeaders_run hheader.firstRow
  have hne : [] ∉ hdr' := hren.nonempty hnonempty
  obtain ⟨-, m, hrun, hmaps⟩ := hcases.resolve_right fun h => hne h.1
  have hheader₁ := (hheader.withHeader hren.length_eq).withMap m
  have hbelow := hheader.below_withHeader hren.length_eq
  have hfilled : m.entries ≠ [] := hmaps.filled hheader₁.ne_nil
  refine ⟨hdr', { s₀.withHeader hdr' with hdrs_ := m }, hconserves, hnodup, hren.same,
    ⟨⟨hheader₁, hne, .inr hmaps⟩, hfilled, hbelow.columns, hbelow.value⟩, hne,
    fun row_i => ⟨"Given column name is empty", ?_⟩, fun colname_i row_i hname => ?_⟩
  · rw [hheader.firstRow.cell_eq, if_pos rfl]
  · rw [hheader.firstRow.cell_eq, hheader₁.firstRow.cell_eq, if_neg hname, if_neg hname,
      if_pos hnew, if_neg hfilled, run_bind_ok hrun]

end Fetch

end HeaderedTable

section Pipeline

open Csv CsvWriter HeaderedTable

variable {settings : CsvSettings} {N : Nat}

/-- The table that is read back has its cells laid out in rows. -/
theorem holdsRows_of_wellFormed
    {sep : Byte} {d : Document}
    (h : d.WellFormed sep N) :
    Table.HoldsRows d.table d.contents.length := by
  have hholds := h.accepted.holdsRows h.contents_ne
  have hbegun : (Layout.ofRecords d.contents []).begun = d.contents.length := by
    simp [Layout.begun, Layout.ofRecords]
  rwa [hbegun] at hholds

/-- The first row of a table that shows its rows. -/
theorem hasHeader_of_shows
    {t : Table Bytes} {names : List Bytes} {rows : List (List Bytes)}
    (hshows : t.Shows N (names :: rows))
    (hholds : Table.HoldsRows t (names :: rows).length)
    (hwidth : names.length = N) :
    HasHeader (ofTable t) names := by
  refine ⟨⟨rows.length, hholds⟩, ?_⟩
  have hcols : t.cols_.toNat = N := hshows.columns
  have hle : t.cols_.toNat ≤ t.data_.length := by
    rw [hholds.length_data]
    exact Nat.le_mul_of_pos_right _ (Nat.succ_pos _)
  change t.data_.take t.cols_.toNat = names
  have hlength : (t.data_.take t.cols_.toNat).length = names.length := by
    rw [List.length_take, Nat.min_eq_left hle, hcols, hwidth]
  refine List.ext_getElem hlength fun i hi hi' => ?_
  have hlt : i < t.cols_.toNat := by rwa [hcols, ← hwidth]
  have hsmall : (UInt16.ofNat i).toNat = i :=
    UInt16.toNat_ofNat_of_lt' (hlt.trans t.cols_.toNat_lt)
  have hcell : (names :: rows)[(0 : UInt32).toNat]?.bind (·[(UInt16.ofNat i).toNat]?) =
      some names[i] := by
    rw [hsmall]
    exact List.getElem?_eq_getElem hi'
  have hvalue := hshows.value_eq hholds (by rw [hsmall, ← hcols]; exact hlt) hcell
  rw [hsmall, Table.value, UInt32.toNat_zero, Nat.mul_zero, Nat.zero_add,
    List.getD_eq_getElem?_getD, List.getElem?_eq_getElem (hlt.trans_le hle),
    Option.getD_some] at hvalue
  rw [List.getElem_take, hvalue]

/-- Along lookups: none has read the header yet, or one has. -/
theorem served_of_run
    {s₀ s₁ s : HeaderedTable} {hdr : List Bytes} {lookups : List (Bytes × UInt32)}
    (hserved : Served s₀ hdr s₁)
    (hnoName : ∀ row_i, ∃ what,
      (cell [] row_i).run s₀ = .error ⟨.invalidArgument, what⟩ s₀)
    (hfirst : ∀ colname_i row_i, colname_i ≠ [] →
      (cell colname_i row_i).run s₀ = (cell colname_i row_i).run s₁)
    (hrun : Run Looks s₀ lookups s) :
    s = s₀ ∨ Served s₀ hdr s := by
  refine hrun.invariant (fun s => s = s₀ ∨ Served s₀ hdr s) ?_ (.inl rfl)
  rintro s ⟨colname_i, row_i⟩ s' (rfl | hs) ⟨hfit, rfl⟩
  · by_cases hname : colname_i = []
    · obtain ⟨what, hthrows⟩ := hnoName row_i
      rw [hname, hthrows]
      exact .inl rfl
    · rw [← hserved.below.columns] at hfit
      rw [hfirst colname_i row_i hname]
      exact .inr (hserved.lookup colname_i hfit).2
  · exact .inr (hs.lookup colname_i hfit).2

/-- **What has been written is found by its name.**  A table is written with a header, none
of whose names is empty, and read back.  There are distinct names, those of the header as
far as it has no name twice, such that whatever has been looked up before, a lookup gives
the field that has been written in the row to the column of the name, and one of another
name is refused. -/
theorem fetch_written
    (utf8 : Utf8Cpp)
    {names : RowCalls × List Bytes} {rows : List (RowCalls × List Bytes)}
    (h : Writable settings N ((names :: rows).map Prod.snd))
    (hnonempty : [] ∉ names.2)
    (destination_i : Nat) :
    ∃ w t names',
      (writeTable utf8 destination_i names rows).run (init settings) = .ok () w ∧
      readCSV w.output settings.fieldSep = .ok t ∧
      DistinctNames.Conserves candidate names.2 names' ∧ names'.Nodup ∧
      (names.2.Nodup → names' = names.2) ∧
      ∀ lookups s, Run Looks (ofTable t) lookups s → ∀ (colname_i : Bytes) (row_i : UInt32),
        (∀ (column : UInt16) (fld : Bytes), names'[column.toNat]? = some colname_i →
          (names' :: rows.map Prod.snd)[row_i.toNat]?.bind (·[column.toNat]?) = some fld →
            ∃ s', (fetch colname_i row_i).run s = .ok fld s') ∧
        (colname_i ∉ names' → N * (row_i.toNat + 1) < 2 ^ 32 →
          UnknownColumn s colname_i row_i) := by
  obtain ⟨w, hwrite, houtput⟩ :=
    writeTable_run h.columns_pos
      (fun row hrow => h.width row.2 (List.mem_map_of_mem hrow))
      (fun row hrow f hf => h.printable utf8 (List.mem_map_of_mem hrow) hf)
      destination_i
  have hanswer := Document.answer_encode h.separator h.wellFormed h.asciiStart
  rw [← houtput] at hanswer
  have hshows := h.wellFormed.shows
  have hholds := holdsRows_of_wellFormed h.wellFormed
  rw [contents_documentOf] at hshows hholds
  generalize (documentOf settings ((names :: rows).map Prod.snd)).table = t at *
  have hheader := hasHeader_of_shows hshows hholds (h.width names.2 List.mem_cons_self)
  obtain ⟨names', s₁, hconserves, hnodup, hsame, hserved, hne, hnoName, hfirst⟩ :=
    exists_served hheader hnonempty rfl
  have hcolumns {u : HeaderedTable} (hu : Served (ofTable t) names' u) : u.columns.toNat = N := by
    rw [hu.below.columns]
    exact hshows.columns
  have hlooksUp (s : HeaderedTable) (lookups : List (Bytes × UInt32))
      (hrun : Run Looks (ofTable t) lookups s) (colname_i : Bytes) (hname : colname_i ≠ []) :
      ∃ u, Served (ofTable t) names' u ∧
        ∀ row_i, (cell colname_i row_i).run s = (cell colname_i row_i).run u := by
    rcases served_of_run hserved hnoName hfirst hrun with rfl | hs
    · exact ⟨s₁, hserved, fun row_i => hfirst colname_i row_i hname⟩
    · exact ⟨s, hs, fun _ => rfl⟩
  refine ⟨w, t, names', hwrite, readCSV_eq_ok_iff.mpr hanswer, hconserves, hnodup, hsame,
    fun lookups s hrun colname_i row_i => ⟨fun column fld hcolumn hfld => ?_,
      fun hname hfit => ?_⟩⟩
  · have hname : colname_i ≠ [] := fun hnil =>
      hne (hnil ▸ List.mem_of_getElem? hcolumn)
    obtain ⟨u, hu, hcell⟩ := hlooksUp s lookups hrun colname_i hname
    obtain ⟨fields, hfields, hcontent⟩ := Option.bind_eq_some_iff.mp hfld
    have hrow : row_i.toNat < (names :: rows).length := by
      have hlt := (List.getElem?_eq_some_iff.mp hfields).1
      rwa [List.length_cons, List.length_map] at hlt
    have hfit : u.columns.toNat * (row_i.toNat + 1) < 2 ^ 32 := by
      have hcells := h.cells_lt
      rw [List.length_map, Nat.mul_comm] at hcells
      rw [hcolumns hu]
      exact lt_of_le_of_lt (Nat.mul_le_mul_left N hrow) hcells
    obtain ⟨s', hfetch⟩ := hu.fetch_run hcolumn hfit
    have hsame : (fetch colname_i row_i).run s = (fetch colname_i row_i).run u := by
      rw [fetch, EStateM.run_bind, EStateM.run_bind, hcell]
    refine ⟨s', hsame.trans (hfetch.trans ?_)⟩
    by_cases hzero : row_i.toNat = 0
    · rw [hzero, List.getElem?_cons_zero, Option.some.injEq] at hfields
      rw [if_pos hzero, Option.some.inj (hcolumn.symm.trans (hfields ▸ hcontent))]
    · obtain ⟨r, hr⟩ := Nat.exists_eq_succ_of_ne_zero hzero
      have hshown : ((names :: rows).map Prod.snd)[row_i.toNat]?.bind (·[column.toNat]?) =
          some fld := by
        rw [hr] at hfld ⊢
        exact hfld
      have hcol : column.toNat < N := by
        have hlt := (List.getElem?_eq_some_iff.mp hcolumn).1
        rwa [hconserves.length_eq, h.width names.2 List.mem_cons_self] at hlt
      rw [if_neg hzero]
      exact congrArg (EStateM.Result.ok · s') (hshows.value_eq hholds hcol hshown)
  · by_cases hnil : colname_i = []
    · rcases served_of_run hserved hnoName hfirst hrun with rfl | hs
      · obtain ⟨what, hthrows⟩ := hnoName row_i
        rw [hnil]
        exact ⟨what, _, hthrows⟩
      · exact hs.unknown hname (by rwa [hcolumns hs])
    · obtain ⟨u, hu, hcell⟩ := hlooksUp s lookups hrun colname_i hnil
      obtain ⟨what, s', hthrows⟩ := hu.unknown hname (by rwa [hcolumns hu])
      exact ⟨what, s', (hcell row_i).trans hthrows⟩

/-- A header and one row, whose second field is looked up after the first one. -/
theorem fetch_written_example :
    ∃ w t s',
      (writeTable leanUtf8 1 (.together, [[0x61], [0x62]]) [(.fieldByField, [[0x3B], [0x79]])]).run
          (init TicketMatic) = .ok () w ∧
      readCSV w.output TicketMatic.fieldSep = .ok t ∧
      (fetch [0x62] 1).run (stateOf ((cell [0x61] 1).run (ofTable t))) = .ok [0x79] s' := by
  have h : Writable TicketMatic 2 [[[0x61], [0x62]], [[0x3B], [0x79]]] :=
    { separator := by decide
      quoting := by decide
      columns_pos := by decide
      columns_le := by decide
      rows_ne := by decide
      cells_lt := by decide
      width := by decide
      valid := fun row hrow f hf => Utf8.exists_encode_of_ascii <| by
        intro b hb
        fin_cases hrow <;> fin_cases hf <;> fin_cases hb <;> decide
      ascii_start := by
        intro b hb
        obtain rfl := Option.some.inj hb
        decide
      not_empty := by decide }
  obtain ⟨w, t, names', hwrite, hread, -, -, hsame, hlooks⟩ :=
    @fetch_written TicketMatic 2 leanUtf8 (.together, [[0x61], [0x62]])
      [(.fieldByField, [[0x3B], [0x79]])] h (by decide) 1
  obtain rfl := hsame (by decide)
  have hcolumns : (ofTable t).columns.toNat * ((1 : UInt32).toNat + 1) < 2 ^ 32 := by
    have hlt := t.cols_.toNat_lt
    change t.cols_.toNat * 2 < 4294967296
    omega
  have hrun : Run Looks (ofTable t) [([0x61], 1)]
      (stateOf ((cell [0x61] 1).run (ofTable t))) :=
    .single ⟨hcolumns, rfl⟩
  obtain ⟨s', hfetch⟩ := (hlooks _ _ hrun [0x62] 1).1 1 [0x79] rfl rfl
  exact ⟨w, t, s', hwrite, hread, hfetch⟩

end Pipeline

end Bren
end Brenlib
