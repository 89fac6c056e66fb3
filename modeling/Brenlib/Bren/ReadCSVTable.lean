import Brenlib.Bren.CsvLayout
import Brenlib.Bren.ReadCSV

/-!
# `readCSV` builds the table of a layout

`Layout.table` is the table that a layout stands for: one row for every record
begun, filled up with empty cells.  `Reader.Holds s l` says that the variables of
the loop hold the layout `l`.

The two branches of the loop that store a field are then single steps of the
layout:
* `separatorChar_ok`, `separatorChar_error`: the separator branch accepts `Token.field`;
* `recordReady_ok`, `recordReady_error`: the end of a record accepts `Token.record`.

Each of them throws exactly when the layout refuses the token, and with the same
exception class.
-/

namespace Brenlib
namespace Bren

open PaddedRows

namespace Csv
namespace Layout

/-- The rows of the table: the complete records and the one begun. -/
def rows (l : Layout) : List (List Bytes) :=
  l.records ++ if l.current = [] then [] else [l.current]

/-- The table of a layout; without a header record there are no columns yet. -/
def table (l : Layout) : Table Bytes :=
  if l.records = [] then Table.empty
  else { cols_ := UInt16.ofNat l.width, data_ := flat l.width [] l.rows }

theorem length_rows
    (l : Layout) :
    l.rows.length = l.begun := by
  unfold rows begun
  split <;> simp

/-- A layout the reader has accepted: within the limits and well formed. -/
structure Accepted (l : Layout) : Prop where
  within : l.Within
  shape : ¬ l.Malformed

theorem accepted_empty : Accepted empty :=
  ⟨within_empty, not_malformed_empty⟩

theorem table_of_no_record
    {l : Layout} (hrec : l.records = []) :
    l.table = Table.empty :=
  if_pos hrec

theorem table_eq
    {l : Layout} (hrec : l.records ≠ []) :
    l.table =
      { cols_ := UInt16.ofNat l.width, data_ := flat l.width [] l.rows } :=
  if_neg hrec

/-- An accepted token is grouped, and the layout stays accepted. -/
theorem Accepted.accept_ok
    {l l' : Layout} {token : Token}
    (h : l.Accepted)
    (hacc : l.accept token = .ok l') :
    l' = l.push token ∧ l'.Accepted := by
  rw [accept_eq h.within h.shape] at hacc
  split_ifs at hacc with hw hm
  cases hacc
  exact ⟨rfl, hw, hm⟩

section Accepted

variable {l : Layout} (h : l.Accepted)
include h

theorem Accepted.width_lt
    (hrec : l.records ≠ []) :
    l.width < 65535 :=
  (h.within.resolve_left hrec).1

theorem Accepted.cells_lt
    (hrec : l.records ≠ []) :
    l.width * l.begun < 2 ^ 32 :=
  (h.within.resolve_left hrec).2

theorem Accepted.current_lt
    (hrec : l.records ≠ []) :
    l.current.length < l.width := by
  by_contra hle
  exact h.shape (Or.inr ⟨hrec, Or.inr (not_lt.mp hle)⟩)

theorem Accepted.records_le
    {r : List Bytes} (hr : r ∈ l.records) :
    r.length ≤ l.width := by
  by_contra hlt
  have hrec : l.records ≠ [] := List.ne_nil_of_mem hr
  exact h.shape (Or.inr ⟨hrec, Or.inl ⟨r, hr, not_le.mp hlt⟩⟩)

theorem Accepted.rows_le
    (hrec : l.records ≠ [])
    {r : List Bytes} (hr : r ∈ l.rows) :
    r.length ≤ l.width := by
  obtain hr | hr := List.mem_append.mp hr
  · exact h.records_le hr
  · split at hr
    · simp at hr
    · rw [List.mem_singleton.mp hr]
      exact le_of_lt (h.current_lt hrec)

theorem Accepted.cols_toNat
    (hrec : l.records ≠ []) :
    l.table.cols_.toNat = l.width := by
  have hlt := h.width_lt hrec
  rw [Layout.table_eq hrec]
  exact UInt16.toNat_ofNat_of_lt' (Nat.lt_succ_of_lt hlt)

/-- The table of an accepted layout holds one row for every record begun. -/
theorem Accepted.holdsRows
    (hrec : l.records ≠ []) :
    l.table.HoldsRows l.begun := by
  have hcols := h.cols_toNat hrec
  refine ⟨?_, ?_, ?_⟩
  · have := h.current_lt hrec
    omega
  · rw [hcols, Layout.table_eq hrec, ← length_rows]
    exact length_flat [] (fun r hr => h.rows_le hrec hr)
  · rw [hcols]
    exact h.cells_lt hrec

end Accepted

/-- Ending the record does not change the table. -/
theorem table_push_record
    {l : Layout} (hrec : l.records ≠ []) (f : Bytes) :
    (l.push (.record f)).table = (l.push (.field f)).table := by
  have hw := width_push hrec (.record f)
  have hw' := width_push hrec (.field f)
  have hrows : (l.push (.record f)).rows = (l.push (.field f)).rows := by
    simp [rows, push]
  have hne : (l.push (.record f)).records ≠ [] := by
    simp [push]
  have hne' : (l.push (.field f)).records ≠ [] := hrec
  rw [table, table, if_neg hne, if_neg hne', hw, hw', hrows]

end Layout
end Csv

open Csv

section Store

variable {l : Layout} (h : l.Accepted) (hrec : l.records ≠ [])
include h hrec

/-- Storing the next field of the record begun. -/
theorem assign_next_field
    {col : UInt16} {row : UInt32}
    (hcol : col.toNat = l.current.length)
    (hrow : row.toNat = l.records.length)
    (hfit : l.width * (l.records.length + 1) < 2 ^ 32)
    (f : Bytes) :
    (Table.assign col row f).run l.table =
      .ok () (l.push (.field f)).table := by
  have hcols := h.cols_toNat hrec
  have hlt := h.current_lt hrec
  have hholds := h.holdsRows hrec
  have hlen : (flat l.width [] l.records).length = l.width * l.records.length :=
    length_flat [] (fun r hr => h.records_le hr)
  have hpush :
      (l.push (.field f)).table =
        { cols_ := UInt16.ofNat l.width
          data_ :=
            flat l.width [] l.records ++ pad l.width [] (l.current ++ [f]) } := by
    have hne : (l.push (.field f)).records ≠ [] := hrec
    rw [Layout.table, if_neg hne, Layout.width_push hrec]
    simp [Layout.rows, Layout.push]
  rw [hpush]
  by_cases hcur : l.current = []
  · have hbegun : l.begun = l.records.length := by
      simp [Layout.begun, hcur]
    rw [hbegun] at hholds
    rw [Table.assign_next hholds (by omega) hrow (by rwa [hcols]) f, hcols,
      Layout.table_eq hrec]
    have hzero : col.toNat = 0 := by
      simp [hcol, hcur]
    have hset :
        (List.replicate l.width (default : Bytes)).set 0 f =
          pad l.width [] [f] := by
      have hpos : ([] : List Bytes).length < l.width := by
        simp
        omega
      have hpad := set_pad ([] : Bytes) f hpos
      rw [pad_nil] at hpad
      exact hpad
    simp only [Layout.rows, hcur, if_true, List.append_nil, hzero, Nat.add_zero,
      List.nil_append]
    rw [← hlen, List.set_append_right _ _ le_rfl, Nat.sub_self, hset]
  · have hbegun : l.begun = l.records.length + 1 := by
      simp [Layout.begun, hcur]
    rw [Table.assign_present hholds (by omega) (by omega) f, hcols,
      Layout.table_eq hrec, hrow, hcol, ← hlen]
    have hset := set_pad ([] : Bytes) f hlt
    simp only [Layout.rows, hcur, if_false, flat_append, flat_cons, flat_nil,
      List.append_nil]
    rw [List.set_append_right _ _ (by omega), Nat.add_sub_cancel_left, hset]

/-- Past the limit of cells the store throws. -/
theorem assign_past_limit
    {col : UInt16} {row : UInt32}
    (hcol : col.toNat = l.current.length)
    (hrow : row.toNat = l.records.length)
    (hfull : 2 ^ 32 ≤ l.width * (l.records.length + 1))
    (f : Bytes) :
    ∃ what t',
      (Table.assign col row f).run l.table =
        .error ⟨.outOfRange, what⟩ t' := by
  have hcells := h.cells_lt hrec
  have hcur : l.current = [] := by
    by_contra hne
    simp only [Layout.begun, hne, if_false] at hcells
    omega
  have hbegun : l.begun = l.records.length := by
    simp [Layout.begun, hcur]
  have hholds := h.holdsRows hrec
  rw [hbegun] at hholds
  exact Table.assign_overflow hholds (by simp [hcol, hcur]) hrow
    (by rwa [h.cols_toNat hrec]) f

end Store

namespace Reader

/-- The variables of the loop hold a layout. -/
structure Holds (s : Reader) (l : Layout) : Prop where
  accepted : l.Accepted
  readingHeader : s.readingHeader = decide (l.records = [])
  table : s.t = l.table
  row : s.row.toNat = l.records.length
  col : l.records ≠ [] → s.col.toNat = l.current.length
  header_col : l.records = [] → s.col = 0
  header : l.records = [] → s.h = l.current

theorem holds_init
    (stream_i : IStream) :
    Holds (init stream_i) Layout.empty where
  accepted := Layout.accepted_empty
  readingHeader := rfl
  table := rfl
  row := rfl
  col := fun h => absurd rfl h
  header_col := fun _ => rfl
  header := fun _ => rfl

section HeaderPhase

variable {s : Reader} {l : Layout} (h : s.Holds l) (hrec : l.records = [])
include h hrec

theorem Holds.fieldReady_header :
    s.fieldReady = .ok { s with h := l.current ++ [s.f], f := [] } := by
  rw [fieldReady, h.readingHeader, h.header hrec]
  simp [hrec]

/-- The separator branch while the header is read. -/
theorem Holds.separatorChar_header :
    ∃ s',
      s.separatorChar = .ok (.next s') ∧
      s'.Holds (l.push (.field s.f)) ∧
      s'.stream_i = s.stream_i ∧ s'.quoted = s.quoted ∧
      s'.last = .separator ∧ s'.f = [] := by
  have hacc : l.accept (.field s.f) = .ok (l.push (.field s.f)) := by
    simp [Layout.accept, hrec]
  obtain ⟨-, haccepted⟩ := h.accepted.accept_ok hacc
  refine ⟨{ s with h := l.current ++ [s.f], f := [], last := .separator },
    ?_, ?_, rfl, rfl, rfl, rfl⟩
  · rw [separatorChar, h.fieldReady_header hrec]
    simp [pure, Except.pure, h.readingHeader, hrec]
  · exact {
      accepted := haccepted
      readingHeader := h.readingHeader
      table := by
        have hrec' : (l.push (.field s.f)).records = [] := hrec
        rw [Layout.table_of_no_record hrec', ← Layout.table_of_no_record hrec]
        exact h.table
      row := h.row
      col := fun hne => absurd hrec hne
      header_col := fun _ => h.header_col hrec
      header := fun _ => rfl }

end HeaderPhase

/-- Row 0 of the table while the header is copied into it. -/
def headerTable (n : Nat) (done : List Bytes) : Table Bytes where
  cols_ := UInt16.ofNat n
  data_ := if done = [] then [] else pad n [] done

theorem headerTable_holdsRows
    {n : Nat} {done : List Bytes}
    (hpos : 0 < n) (hlt : n < 65535)
    (hle : done.length ≤ n) :
    (headerTable n done).HoldsRows (if done = [] then 0 else 1) := by
  have hn : (UInt16.ofNat n).toNat = n :=
    UInt16.toNat_ofNat_of_lt' (Nat.lt_succ_of_lt hlt)
  refine ⟨by simpa [headerTable, hn] using hpos, ?_, ?_⟩
  · have hlen := length_pad ([] : Bytes) hle
    simp only [headerTable, hn]
    split <;> simp [hlen]
  · simp only [headerTable, hn]
    split <;> omega

theorem assign_headerTable
    {n : Nat} {done : List Bytes}
    (hlt : n < 65535)
    (hdone : done.length < n)
    (f : Bytes) :
    (Table.assign (UInt16.ofNat done.length) 0 f).run (headerTable n done) =
      .ok () (headerTable n (done ++ [f])) := by
  have hn : (UInt16.ofNat n).toNat = n :=
    UInt16.toNat_ofNat_of_lt' (Nat.lt_succ_of_lt hlt)
  have hcol : (UInt16.ofNat done.length).toNat = done.length :=
    UInt16.toNat_ofNat_of_lt' (hdone.trans (Nat.lt_succ_of_lt hlt))
  have hholds :
      (headerTable n done).HoldsRows (if done = [] then 0 else 1) :=
    headerTable_holdsRows (by omega) hlt (by omega)
  have hcols : (headerTable n done).cols_.toNat = n := hn
  have hset := set_pad ([] : Bytes) f hdone
  have hgoal :
      headerTable n (done ++ [f]) =
        { cols_ := UInt16.ofNat n, data_ := pad n [] (done ++ [f]) } := by
    simp [headerTable]
  rw [hgoal]
  by_cases hnil : done = []
  · subst hnil
    rw [Table.assign_next hholds (by rw [hcols, hcol]; exact hdone) rfl
      (by rw [hcols]; simp; omega) f, hcols, hcol]
    rw [pad_nil] at hset
    exact congrArg
      (fun d => EStateM.Result.ok () (Table.mk (UInt16.ofNat n) d)) hset
  · rw [if_neg hnil] at hholds
    rw [Table.assign_present hholds (by rw [hcols, hcol]; exact hdone)
      (by decide) f, hcols, hcol]
    simp only [headerTable, if_neg hnil]
    rw [← hset]
    simp

/-- The loop over the header copies all its fields into row 0. -/
theorem storeHeader_run
    {n : Nat} (hlt : n < 65535)
    (done rest : List Bytes)
    (hlen : done.length + rest.length = n) :
    (storeHeader (UInt16.ofNat done.length) rest).run (headerTable n done) =
      .ok () (headerTable n (done ++ rest)) := by
  induction rest generalizing done with
  | nil =>
      simp [storeHeader]
  | cons f rest ih =>
      have hassign :=
        assign_headerTable hlt
          (show done.length < n by rw [List.length_cons] at hlen; omega) f
      have hnext :
          UInt16.ofNat done.length + 1 = UInt16.ofNat (done ++ [f]).length := by
        simp
      rw [storeHeader, EStateM.run_bind, hassign]
      simp only
      rw [hnext, ih (done ++ [f]) (by
        rw [List.length_cons] at hlen
        rw [List.length_append, List.length_singleton]
        omega)]
      simp

/-- Fixing the columns and copying the header, as one computation. -/
theorem makeHeader_run
    (fields : List Bytes)
    (hne : fields ≠ [])
    (hlt : fields.length < 65535) :
    (makeHeader fields).run Table.empty =
      .ok () (headerTable fields.length fields) := by
  have hpos : 0 < fields.length := List.length_pos_iff.mpr hne
  have hn : (UInt16.ofNat fields.length).toNat = fields.length :=
    UInt16.toNat_ofNat_of_lt' (Nat.lt_succ_of_lt hlt)
  have hzero : UInt16.ofNat fields.length ≠ 0 := by
    intro hz
    rw [hz] at hn
    simp at hn
    omega
  have hset :
      (Table.setColumns (UInt16.ofNat fields.length)).run
          (Table.empty : Table Bytes) =
        .ok () (headerTable fields.length []) := by
    simp [Table.setColumns, Table.empty, headerTable, hzero]
  have hstore := storeHeader_run hlt [] fields (by simp)
  rw [makeHeader, EStateM.run_bind, hset]
  exact hstore

section RecordEnd

variable {s : Reader} {l : Layout} (h : s.Holds l)
include h

/-- The end of the header record, within the column limit. -/
theorem Holds.recordReady_header
    (hrec : l.records = [])
    (hlt : l.current.length + 1 < 65535) :
    ∃ s',
      s.recordReady = .ok s' ∧
      s'.Holds (l.push (.record s.f)) ∧
      s'.stream_i = s.stream_i ∧ s'.quoted = s.quoted ∧ s'.f = [] := by
  have hacc : l.accept (.record s.f) = .ok (l.push (.record s.f)) := by
    have hle : ¬ 65535 ≤ l.current.length + 1 := by omega
    simp [Layout.accept, hrec, hle]
  obtain ⟨-, haccepted⟩ := h.accepted.accept_ok hacc
  have hrun :=
    makeHeader_run (l.current ++ [s.f]) (by simp)
      (by simpa using hlt)
  have htable : s.t = Table.empty := by
    rw [h.table, Layout.table_of_no_record hrec]
  have hmax : ¬ uint16Max ≤ (l.current ++ [s.f]).length := by
    simp only [uint16Max, List.length_append, List.length_singleton]
    omega
  refine ⟨{ s with
      t := headerTable (l.current ++ [s.f]).length (l.current ++ [s.f])
      h := [], f := [], row := 1, col := 0, pos := 0, readingHeader := false },
    ?_, ?_, rfl, rfl, rfl⟩
  · have hheader : s.readingHeader = true := by
      rw [h.readingHeader]
      simp [hrec]
    rw [recordReady, h.fieldReady_header hrec]
    simp only [ok_bind, hheader, if_true, headerReady]
    rw [if_neg (by simp), if_neg hmax, htable, hrun]
    rfl
  · exact {
      accepted := haccepted
      readingHeader := by simp [Layout.push]
      table := by
        have hne : (l.push (.record s.f)).records ≠ [] := by
          simp [Layout.push]
        rw [Layout.table_eq hne]
        simp [headerTable, Layout.push, Layout.rows, Layout.width, hrec]
      row := by simp [Layout.push, hrec]
      col := fun _ => by simp [Layout.push]
      header_col := fun _ => rfl
      header := fun hnil => by simp [Layout.push] at hnil }

/-- The end of a header record with too many fields. -/
theorem Holds.recordReady_header_error
    (hrec : l.records = [])
    (hle : 65535 ≤ l.current.length + 1) :
    ∃ what, s.recordReady = .error ⟨.outOfRange, what⟩ := by
  have hheader : s.readingHeader = true := by
    rw [h.readingHeader]
    simp [hrec]
  have hmax : uint16Max ≤ (l.current ++ [s.f]).length := by
    simpa [uint16Max] using hle
  rw [recordReady, h.fieldReady_header hrec]
  simp only [ok_bind, hheader, if_true, headerReady]
  rw [if_neg (by simp), if_pos hmax]
  exact ⟨_, rfl⟩

/-- Storing a field of a data record. -/
theorem Holds.fieldReady_data
    (hrec : l.records ≠ [])
    (hfit : l.width * (l.records.length + 1) < 2 ^ 32) :
    s.fieldReady =
      .ok { s with t := (l.push (.field s.f)).table, f := [] } := by
  have hheader : s.readingHeader = false := by
    rw [h.readingHeader]
    simp [hrec]
  rw [fieldReady, hheader, h.table,
    assign_next_field h.accepted hrec (h.col hrec) h.row hfit]
  rfl

/-- Past the limit of cells no field can be stored. -/
theorem Holds.fieldReady_error
    (hrec : l.records ≠ [])
    (hfull : 2 ^ 32 ≤ l.width * (l.records.length + 1)) :
    ∃ what, s.fieldReady = .error ⟨.outOfRange, what⟩ := by
  have hheader : s.readingHeader = false := by
    rw [h.readingHeader]
    simp [hrec]
  obtain ⟨what, t', hassign⟩ :=
    assign_past_limit h.accepted hrec (h.col hrec) h.row hfull s.f
  rw [fieldReady, hheader, h.table, hassign]
  exact ⟨what, rfl⟩

/-- The columns of the table are those of the header record. -/
theorem Holds.columns_push
    (hrec : l.records ≠ []) :
    (l.push (.field s.f)).table.columns.toNat = l.width := by
  have hne : (l.push (.field s.f)).records ≠ [] := hrec
  have hcols := h.accepted.cols_toNat hrec
  rw [Layout.table_eq hrec] at hcols
  rw [Table.columns, Layout.table_eq hne, Layout.width_push hrec]
  exact hcols

/-- The separator branch: the layout accepts the field. -/
theorem Holds.separatorChar_ok
    {l' : Layout}
    (hacc : l.accept (.field s.f) = .ok l') :
    ∃ s',
      s.separatorChar = .ok (.next s') ∧
      s'.Holds l' ∧
      s'.stream_i = s.stream_i ∧ s'.quoted = s.quoted ∧
      s'.last = .separator ∧ s'.f = [] := by
  obtain ⟨rfl, haccepted⟩ := h.accepted.accept_ok hacc
  by_cases hrec : l.records = []
  · exact h.separatorChar_header hrec
  · have hheader : s.readingHeader = false := by
      rw [h.readingHeader]
      simp [hrec]
    have hcurrent := haccepted.current_lt (show (l.push _).records ≠ [] from hrec)
    rw [Layout.width_push hrec] at hcurrent
    simp only [Layout.push, List.length_append, List.length_singleton]
      at hcurrent
    have hfit : l.width * (l.records.length + 1) < 2 ^ 32 := by
      have hcells := haccepted.cells_lt (show (l.push _).records ≠ [] from hrec)
      rw [Layout.width_push hrec] at hcells
      simpa [Layout.push, Layout.begun] using hcells
    have hcol := h.col hrec
    have hwidth := h.accepted.width_lt hrec
    have hcolumns :
        ¬ ((l.push (.field s.f)).table.columns.toNat : Int) - 1 ≤
            (s.col.toNat : Int) := by
      rw [h.columns_push hrec, hcol]
      omega
    have hsucc : (s.col + 1).toNat = l.current.length + 1 := by
      rw [UInt16.toNat_add, UInt16.toNat_one, hcol, Nat.mod_eq_of_lt (by omega)]
    refine ⟨{ s with
        t := (l.push (.field s.f)).table
        f := [], last := .separator, col := s.col + 1 },
      ?_, ?_, rfl, rfl, rfl, rfl⟩
    · rw [separatorChar, h.fieldReady_data hrec hfit]
      simp only [ok_bind, hheader, Bool.false_eq_true, if_false, hcolumns]
      rfl
    · exact {
        accepted := haccepted
        readingHeader := h.readingHeader
        table := rfl
        row := h.row
        col := fun _ => by simpa [Layout.push] using hsucc
        header_col := fun hnil => absurd hnil hrec
        header := fun hnil => absurd hnil hrec }

/-- The separator branch throws when the layout refuses the field. -/
theorem Holds.separatorChar_error
    {k : ExceptionClass}
    (hacc : l.accept (.field s.f) = .error k) :
    ∃ what, s.separatorChar = .error ⟨k, what⟩ := by
  by_cases hrec : l.records = []
  · simp [Layout.accept, hrec] at hacc
  · have hheader : s.readingHeader = false := by
      rw [h.readingHeader]
      simp [hrec]
    simp only [Layout.accept, hrec, if_false] at hacc
    split_ifs at hacc with hfull hlong
    · cases hacc
      obtain ⟨what, hthrow⟩ := h.fieldReady_error hrec hfull
      exact ⟨what, by rw [separatorChar, hthrow]; rfl⟩
    · cases hacc
      have hcolumns :
          ((l.push (.field s.f)).table.columns.toNat : Int) - 1 ≤
            (s.col.toNat : Int) := by
        rw [h.columns_push hrec, h.col hrec]
        omega
      rw [separatorChar, h.fieldReady_data hrec (not_le.mp hfull)]
      simp only [ok_bind, hheader, Bool.false_eq_true, if_false, hcolumns,
        if_true]
      exact ⟨_, rfl⟩

/-- The end of a record: the layout accepts its last field. -/
theorem Holds.recordReady_ok
    {l' : Layout}
    (hacc : l.accept (.record s.f) = .ok l') :
    ∃ s',
      s.recordReady = .ok s' ∧
      s'.Holds l' ∧
      s'.stream_i = s.stream_i ∧ s'.quoted = s.quoted ∧ s'.f = [] := by
  obtain ⟨rfl, haccepted⟩ := h.accepted.accept_ok hacc
  by_cases hrec : l.records = []
  · refine h.recordReady_header hrec ?_
    by_contra hle
    simp [Layout.accept, hrec, not_lt.mp hle] at hacc
  · have hheader : s.readingHeader = false := by
      rw [h.readingHeader]
      simp [hrec]
    have hne : (l.push (.record s.f)).records ≠ [] := by
      simp [Layout.push]
    have hfit : l.width * (l.records.length + 1) < 2 ^ 32 := by
      have hcells := haccepted.cells_lt hne
      rw [Layout.width_push hrec] at hcells
      simpa [Layout.push, Layout.begun] using hcells
    have hrows : l.records.length + 1 < 2 ^ 32 := by
      have hcur := h.accepted.current_lt hrec
      exact lt_of_le_of_lt (Nat.le_mul_of_pos_left _ (by omega)) hfit
    have hmax : ¬ s.row.toNat = uint32Max := by
      rw [h.row, uint32Max]
      omega
    have hsucc : (s.row + 1).toNat = l.records.length + 1 := by
      rw [UInt32.toNat_add, UInt32.toNat_one, h.row, Nat.mod_eq_of_lt hrows]
    refine ⟨{ s with
        t := (l.push (.field s.f)).table, f := [], col := 0, row := s.row + 1 },
      ?_, ?_, rfl, rfl, rfl⟩
    · rw [recordReady, h.fieldReady_data hrec hfit]
      simp [hheader, dataReady, hmax]
    · exact {
        accepted := haccepted
        readingHeader := by simp [hheader, hne]
        table := (Layout.table_push_record hrec s.f).symm
        row := by simpa [Layout.push] using hsucc
        col := fun _ => by simp [Layout.push]
        header_col := fun hnil => absurd hnil hne
        header := fun hnil => absurd hnil hne }

/-- The end of a record throws when the layout refuses its last field. -/
theorem Holds.recordReady_error
    {k : ExceptionClass}
    (hacc : l.accept (.record s.f) = .error k) :
    ∃ what, s.recordReady = .error ⟨k, what⟩ := by
  by_cases hrec : l.records = []
  · simp only [Layout.accept, hrec, if_true] at hacc
    split_ifs at hacc with hle
    cases hacc
    exact h.recordReady_header_error hrec hle
  · simp only [Layout.accept, hrec, if_false] at hacc
    split_ifs at hacc with hfull
    cases hacc
    obtain ⟨what, hthrow⟩ := h.fieldReady_error hrec hfull
    exact ⟨what, by rw [recordReady, hthrow]; rfl⟩

end RecordEnd

end Reader

end Bren
end Brenlib
