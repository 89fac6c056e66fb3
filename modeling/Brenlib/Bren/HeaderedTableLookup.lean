import Brenlib.Bren.HeaderedTable
import Brenlib.Bren.TableMatrix

/-!
# Lookups by name

A client calls the methods of the base class and looks up cells by column name.  A
lookup reads the headers if the map is empty, and then goes through the map.

* `LookupCases`: what a lookup does.
* `Settled hdr s`: the table has the header `hdr`, and a map that is filled is that of
  `hdr`.
* `RefersTo`: a lookup refers to the cell that a call by number refers to.

**Result.**  `names_agree_with_numbers`: as long as the header is not changed behind the
first lookup, names and numbers refer to the same cells.
-/

namespace Brenlib
namespace Bren

open TransitionSystem

namespace HeaderedTable

section Lookup

variable {s s₁ : HeaderedTable} {hdr : List Bytes} {colname_i : Bytes} {row_i : UInt32}

/-- The table that is searched: the headers have been read, earlier or now. -/
inductive Ready (s : HeaderedTable) : HeaderedTable → Prop
  | cached
      (hheader : HasHeader s s.headerRow)
      (hfilled : s.hdrs_.entries ≠ []) :
      Ready s s
  | read
      {hdr hdr' : List Bytes} {m : UnorderedMap Bytes UInt16}
      (hempty : s.hdrs_.entries = [])
      (hheader : HasHeader s hdr)
      (hren : Renamed hdr hdr')
      (hnodup : hdr'.Nodup)
      (hne : [] ∉ hdr')
      (hmaps : Maps m hdr') :
      Ready s { s.withHeader hdr' with hdrs_ := m }

/-- What a lookup does: it throws and changes nothing, or an empty header stops it, or it
searches the map. -/
inductive LookupCases (s : HeaderedTable) (colname_i : Bytes) (row_i : UInt32) :
    EStateM.Result StdException HeaderedTable Nat → Prop
  | noFirstRow (what : String)
      (hrows : s.rows = 0) :
      LookupCases s colname_i row_i (.error ⟨.logicError, what⟩ s)
  | noName (what : String)
      (hname : colname_i = []) :
      LookupCases s colname_i row_i (.error ⟨.invalidArgument, what⟩ s)
  | emptyHeader (what : String)
      {hdr hdr' : List Bytes}
      (hempty : s.hdrs_.entries = [])
      (hheader : HasHeader s hdr)
      (hren : Renamed hdr hdr')
      (hmem : [] ∈ hdr') :
      LookupCases s colname_i row_i
        (.error ⟨.runtimeError, what⟩ { s.withHeader hdr' with hdrs_ := ∅ })
  | unknown (what : String)
      {s₁ : HeaderedTable}
      (hready : Ready s s₁)
      (hlookup : s₁.hdrs_.lookup colname_i = none) :
      LookupCases s colname_i row_i (.error ⟨.invalidArgument, what⟩ s₁)
  | found
      {s₁ : HeaderedTable} {column : UInt16}
      (hready : Ready s s₁)
      (hlookup : s₁.hdrs_.lookup colname_i = some column) :
      LookupCases s colname_i row_i ((inherited (Table.cell column row_i)).run s₁)

/-- A valid table with a row has a header. -/
theorem hasHeader_of_valid
    (h : s.toTable.Valid)
    (hrows : s.rows ≠ 0) :
    HasHeader s s.headerRow :=
  ⟨h.holdsRows hrows, rfl⟩

theorem find_cases
    (hready : Ready s s₁) (colname_i : Bytes) (row_i : UInt32) :
    LookupCases s colname_i row_i ((find_ colname_i row_i).run s₁) := by
  rw [find_, EStateM.run_bind, EStateM.run_get]
  simp only
  cases hlookup : s₁.hdrs_.lookup colname_i with
  | none =>
      exact .unknown _ hready hlookup
  | some column =>
      exact .found hready hlookup

theorem lookup_cases
    (h : s.toTable.Valid) (colname_i : Bytes) (row_i : UInt32) :
    LookupCases s colname_i row_i ((cell colname_i row_i).run s) := by
  rw [cell, EStateM.run_bind, EStateM.run_get]
  simp only
  by_cases hcols : s.cols_ = 0
  · rw [if_pos hcols]
    exact .noFirstRow _ (by rw [Table.rows, if_pos hcols])
  · rw [if_neg hcols]
    by_cases hrows : s.rows < 1
    · have hzero : s.rows = 0 := by
        rw [UInt32.lt_iff_toNat_lt, UInt32.toNat_one, Nat.lt_one_iff] at hrows
        exact UInt32.toNat_inj.mp hrows
      rw [if_pos hrows]
      exact .noFirstRow _ hzero
    · rw [if_neg hrows]
      by_cases hname : colname_i = []
      · rw [if_pos hname]
        exact .noName _ hname
      · rw [if_neg hname]
        have hne : s.rows ≠ 0 := by
          intro hzero
          exact hrows (by rw [hzero]; decide)
        have hheader := hasHeader_of_valid h hne
        by_cases hempty : s.hdrs_.entries = []
        · obtain ⟨hdr', hren, -, hnodup, hcases⟩ := readHeaders_run hheader.firstRow
          rw [if_pos hempty]
          rcases hcases with ⟨hfull, m, hrun, hmaps⟩ | ⟨hmem, what, hrun⟩
          · rw [run_bind_ok hrun]
            exact find_cases (.read hempty hheader hren hnodup hfull hmaps) _ _
          · rw [run_bind_error hrun]
            exact .emptyHeader what hempty hheader hren hmem
        · rw [if_neg hempty]
          exact find_cases (.cached hheader hempty) _ _

end Lookup

section Below

variable {s s' s₁ : HeaderedTable} {hdr hdr' : List Bytes}

/-- The tables have the same columns and the same cells outside the first row, as far as
both have these rows. -/
structure Below (s s' : HeaderedTable) : Prop where
  columns : s'.columns = s.columns
  value : ∀ c r, c < s.columns.toNat → 1 ≤ r → s'.value c r = s.value c r

theorem Below.refl
    (s : HeaderedTable) :
    Below s s :=
  ⟨rfl, fun _ _ _ _ => rfl⟩

theorem Below.trans
    {s'' : HeaderedTable}
    (h : Below s s') (h' : Below s' s'') :
    Below s s'' where
  columns := h'.columns.trans h.columns
  value := by
    intro c r hc hr
    have hc' : c < s'.columns.toNat := by rwa [h.columns]
    rw [h'.value c r hc' hr, h.value c r hc hr]

/-- Renaming columns changes cells of the first row only. -/
theorem HasHeader.below_withHeader
    (h : HasHeader s hdr)
    (hlen : hdr'.length = hdr.length) :
    Below s (s.withHeader hdr') where
  columns := rfl
  value := by
    intro c r hc hr
    have hcols := h.firstRow.length_eq
    have hmul : s.cols_.toNat * 1 ≤ s.cols_.toNat * r := Nat.mul_le_mul_left _ hr
    have hle : hdr'.length ≤ s.cols_.toNat * r + c := by omega
    have hdrop : s.cols_.toNat + (s.cols_.toNat * r + c - hdr'.length) =
        s.cols_.toNat * r + c := by omega
    change (hdr' ++ s.data_.drop s.cols_.toNat).getD (s.cols_.toNat * r + c) default =
      s.data_.getD (s.cols_.toNat * r + c) default
    rw [List.getD_eq_getElem?_getD, List.getElem?_append_right hle, List.getElem?_drop,
      hdrop, List.getD_eq_getElem?_getD]

/-- A call of the base class's `cell` changes no cell at all. -/
theorem below_cell
    (h : s.toTable.Valid)
    (column_i : UInt16) {row_i : UInt32}
    (hfit : s.columns.toNat * (row_i.toNat + 1) < 2 ^ 32) :
    Below s (stateOf ((inherited (Table.cell column_i row_i)).run s)) := by
  obtain ⟨m, hm⟩ := h
  have hfit' : m.columns * (row_i.toNat + 1) < 2 ^ 32 := by
    rw [← hm.columns_toNat]
    exact hfit
  have hcases := Table.cell_cases hm column_i hfit'
  rw [inherited_run]
  generalize (Table.cell column_i row_i).run s.toTable = r at hcases
  cases hcases with
  | noColumns what hcols =>
      exact .refl s
  | noColumn what hcols hcol =>
      exact .refl s
  | refers hcols hcol hafter =>
      refine ⟨rfl, fun c r _ _ => Table.value_resizeTo ?_ c r⟩
      rw [hm.laidOut.length, hm.columns]
      exact Nat.mul_le_mul_left _ (le_max_left _ _)

theorem Ready.below
    (h : Ready s s₁) :
    Below s s₁ := by
  cases h with
  | cached hheader hfilled =>
      exact .refl s
  | read hempty hheader hren hnodup hne hmaps =>
      have hbelow := hheader.below_withHeader hren.length_eq
      exact ⟨hbelow.columns, hbelow.value⟩

theorem Ready.holdsRows
    (h : Ready s s₁)
    {k : Nat} (hk : Table.HoldsRows s.toTable k) :
    Table.HoldsRows s₁.toTable k := by
  cases h with
  | cached hheader hfilled =>
      exact hk
  | read hempty hheader hren hnodup hne hmaps =>
      exact hheader.holdsRows_withHeader hren.length_eq hk

theorem Ready.valid
    (h : Ready s s₁) (hvalid : s.toTable.Valid) :
    s₁.toTable.Valid := by
  cases h with
  | cached hheader hfilled =>
      exact hvalid
  | read hempty hheader hren hnodup hne hmaps =>
      obtain ⟨k, hk⟩ := hheader.holds
      exact (hheader.holdsRows_withHeader hren.length_eq hk).valid

/-- No lookup changes a cell outside the first row. -/
theorem below_lookup
    (h : s.toTable.Valid)
    (colname_i : Bytes) {row_i : UInt32}
    (hfit : s.columns.toNat * (row_i.toNat + 1) < 2 ^ 32) :
    Below s (stateOf ((cell colname_i row_i).run s)) := by
  have hcases := lookup_cases h colname_i row_i
  generalize (cell colname_i row_i).run s = r at hcases
  cases hcases with
  | noFirstRow what hrows =>
      exact .refl s
  | noName what hname =>
      exact .refl s
  | emptyHeader what hempty hheader hren hmem =>
      have hbelow := hheader.below_withHeader hren.length_eq
      exact ⟨hbelow.columns, hbelow.value⟩
  | unknown what hready hlookup =>
      exact hready.below
  | found hready hlookup =>
      refine hready.below.trans (below_cell (hready.valid h) _ ?_)
      rw [hready.below.columns]
      exact hfit

end Below

section Settled

variable {s s₁ : HeaderedTable} {hdr : List Bytes}

theorem hasHeader_of_headerRow
    (h : s.toTable.Valid)
    (hne : s.headerRow ≠ []) :
    HasHeader s s.headerRow := by
  refine hasHeader_of_valid h fun hrows => hne ?_
  rw [headerRow, h.data_eq_nil hrows, List.take_nil]

theorem HasHeader.ne_nil
    (h : HasHeader s hdr) :
    hdr ≠ [] := by
  obtain ⟨k, hk⟩ := h.holds
  have hpos := hk.columns_pos
  rw [← List.length_pos_iff, h.firstRow.length_eq]
  exact hpos

theorem HasHeader.unique
    {hdr' : List Bytes}
    (h : HasHeader s hdr) (h' : HasHeader s hdr') :
    hdr = hdr' :=
  h.row.symm.trans h'.row

/-- More rows do not change the header. -/
theorem HasHeader.resizeTo
    (h : HasHeader s hdr)
    {k n : Nat} (hk : Table.HoldsRows s.toTable k)
    (hle : k ≤ n) (hpos : 0 < n)
    (hfit : s.cols_.toNat * n < 2 ^ 32) :
    HasHeader { s with toTable := s.toTable.resizeTo n } hdr where
  holds := by
    obtain ⟨n, rfl⟩ := Nat.exists_eq_succ_of_ne_zero (Nat.ne_of_gt hpos)
    exact ⟨n, hk.resizeTo hfit⟩
  row := by
    have hlen : s.cols_.toNat ≤ s.data_.length := by
      obtain ⟨k', hk'⟩ := h.holds
      rw [hk'.length_data, Nat.mul_succ]
      omega
    rw [← h.row]
    exact GrowingMatrix.take_takeD (Nat.le_mul_of_pos_right _ hpos) hlen default

/-- A reference to a cell of a column that has a name. -/
theorem HasHeader.cell_run
    (h : HasHeader s hdr)
    {k : Nat} (hk : Table.HoldsRows s.toTable k)
    {column : UInt16} {row_i : UInt32} {name : Bytes}
    (hcolumn : hdr[column.toNat]? = some name)
    (hfit : s.columns.toNat * (row_i.toNat + 1) < 2 ^ 32) :
    (inherited (Table.cell column row_i)).run s =
        .ok (s.cols_.toNat * row_i.toNat + column.toNat)
          { s with toTable := s.toTable.resizeTo (max k (row_i.toNat + 1)) } ∧
      s.cols_.toNat * max k (row_i.toNat + 1) < 2 ^ 32 ∧
      HasHeader { s with toTable := s.toTable.resizeTo (max k (row_i.toNat + 1)) } hdr := by
  have hcol : column.toNat < s.cols_.toNat := by
    rw [← h.firstRow.length_eq]
    exact (List.getElem?_eq_some_iff.mp hcolumn).1
  have hmax : s.cols_.toNat * max k (row_i.toNat + 1) < 2 ^ 32 := by
    rcases max_choice k (row_i.toNat + 1) with hchoice | hchoice
    · rw [hchoice]
      exact hk.cells_lt
    · rw [hchoice]
      exact hfit
  refine ⟨?_, hmax, h.resizeTo hk (le_max_left _ _) (by omega) hmax⟩
  rw [inherited_run, Table.cell_run hk hcol hfit]

/-- A map that takes the names to their columns is not empty. -/
theorem Maps.filled
    {m : UnorderedMap Bytes UInt16}
    (h : Maps m hdr)
    (hne : hdr ≠ []) :
    m.entries ≠ [] := by
  obtain ⟨name, names, rfl⟩ := List.exists_cons_of_ne_nil hne
  have hlookup : m.lookup name = some 0 := (h name 0).mpr rfl
  intro hnil
  have hempty : m = ∅ := AList.ext hnil
  rw [hempty, AList.lookup_empty] at hlookup
  cases hlookup

/-- The map knows no other names. -/
theorem Maps.lookup_eq_none_iff
    {m : UnorderedMap Bytes UInt16}
    (h : Maps m hdr)
    (hlen : hdr.length ≤ 65535)
    {name : Bytes} :
    m.lookup name = none ↔ name ∉ hdr := by
  rw [Option.eq_none_iff_forall_ne_some]
  constructor
  · intro hnone hmem
    obtain ⟨i, hi, hname⟩ := List.getElem_of_mem hmem
    have hii : (UInt16.ofNat i).toNat = i :=
      UInt16.toNat_ofNat_of_lt' (show i < 65536 by omega)
    refine hnone (UInt16.ofNat i) ((h name _).mpr ?_)
    rw [hii, List.getElem?_eq_getElem hi, hname]
  · intro hmem i hi
    exact hmem (List.mem_of_getElem? ((h name i).mp hi))

/-- The header has been read, or its names are still to be made distinct. -/
structure Settled (hdr : List Bytes) (s : HeaderedTable) : Prop where
  header : HasHeader s hdr
  nonempty : [] ∉ hdr
  map : s.hdrs_.entries = [] ∨ Maps s.hdrs_ hdr

theorem Settled.maps
    (h : Settled hdr s)
    (hfilled : s.hdrs_.entries ≠ []) :
    Maps s.hdrs_ hdr :=
  h.map.resolve_left hfilled

/-- The table that is searched has the header that its map was made from.  It is the
header from before if the map was filled. -/
theorem Settled.ready
    (h : Settled hdr s)
    (hready : Ready s s₁) :
    ∃ hdr₁,
      (s.hdrs_.entries ≠ [] → hdr₁ = hdr) ∧ HasHeader s₁ hdr₁ ∧ [] ∉ hdr₁ ∧
        Maps s₁.hdrs_ hdr₁ := by
  cases hready with
  | cached hheader hfilled =>
      exact ⟨hdr, fun _ => rfl, h.header, h.nonempty, h.maps hfilled⟩
  | read hempty hheader hren hnodup hne hmaps =>
      exact ⟨_, fun hfilled => absurd hempty hfilled,
        (hheader.withHeader hren.length_eq).withMap _, hne, hmaps⟩

/-- What a lookup answers with the header `hdr`: it knows the names of the header and no
others. -/
inductive Answers (hdr : List Bytes) (s : HeaderedTable) (colname_i : Bytes) (row_i : UInt32) :
    EStateM.Result StdException HeaderedTable Nat → Prop
  | unknown (what : String)
      {s₁ : HeaderedTable}
      (hname : colname_i ∉ hdr) :
      Answers hdr s colname_i row_i (.error ⟨.invalidArgument, what⟩ s₁)
  | found
      {s₁ : HeaderedTable} {column : UInt16} {k : Nat}
      (hk : Table.HoldsRows s.toTable k)
      (hk₁ : Table.HoldsRows s₁.toTable k)
      (hcols : s₁.cols_ = s.cols_)
      (hmax : s.cols_.toNat * max k (row_i.toNat + 1) < 2 ^ 32)
      (hcolumn : ∀ c : UInt16, hdr[c.toNat]? = some colname_i ↔ c = column) :
      Answers hdr s colname_i row_i
        (.ok (s.cols_.toNat * row_i.toNat + column.toNat)
          { s₁ with toTable := s₁.toTable.resizeTo (max k (row_i.toNat + 1)) })

/-- What a lookup does behind which the header is `hdr₁`. -/
structure Looked
    (hdr₁ : List Bytes) (s : HeaderedTable) (colname_i : Bytes) (row_i : UInt32)
    (r : EStateM.Result StdException HeaderedTable Nat) : Prop where
  answers : Answers hdr₁ s colname_i row_i r
  settled : Settled hdr₁ (stateOf r)
  filled : s.hdrs_.entries ≠ [] ∨ colname_i ≠ [] → (stateOf r).hdrs_.entries ≠ []

/-- A lookup in a table with a header, none of whose names is empty. -/
theorem Settled.lookup
    (h : Settled hdr s)
    (colname_i : Bytes) {row_i : UInt32}
    (hfit : s.columns.toNat * (row_i.toNat + 1) < 2 ^ 32) :
    ∃ hdr₁,
      (s.hdrs_.entries ≠ [] → hdr₁ = hdr) ∧
        Looked hdr₁ s colname_i row_i ((cell colname_i row_i).run s) := by
  obtain ⟨k, hk⟩ := h.header.holds
  have hcases := lookup_cases hk.valid colname_i row_i
  generalize (cell colname_i row_i).run s = r at hcases
  cases hcases with
  | noFirstRow what hrows =>
      exact absurd hrows h.header.firstRow.rows_ne
  | noName what hname =>
      exact ⟨hdr, fun _ => rfl, .unknown what (hname ▸ h.nonempty), h,
        fun hfilled => hfilled.resolve_right (not_not.mpr hname)⟩
  | emptyHeader what hempty hheader hren hmem =>
      have hne := h.nonempty
      rw [h.header.unique hheader] at hne
      exact absurd hmem (hren.nonempty hne)
  | unknown what hready hlookup =>
      obtain ⟨hdr₁, hsame, hheader, hne, hmaps⟩ := h.ready hready
      exact ⟨hdr₁, hsame,
        .unknown what ((hmaps.lookup_eq_none_iff hheader.firstRow.length_le).mp hlookup),
        ⟨hheader, hne, .inr hmaps⟩, fun _ => hmaps.filled hheader.ne_nil⟩
  | @found s₁ column hready hlookup =>
      obtain ⟨hdr₁, hsame, hheader, hne, hmaps⟩ := h.ready hready
      have hk₁ := hready.holdsRows hk
      have hcols : s₁.cols_ = s.cols_ := hready.below.columns
      have hcolumn := (hmaps colname_i column).mp hlookup
      have hfit₁ : s₁.columns.toNat * (row_i.toNat + 1) < 2 ^ 32 := by
        rw [hready.below.columns]
        exact hfit
      obtain ⟨hrun, hmax, hafter⟩ := hheader.cell_run hk₁ hcolumn hfit₁
      rw [hcols] at hmax
      have hunique (c : UInt16) : hdr₁[c.toNat]? = some colname_i ↔ c = column := by
        rw [← hmaps colname_i c, hlookup, Option.some.injEq, eq_comm]
      rw [hrun, hcols]
      exact ⟨hdr₁, hsame, .found hk hk₁ hcols hmax hunique, ⟨hafter, hne, .inr hmaps⟩,
        fun _ => hmaps.filled hheader.ne_nil⟩

end Settled

section Calls

/-- What a client does with the table.  A write through the reference that a lookup has
returned is a write by number to the cell it refers to. -/
inductive Call where
  | table (call : Table.Call Bytes)
  | lookup (colname_i : Bytes) (row_i : UInt32)
deriving DecidableEq, Repr

namespace Call

/-- The method that is called.  What it returns is dropped. -/
def method : Call → EStateM StdException HeaderedTable Unit
  | .table call => discard (inherited call.method)
  | .lookup colname_i row_i => discard (cell colname_i row_i)

/-- The rows that a call asks for. -/
def rowsRequested : Call → Nat
  | .table call => call.rowsRequested
  | .lookup _ row_i => row_i.toNat + 1

end Call

/-- One call as a step, whether it returns or throws. -/
def Calls (s : HeaderedTable) (call : Call) (s' : HeaderedTable) : Prop :=
  stateOf (call.method.run s) = s'

/-- The rows asked for have fewer than 2^32 cells. -/
def Fits (s : HeaderedTable) (call : Call) (_ : HeaderedTable) : Prop :=
  s.columns.toNat * call.rowsRequested < 2 ^ 32

instance (s : HeaderedTable) (call : Call) (s' : HeaderedTable) :
    Decidable (Fits s call s') :=
  inferInstanceAs (Decidable (_ < _))

/-- The first row is the same behind the call. -/
def HeaderKept (s : HeaderedTable) (_ : Call) (s' : HeaderedTable) : Prop :=
  s'.headerRow = s.headerRow

/-- The calls that ask for fewer than 2^32 cells and do not change the first row. -/
def FitsAndKeeps (s : HeaderedTable) (call : Call) (s' : HeaderedTable) : Prop :=
  Fits s call s' ∧ HeaderKept s call s'

instance (s : HeaderedTable) (call : Call) (s' : HeaderedTable) :
    Decidable (FitsAndKeeps s call s') :=
  inferInstanceAs (Decidable (_ < _ ∧ _ = _))

variable {s s' : HeaderedTable} {hdr : List Bytes} {call : Call}

theorem stateOf_lookup
    (s : HeaderedTable) (colname_i : Bytes) (row_i : UInt32) :
    stateOf ((Call.lookup colname_i row_i).method.run s) =
      stateOf ((cell colname_i row_i).run s) := by
  rw [Call.method, run_discard]
  cases (cell colname_i row_i).run s <;> rfl

theorem stateOf_table
    (s : HeaderedTable) (call : Table.Call Bytes) :
    stateOf ((Call.table call).method.run s) =
      { s with toTable := stateOf (call.method.run s.toTable) } := by
  rw [Call.method, run_discard, inherited_run]
  cases call.method.run s.toTable <;> rfl

/-- Every call leaves a valid table. -/
theorem valid_call
    (h : s.toTable.Valid)
    (hstep : Guarded Fits Calls s call s') :
    s'.toTable.Valid := by
  obtain ⟨hfit, rfl⟩ := hstep
  cases call with
  | table call =>
      rw [stateOf_table]
      exact h.call hfit
  | lookup colname_i row_i =>
      rw [stateOf_lookup]
      have hcases := lookup_cases h colname_i row_i
      generalize (cell colname_i row_i).run s = r at hcases
      cases hcases with
      | noFirstRow what hrows =>
          exact h
      | noName what hname =>
          exact h
      | emptyHeader what hempty hheader hren hmem =>
          obtain ⟨k, hk⟩ := hheader.holds
          exact (hheader.holdsRows_withHeader hren.length_eq hk).valid
      | unknown what hready hlookup =>
          exact hready.valid h
      | @found s₁ column hready hlookup =>
          have hfit₁ : s₁.columns.toNat * (row_i.toNat + 1) < 2 ^ 32 := by
            rw [hready.below.columns]
            exact hfit
          have hread : Table.Valid
              (stateOf ((Table.Call.read column row_i).method.run s₁.toTable)) :=
            (hready.valid h).call hfit₁
          have hsame :
              (stateOf ((inherited (Table.cell column row_i)).run s₁)).toTable =
                stateOf ((Table.Call.read column row_i).method.run s₁.toTable) := by
            rw [inherited_run, Table.Call.method, Table.fetch]
            simp only [EStateM.run_bind]
            cases (Table.cell column row_i).run s₁.toTable <;> rfl
          rw [hsame]
          exact hread

/-- A call that keeps the header keeps it settled, and a map that is filled stays so. -/
theorem Settled.step
    (h : Settled hdr s)
    (hstep : Guarded FitsAndKeeps Calls s call s') :
    Settled hdr s' ∧ (s.hdrs_.entries ≠ [] → s'.hdrs_.entries ≠ []) := by
  obtain ⟨⟨hfit, hkept⟩, hcall⟩ := hstep
  have hvalid : s.toTable.Valid := by
    obtain ⟨k, hk⟩ := h.header.holds
    exact hk.valid
  have hrow : s'.headerRow = hdr := Eq.trans hkept h.header.row
  cases call with
  | table call =>
      have hvalid' := valid_call hvalid ⟨hfit, hcall⟩
      have hheader : HasHeader s' hdr := by
        have hne := h.header.ne_nil
        rw [← hrow] at hne ⊢
        exact hasHeader_of_headerRow hvalid' hne
      have hmap : s'.hdrs_ = s.hdrs_ := by
        rw [← hcall, stateOf_table]
      rw [hmap]
      exact ⟨⟨hheader, h.nonempty, by rw [hmap]; exact h.map⟩, id⟩
  | lookup colname_i row_i =>
      obtain ⟨hdr₁, -, hlooked⟩ := h.lookup colname_i hfit
      rw [Calls, stateOf_lookup] at hcall
      rw [← hcall] at hrow ⊢
      obtain rfl : hdr = hdr₁ := hrow.symm.trans hlooked.settled.header.row
      exact ⟨hlooked.settled, fun hfilled => hlooked.filled (.inl hfilled)⟩

end Calls

section Agreement

variable {s s₁ s' s₀ : HeaderedTable} {hdr₀ : List Bytes} {calls : List Call}

/-- The lookup refers to the cell that the call by number refers to. -/
def RefersTo
    (s : HeaderedTable) (colname_i : Bytes) (row_i : UInt32) (column : UInt16) : Prop :=
  ∃ pos s' t',
    (cell colname_i row_i).run s = .ok pos s' ∧
    (Table.cell column row_i).run s.toTable = .ok pos t' ∧
    s'.columns = t'.columns ∧ s'.rows = t'.rows

/-- The lookup throws because no column has the name. -/
def UnknownColumn
    (s : HeaderedTable) (colname_i : Bytes) (row_i : UInt32) : Prop :=
  ∃ what s', (cell colname_i row_i).run s = .error ⟨.invalidArgument, what⟩ s'

/-- With the header behind it, a lookup refers to the columns as their numbers do. -/
theorem Looked.agrees
    {hdr₁ : List Bytes} {colname_i : Bytes} {row_i : UInt32}
    (h : Looked hdr₁ s colname_i row_i ((cell colname_i row_i).run s))
    (hlen : hdr₁.length = s.cols_.toNat)
    (hfit : s.columns.toNat * (row_i.toNat + 1) < 2 ^ 32) :
    (∀ column : UInt16, hdr₁[column.toNat]? = some colname_i →
        RefersTo s colname_i row_i column) ∧
      (colname_i ∉ hdr₁ → UnknownColumn s colname_i row_i) := by
  have hanswers := h.answers
  generalize hrun : (cell colname_i row_i).run s = r at hanswers
  cases hanswers with
  | unknown what hname =>
      refine ⟨fun column hcolumn => ?_, fun _ => ⟨what, _, hrun⟩⟩
      exact absurd (List.mem_of_getElem? hcolumn) hname
  | found hk hk₁ hcols hmax hunique =>
      refine ⟨fun column hcolumn => ?_, fun hname => ?_⟩
      · obtain rfl := (hunique column).mp hcolumn
        have hcol : column.toNat < s.cols_.toNat := by
          rw [← hlen]
          exact (List.getElem?_eq_some_iff.mp hcolumn).1
        refine ⟨_, _, _, hrun, Table.cell_run hk hcol hfit, hcols, ?_⟩
        rw [← UInt32.toNat_inj, (hk.resizeTo hmax).rows_toNat]
        exact (hk₁.resizeTo (by rwa [hcols])).rows_toNat
      · have hcolumn := (hunique _).mpr rfl
        exact absurd (List.mem_of_getElem? hcolumn) hname

/-- **Names and numbers agree.**  In a table with a header, none of whose names is empty,
the first lookup by name leaves the header `s₁.headerRow`.  As long as no call changes it,
a lookup refers to the column that has the name in it and throws
`std::invalid_argument` if there is none, and so does the first lookup itself; and no
lookup changes a cell outside the first row.

The last lookup keeps the header by itself, unless the first one was refused for an empty
name, so that no header has been read yet. -/
theorem names_agree_with_numbers
    {colname₀ colname_i : Bytes} {row₀ row_i : UInt32}
    (hheader : HasHeader s₀ hdr₀)
    (hnonempty : [] ∉ hdr₀)
    (hnew : s₀.hdrs_ = ∅)
    (hfirst : Guarded Fits Calls s₀ (.lookup colname₀ row₀) s₁)
    (hrun : Run (Guarded FitsAndKeeps Calls) s₁ calls s)
    (hlast : Guarded Fits Calls s (.lookup colname_i row_i) s')
    (hkept : colname₀ = [] → HeaderKept s (.lookup colname_i row_i) s') :
    ((∀ column : UInt16, s₁.headerRow[column.toNat]? = some colname₀ →
        RefersTo s₀ colname₀ row₀ column) ∧
      (colname₀ ∉ s₁.headerRow → UnknownColumn s₀ colname₀ row₀) ∧
      Below s₀ s₁) ∧
    (∀ column : UInt16, s₁.headerRow[column.toNat]? = some colname_i →
        RefersTo s colname_i row_i column) ∧
      (colname_i ∉ s₁.headerRow → UnknownColumn s colname_i row_i) ∧
      Below s s' := by
  have hvalid₀ : s₀.toTable.Valid := by
    obtain ⟨k, hk⟩ := hheader.holds
    exact hk.valid
  have hempty : s₀.hdrs_.entries = [] := by rw [hnew]; rfl
  have hsettled₀ : Settled hdr₀ s₀ := ⟨hheader, hnonempty, .inl hempty⟩
  obtain ⟨hfit₀, hstate₀⟩ := hfirst
  rw [Calls, stateOf_lookup] at hstate₀
  obtain ⟨hdr₁, -, hlooked₀⟩ := hsettled₀.lookup colname₀ hfit₀
  have hsettled₁ : Settled hdr₁ s₁ := hstate₀ ▸ hlooked₀.settled
  have hlength₁ : hdr₁.length = s₀.cols_.toNat := by
    have hcolumns := (below_lookup hvalid₀ colname₀ hfit₀).columns
    rw [hsettled₁.header.firstRow.length_eq, ← hstate₀]
    exact congrArg UInt16.toNat hcolumns
  have hagrees₀ := hlooked₀.agrees hlength₁ hfit₀
  have hbelow₀ := below_lookup hvalid₀ colname₀ hfit₀
  rw [hstate₀] at hbelow₀
  -- the header stays settled along the run, and the map filled
  have hinv :
      Settled hdr₁ s ∧ (colname₀ ≠ [] → s.hdrs_.entries ≠ []) :=
    hrun.invariant
      (fun u => Settled hdr₁ u ∧ (colname₀ ≠ [] → u.hdrs_.entries ≠ []))
      (fun hu hstep =>
        ⟨(hu.1.step hstep).1, fun hname => (hu.1.step hstep).2 (hu.2 hname)⟩)
      ⟨hsettled₁, fun hname => hstate₀ ▸ hlooked₀.filled (.inr hname)⟩
  obtain ⟨hsettled, hfilled⟩ := hinv
  obtain ⟨hfit, hstate⟩ := hlast
  rw [Calls, stateOf_lookup] at hstate
  obtain ⟨hdr₂, hsame, hlooked⟩ := hsettled.lookup colname_i hfit
  obtain rfl : hdr₂ = hdr₁ := by
    by_cases hname : colname₀ = []
    · have hrow : s'.headerRow = s.headerRow := hkept hname
      rw [← hsettled.header.row, ← hrow, ← hstate]
      exact hlooked.settled.header.row.symm
    · exact hsame (hfilled hname)
  have hagrees := hlooked.agrees hsettled.header.firstRow.length_eq hfit
  have hvalid : s.toTable.Valid := by
    obtain ⟨k, hk⟩ := hsettled.header.holds
    exact hk.valid
  have hbelow := below_lookup hvalid colname_i hfit
  rw [hstate] at hbelow
  rw [hsettled₁.header.row]
  exact ⟨⟨hagrees₀.1, hagrees₀.2, hbelow₀⟩, hagrees.1, hagrees.2, hbelow⟩

/-- Two columns with the name `a`, the second of which becomes `a_0`. -/
def twinTable : HeaderedTable :=
  { toTable := { cols_ := 2, data_ := [[0x61], [0x61]] }, hdrs_ := ∅ }

/-- The first lookup names the columns `a` and `a_0`. -/
def twinTableNamed : HeaderedTable :=
  stateOf ((Call.lookup [0x61] 0).method.run twinTable)

/-- A value is written to row 2 of the second column by number. -/
def twinTableWritten : HeaderedTable :=
  stateOf ((Call.table (.write 1 2 [0x78])).method.run twinTableNamed)

theorem names_agree_with_numbers_example :
    twinTableWritten.data_ = [[0x61], [0x61, 0x5F, 0x30], [], [], [], [0x78]] ∧
      RefersTo twinTableWritten [0x61, 0x5F, 0x30] 2 1 ∧
      UnknownColumn twinTableWritten [0x62] 2 := by
  have hheader : HasHeader twinTable [[0x61], [0x61]] :=
    ⟨⟨0, by decide, rfl, by decide⟩, rfl⟩
  have hfirst : Guarded Fits Calls twinTable (.lookup [0x61] 0) twinTableNamed :=
    ⟨by decide, rfl⟩
  have hrun :
      Run (Guarded FitsAndKeeps Calls) twinTableNamed [.table (.write 1 2 [0x78])]
        twinTableWritten :=
    .single ⟨by decide, rfl⟩
  have hknown :
      Guarded Fits Calls twinTableWritten (.lookup [0x61, 0x5F, 0x30] 2)
        (stateOf ((Call.lookup [0x61, 0x5F, 0x30] 2).method.run twinTableWritten)) :=
    ⟨by decide, rfl⟩
  have hunknown :
      Guarded Fits Calls twinTableWritten (.lookup [0x62] 2)
        (stateOf ((Call.lookup [0x62] 2).method.run twinTableWritten)) :=
    ⟨by decide, rfl⟩
  have hrefers :=
    names_agree_with_numbers hheader (by decide) rfl hfirst hrun hknown
      (fun h => absurd h (by decide))
  have hthrows :=
    names_agree_with_numbers hheader (by decide) rfl hfirst hrun hunknown
      (fun h => absurd h (by decide))
  exact ⟨rfl, hrefers.2.1 1 rfl, hthrows.2.2.1 (by decide)⟩

end Agreement

end HeaderedTable

end Bren
end Brenlib
