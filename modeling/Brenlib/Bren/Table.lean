import Brenlib.Base.PaddedRows
import Brenlib.Bren.StdLibrary

/-!
# `Table`: a two-dimensional array over one vector

The model follows `hdr/bren/Table.hpp`.  The column count is a `uint16_t`, row
numbers are `uint32_t`, and a product of the two is computed in `uint32_t`, so
it wraps modulo 2^32.

`cell` returns a reference, which is modelled by the position in `data_` it
refers to; `fetch` and `assign` read and write through that reference.

**Results.**  For a table that holds `k` complete rows (`HoldsRows t k`):
* `cell_run`: within the column count and below 2^32 cells, `cell` grows the
  table to hold the row and refers to the cell's place in row order.
* `cell_overflow`: asking for row `k` throws `std::out_of_range` when the cell
  count would reach 2^32.
* `assign_next`, `assign_present` and `fetch_present`: what a store into a new
  row, a store into an existing row and a read do.
-/

namespace Brenlib
namespace Bren

structure Table (T : Type) where
  cols_ : UInt16
  data_ : List T
deriving DecidableEq, Repr

namespace Table

section Methods

variable {T : Type}

/-- `Table()`. -/
def empty : Table T :=
  { cols_ := 0, data_ := [] }

/-- `columns()`. -/
def columns (t : Table T) : UInt16 :=
  t.cols_

/-- `columns(columns_i)`. -/
def setColumns (columns_i : UInt16) : EStateM StdException (Table T) Unit := do
  let t ← get
  if columns_i = 0 then
    throw ⟨.invalidArgument, "Number of columns not allowed to be 0"⟩
  if t.cols_ ≠ 0 ∧ columns_i ≠ t.cols_ then
    throw ⟨.logicError, s!"Number of columns is already set to {t.cols_.toNat}"⟩
  set { t with cols_ := columns_i }

/-- `rows()`. -/
def rows (t : Table T) : UInt32 :=
  if t.cols_ = 0 then 0
  else UInt32.ofNat (t.data_.length / t.cols_.toNat)

/-- Text of the exception that `std::vector::at` throws. -/
def rangeCheckText (n size : Nat) : String :=
  s!"vector::_M_range_check: __n (which is {n}) >= this->size() (which is {size})"

/-- `data_.at(pos_i)`, which throws past the end. -/
def at_ (pos_i : UInt32) : EStateM StdException (Table T) Nat := do
  let t ← get
  if t.data_.length ≤ pos_i.toNat then
    throw ⟨.outOfRange, rangeCheckText pos_i.toNat t.data_.length⟩
  else
    return pos_i.toNat

variable [Inhabited T]

/-- `rows(rows_i)`. -/
def setRows (rows_i : UInt32) : EStateM StdException (Table T) Unit := do
  let t ← get
  if t.cols_ = 0 then
    throw ⟨.logicError, "Please set the number of columns first"⟩
  set { t with data_ := t.data_.takeD (t.cols_.toUInt32 * rows_i).toNat default }

/-- `cell(column_i, row_i)`: the position in `data_` of the returned reference. -/
def cell (column_i : UInt16) (row_i : UInt32) :
    EStateM StdException (Table T) Nat := do
  let t ← get
  if t.cols_ = 0 then
    throw ⟨.logicError, "Please set the number of columns first"⟩
  if t.cols_ ≤ column_i then
    throw ⟨.outOfRange, s!"Requested column {column_i.toNat} should be less than the" ++
      s!" number of columns, which is {t.cols_.toNat}"⟩
  if t.rows ≤ row_i then
    setRows (row_i + 1)
  at_ (row_i * t.cols_.toUInt32 + column_i.toUInt32)

/-- `cell(column_i, row_i) = value`. -/
def assign (column_i : UInt16) (row_i : UInt32) (value : T) :
    EStateM StdException (Table T) Unit := do
  let pos ← cell column_i row_i
  modify fun t => { t with data_ := t.data_.set pos value }

/-- Reading `cell(column_i, row_i)`. -/
def fetch (column_i : UInt16) (row_i : UInt32) :
    EStateM StdException (Table T) T := do
  let pos ← cell column_i row_i
  let t ← get
  return t.data_.getD pos default

end Methods

section Rows

variable {T : Type}

/-- The table has columns and exactly `k` complete rows, within 2^32 cells. -/
structure HoldsRows (t : Table T) (k : Nat) : Prop where
  columns_pos : 0 < t.cols_.toNat
  length_data : t.data_.length = t.cols_.toNat * k
  cells_lt : t.cols_.toNat * k < 2 ^ 32

theorem cols_ne_zero
    {t : Table T}
    (hpos : 0 < t.cols_.toNat) :
    t.cols_ ≠ 0 := by
  intro hzero
  simp [hzero] at hpos

theorem HoldsRows.cols_ne_zero
    {t : Table T} {k : Nat}
    (h : HoldsRows t k) :
    t.cols_ ≠ 0 :=
  Table.cols_ne_zero h.columns_pos

theorem HoldsRows.rows_lt
    {t : Table T} {k : Nat}
    (h : HoldsRows t k) :
    k < 2 ^ 32 :=
  lt_of_le_of_lt (Nat.le_mul_of_pos_left k h.columns_pos) h.cells_lt

/-- The cells up to the end of an existing row are within the limit. -/
theorem HoldsRows.row_fits
    {t : Table T} {k row : Nat}
    (h : HoldsRows t k)
    (hrow : row < k) :
    t.cols_.toNat * (row + 1) < 2 ^ 32 :=
  lt_of_le_of_lt (Nat.mul_le_mul_left _ hrow) h.cells_lt

/-- `rows()` counts the complete rows. -/
theorem HoldsRows.rows_toNat
    {t : Table T} {k : Nat}
    (h : HoldsRows t k) :
    t.rows.toNat = k := by
  rw [rows, if_neg h.cols_ne_zero, h.length_data,
    Nat.mul_div_cancel_left k h.columns_pos]
  exact UInt32.toNat_ofNat_of_lt' h.rows_lt

/-- `columns() * row` computed in `uint32_t`, when it fits. -/
theorem toNat_cols_mul
    {t : Table T} {row : UInt32}
    (h : t.cols_.toNat * row.toNat < 2 ^ 32) :
    (t.cols_.toUInt32 * row).toNat = t.cols_.toNat * row.toNat := by
  rw [UInt32.toNat_mul, UInt16.toNat_toUInt32, Nat.mod_eq_of_lt h]

/-- Position of a cell, computed in `uint32_t`. -/
theorem toNat_place
    (t : Table T) (column : UInt16) (row : UInt32) :
    (row * t.cols_.toUInt32 + column.toUInt32).toNat =
      (t.cols_.toNat * row.toNat + column.toNat) % 2 ^ 32 := by
  rw [UInt32.toNat_add, UInt32.toNat_mul, UInt16.toNat_toUInt32, UInt16.toNat_toUInt32,
    Nat.mod_add_mod, Nat.mul_comm]

/-- Position of a cell when the row fits. -/
theorem toNat_position
    {t : Table T} {column : UInt16} {row : UInt32}
    (hcol : column.toNat < t.cols_.toNat)
    (hfit : t.cols_.toNat * (row.toNat + 1) < 2 ^ 32) :
    (row * t.cols_.toUInt32 + column.toUInt32).toNat =
      t.cols_.toNat * row.toNat + column.toNat := by
  have hmul : t.cols_.toNat * row.toNat + t.cols_.toNat < 2 ^ 32 := by
    rwa [Nat.mul_succ] at hfit
  rw [toNat_place, Nat.mod_eq_of_lt (by omega)]

theorem at_run
    {t : Table T} {pos : UInt32}
    (h : pos.toNat < t.data_.length) :
    (at_ pos).run t = .ok pos.toNat t := by
  simp [at_, Nat.not_le.mpr h]

theorem at_run_throws
    (t : Table T) (pos : UInt32)
    (h : t.data_.length ≤ pos.toNat) :
    (at_ pos).run t =
      .error ⟨.outOfRange, rangeCheckText pos.toNat t.data_.length⟩ t := by
  simp [at_, h]

/-- A table with a row holds all cells of its first row. -/
theorem cols_le_length
    {t : Table T}
    (hrows : t.rows ≠ 0) :
    t.cols_.toNat ≤ t.data_.length := by
  by_contra hlt
  have hzero : t.data_.length / t.cols_.toNat = 0 := Nat.div_eq_of_lt (Nat.lt_of_not_le hlt)
  unfold rows at hrows
  rw [hzero] at hrows
  split_ifs at hrows
  · exact hrows rfl
  · exact hrows rfl

variable [Inhabited T]

/-- The table resized to `k` rows, without the wrap-around of `rows(k)`. -/
def resizeTo (t : Table T) (k : Nat) : Table T :=
  { t with data_ := t.data_.takeD (t.cols_.toNat * k) default }

@[simp] theorem resizeTo_cols
    (t : Table T) (k : Nat) :
    (t.resizeTo k).cols_ = t.cols_ := rfl

theorem HoldsRows.resizeTo
    {t : Table T} {k : Nat}
    (h : HoldsRows t k) {n : Nat}
    (hn : t.cols_.toNat * n < 2 ^ 32) :
    HoldsRows (t.resizeTo n) n :=
  ⟨h.columns_pos, List.takeD_length _ _ _, hn⟩

theorem HoldsRows.resizeTo_self
    {t : Table T} {k : Nat}
    (h : HoldsRows t k) :
    t.resizeTo k = t := by
  have hdata :
      t.data_.takeD (t.cols_.toNat * k) default = t.data_ := by
    rw [← h.length_data, List.takeD_eq_take _ le_rfl, List.take_length]
  rw [Table.resizeTo, hdata]

/-- Growing by one row appends a row of default values. -/
theorem HoldsRows.resizeTo_succ
    {t : Table T} {k : Nat}
    (h : HoldsRows t k) :
    (t.resizeTo (k + 1)).data_ =
      t.data_ ++ List.replicate t.cols_.toNat default := by
  rw [Table.resizeTo, Nat.mul_add, Nat.mul_one, ← h.length_data]
  exact PaddedRows.takeD_length_add t.data_ t.cols_.toNat default

/-- What `rows(row)` does to a table with columns, whatever wraps around. -/
theorem setRows_eq
    {t : Table T}
    (hcols : t.cols_ ≠ 0) (row : UInt32) :
    (setRows row).run t =
      .ok () { t with data_ := t.data_.takeD (t.cols_.toUInt32 * row).toNat default } := by
  simp only [setRows, hcols, EStateM.run_bind, EStateM.run_get, EStateM.run_set, if_false]

theorem setRows_run
    {t : Table T} {row : UInt32}
    (hcols : t.cols_ ≠ 0)
    (hfit : t.cols_.toNat * row.toNat < 2 ^ 32) :
    (setRows row).run t = .ok () (t.resizeTo row.toNat) := by
  rw [setRows_eq hcols, toNat_cols_mul hfit, resizeTo]

/-- What `cell` does within the column count, whatever wraps around. -/
theorem cell_eq
    {t : Table T} {column : UInt16} {row : UInt32}
    (hcol : column.toNat < t.cols_.toNat) :
    (cell column row).run t =
      (at_ (row * t.cols_.toUInt32 + column.toUInt32)).run
        (if t.rows ≤ row then
          { t with data_ := t.data_.takeD (t.cols_.toUInt32 * (row + 1)).toNat default }
        else t) := by
  have hcols := cols_ne_zero (Nat.zero_lt_of_lt hcol)
  have hcolumn : ¬ t.cols_ ≤ column := by
    rw [UInt16.le_iff_toNat_le]
    omega
  split_ifs with hrow
  · simp only [cell, setRows_eq hcols, hcols, hcolumn, hrow, EStateM.run_bind,
      EStateM.run_get, if_true, if_false]
  · simp only [cell, hcols, hcolumn, hrow, EStateM.run_bind, EStateM.run_get, if_false]

/-- `cell` within the column count and the limit of 2^32 cells: the table grows
to hold the row and the reference is the cell's place in row order. -/
theorem cell_run
    {t : Table T} {k : Nat}
    (h : HoldsRows t k)
    {column : UInt16} {row : UInt32}
    (hcol : column.toNat < t.cols_.toNat)
    (hfit : t.cols_.toNat * (row.toNat + 1) < 2 ^ 32) :
    (cell column row).run t =
      .ok (t.cols_.toNat * row.toNat + column.toNat)
        (t.resizeTo (max k (row.toNat + 1))) := by
  have hpos := toNat_position hcol hfit
  rw [cell_eq hcol]
  split_ifs with hrow
  · have hle : k ≤ row.toNat := by
      rwa [UInt32.le_iff_toNat_le, h.rows_toNat] at hrow
    have hsucc : (row + 1).toNat = row.toNat + 1 := by
      have hone : row.toNat + 1 ≤ t.cols_.toNat * (row.toNat + 1) :=
        Nat.le_mul_of_pos_left _ h.columns_pos
      rw [UInt32.toNat_add, UInt32.toNat_one,
        Nat.mod_eq_of_lt (by omega)]
    have hsize :
        (t.cols_.toUInt32 * (row + 1)).toNat = t.cols_.toNat * (row.toNat + 1) := by
      rw [toNat_cols_mul (by rwa [hsucc]), hsucc]
    rw [Nat.max_eq_right (show k ≤ row.toNat + 1 by omega), hsize, ← hpos]
    apply at_run
    change _ < (t.resizeTo (row.toNat + 1)).data_.length
    rw [hpos, (h.resizeTo hfit).length_data, resizeTo_cols, Nat.mul_succ]
    omega
  · have hlt : row.toNat < k := by
      rwa [UInt32.le_iff_toNat_le, h.rows_toNat, Nat.not_le] at hrow
    rw [Nat.max_eq_left (show row.toNat + 1 ≤ k by omega), h.resizeTo_self, ← hpos]
    apply at_run
    have hle : t.cols_.toNat * (row.toNat + 1) ≤ t.cols_.toNat * k :=
      Nat.mul_le_mul_left _ hlt
    rw [hpos, h.length_data]
    rw [Nat.mul_succ] at hle
    omega

/-- Asking for the row after the last one throws once the cell count would
reach 2^32: the wrapped size is too small for the position asked for. -/
theorem cell_overflow
    {t : Table T} {k : Nat}
    (h : HoldsRows t k)
    {column : UInt16} {row : UInt32}
    (hcol : column.toNat = 0)
    (hrow : row.toNat = k)
    (hfull : 2 ^ 32 ≤ t.cols_.toNat * (k + 1)) :
    ∃ what t',
      (cell column row).run t = .error ⟨.outOfRange, what⟩ t' := by
  have hcol' : column.toNat < t.cols_.toNat := by
    rw [hcol]
    exact h.columns_pos
  have hrows : t.rows ≤ row := by
    rw [UInt32.le_iff_toNat_le, h.rows_toNat, hrow]
  have hcols : t.cols_.toNat < 2 ^ 16 := t.cols_.toNat_lt
  have hcells := h.cells_lt
  rw [Nat.mul_succ] at hfull
  -- the requested size wraps around to less than one row
  have hsize :
      (t.cols_.toUInt32 * (row + 1)).toNat ≤ t.cols_.toNat * k := by
    have hmod :
        (t.cols_.toUInt32 * (row + 1)).toNat =
          (t.cols_.toNat * k + t.cols_.toNat) % 2 ^ 32 := by
      rw [UInt32.toNat_mul, UInt16.toNat_toUInt32, UInt32.toNat_add,
        UInt32.toNat_one, hrow, Nat.mul_mod_mod, Nat.mul_succ]
    rw [hmod]
    omega
  have hpos :
      (row * t.cols_.toUInt32 + column.toUInt32).toNat = t.cols_.toNat * k := by
    rw [toNat_place, hcol, hrow, Nat.add_zero, Nat.mod_eq_of_lt hcells]
  rw [cell_eq hcol', if_pos hrows]
  refine ⟨_, _, at_run_throws _ _ ?_⟩
  rw [List.takeD_length, hpos]
  exact hsize

/-- A store into the row after the last one appends a row of defaults first. -/
theorem assign_next
    {t : Table T} {k : Nat}
    (h : HoldsRows t k)
    {column : UInt16} {row : UInt32}
    (hcol : column.toNat < t.cols_.toNat)
    (hrow : row.toNat = k)
    (hfit : t.cols_.toNat * (k + 1) < 2 ^ 32)
    (value : T) :
    (assign column row value).run t =
      .ok () { t with
        data_ :=
          (t.data_ ++ List.replicate t.cols_.toNat default).set
            (t.cols_.toNat * k + column.toNat) value } := by
  have hcell := cell_run h hcol
    (show t.cols_.toNat * (row.toNat + 1) < 2 ^ 32 by rwa [hrow])
  rw [hrow, Nat.max_eq_right (by omega)] at hcell
  simp only [assign, EStateM.run_bind, hcell, EStateM.run_modify,
    resizeTo_cols, h.resizeTo_succ]

/-- A store into an existing row changes that cell only. -/
theorem assign_present
    {t : Table T} {k : Nat}
    (h : HoldsRows t k)
    {column : UInt16} {row : UInt32}
    (hcol : column.toNat < t.cols_.toNat)
    (hrow : row.toNat < k)
    (value : T) :
    (assign column row value).run t =
      .ok () { t with
        data_ :=
          t.data_.set (t.cols_.toNat * row.toNat + column.toNat) value } := by
  have hcell := cell_run h hcol (h.row_fits hrow)
  rw [Nat.max_eq_left (by omega), h.resizeTo_self] at hcell
  simp only [assign, EStateM.run_bind, hcell, EStateM.run_modify]

theorem assign_overflow
    {t : Table T} {k : Nat}
    (h : HoldsRows t k)
    {column : UInt16} {row : UInt32}
    (hcol : column.toNat = 0)
    (hrow : row.toNat = k)
    (hfull : 2 ^ 32 ≤ t.cols_.toNat * (k + 1))
    (value : T) :
    ∃ what t',
      (assign column row value).run t =
        .error ⟨.outOfRange, what⟩ t' := by
  obtain ⟨what, t', hcell⟩ := cell_overflow h hcol hrow hfull
  refine ⟨what, t', ?_⟩
  simp only [assign, EStateM.run_bind, hcell]

/-- Reading an existing cell does not change the table. -/
theorem fetch_present
    {t : Table T} {k : Nat}
    (h : HoldsRows t k)
    {column : UInt16} {row : UInt32}
    (hcol : column.toNat < t.cols_.toNat)
    (hrow : row.toNat < k) :
    (fetch column row).run t =
      .ok (t.data_.getD (t.cols_.toNat * row.toNat + column.toNat) default)
        t := by
  have hcell := cell_run h hcol (h.row_fits hrow)
  rw [Nat.max_eq_left (by omega), h.resizeTo_self] at hcell
  simp only [fetch, EStateM.run_bind, hcell, EStateM.run_get,
    EStateM.run_pure]

/-- A cell of the first row, which is at the begin of the cells. -/
theorem cell_first
    {t : Table T} {column : UInt16}
    (hcol : column.toNat < t.cols_.toNat)
    (hrows : t.rows ≠ 0) :
    (cell column 0).run t = .ok column.toNat t := by
  have hrow : ¬ t.rows ≤ 0 := fun h => hrows (UInt32.le_zero_iff.mp h)
  have hpos : (0 * t.cols_.toUInt32 + column.toUInt32).toNat = column.toNat := by
    rw [UInt32.zero_mul, UInt32.zero_add, UInt16.toNat_toUInt32]
  rw [cell_eq hcol, if_neg hrow, ← hpos]
  apply at_run
  rw [hpos]
  exact Nat.lt_of_lt_of_le hcol (cols_le_length hrows)

theorem fetch_first
    {t : Table T} {column : UInt16}
    (hcol : column.toNat < t.cols_.toNat)
    (hrows : t.rows ≠ 0) :
    (fetch column 0).run t = .ok (t.data_.getD column.toNat default) t := by
  rw [fetch, run_bind_ok (cell_first hcol hrows)]
  rfl

theorem assign_first
    {t : Table T} {column : UInt16}
    (hcol : column.toNat < t.cols_.toNat)
    (hrows : t.rows ≠ 0)
    (value : T) :
    (assign column 0 value).run t =
      .ok () { t with data_ := t.data_.set column.toNat value } := by
  rw [assign, run_bind_ok (cell_first hcol hrows)]
  rfl

/-- The table has `N` columns and its cells are the entries of the given rows. -/
structure Shows (t : Table T) (N : Nat) (rows : List (List T)) : Prop where
  columns : t.columns.toNat = N
  row_count : t.rows.toNat = rows.length
  cell :
    ∀ (column : UInt16) (row : UInt32) (value : T),
      rows[row.toNat]?.bind (·[column.toNat]?) = some value →
        (fetch column row).run t = .ok value t

/-- A table shows the rows its cells were laid out from. -/
theorem HoldsRows.shows
    {t : Table T} {rows : List (List T)}
    (h : HoldsRows t rows.length)
    (hrows : ∀ row ∈ rows, row.length = t.cols_.toNat)
    (hdata : t.data_ = PaddedRows.flat t.cols_.toNat default rows) :
    Shows t t.cols_.toNat rows where
  columns := rfl
  row_count := h.rows_toNat
  cell := by
    intro column row value hvalue
    obtain ⟨fields, hfields, hcell⟩ := Option.bind_eq_some_iff.mp hvalue
    have hrow : row.toNat < rows.length :=
      (List.getElem?_eq_some_iff.mp hfields).1
    have hcol : column.toNat < t.cols_.toNat := by
      rw [← hrows fields (List.mem_of_getElem? hfields)]
      exact (List.getElem?_eq_some_iff.mp hcell).1
    rw [fetch_present h hcol hrow, List.getD_eq_getElem?_getD, hdata,
      PaddedRows.getElem?_flat default hrows hcol, hvalue, Option.getD_some]

end Rows

end Table

end Bren
end Brenlib
