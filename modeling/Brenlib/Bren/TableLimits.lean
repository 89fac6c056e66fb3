import Brenlib.Bren.TableMatrix

/-!
# `Table` at the limits of its arithmetic

The size that a request needs, and the position of a cell, are computed in `uint32_t`.
Near 2^32 cells both wrap around, at different requests.  Nothing is assumed about the
history of the table: it may have wrapped before, so its last row may be incomplete.

* `CellKept`, `RowsKept`: a request answers for the row asked for and loses no cell, or
  throws and changes nothing.
* `RowFits t row`: the row ends below 2^32 cells.
* `RefusedInTime t column row`: the size wraps around, but `at` throws and no cell is lost.

**Result.**  `requests_kept_iff`.
-/

namespace Brenlib
namespace Bren

open TransitionSystem

namespace Table

variable {T : Type}

section Requests

/-- What `cell(column, row)` may end in. -/
def CellKept (t : Table T) (column : UInt16) (row : UInt32) :
    EStateM.Result StdException (Table T) Nat → Prop
  | .ok pos t' =>
      pos = t.columns.toNat * row.toNat + column.toNat ∧
      t'.columns = t.columns ∧ row < t'.rows ∧ t.data_ <+: t'.data_
  | .error _ t' =>
      t'.columns = t.columns ∧ t'.rows = t.rows ∧ t.data_ <+: t'.data_

/-- What `rows(n)` may end in: the cells of the first `n` rows stay. -/
def RowsKept (t : Table T) (n : UInt32) :
    EStateM.Result StdException (Table T) Unit → Prop
  | .ok _ t' =>
      t'.columns = t.columns ∧ t'.rows = n ∧
      t.data_.take (t.columns.toNat * n.toNat) <+: t'.data_
  | .error _ t' => t' = t

/-- The row ends below 2^32 cells. -/
def RowFits (t : Table T) (row : UInt32) : Prop :=
  t.columns.toNat * (row.toNat + 1) < 2 ^ 32

/-- The number of cells that `cell` resizes the table to. -/
def wrappedSize (t : Table T) (row : UInt32) : Nat :=
  t.columns.toNat * (row.toNat + 1) % 2 ^ 32

/-- The table has no complete row to lose, its cells are within the wrapped size, and the
position asked for is not. -/
def RefusedInTime (t : Table T) (column : UInt16) (row : UInt32) : Prop :=
  t.rows = 0 ∧ t.data_.length ≤ t.wrappedSize row ∧
    t.wrappedSize row + column.toNat < t.columns.toNat

end Requests

section Arithmetic

variable {t : Table T} {column : UInt16} {row : UInt32}

theorem toNat_size
    (t : Table T) (row : UInt32) :
    (t.cols_.toUInt32 * (row + 1)).toNat = t.wrappedSize row := by
  rw [UInt32.toNat_mul, UInt16.toNat_toUInt32, UInt32.toNat_add, UInt32.toNat_one,
    Nat.mul_mod_mod]
  rfl

theorem wrappedSize_lt
    (t : Table T) (row : UInt32) :
    t.wrappedSize row < 2 ^ 32 :=
  Nat.mod_lt _ (Nat.two_pow_pos 32)

theorem wrappedSize_eq
    (hfit : RowFits t row) :
    t.wrappedSize row = t.cols_.toNat * (row.toNat + 1) :=
  Nat.mod_eq_of_lt hfit

/-- The position wraps around before the size does: it is one row below the wrapped
size, unless this is negative. -/
theorem place_eq
    (hcol : column.toNat < t.cols_.toNat) :
    (row * t.cols_.toUInt32 + column.toUInt32).toNat =
      if t.cols_.toNat ≤ t.wrappedSize row + column.toNat then
        t.wrappedSize row + column.toNat - t.cols_.toNat
      else t.wrappedSize row + column.toNat + 2 ^ 32 - t.cols_.toNat := by
  have hcols : t.cols_.toNat < 2 ^ 16 := t.cols_.toNat_lt
  rw [toNat_place, wrappedSize, columns, Nat.mul_succ]
  split_ifs with hle
  · omega
  · omega

/-- `rows()` counts the complete rows, below 2^32 cells. -/
theorem rows_toNat
    (hcols : t.cols_ ≠ 0)
    (hlen : t.data_.length < 2 ^ 32) :
    t.rows.toNat = t.data_.length / t.cols_.toNat := by
  have hle := Nat.div_le_self t.data_.length t.cols_.toNat
  rw [rows, if_neg hcols]
  exact UInt32.toNat_ofNat_of_lt' (show _ < 2 ^ 32 by omega)

theorem rows_resized
    (hcols : t.cols_ ≠ 0)
    {n : Nat} (hn : n < 2 ^ 32) (v : T) :
    (rows { t with data_ := t.data_.takeD n v }).toNat = n / t.cols_.toNat := by
  have hlen : (t.data_.takeD n v).length = n := List.takeD_length _ _ _
  have hrows := rows_toNat (t := { t with data_ := t.data_.takeD n v }) hcols
    (by rw [hlen]; exact hn)
  rwa [hlen] at hrows

/-- Resizing keeps all cells if it does not cut any off. -/
theorem prefix_resized_iff
    (data : List T) (n : Nat) (v : T) :
    data <+: data.takeD n v ↔ data.length ≤ n := by
  constructor
  · intro h
    have hle := h.length_le
    rwa [List.takeD_length] at hle
  · intro hle
    obtain ⟨k, rfl⟩ := Nat.exists_eq_add_of_le hle
    rw [PaddedRows.takeD_length_add]
    exact List.prefix_append data _

theorem take_prefix_resized
    (data : List T) (n : Nat) (v : T) :
    data.take n <+: data.takeD n v := by
  rcases Nat.le_total data.length n with hle | hle
  · rw [List.take_of_length_le hle]
    exact (prefix_resized_iff data n v).mpr hle
  · rw [List.takeD_eq_take v hle]

end Arithmetic

section Cells

variable [Inhabited T]
variable {t : Table T} {column : UInt16} {row : UInt32}

/-- Below 2^32 cells, `cell` answers for the row asked for. -/
theorem cell_kept
    (hlen : t.data_.length < 2 ^ 32)
    (hcol : column.toNat < t.cols_.toNat)
    (hfit : RowFits t row) :
    CellKept t column row ((cell column row).run t) := by
  have hpos : 0 < t.cols_.toNat := Nat.zero_lt_of_lt hcol
  have hcols := cols_ne_zero hpos
  have hfit' : t.cols_.toNat * (row.toNat + 1) < 2 ^ 32 := hfit
  have hplace := toNat_position hcol hfit'
  have hsucc : t.cols_.toNat * (row.toNat + 1) = t.cols_.toNat * row.toNat + t.cols_.toNat :=
    Nat.mul_succ _ _
  rw [cell_eq hcol, toNat_size, wrappedSize_eq hfit]
  split_ifs with hrow
  · -- the table grows to the row
    rw [UInt32.le_iff_toNat_le, rows_toNat hcols hlen, ← Nat.lt_succ_iff,
      Nat.div_lt_iff_lt_mul hpos, Nat.mul_comm] at hrow
    have hgrown := rows_resized hcols hfit' (default : T)
    rw [Nat.mul_div_cancel_left _ hpos] at hgrown
    rw [at_run (by rw [hplace, List.takeD_length]; omega)]
    refine ⟨hplace, rfl, ?_, (prefix_resized_iff _ _ _).mpr hrow.le⟩
    rw [UInt32.lt_iff_toNat_lt, hgrown]
    exact Nat.lt_succ_self _
  · -- the row is there
    have hrow' := UInt32.not_le.mp hrow
    rw [UInt32.lt_iff_toNat_lt, rows_toNat hcols hlen, ← Nat.succ_le_iff,
      Nat.le_div_iff_mul_le hpos, Nat.mul_comm, Nat.succ_eq_add_one] at hrow'
    rw [at_run (by rw [hplace]; omega)]
    exact ⟨hplace, rfl, UInt32.not_le.mp hrow, List.prefix_rfl⟩

/-- From 2^32 cells on, `cell` resizes the table to the wrapped size: it answers for
another row, or throws behind the resizing. -/
theorem cell_wrapped
    (hlen : t.data_.length < 2 ^ 32)
    (hcol : column.toNat < t.cols_.toNat)
    (hfit : ¬ RowFits t row) :
    CellKept t column row ((cell column row).run t) ↔ RefusedInTime t column row := by
  have hpos : 0 < t.cols_.toNat := Nat.zero_lt_of_lt hcol
  have hcols := cols_ne_zero hpos
  have hwide : t.cols_.toNat < 2 ^ 16 := t.cols_.toNat_lt
  have hsize := t.wrappedSize_lt row
  have hfull : 2 ^ 32 ≤ t.cols_.toNat * (row.toNat + 1) := Nat.le_of_not_lt hfit
  have hgrown := rows_resized hcols hsize (default : T)
  have hrow : t.rows ≤ row := by
    rw [UInt32.le_iff_toNat_le, rows_toNat hcols hlen, ← Nat.lt_succ_iff,
      Nat.div_lt_iff_lt_mul hpos, Nat.mul_comm]
    exact Nat.lt_of_lt_of_le hlen hfull
  rw [cell_eq hcol, if_pos hrow, toNat_size]
  by_cases hwithin : t.cols_.toNat ≤ t.wrappedSize row + column.toNat
  · -- the wrapped position is in the wrapped table, which has too few rows
    have hplace := (place_eq hcol).trans (if_pos hwithin)
    rw [at_run (by rw [hplace, List.takeD_length]; omega)]
    constructor
    · rintro ⟨-, -, hlt, -⟩
      rw [UInt32.lt_iff_toNat_lt, hgrown, ← Nat.succ_le_iff, Nat.le_div_iff_mul_le hpos,
        Nat.mul_comm, Nat.succ_eq_add_one] at hlt
      omega
    · rintro ⟨-, -, hout⟩
      exact absurd hwithin (Nat.not_le.mpr hout)
  · -- the wrapped table has no complete row
    have hplace := (place_eq hcol).trans (if_neg hwithin)
    have hout := Nat.lt_of_not_le hwithin
    have hnone : rows { t with data_ := t.data_.takeD (t.wrappedSize row) default } = 0 := by
      rw [← UInt32.toNat_inj, hgrown]
      exact Nat.div_eq_of_lt (by omega)
    rw [at_run_throws _ _ (by rw [hplace, List.takeD_length]; omega)]
    constructor
    · rintro ⟨-, hrows, hkept⟩
      exact ⟨hrows.symm.trans hnone, (prefix_resized_iff _ _ _).mp hkept, hout⟩
    · rintro ⟨hrows, hle, -⟩
      exact ⟨rfl, hnone.trans hrows.symm, (prefix_resized_iff _ _ _).mpr hle⟩

theorem cell_kept_iff
    (hlen : t.data_.length < 2 ^ 32)
    (hcol : column.toNat < t.cols_.toNat) :
    CellKept t column row ((cell column row).run t) ↔
      RowFits t row ∨ RefusedInTime t column row := by
  by_cases hfit : RowFits t row
  · exact iff_of_true (cell_kept hlen hcol hfit) (.inl hfit)
  · rw [cell_wrapped hlen hcol hfit, or_iff_right hfit]

/-- `rows(n)` ends with the number of rows modulo 2^32 cells. -/
theorem setRows_kept_iff
    (hcols : t.cols_ ≠ 0) (n : UInt32) :
    RowsKept t n ((setRows n).run t) ↔ t.columns.toNat * n.toNat < 2 ^ 32 := by
  have hpos : 0 < t.cols_.toNat := by
    apply Nat.pos_of_ne_zero
    exact fun hzero => hcols (UInt16.toNat_inj.mp hzero)
  have hsize : (t.cols_.toUInt32 * n).toNat = t.cols_.toNat * n.toNat % 2 ^ 32 := by
    rw [UInt32.toNat_mul, UInt16.toNat_toUInt32]
  have hrows := rows_resized hcols
    (Nat.mod_lt (t.cols_.toNat * n.toNat) (Nat.two_pow_pos 32)) (default : T)
  rw [setRows_eq hcols, hsize]
  constructor
  · rintro ⟨-, heq, -⟩
    rw [heq] at hrows
    have hmul := Nat.div_mul_le_self (t.cols_.toNat * n.toNat % 2 ^ 32) t.cols_.toNat
    rw [← hrows, Nat.mul_comm] at hmul
    exact Nat.lt_of_le_of_lt hmul (Nat.mod_lt _ (Nat.two_pow_pos 32))
  · intro hfit
    rw [columns] at hfit
    rw [Nat.mod_eq_of_lt hfit] at hrows ⊢
    refine ⟨rfl, ?_, take_prefix_resized _ _ _⟩
    rw [← UInt32.toNat_inj, hrows, Nat.mul_div_cancel_left _ hpos]

end Cells

section History

variable [Inhabited T]
variable {t t' : Table T}

theorem length_cell_lt
    (hlen : t.data_.length < 2 ^ 32) (column : UInt16) (row : UInt32) :
    (stateOf ((cell column row).run t)).data_.length < 2 ^ 32 := by
  by_cases hcols : t.cols_ = 0
  · simpa only [cell, EStateM.run_bind, EStateM.run_get, hcols, if_true, run_throw,
      stateOf_error] using hlen
  · by_cases hcol : t.cols_ ≤ column
    · simpa only [cell, EStateM.run_bind, EStateM.run_get, hcols, hcol, if_true, if_false,
        run_throw, stateOf_error] using hlen
    · have hat (s : Table T) (pos : UInt32) : stateOf ((at_ pos).run s) = s := by
        rcases Nat.lt_or_ge pos.toNat s.data_.length with hlt | hge
        · rw [at_run hlt, stateOf_ok]
        · rw [at_run_throws _ _ hge, stateOf_error]
      rw [UInt16.le_iff_toNat_le, Nat.not_le] at hcol
      rw [cell_eq hcol, hat]
      split_ifs with hrow
      · rw [List.takeD_length]
        exact UInt32.toNat_lt _
      · exact hlen

/-- Every call leaves fewer than 2^32 cells, whatever it asks for. -/
theorem length_call_lt
    (hlen : t.data_.length < 2 ^ 32)
    {call : Call T × Answer T}
    (hcall : Calls t call t') :
    t'.data_.length < 2 ^ 32 := by
  obtain ⟨-, rfl⟩ := hcall
  obtain ⟨call, answer⟩ := call
  cases call with
  | columns columns_i =>
      simp only [Call.method, setColumns, EStateM.run_bind, EStateM.run_get]
      split_ifs <;> exact hlen
  | rows rows_i =>
      by_cases hcols : t.cols_ = 0
      · simpa only [Call.method, setRows, EStateM.run_bind, EStateM.run_get, hcols, if_true,
          run_throw, stateOf_error] using hlen
      · simp only [Call.method, EStateM.run_bind, setRows_eq hcols, EStateM.run_pure,
          stateOf_ok, List.takeD_length]
        exact UInt32.toNat_lt _
  | read column_i row_i =>
      have hcell := length_cell_lt hlen column_i row_i
      simp only [Call.method, fetch, EStateM.run_bind]
      cases hrun : (cell column_i row_i).run t with
      | ok pos t' =>
          rwa [hrun] at hcell
      | error e t' =>
          rwa [hrun] at hcell
  | write column_i row_i value =>
      have hcell := length_cell_lt hlen column_i row_i
      simp only [Call.method, assign, EStateM.run_bind]
      cases hrun : (cell column_i row_i).run t with
      | ok pos t' =>
          rw [hrun, stateOf_ok] at hcell
          simpa only [EStateM.run_modify, EStateM.run_pure, stateOf_ok, List.length_set]
            using hcell
      | error e t' =>
          rwa [hrun] at hcell

theorem length_run_lt
    {calls : List (Call T × Answer T)}
    (hrun : Run Calls (empty : Table T) calls t) :
    t.data_.length < 2 ^ 32 :=
  hrun.invariant (fun t => t.data_.length < 2 ^ 32)
    (fun hlen hcall => length_call_lt hlen hcall) (Nat.two_pow_pos 32)

/-- **The limits of a table.**  Behind every history, a request for a cell answers for
the row asked for and loses nothing, or throws and changes nothing, exactly when the row
ends below 2^32 cells, or when it is refused in time.  A request for `n` rows does so
exactly when these have fewer than 2^32 cells. -/
theorem requests_kept_iff
    {calls : List (Call T × Answer T)}
    (hrun : Run Calls (empty : Table T) calls t)
    (hcols : t.columns ≠ 0) :
    (∀ (column : UInt16) (row : UInt32), column < t.columns →
      (CellKept t column row ((cell column row).run t) ↔
        RowFits t row ∨ RefusedInTime t column row)) ∧
    ∀ n : UInt32,
      RowsKept t n ((setRows n).run t) ↔ t.columns.toNat * n.toNat < 2 ^ 32 := by
  refine ⟨?_, setRows_kept_iff hcols⟩
  intro column row hcol
  exact cell_kept_iff (length_run_lt hrun) (UInt16.lt_iff_toNat_lt.mp hcol)

/-- Two columns and two rows. -/
def square : Table Nat where
  cols_ := 2
  data_ := [1, 2, 3, 4]

theorem run_square :
    Run Calls (empty : Table Nat)
      [(.columns 2, .ok none), (.write 0 0 1, .ok none), (.write 1 0 2, .ok none),
        (.write 0 1 3, .ok none), (.write 1 1 4, .ok none)] square :=
  .cons ⟨rfl, rfl⟩ <| .cons ⟨rfl, rfl⟩ <| .cons ⟨rfl, rfl⟩ <| .cons ⟨rfl, rfl⟩ <|
    .cons ⟨rfl, rfl⟩ <| .nil _

theorem requests_kept_square :
    (∀ (column : UInt16) (row : UInt32), column < square.columns →
      (CellKept square column row ((cell column row).run square) ↔
        RowFits square row ∨ RefusedInTime square column row)) ∧
    ∀ n : UInt32,
      RowsKept square n ((setRows n).run square) ↔ square.columns.toNat * n.toNat < 2 ^ 32 :=
  requests_kept_iff run_square (by decide)

/-- Row 2^31 of two columns is answered with a cell of row 0, and row 1 is lost.  A row
number of 2^32 - 1 throws, and all rows are lost.  Resizing to 2^31 + 1 rows leaves one. -/
theorem square_shrinks :
    ((cell 0 0x80000000).run square = .ok 0 { cols_ := 2, data_ := [1, 2] } ∧
      ¬ CellKept square 0 0x80000000 ((cell 0 0x80000000).run square)) ∧
    ((∃ what, (cell 0 0xFFFFFFFF).run square =
        .error ⟨.outOfRange, what⟩ { cols_ := 2, data_ := [] }) ∧
      ¬ CellKept square 0 0xFFFFFFFF ((cell 0 0xFFFFFFFF).run square)) ∧
    (setRows 0x80000001).run square = .ok () { cols_ := 2, data_ := [1, 2] } ∧
      ¬ RowsKept square 0x80000001 ((setRows 0x80000001).run square) := by
  refine ⟨⟨rfl, ?_⟩, ⟨⟨_, rfl⟩, ?_⟩, rfl, ?_⟩
  · intro h
    exact absurd h.1 (by decide)
  · intro h
    exact absurd h.2.1 (by decide)
  · intro h
    exact absurd h.2.1 (by decide)

end History

end Table

end Bren
end Brenlib
