import Brenlib.Base.GrowingMatrix
import Brenlib.Base.TransitionSystem
import Brenlib.Bren.Table

/-!
# `Table` as a matrix

A client calls the methods of a table in any order and goes on when one of them throws.
As long as no call asks for more than 2^32 cells, the table is the flat layout of a
matrix that grows by rows, and every call does to the matrix what its `meaning` says.

* `Call.meaning`: the answer of a call and the matrix behind it.
* `Represents t m`: the table holds the cells of the matrix.
* `represents_call`: one call; `lastWritten`: the cells as the history of the calls
  determines them.

**Result.**  `table_is_matrix`.
-/

namespace Brenlib
namespace Bren

open TransitionSystem

namespace Table

variable {T : Type}

/-- What a client does with a table. -/
inductive Call (T : Type) where
  | columns (columns_i : UInt16)
  | rows (rows_i : UInt32)
  | read (column_i : UInt16) (row_i : UInt32)
  | write (column_i : UInt16) (row_i : UInt32) (value : T)
deriving DecidableEq, Repr

/-- What a call gives back: the value read, if any, or the class of an exception. -/
abbrev Answer (T : Type) :=
  Except ExceptionClass (Option T)

namespace Call

/-- The rows that a call asks for. -/
def rowsRequested : Call T → Nat
  | .columns _ => 0
  | .rows rows_i => rows_i.toNat
  | .read _ row_i | .write _ row_i _ => row_i.toNat + 1

/-- The calls that throw. -/
def Refused (t : Table T) : Call T → Prop
  | .columns columns_i => columns_i = 0 ∨ (t.columns ≠ 0 ∧ columns_i ≠ t.columns)
  | .rows _ => t.columns = 0
  | .read column_i _ | .write column_i _ _ => t.columns ≤ column_i

variable [Inhabited T]

def method : Call T → EStateM StdException (Table T) (Option T)
  | .columns columns_i => do
      setColumns columns_i
      return none
  | .rows rows_i => do
      setRows rows_i
      return none
  | .read column_i row_i => do
      let value ← fetch column_i row_i
      return some value
  | .write column_i row_i value => do
      assign column_i row_i value
      return none

/-- What a call means for a matrix: the answer, and the matrix behind the call. -/
def meaning (m : GrowingMatrix T) : Call T → Answer T × GrowingMatrix T
  | .columns columns_i =>
      if columns_i = 0 then (.error .invalidArgument, m)
      else if m.columns ≠ 0 ∧ columns_i.toNat ≠ m.columns then (.error .logicError, m)
      else (.ok none, if m.columns = 0 then .ofColumns columns_i.toNat else m)
  | .rows rows_i =>
      if m.columns = 0 then (.error .logicError, m)
      else (.ok none, m.resize rows_i.toNat)
  | .read column_i row_i =>
      if m.columns = 0 then (.error .logicError, m)
      else if m.columns ≤ column_i.toNat then (.error .outOfRange, m)
      else (.ok (some (m.cell column_i.toNat row_i.toNat)), m.cover row_i.toNat)
  | .write column_i row_i value =>
      if m.columns = 0 then (.error .logicError, m)
      else if m.columns ≤ column_i.toNat then (.error .outOfRange, m)
      else (.ok none, (m.cover row_i.toNat).set column_i.toNat row_i.toNat value)

end Call

section Steps

variable [Inhabited T]

/-- A refused call changes nothing, whatever row it asks for. -/
theorem Call.stateOf_of_refused
    {t : Table T} {call : Call T}
    (h : call.Refused t) :
    stateOf (call.method.run t) = t := by
  have hcell (column : UInt16) (row : UInt32) (hcol : t.cols_ ≤ column) :
      ∃ e, (cell column row).run t = .error e t := by
    by_cases hzero : t.cols_ = 0
    · simp [cell, hzero]
    · simp [cell, hzero, hcol]
  cases call with
  | columns columns_i =>
      have hset : ∃ e, (setColumns columns_i).run t = .error e t := by
        by_cases hzero : columns_i = 0
        · simp [setColumns, hzero]
        · have hother : t.cols_ ≠ 0 ∧ columns_i ≠ t.cols_ := h.resolve_left hzero
          simp [setColumns, hzero, hother]
      obtain ⟨e, hthrows⟩ := hset
      rw [method, run_bind_error hthrows]
      rfl
  | rows rows_i =>
      have hset : ∃ e, (setRows rows_i).run t = .error e t := by
        have hzero : t.cols_ = 0 := h
        simp [setRows, hzero]
      obtain ⟨e, hthrows⟩ := hset
      rw [method, run_bind_error hthrows]
      rfl
  | read column_i row_i =>
      obtain ⟨e, hthrows⟩ := hcell column_i row_i h
      rw [method, fetch, run_bind_error (run_bind_error hthrows _)]
      rfl
  | write column_i row_i value =>
      obtain ⟨e, hthrows⟩ := hcell column_i row_i h
      rw [method, assign, run_bind_error (run_bind_error hthrows _)]
      rfl

/-- A call with its answer, as a step of a table. -/
def Calls (t : Table T) (call : Call T × Answer T) (t' : Table T) : Prop :=
  answerOf (call.1.method.run t) = call.2 ∧ stateOf (call.1.method.run t) = t'

/-- A call with its answer, as a step of a matrix. -/
def Means (m : GrowingMatrix T) (call : Call T × Answer T) (m' : GrowingMatrix T) : Prop :=
  call.1.meaning m = (call.2, m')

/-- The rows asked for have fewer than 2^32 cells. -/
def Fits (t : Table T) (call : Call T × Answer T) (_ : Table T) : Prop :=
  t.columns.toNat * call.1.rowsRequested < 2 ^ 32

instance (t : Table T) (call : Call T × Answer T) (t' : Table T) :
    Decidable (Fits t call t') :=
  inferInstanceAs (Decidable (_ < _))

/-- The table holds the cells of the matrix. -/
structure Represents (t : Table T) (m : GrowingMatrix T) : Prop where
  columns : t.cols_.toNat = m.columns
  laidOut : m.LaidOut t.data_
  within : m.columns * m.rows < 2 ^ 32
  no_rows : m.columns = 0 → m.rows = 0

theorem represents_empty :
    Represents (empty : Table T) (.ofColumns 0) where
  columns := rfl
  laidOut := .empty 0
  within := Nat.two_pow_pos 32
  no_rows := fun _ => rfl

namespace Represents

variable {t : Table T} {m : GrowingMatrix T}

theorem cols_eq_zero_iff
    (h : Represents t m) :
    t.cols_ = 0 ↔ m.columns = 0 := by
  rw [← h.columns, ← UInt16.toNat_inj]
  rfl

theorem holdsRows
    (h : Represents t m)
    (hcols : m.columns ≠ 0) :
    HoldsRows t m.rows where
  columns_pos := by
    rw [h.columns]
    exact Nat.pos_of_ne_zero hcols
  length_data := by rw [h.columns, h.laidOut.length]
  cells_lt := by
    rw [h.columns]
    exact h.within

theorem resizeTo
    (h : Represents t m)
    (hcols : m.columns ≠ 0)
    {n : Nat} (hn : m.columns * n < 2 ^ 32) :
    Represents (t.resizeTo n) (m.resize n) where
  columns := h.columns
  laidOut := by
    rw [Table.resizeTo, h.columns]
    exact h.laidOut.resize n
  within := hn
  no_rows := fun hzero => absurd hzero hcols

/-- `rows()` of a table without columns is 0 as well. -/
theorem rows_toNat
    (h : Represents t m) :
    t.rows.toNat = m.rows := by
  by_cases hcols : m.columns = 0
  · rw [rows, if_pos (h.cols_eq_zero_iff.mpr hcols), h.no_rows hcols]
    rfl
  · exact (h.holdsRows hcols).rows_toNat

/-- The limit is kept when a requested row is within it. -/
theorem cover_within
    (h : Represents t m)
    {r : Nat} (hr : m.columns * (r + 1) < 2 ^ 32) :
    m.columns * max m.rows (r + 1) < 2 ^ 32 := by
  rcases max_choice m.rows (r + 1) with hmax | hmax
  · rw [hmax]
    exact h.within
  · rw [hmax]
    exact hr

/-- `cell` of an existing column: the table covers the row, and the reference is the
place of the cell. -/
theorem cell_run
    (h : Represents t m)
    {column : UInt16} {row : UInt32}
    (hcol : column.toNat < m.columns)
    (hfit : m.columns * (row.toNat + 1) < 2 ^ 32) :
    (cell column row).run t =
        .ok (m.columns * row.toNat + column.toNat)
          (t.resizeTo (max m.rows (row.toNat + 1))) ∧
      Represents (t.resizeTo (max m.rows (row.toNat + 1))) (m.cover row.toNat) := by
  have hcols : m.columns ≠ 0 := Nat.ne_zero_of_lt hcol
  have hcol' : column.toNat < t.cols_.toNat := by rwa [h.columns]
  have hfit' : t.cols_.toNat * (row.toNat + 1) < 2 ^ 32 := by rwa [h.columns]
  have hrun := Table.cell_run (h.holdsRows hcols) hcol' hfit'
  rw [h.columns] at hrun
  exact ⟨hrun, h.resizeTo hcols (h.cover_within hfit)⟩

end Represents

/-- What `cell` can do: throw because there are no columns or not enough of them, and
change nothing, or refer to the cell of a table that covers the row. -/
inductive CellCases (t : Table T) (m : GrowingMatrix T) (column : UInt16) (row : UInt32) :
    EStateM.Result StdException (Table T) Nat → Prop
  | noColumns (what : String)
      (hcols : m.columns = 0) :
      CellCases t m column row (.error ⟨.logicError, what⟩ t)
  | noColumn (what : String)
      (hcols : m.columns ≠ 0)
      (hcol : m.columns ≤ column.toNat) :
      CellCases t m column row (.error ⟨.outOfRange, what⟩ t)
  | refers
      (hcols : m.columns ≠ 0)
      (hcol : column.toNat < m.columns)
      (hafter : Represents (t.resizeTo (max m.rows (row.toNat + 1))) (m.cover row.toNat)) :
      CellCases t m column row
        (.ok (m.columns * row.toNat + column.toNat)
          (t.resizeTo (max m.rows (row.toNat + 1))))

theorem cell_cases
    {t : Table T} {m : GrowingMatrix T}
    (h : Represents t m)
    (column : UInt16) {row : UInt32}
    (hfit : m.columns * (row.toNat + 1) < 2 ^ 32) :
    CellCases t m column row ((cell column row).run t) := by
  have hzero := h.cols_eq_zero_iff
  by_cases hcols : m.columns = 0
  · simp only [cell, EStateM.run_bind, EStateM.run_get, hzero.mpr hcols, if_true, run_throw]
    exact .noColumns _ hcols
  · by_cases hcol : m.columns ≤ column.toNat
    · have hcol' : t.cols_ ≤ column := by
        rw [UInt16.le_iff_toNat_le, h.columns]
        exact hcol
      simp only [cell, EStateM.run_bind, EStateM.run_get, mt hzero.mp hcols, hcol', if_true,
        if_false, run_throw]
      exact .noColumn _ hcols hcol
    · have hlt := Nat.lt_of_not_le hcol
      obtain ⟨hrun, hafter⟩ := h.cell_run hlt hfit
      rw [hrun]
      exact .refers hcols hlt hafter

theorem Represents.set
    {t : Table T} {m : GrowingMatrix T}
    (h : Represents t m)
    {c r : Nat} (hc : c < m.columns) (hr : r < m.rows) (v : T) :
    Represents { t with data_ := t.data_.set (m.columns * r + c) v } (m.set c r v) where
  columns := h.columns
  laidOut := h.laidOut.set hc hr v
  within := h.within
  no_rows := h.no_rows

section Call

variable {t : Table T} {m : GrowingMatrix T}

theorem represents_columns
    (h : Represents t m) (columns_i : UInt16) :
    answerOf ((Call.columns columns_i : Call T).method.run t) =
        ((Call.columns columns_i : Call T).meaning m).1 ∧
      Represents (stateOf ((Call.columns columns_i : Call T).method.run t))
        ((Call.columns columns_i : Call T).meaning m).2 := by
  have hzero := h.cols_eq_zero_iff
  simp only [Call.meaning]
  by_cases hnone : columns_i = 0
  · rw [if_pos hnone]
    simp only [Call.method, setColumns, EStateM.run_bind, EStateM.run_get, hnone,
      if_true, run_throw]
    exact ⟨rfl, h⟩
  · have hother : (t.cols_ ≠ 0 ∧ columns_i ≠ t.cols_) ↔
        (m.columns ≠ 0 ∧ columns_i.toNat ≠ m.columns) := by
      simp only [ne_eq, hzero, ← h.columns, UInt16.toNat_inj]
    rw [if_neg hnone]
    by_cases hset : t.cols_ ≠ 0 ∧ columns_i ≠ t.cols_
    · rw [if_pos (hother.mp hset)]
      simp only [Call.method, setColumns, EStateM.run_bind, EStateM.run_get, hnone,
        hset, ne_eq, not_false_eq_true, and_self, if_true, if_false, run_throw]
      exact ⟨rfl, h⟩
    · have hrun :
          ((Call.columns columns_i : Call T).method).run t =
            .ok none { t with cols_ := columns_i } := by
        simp only [Call.method, setColumns, EStateM.run_bind, EStateM.run_get, hnone,
          hset, if_false, EStateM.run_set, EStateM.run_pure]
      rw [if_neg (mt hother.mpr hset), hrun]
      refine ⟨rfl, ?_⟩
      by_cases hcols : m.columns = 0
      · have hdata : t.data_ = [] := by
          rw [← List.length_eq_zero_iff, h.laidOut.length, h.no_rows hcols, Nat.mul_zero]
        rw [if_pos hcols]
        refine ⟨rfl, ?_, Nat.two_pow_pos 32, fun _ => rfl⟩
        rw [stateOf_ok, hdata]
        exact .empty _
      · have hsame : columns_i = t.cols_ := by
          by_contra hne
          exact hset ⟨mt hzero.mp hcols, hne⟩
        rw [if_neg hcols, hsame]
        exact h

theorem represents_rows
    (h : Represents t m)
    {rows_i : UInt32}
    (hfit : m.columns * rows_i.toNat < 2 ^ 32) :
    answerOf ((Call.rows rows_i : Call T).method.run t) =
        ((Call.rows rows_i : Call T).meaning m).1 ∧
      Represents (stateOf ((Call.rows rows_i : Call T).method.run t))
        ((Call.rows rows_i : Call T).meaning m).2 := by
  have hzero := h.cols_eq_zero_iff
  simp only [Call.meaning]
  by_cases hcols : m.columns = 0
  · rw [if_pos hcols]
    simp only [Call.method, setRows, EStateM.run_bind, EStateM.run_get, hzero.mpr hcols,
      if_true, run_throw]
    exact ⟨rfl, h⟩
  · have hfit' : t.cols_.toNat * rows_i.toNat < 2 ^ 32 := by
      rw [h.columns]
      exact hfit
    have hrows := setRows_run (mt hzero.mp hcols) hfit'
    rw [if_neg hcols]
    simp only [Call.method, EStateM.run_bind, hrows, EStateM.run_pure]
    exact ⟨rfl, h.resizeTo hcols hfit⟩

theorem represents_read
    (h : Represents t m)
    (column_i : UInt16) {row_i : UInt32}
    (hfit : m.columns * (row_i.toNat + 1) < 2 ^ 32) :
    answerOf ((Call.read column_i row_i : Call T).method.run t) =
        ((Call.read column_i row_i : Call T).meaning m).1 ∧
      Represents (stateOf ((Call.read column_i row_i : Call T).method.run t))
        ((Call.read column_i row_i : Call T).meaning m).2 := by
  have hcases := cell_cases h column_i hfit
  simp only [Call.method, Call.meaning, fetch, EStateM.run_bind]
  generalize (cell column_i row_i).run t = r at hcases
  cases hcases with
  | noColumns what hcols =>
      rw [if_pos hcols]
      exact ⟨rfl, h⟩
  | noColumn what hcols hcol =>
      rw [if_neg hcols, if_pos hcol]
      exact ⟨rfl, h⟩
  | refers hcols hcol hafter =>
      have hvalue := hafter.laidOut.getD_eq hcol row_i.toNat
      rw [m.columns_cover, m.cell_cover] at hvalue
      rw [if_neg hcols, if_neg (Nat.not_le.mpr hcol)]
      simp only [EStateM.run_get, EStateM.run_pure, hvalue]
      exact ⟨rfl, hafter⟩

theorem represents_write
    (h : Represents t m)
    (column_i : UInt16) {row_i : UInt32} (value : T)
    (hfit : m.columns * (row_i.toNat + 1) < 2 ^ 32) :
    answerOf ((Call.write column_i row_i value).method.run t) =
        ((Call.write column_i row_i value).meaning m).1 ∧
      Represents (stateOf ((Call.write column_i row_i value).method.run t))
        ((Call.write column_i row_i value).meaning m).2 := by
  have hcases := cell_cases h column_i hfit
  simp only [Call.method, Call.meaning, assign, EStateM.run_bind]
  generalize (cell column_i row_i).run t = r at hcases
  cases hcases with
  | noColumns what hcols =>
      rw [if_pos hcols]
      exact ⟨rfl, h⟩
  | noColumn what hcols hcol =>
      rw [if_neg hcols, if_pos hcol]
      exact ⟨rfl, h⟩
  | refers hcols hcol hafter =>
      have hrow : row_i.toNat < (m.cover row_i.toNat).rows := by
        rw [m.rows_cover]
        omega
      rw [if_neg hcols, if_neg (Nat.not_le.mpr hcol)]
      exact ⟨rfl, hafter.set hcol hrow value⟩

/-- A call answers as it should, and the table behind it holds the matrix behind it. -/
theorem represents_call
    (h : Represents t m)
    {call : Call T}
    (hfit : m.columns * call.rowsRequested < 2 ^ 32) :
    answerOf (call.method.run t) = (call.meaning m).1 ∧
      Represents (stateOf (call.method.run t)) (call.meaning m).2 := by
  cases call with
  | columns columns_i =>
      exact represents_columns h columns_i
  | rows rows_i =>
      exact represents_rows h hfit
  | read column_i row_i =>
      exact represents_read h column_i hfit
  | write column_i row_i value =>
      exact represents_write h column_i value hfit

/-- A table within the limits follows its matrix. -/
theorem represents_step
    {call : Call T × Answer T} {t' : Table T}
    (h : Represents t m)
    (hstep : Guarded Fits Calls t call t') :
    ∃ m', Means m call m' ∧ Represents t' m' := by
  obtain ⟨hfit, hanswer, hafter⟩ := hstep
  have hfit' : m.columns * call.1.rowsRequested < 2 ^ 32 := by
    rw [← h.columns]
    exact hfit
  obtain ⟨hmeaning, h'⟩ := represents_call h hfit'
  refine ⟨(call.1.meaning m).2, ?_, hafter ▸ h'⟩
  rw [Means, ← hanswer, hmeaning]

end Call

section Valid

variable {t : Table T}

/-- The table holds some matrix, as it does behind every history within the limits. -/
def Valid (t : Table T) : Prop :=
  ∃ m, Represents t m

theorem HoldsRows.valid
    {k : Nat} (h : HoldsRows t k) :
    Valid t := by
  obtain ⟨m, hcols, hrows, hlaid⟩ := GrowingMatrix.LaidOut.exists_of_length h.length_data
  refine ⟨m, hcols.symm, hlaid, ?_, ?_⟩
  · rw [hcols, hrows]
    exact h.cells_lt
  · intro hzero
    have hpos := h.columns_pos
    omega

theorem Valid.call
    (h : Valid t)
    {call : Call T}
    (hfit : t.columns.toNat * call.rowsRequested < 2 ^ 32) :
    Valid (stateOf (call.method.run t)) := by
  obtain ⟨m, hm⟩ := h
  have hfit' : m.columns * call.rowsRequested < 2 ^ 32 := by
    rw [← hm.columns]
    exact hfit
  exact ⟨_, (represents_call hm hfit').2⟩

/-- A valid table with a row has columns. -/
theorem Valid.holdsRows
    (h : Valid t)
    (hrows : t.rows ≠ 0) :
    ∃ k, HoldsRows t (k + 1) := by
  obtain ⟨m, hm⟩ := h
  have hne : m.rows ≠ 0 := by
    rw [← hm.rows_toNat]
    exact fun hzero => hrows (UInt32.toNat_inj.mp hzero)
  obtain ⟨k, hk⟩ := Nat.exists_eq_succ_of_ne_zero hne
  refine ⟨k, ?_⟩
  rw [← Nat.succ_eq_add_one, ← hk]
  exact hm.holdsRows (mt hm.no_rows hne)

/-- A valid table without rows has no cells. -/
theorem Valid.data_eq_nil
    (h : Valid t)
    (hrows : t.rows = 0) :
    t.data_ = [] := by
  obtain ⟨m, hm⟩ := h
  have hzero : m.rows = 0 := by
    rw [← hm.rows_toNat, hrows]
    rfl
  rw [← List.length_eq_zero_iff, hm.laidOut.length, hzero, Nat.mul_zero]

end Valid

section Meaning

variable {m : GrowingMatrix T} {call : Call T}

/-- The calls whose meaning is an exception. -/
def Call.Throws (m : GrowingMatrix T) : Call T → Prop
  | .columns columns_i => columns_i = 0 ∨ (m.columns ≠ 0 ∧ columns_i.toNat ≠ m.columns)
  | .rows _ => m.columns = 0
  | .read column_i _ | .write column_i _ _ => m.columns ≤ column_i.toNat

/-- The meaning of a call that does not throw. -/
def Call.accepted (m : GrowingMatrix T) : Call T → Answer T × GrowingMatrix T
  | .columns columns_i =>
      (.ok none, if m.columns = 0 then .ofColumns columns_i.toNat else m)
  | .rows rows_i => (.ok none, m.resize rows_i.toNat)
  | .read column_i row_i =>
      (.ok (some (m.cell column_i.toNat row_i.toNat)), m.cover row_i.toNat)
  | .write column_i row_i value =>
      (.ok none, (m.cover row_i.toNat).set column_i.toNat row_i.toNat value)

/-- A call that throws leaves the matrix as it was. -/
theorem meaning_of_throws
    (h : call.Throws m) :
    ∃ k, call.meaning m = (.error k, m) := by
  cases call with
  | columns columns_i =>
      simp only [Call.Throws] at h
      by_cases hnone : columns_i = 0
      · exact ⟨_, if_pos hnone⟩
      · rw [Call.meaning, if_neg hnone, if_pos (h.resolve_left hnone)]
        exact ⟨_, rfl⟩
  | rows rows_i =>
      exact ⟨_, if_pos h⟩
  | read column_i row_i | write column_i row_i value =>
      simp only [Call.Throws] at h
      by_cases hcols : m.columns = 0
      · exact ⟨_, if_pos hcols⟩
      · rw [Call.meaning, if_neg hcols, if_pos h]
        exact ⟨_, rfl⟩

theorem meaning_of_not_throws
    (h : ¬ call.Throws m) :
    call.meaning m = call.accepted m := by
  cases call with
  | columns columns_i =>
      simp only [Call.Throws, not_or] at h
      rw [Call.meaning, if_neg h.1, if_neg h.2, Call.accepted]
  | rows rows_i =>
      exact if_neg h
  | read column_i row_i | write column_i row_i value =>
      simp only [Call.Throws] at h
      rw [Call.meaning, if_neg (by omega), if_neg h, Call.accepted]

theorem accepted_ok
    (m : GrowingMatrix T) (call : Call T) :
    ∃ v, (call.accepted m).1 = .ok v := by
  cases call <;> exact ⟨_, rfl⟩

theorem throws_iff
    (m : GrowingMatrix T) (call : Call T) :
    call.Throws m ↔ ∃ k, (call.meaning m).1 = .error k := by
  constructor
  · intro h
    obtain ⟨k, hk⟩ := meaning_of_throws h
    exact ⟨k, by rw [hk]⟩
  · rintro ⟨k, hk⟩
    by_contra h
    obtain ⟨v, hv⟩ := accepted_ok m call
    rw [meaning_of_not_throws h, hv] at hk
    cases hk

/-- Once the number of columns is set, it stays. -/
theorem columns_meaning
    (hcols : m.columns ≠ 0) (call : Call T) :
    (call.meaning m).2.columns = m.columns := by
  by_cases h : call.Throws m
  · obtain ⟨k, hk⟩ := meaning_of_throws h
    rw [hk]
  · rw [meaning_of_not_throws h]
    cases call with
    | columns columns_i =>
        rw [Call.accepted, if_neg hcols]
    | rows rows_i | read column_i row_i | write column_i row_i value =>
        rfl

end Meaning

section History

/-- What is in a cell behind a call, if `v` was in it before. -/
def leaves (c r : Nat) (v : T) (call : Call T × Answer T) : T :=
  match call with
  | (.write column_i row_i value, .ok _) =>
      if column_i.toNat = c ∧ row_i.toNat = r then value else v
  | (.rows rows_i, .ok _) => if rows_i.toNat ≤ r then default else v
  | _ => v

/-- The value written last to a cell since its row came into existence, or the default. -/
def lastWritten (calls : List (Call T × Answer T)) (c r : Nat) : T :=
  calls.foldl (leaves c r) default

variable {m m' : GrowingMatrix T} {call : Call T × Answer T}

/-- A call leaves in every cell what its answer says. -/
theorem cell_of_means
    (h : Means m call m') (c r : Nat) :
    m'.cell c r = leaves c r (m.cell c r) call := by
  obtain ⟨call, answer⟩ := call
  change call.meaning m = (answer, m') at h
  by_cases hthrows : call.Throws m
  · obtain ⟨k, hk⟩ := meaning_of_throws hthrows
    obtain ⟨rfl, rfl⟩ := Prod.ext_iff.mp (hk.symm.trans h)
    cases call <;> rfl
  · rw [meaning_of_not_throws hthrows] at h
    obtain ⟨rfl, rfl⟩ := Prod.ext_iff.mp h
    cases call with
    | columns columns_i =>
        simp only [Call.accepted]
        split_ifs with hcols
        · exact (m.outside c r (.inl (by omega))).symm
        · rfl
    | rows rows_i =>
        simp only [Call.accepted, leaves, m.cell_resize]
        by_cases hr : r < rows_i.toNat
        · rw [if_pos hr, if_neg (Nat.not_le.mpr hr)]
        · rw [if_neg hr, if_pos (Nat.le_of_not_lt hr)]
    | read column_i row_i =>
        exact m.cell_cover row_i.toNat c r
    | write column_i row_i value =>
        have hrow : row_i.toNat < (m.cover row_i.toNat).rows := by
          rw [m.rows_cover]
          omega
        have hcol : column_i.toNat < (m.cover row_i.toNat).columns :=
          Nat.lt_of_not_le hthrows
        simp only [Call.accepted, leaves]
        rw [(m.cover row_i.toNat).cell_set hcol hrow, m.cell_cover]
        simp only [eq_comm]

/-- The cells of a matrix are determined by the calls and their answers. -/
theorem cell_eq_lastWritten
    {calls : List (Call T × Answer T)}
    (hrun : Run Means (.ofColumns 0) calls m) (c r : Nat) :
    m.cell c r = lastWritten calls c r := by
  induction hrun with
  | nil =>
      rfl
  | snoc hrun hstep ih =>
      rw [cell_of_means hstep, ih, lastWritten, lastWritten, List.foldl_append]
      rfl

end History

section Effect

/-- The value in a cell, without making its row exist. -/
def value (t : Table T) (c r : Nat) : T :=
  t.data_.getD (t.columns.toNat * r + c) default

theorem value_resizeTo
    {t : Table T} {n : Nat}
    (hlen : t.data_.length ≤ t.cols_.toNat * n) (c r : Nat) :
    (t.resizeTo n).value c r = t.value c r := by
  simp only [value, columns, resizeTo, List.getD_eq_getElem?_getD,
    GrowingMatrix.getElem?_takeD]
  split_ifs with hlt
  · rfl
  · rw [List.getElem?_eq_none (by omega)]

/-- What a call does to a table: a call that is refused throws and changes nothing, the
number of columns stays once it is set, a call for a cell makes its row exist, and no
call changes a cell that it does not name or cut off. -/
structure Effect
    (t : Table T) (call : Call T) (answer : Answer T) (t' : Table T) : Prop where
  throws_iff : (∃ k, answer = .error k) ↔ call.Refused t
  unchanged : call.Refused t → t' = t
  columns_kept : t.columns ≠ 0 → t'.columns = t.columns
  size : t'.data_.length = t'.columns.toNat * t'.rows.toNat
  columns :
    ∀ columns_i, call = .columns columns_i → ¬ call.Refused t →
      t'.columns = columns_i ∧ t'.rows = t.rows
  rows :
    ∀ rows_i, call = .rows rows_i → ¬ call.Refused t →
      t'.rows = rows_i ∧
        ∀ c r, c < t.columns.toNat →
          t'.value c r = if r < rows_i.toNat then t.value c r else default
  read :
    ∀ column_i row_i, call = .read column_i row_i → ¬ call.Refused t →
      answer = .ok (some (t.value column_i.toNat row_i.toNat)) ∧
        t'.rows.toNat = max t.rows.toNat (row_i.toNat + 1) ∧
        ∀ c r, c < t.columns.toNat → t'.value c r = t.value c r
  write :
    ∀ column_i row_i value, call = .write column_i row_i value → ¬ call.Refused t →
      t'.rows.toNat = max t.rows.toNat (row_i.toNat + 1) ∧
        ∀ c r, c < t.columns.toNat →
          t'.value c r =
            if c = column_i.toNat ∧ r = row_i.toNat then value else t.value c r

variable {t : Table T} {m : GrowingMatrix T}

theorem Represents.value_eq
    (h : Represents t m)
    {c : Nat} (hc : c < m.columns) (r : Nat) :
    t.value c r = m.cell c r := by
  rw [value, Table.columns, h.columns]
  exact h.laidOut.getD_eq hc r

theorem Represents.columns_toNat
    (h : Represents t m) :
    t.columns.toNat = m.columns :=
  h.columns

/-- The matrix determines the table. -/
theorem Represents.unique
    {t' : Table T}
    (h : Represents t m) (h' : Represents t' m) :
    t = t' := by
  obtain ⟨cols_, data_⟩ := t
  obtain ⟨cols_', data_'⟩ := t'
  have hcols : cols_ = cols_' := UInt16.toNat_inj.mp (h.columns.trans h'.columns.symm)
  have hdata : data_ = data_' := h.laidOut.unique h'.laidOut
  rw [hcols, hdata]

/-- A call is refused when its meaning is an exception. -/
theorem Represents.refused_iff
    (h : Represents t m) (call : Call T) :
    call.Refused t ↔ call.Throws m := by
  have hzero : t.columns = 0 ↔ m.columns = 0 := h.cols_eq_zero_iff
  have hle (c : UInt16) : t.columns ≤ c ↔ m.columns ≤ c.toNat := by
    rw [UInt16.le_iff_toNat_le, h.columns_toNat]
  cases call with
  | columns columns_i =>
      have hother : columns_i = t.columns ↔ columns_i.toNat = m.columns := by
        rw [← UInt16.toNat_inj, h.columns_toNat]
      simp only [Call.Refused, Call.Throws, ne_eq, hzero, hother]
  | rows rows_i =>
      exact hzero
  | read column_i row_i | write column_i row_i value =>
      exact hle column_i

/-- The meaning of a call that is not refused. -/
theorem Represents.meaning_eq
    (h : Represents t m)
    {call : Call T}
    (hcall : ¬ call.Refused t) :
    call.meaning m = call.accepted m :=
  meaning_of_not_throws (mt (h.refused_iff call).mpr hcall)

/-- What every call does to a table, as long as it asks for fewer than 2^32 cells. -/
theorem effect_of_calls
    (h : Represents t m)
    {call : Call T} {answer : Answer T} {t' : Table T}
    (hstep : Guarded Fits Calls t (call, answer) t') :
    Effect t call answer t' := by
  obtain ⟨hfit, hanswer, hafter⟩ := hstep
  change answerOf (call.method.run t) = answer at hanswer
  change stateOf (call.method.run t) = t' at hafter
  have hfit' : m.columns * call.rowsRequested < 2 ^ 32 := by
    rw [← h.columns_toNat]
    exact hfit
  obtain ⟨hmeaning, h'⟩ := represents_call h hfit'
  rw [hanswer] at hmeaning
  rw [hafter] at h'
  have hzero : t.columns = 0 ↔ m.columns = 0 := h.cols_eq_zero_iff
  have hvalue {m' : GrowingMatrix T} (hm' : Represents t' m')
      (hcols : m'.columns = m.columns) {c : Nat} (hc : c < t.columns.toNat) (r : Nat) :
      t'.value c r = m'.cell c r ∧ t.value c r = m.cell c r := by
    rw [h.columns_toNat] at hc
    exact ⟨hm'.value_eq (by rwa [hcols]) r, h.value_eq hc r⟩
  constructor
  case throws_iff =>
    rw [h.refused_iff, throws_iff, hmeaning]
  case unchanged =>
    intro hrefused
    obtain ⟨k, hk⟩ := meaning_of_throws ((h.refused_iff call).mp hrefused)
    rw [hk] at h'
    exact h'.unique h
  case columns_kept =>
    intro hcols
    rw [← UInt16.toNat_inj, h'.columns_toNat, h.columns_toNat]
    exact columns_meaning (mt hzero.mpr hcols) call
  case size =>
    rw [h'.columns_toNat, h'.rows_toNat, h'.laidOut.length]
  case columns =>
    rintro columns_i rfl hcall
    rw [h.meaning_eq hcall] at h'
    rw [← UInt16.toNat_inj, ← UInt32.toNat_inj, h'.columns_toNat, h'.rows_toNat,
      h.rows_toNat]
    by_cases hcols : m.columns = 0
    · simp only [Call.accepted, if_pos hcols]
      exact ⟨rfl, (h.no_rows hcols).symm⟩
    · simp only [Call.accepted, if_neg hcols, and_true]
      simp only [Call.Refused, not_or, not_and, not_not] at hcall
      rw [hcall.2 (mt hzero.mp hcols), h.columns_toNat]
  case rows =>
    rintro rows_i rfl hcall
    rw [h.meaning_eq hcall] at h'
    rw [← UInt32.toNat_inj, h'.rows_toNat]
    refine ⟨rfl, fun c r hc => ?_⟩
    obtain ⟨hnew, hold⟩ := hvalue h' rfl hc r
    rw [hnew, hold]
    rfl
  case read =>
    rintro column_i row_i rfl hcall
    have hcol : column_i.toNat < t.columns.toNat := by
      rw [← UInt16.lt_iff_toNat_lt]
      exact UInt16.not_le.mp hcall
    rw [h.meaning_eq hcall] at h' hmeaning
    rw [hmeaning, h'.rows_toNat, h.rows_toNat,
      h.value_eq (by rwa [← h.columns_toNat]) row_i.toNat]
    refine ⟨rfl, rfl, fun c r hc => ?_⟩
    obtain ⟨hnew, hold⟩ := hvalue h' rfl hc r
    rw [hnew, hold]
    exact m.cell_cover row_i.toNat c r
  case write =>
    rintro column_i row_i value rfl hcall
    have hcol : column_i.toNat < m.columns := by
      rw [← h.columns_toNat, ← UInt16.lt_iff_toNat_lt]
      exact UInt16.not_le.mp hcall
    rw [h.meaning_eq hcall] at h'
    rw [h'.rows_toNat, h.rows_toNat]
    refine ⟨rfl, fun c r hc => ?_⟩
    obtain ⟨hnew, hold⟩ := hvalue h' rfl hc r
    have hrow : row_i.toNat < (m.cover row_i.toNat).rows := by
      rw [m.rows_cover]
      omega
    rw [hnew, hold, Call.accepted, (m.cover row_i.toNat).cell_set hcol hrow, m.cell_cover]

end Effect

/-- **A table is a matrix that grows by rows.**  Behind every history of calls that ask
for fewer than 2^32 cells, a matrix that has answered the calls in the same way has the
same cells; every cell gives back what was written to it last since its row came into
existence; and every further call has its effect on its own cells only. -/
theorem table_is_matrix
    {calls : List (Call T × Answer T)} {t : Table T}
    (hrun : Run (Guarded Fits Calls) (empty : Table T) calls t) :
    (∃ m, Run Means (.ofColumns 0) calls m ∧ Represents t m) ∧
      t.data_.length = t.columns.toNat * t.rows.toNat ∧
      (∀ (column : UInt16) (row : UInt32), column < t.columns →
        t.columns.toNat * (row.toNat + 1) < 2 ^ 32 →
          ∃ t',
            (fetch column row).run t =
              .ok (lastWritten calls column.toNat row.toNat) t') ∧
      ∀ call answer t', Guarded Fits Calls t (call, answer) t' →
        Effect t call answer t' := by
  obtain ⟨m, hmeans, h⟩ :=
    hrun.simulates Represents represents_step represents_empty
  refine ⟨⟨m, hmeans, h⟩, ?_, ?_, fun _ _ _ hstep => effect_of_calls h hstep⟩
  · rw [h.columns_toNat, h.rows_toNat, h.laidOut.length]
  · intro column row hcol hfit
    rw [UInt16.lt_iff_toNat_lt, h.columns_toNat] at hcol
    rw [h.columns_toNat] at hfit
    obtain ⟨hcell, hafter⟩ := h.cell_run hcol hfit
    have hvalue := hafter.laidOut.getD_eq hcol row.toNat
    rw [m.columns_cover, m.cell_cover, cell_eq_lastWritten hmeans] at hvalue
    refine ⟨t.resizeTo (max m.rows (row.toNat + 1)), ?_⟩
    rw [fetch, run_bind_ok hcell, ← hvalue]
    rfl

/-- Two columns: a value is written, its row is cut off and created anew. -/
theorem table_is_matrix_example :
    ∃ t : Table Nat,
      t.data_ = [0, 0, 5, 0] ∧
      ∃ m,
        Run Means (.ofColumns 0)
          [(.columns 2, .ok none), (.write 1 1 7, .ok none), (.rows 1, .ok none),
            (.read 2 0, .error .outOfRange), (.write 0 1 5, .ok none)] m ∧
        Represents t m := by
  have hrun :
      Run (Guarded Fits Calls) (empty : Table Nat)
        [(.columns 2, .ok none), (.write 1 1 7, .ok none), (.rows 1, .ok none),
          (.read 2 0, .error .outOfRange), (.write 0 1 5, .ok none)] _ :=
    .cons ⟨by decide, rfl, rfl⟩ <| .cons ⟨by decide, rfl, rfl⟩ <|
      .cons ⟨by decide, rfl, rfl⟩ <| .cons ⟨by decide, rfl, rfl⟩ <|
      .cons ⟨by decide, rfl, rfl⟩ <| .nil _
  exact ⟨_, rfl, (table_is_matrix hrun).1⟩

end Steps

end Table

end Bren
end Brenlib
