import Mathlib.Data.List.TakeDrop
import Mathlib.Tactic

/-!
# Matrices that grow and shrink by rows

A matrix has a number of columns and of rows and a value for every cell.  The cells
outside hold the default value, so a row that is created anew starts with default
values.

* `resize`: another number of rows; `cover`: at least the rows up to a given one.
* `set`: another value in one cell.
* `LaidOut`: the cells row by row in a flat list, which is what `resize` and `set`
  are carried over to (`LaidOut.resize`, `LaidOut.set`).
-/

namespace Brenlib

universe u

structure GrowingMatrix (T : Type u) [Inhabited T] where
  columns : Nat
  rows : Nat
  /-- The value in a column and a row. -/
  cell : Nat → Nat → T
  outside : ∀ c r, columns ≤ c ∨ rows ≤ r → cell c r = default

namespace GrowingMatrix

variable {T : Type u} [Inhabited T]

section Operations

/-- No rows yet. -/
def ofColumns (n : Nat) : GrowingMatrix T where
  columns := n
  rows := 0
  cell := fun _ _ => default
  outside := fun _ _ _ => rfl

def resize (m : GrowingMatrix T) (n : Nat) : GrowingMatrix T where
  columns := m.columns
  rows := n
  cell := fun c r => if r < n then m.cell c r else default
  outside := by
    rintro c r (hc | hr)
    · simp [m.outside c r (.inl hc)]
    · exact if_neg (Nat.not_lt.mpr hr)

/-- The rows up to row `r` exist. -/
def cover (m : GrowingMatrix T) (r : Nat) : GrowingMatrix T :=
  m.resize (max m.rows (r + 1))

def set (m : GrowingMatrix T) (c r : Nat) (v : T) : GrowingMatrix T where
  columns := m.columns
  rows := m.rows
  cell := fun c' r' =>
    if c' = c ∧ r' = r ∧ c < m.columns ∧ r < m.rows then v else m.cell c' r'
  outside := by
    intro c' r' hout
    rw [if_neg (by omega), m.outside c' r' hout]

variable (m : GrowingMatrix T)

@[simp] theorem columns_resize (n : Nat) : (m.resize n).columns = m.columns := rfl

@[simp] theorem rows_resize (n : Nat) : (m.resize n).rows = n := rfl

@[simp] theorem columns_cover (r : Nat) : (m.cover r).columns = m.columns := rfl

@[simp] theorem rows_cover (r : Nat) : (m.cover r).rows = max m.rows (r + 1) := rfl

@[simp] theorem columns_set (c r : Nat) (v : T) : (m.set c r v).columns = m.columns := rfl

@[simp] theorem rows_set (c r : Nat) (v : T) : (m.set c r v).rows = m.rows := rfl

theorem cell_resize
    (n c r : Nat) :
    (m.resize n).cell c r = if r < n then m.cell c r else default := rfl

/-- New rows hold default values, as the cells outside do. -/
@[simp] theorem cell_cover
    (r' c r : Nat) :
    (m.cover r').cell c r = m.cell c r := by
  rw [cover, cell_resize]
  split_ifs with hr
  · rfl
  · exact (m.outside c r (.inr (by omega))).symm

theorem cell_set
    {c r : Nat} (hc : c < m.columns) (hr : r < m.rows) (v : T) (c' r' : Nat) :
    (m.set c r v).cell c' r' = if c' = c ∧ r' = r then v else m.cell c' r' := by
  simp [set, hc, hr]

end Operations

section Layout

/-- The index formula does not take two cells to one place. -/
theorem position_injective
    {n c c' r r' : Nat}
    (hc : c < n) (hc' : c' < n)
    (h : n * r + c = n * r' + c') :
    c = c' ∧ r = r' := by
  have hmod := congrArg (· % n) h
  have hdiv := congrArg (· / n) h
  have hpos : 0 < n := Nat.zero_lt_of_lt hc
  simp only [Nat.mul_add_mod, Nat.mod_eq_of_lt hc, Nat.mod_eq_of_lt hc'] at hmod
  simp only [Nat.mul_add_div hpos, Nat.div_eq_of_lt hc, Nat.div_eq_of_lt hc'] at hdiv
  omega

/-- Cells of existing rows have a place below the number of cells, other cells have
not. -/
theorem position_lt_iff
    {n k c r : Nat} (hc : c < n) :
    n * r + c < n * k ↔ r < k := by
  constructor
  · intro h
    by_contra hr
    have hmul : n * k ≤ n * r := Nat.mul_le_mul_left n (Nat.le_of_not_lt hr)
    omega
  · intro hr
    have hmul : n * (r + 1) ≤ n * k := Nat.mul_le_mul_left n hr
    rw [Nat.mul_succ] at hmul
    omega

omit [Inhabited T] in
theorem getElem?_takeD
    (l : List T) (n i : Nat) (d : T) :
    (l.takeD n d)[i]? = if i < n then some (l.getD i d) else none := by
  induction n generalizing l i with
  | zero =>
      simp
  | succ n ih =>
      rw [List.takeD_succ]
      cases i with
      | zero =>
          cases l <;> simp
      | succ i =>
          rw [List.getElem?_cons_succ, ih]
          cases l <;> simp

omit [Inhabited T] in
/-- What is before the end of a list does not depend on what it is filled up with. -/
theorem take_takeD
    {l : List T} {n k : Nat} (hn : k ≤ n) (hl : k ≤ l.length) (d : T) :
    (l.takeD n d).take k = l.take k := by
  apply List.ext_getElem?
  intro i
  by_cases hi : i < k
  · have hil : i < l.length := by omega
    rw [List.getElem?_take_of_lt hi, List.getElem?_take_of_lt hi, getElem?_takeD,
      if_pos (by omega), List.getD_eq_getElem?_getD, List.getElem?_eq_getElem hil,
      Option.getD_some]
  · rw [List.getElem?_eq_none (by rw [List.length_take]; omega),
      List.getElem?_eq_none (by rw [List.length_take]; omega)]

/-- The cells of the matrix row by row. -/
structure LaidOut (m : GrowingMatrix T) (data : List T) : Prop where
  length : data.length = m.columns * m.rows
  cell :
    ∀ c r, c < m.columns → r < m.rows →
      data[m.columns * r + c]? = some (m.cell c r)

namespace LaidOut

variable {m : GrowingMatrix T} {data : List T}

theorem empty
    (n : Nat) :
    (ofColumns n : GrowingMatrix T).LaidOut [] where
  length := rfl
  cell := fun _ _ _ hr => absurd hr (Nat.not_lt_zero _)

/-- Every list of the right length is the layout of a matrix. -/
theorem exists_of_length
    {n k : Nat} (hlen : data.length = n * k) :
    ∃ m : GrowingMatrix T, m.columns = n ∧ m.rows = k ∧ m.LaidOut data := by
  refine ⟨⟨n, k, fun c r => if c < n ∧ r < k then data.getD (n * r + c) default else default,
    fun c r hout => if_neg (by omega)⟩, rfl, rfl, hlen, fun c r hc hr => ?_⟩
  have hlt : n * r + c < data.length := by
    rw [hlen]
    exact (position_lt_iff hc).mpr hr
  rw [List.getElem?_eq_getElem hlt]
  simp only [if_pos (And.intro hc hr), List.getD_eq_getElem?_getD,
    List.getElem?_eq_getElem hlt, Option.getD_some]

/-- A cell is found by the index formula, or is behind the end. -/
theorem getD_eq
    (h : m.LaidOut data)
    {c : Nat} (hc : c < m.columns) (r : Nat) :
    data.getD (m.columns * r + c) default = m.cell c r := by
  rw [List.getD_eq_getElem?_getD]
  by_cases hr : r < m.rows
  · rw [h.cell c r hc hr, Option.getD_some]
  · have hout : data.length ≤ m.columns * r + c := by
      rw [h.length]
      exact Nat.le_of_not_lt (mt (position_lt_iff hc).mp hr)
    rw [List.getElem?_eq_none hout, Option.getD_none,
      m.outside c r (.inr (Nat.le_of_not_lt hr))]

/-- The matrix determines the list. -/
theorem unique
    {data' : List T}
    (h : m.LaidOut data) (h' : m.LaidOut data') :
    data = data' := by
  apply List.ext_getElem?
  intro i
  by_cases hi : i < m.columns * m.rows
  · have hpos : 0 < m.columns := Nat.pos_of_mul_pos_right (Nat.zero_lt_of_lt hi)
    have hc : i % m.columns < m.columns := Nat.mod_lt i hpos
    have hr : i / m.columns < m.rows := Nat.div_lt_of_lt_mul hi
    have hcell := h.cell _ _ hc hr
    have hcell' := h'.cell _ _ hc hr
    rw [Nat.div_add_mod] at hcell hcell'
    rw [hcell, hcell']
  · rw [List.getElem?_eq_none (by rw [h.length]; omega),
      List.getElem?_eq_none (by rw [h'.length]; omega)]

/-- The list is cut off behind the last row, or filled up with default values. -/
theorem resize
    (h : m.LaidOut data) (n : Nat) :
    (m.resize n).LaidOut (data.takeD (m.columns * n) default) where
  length := List.takeD_length _ _ _
  cell := by
    intro c r hc hr
    rw [columns_resize] at hc ⊢
    rw [rows_resize] at hr
    rw [getElem?_takeD, if_pos ((position_lt_iff hc).mpr hr), h.getD_eq hc, cell_resize,
      if_pos hr]

/-- One place of the list is set. -/
theorem set
    (h : m.LaidOut data)
    {c r : Nat} (hc : c < m.columns) (hr : r < m.rows) (v : T) :
    (m.set c r v).LaidOut (data.set (m.columns * r + c) v) where
  length := by rw [List.length_set, h.length, columns_set, rows_set]
  cell := by
    intro c' r' hc' hr'
    rw [columns_set] at hc' ⊢
    rw [rows_set] at hr'
    rw [m.cell_set hc hr, List.getElem?_set]
    by_cases hplace : m.columns * r + c = m.columns * r' + c'
    · obtain ⟨rfl, rfl⟩ := position_injective hc hc' hplace
      have hlt : m.columns * r + c < data.length := by
        rw [h.length]
        exact (position_lt_iff hc).mpr hr
      rw [if_pos rfl, if_pos hlt, if_pos ⟨rfl, rfl⟩]
    · rw [if_neg hplace, if_neg, h.cell c' r' hc' hr']
      rintro ⟨rfl, rfl⟩
      exact hplace rfl

end LaidOut

end Layout

end GrowingMatrix
end Brenlib
