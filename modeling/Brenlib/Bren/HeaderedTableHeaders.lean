import Brenlib.Bren.HeaderedTable

/-!
# The first row of a `HeaderedTable`

What becomes of the names in the first row when the headers are read, for every table
with a row, whatever its other rows are like.

* `MadeUnique s t`: the table `t` is `s` with distinct names, of which only those have
  been changed that stand further to the front as well.
* `lookup_unusable`: a lookup that reads an empty header.

**Results.**
* `makeHeadersUnique_conservative`: `makeHeadersUnique_` returns, makes the names distinct
  and changes no more than it has to.
* `unusable_header_kept`: a lookup that fails at an empty header changes no cell but
  repeated headers.
-/

namespace Brenlib
namespace Bren

namespace HeaderedTable

open DistinctNames

section Unique

/-- The names of `t` are those of `s` made distinct. -/
structure MadeUnique (s t : HeaderedTable) : Prop where
  columns : t.cols_ = s.cols_
  map : t.hdrs_ = s.hdrs_
  count : t.data_.length = s.data_.length
  /-- The cells outside the first row. -/
  below : t.data_.drop s.cols_.toNat = s.data_.drop s.cols_.toNat
  nodup : t.headerRow.Nodup
  /-- A name that is not in an earlier column. -/
  kept : ∀ (j : Nat) (x : Bytes),
    s.headerRow[j]? = some x → (∀ i < j, s.headerRow[i]? ≠ some x) → t.headerRow[j]? = some x
  /-- A name that is in an earlier column. -/
  renamed : ∀ (i j : Nat) (x : Bytes),
    i < j → s.headerRow[i]? = some x → s.headerRow[j]? = some x →
      ∃ a : Nat, t.headerRow[j]? = some (x ++ 0x5F :: decimal a)

theorem FirstRow.madeUnique
    {s : HeaderedTable} {hdr hdr' : List Bytes}
    (h : FirstRow s hdr)
    (hconserves : Conserves candidate hdr hdr')
    (hnodup : hdr'.Nodup) :
    MadeUnique s (s.withHeader hdr') := by
  have hlen := hconserves.length_eq
  have hrow := (h.withHeader hlen).row
  refine ⟨rfl, rfl, h.length_withHeader hlen, ?_, by rwa [hrow], ?_, ?_⟩
  · rw [HeaderedTable.withHeader]
    change (hdr' ++ s.data_.drop s.cols_.toNat).drop s.cols_.toNat = _
    rw [← h.length_eq, ← hlen, List.drop_left]
  · intro j x hx hfirst
    rw [hrow]
    rw [h.row] at hx hfirst
    exact hconserves.kept hx hfirst
  · intro i j x hij hi hj
    rw [hrow]
    rw [h.row] at hi hj
    exact hconserves.replaced hnodup hij hi hj

/-- A table without columns has no rows. -/
theorem firstRow_of_rows
    {s : HeaderedTable}
    (hrows : 1 ≤ s.rows) :
    FirstRow s s.headerRow := by
  have hne : s.rows ≠ 0 := by
    intro hzero
    rw [hzero] at hrows
    exact absurd hrows (by decide)
  refine ⟨?_, hne, rfl⟩
  intro hcols
  exact hne (if_pos hcols)

/-- A cell that is not in the first row, or whose name is not in an earlier column. -/
theorem MadeUnique.cell_kept
    {s t : HeaderedTable} {i : Nat}
    (h : MadeUnique s t)
    (hfirst : i < s.cols_.toNat → ∀ j < i, s.data_[j]? ≠ s.data_[i]?) :
    t.data_[i]? = s.data_[i]? := by
  by_cases hi : i < s.cols_.toNat
  · have hrow : ∀ j ≤ i, s.headerRow[j]? = s.data_[j]? := by
      intro j hj
      exact List.getElem?_take_of_lt (by omega)
    have hrow' : t.headerRow[i]? = t.data_[i]? := by
      rw [headerRow, h.columns]
      exact List.getElem?_take_of_lt hi
    cases hx : s.data_[i]? with
    | none =>
        rw [List.getElem?_eq_none_iff] at hx ⊢
        rwa [h.count]
    | some x =>
        rw [← hrow']
        refine h.kept i x (by rw [hrow i le_rfl, hx]) ?_
        intro j hj
        rw [hrow j hj.le, ← hx]
        exact hfirst hi j hj
  · have hget : ∀ data : List Bytes,
        data[i]? = (data.drop s.cols_.toNat)[i - s.cols_.toNat]? := by
      intro data
      rw [List.getElem?_drop]
      congr 1
      omega
    rw [hget t.data_, hget s.data_, h.below]

/-- **Making the names distinct is conservative.**  For every table with a row,
`makeHeadersUnique_` returns; the names are distinct then, the first of equal names is
kept, the others get a number behind them, and nothing else changes.  To do it again
changes nothing. -/
theorem makeHeadersUnique_conservative
    {s : HeaderedTable}
    (hrows : 1 ≤ s.rows) :
    ∃ t,
      (makeHeadersUnique_).run s = .ok () t ∧ MadeUnique s t ∧
        (makeHeadersUnique_).run t = .ok () t := by
  have h := firstRow_of_rows hrows
  obtain ⟨hdr', hrun, hren, hconserves, hnodup⟩ := makeHeadersUnique_run h
  have h' := h.withHeader hren.length_eq
  refine ⟨s.withHeader hdr', hrun, h.madeUnique hconserves hnodup, ?_⟩
  obtain ⟨hdr'', hrun', hren', -, -⟩ := makeHeadersUnique_run h'
  rw [hrun', hren'.same hnodup, h'.withHeader_self]

/-- Three columns, of which one looks like a generated name. -/
def numbered : HeaderedTable where
  cols_ := 3
  data_ := [literal "a", literal "a_0", literal "a", literal "x", literal "y", literal "z"]
  hdrs_ := ∅

theorem makeHeadersUnique_numbered :
    ∃ t,
      (makeHeadersUnique_).run numbered = .ok () t ∧ MadeUnique numbered t ∧
        (makeHeadersUnique_).run t = .ok () t :=
  makeHeadersUnique_conservative (by decide)

end Unique

section Unusable

variable {s : HeaderedTable} {hdr : List Bytes} {colname_i : Bytes}

/-- Renaming leaves an empty name. -/
theorem mem_of_conserves
    {hdr' : List Bytes} {name : Bytes}
    (h : Conserves candidate hdr hdr')
    (hmem : name ∈ hdr) :
    name ∈ hdr' := by
  classical
  obtain ⟨i, hi⟩ := List.mem_iff_getElem?.mp hmem
  have hexists : ∃ i, hdr[i]? = some name := ⟨i, hi⟩
  have hkept := h.kept (Nat.find_spec hexists) fun k hk => Nat.find_min hexists hk
  exact List.mem_of_getElem? hkept

/-- A lookup that reads an empty header makes the names distinct, and fails then. -/
theorem lookup_unusable
    (h : FirstRow s hdr)
    (hmem : [] ∈ hdr)
    (hempty : s.hdrs_.entries = [])
    (hname : colname_i ≠ [])
    (row_i : UInt32) :
    ∃ what hdr',
      (cell colname_i row_i).run s =
          .error ⟨.runtimeError, what⟩ { s.withHeader hdr' with hdrs_ := ∅ } ∧
        Renamed hdr hdr' ∧ Conserves candidate hdr hdr' ∧ hdr'.Nodup := by
  have hrows : ¬ s.rows < 1 := by
    intro hlt
    rw [UInt32.lt_iff_toNat_lt, UInt32.toNat_one, Nat.lt_one_iff] at hlt
    exact h.rows_ne (UInt32.toNat_inj.mp hlt)
  obtain ⟨hdr', hren, hconserves, hnodup, hcases⟩ := readHeaders_run h
  rcases hcases with ⟨hfull, -⟩ | ⟨-, what, hrun⟩
  · exact absurd (mem_of_conserves hconserves hmem) hfull
  · refine ⟨what, hdr', ?_, hren, hconserves, hnodup⟩
    rw [cell, EStateM.run_bind, EStateM.run_get]
    simp only
    rw [if_neg h.columns_ne, if_neg hrows, if_neg hname, if_pos hempty, run_bind_error hrun]

/-- **An unusable header.**  A lookup by a name, in a table with an empty header and
before any header has been read, throws `std::runtime_error`.  It changes no cell but the
headers that stand further to the front as well. -/
theorem unusable_header_kept
    (hrows : 1 ≤ s.rows)
    (hmem : [] ∈ s.headerRow)
    (hempty : s.hdrs_.entries = [])
    (hname : colname_i ≠ [])
    (row_i : UInt32) :
    ∃ what t,
      (cell colname_i row_i).run s = .error ⟨.runtimeError, what⟩ t ∧
        t.cols_ = s.cols_ ∧ t.data_.length = s.data_.length ∧
        ∀ i : Nat,
          (i < s.cols_.toNat → ∀ j < i, s.data_[j]? ≠ s.data_[i]?) →
            t.data_[i]? = s.data_[i]? := by
  have h := firstRow_of_rows hrows
  obtain ⟨what, hdr', hrun, -, hconserves, hnodup⟩ :=
    lookup_unusable h hmem hempty hname row_i
  have hmade := h.madeUnique hconserves hnodup
  refine ⟨what, _, hrun, hmade.columns, hmade.count, ?_⟩
  intro i hfirst
  exact hmade.cell_kept hfirst

/-- An empty header between two others. -/
def gap : HeaderedTable where
  cols_ := 3
  data_ := [literal "a", [], literal "b"]
  hdrs_ := ∅

theorem unusable_header_gap :
    ∃ what t,
      (cell (literal "a") 0).run gap = .error ⟨.runtimeError, what⟩ t ∧
        t.cols_ = gap.cols_ ∧ t.data_.length = gap.data_.length ∧
        ∀ i : Nat,
          (i < gap.cols_.toNat → ∀ j < i, gap.data_[j]? ≠ gap.data_[i]?) →
            t.data_[i]? = gap.data_[i]? :=
  unusable_header_kept (by decide) (by decide) rfl (by decide) 0

/-- Equal headers in front of an empty one. -/
def repeated : HeaderedTable where
  cols_ := 3
  data_ := [literal "a", literal "a", []]
  hdrs_ := ∅

/-- A table whose first header was made empty after the headers had been read. -/
def emptied : HeaderedTable where
  cols_ := 2
  data_ := [[], literal "b"]
  hdrs_ := insertNew (insertNew ∅ (literal "a") 0) (literal "b") 1

/-- With an empty header, the other headers may be renamed before the lookup fails.  An
empty name is refused with another exception, and the map answers once it is filled. -/
theorem unusable_header_renamed :
    (answerOf ((cell (literal "a") 0).run repeated) = .error .runtimeError ∧
      (stateOf ((cell (literal "a") 0).run repeated)).data_ =
        [literal "a", literal "a_0", []]) ∧
    answerOf ((cell [] 0).run repeated) = .error .invalidArgument ∧
    answerOf ((cell (literal "b") 0).run emptied) = .ok 1 := by
  refine ⟨⟨?_, ?_⟩, ?_, ?_⟩
  · decide +kernel
  · decide +kernel
  · decide +kernel
  · decide +kernel

end Unusable

end HeaderedTable

end Bren
end Brenlib
