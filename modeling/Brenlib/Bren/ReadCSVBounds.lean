import Brenlib.Base.WhileLoop
import Brenlib.Bren.ReadCSVLoss

/-!
# `readCSV` stays within its table

`next` is an iteration of the loop that goes on, so `Loops.Iterates (next sep)` leads from
the variables before the loop to every head of it.  There the variables hold a layout, and
no field of the record begun has been stored while `last` is `startOfRecord` (`Progress`).

**Results.**
* `step_ends`: what an iteration can end with.
* `Progress.inRange`: at the head of the loop the variables fit the table.
* `readCSV_in_range`: so no cell out of range is ever asked for, and the table that is
  returned has no row without a record.
-/

namespace Brenlib
namespace Bren

open Csv
open Loops

namespace Reader

/-- One iteration of the loop that goes on. -/
def next (separator_i : Byte) (s : Reader) : Option Reader :=
  if s.stream_i.good then
    match step separator_i s with
    | .ok (.next s') => some s'
    | _ => none
  else
    none

/-- The invariant of the loop. -/
structure Progress (s : Reader) (l : Layout) : Prop where
  holds : s.Holds l
  fresh : s.last = .startOfRecord → l.current = []

/-- What an iteration can end with. -/
inductive Ends (l : Layout) : Except StdException Flow → Prop
  | next
      {s' : Reader} {l' : Layout}
      (hprogress : s'.Progress l') :
      Ends l (.ok (.next s'))
  | done :
      Ends l (.ok (.done l.table))
  | runtimeError
      (what : String) :
      Ends l (.error ⟨.runtimeError, what⟩)
  | columns
      (what : String)
      (hrec : l.records = [])
      (hcolumns : 65535 ≤ l.current.length + 1) :
      Ends l (.error ⟨.outOfRange, what⟩)
  | cells
      (what : String)
      (hrec : l.records ≠ [])
      (hcells : 2 ^ 32 ≤ l.width * (l.records.length + 1)) :
      Ends l (.error ⟨.outOfRange, what⟩)

section Branches

variable {s : Reader} {l : Layout}

theorem Holds.nextChar
    (h : s.Holds l) :
    s.nextChar.Holds l := by
  unfold Reader.nextChar
  simp only
  split <;> exact h.of_eq rfl rfl rfl rfl rfl

theorem nextChar_last
    (s : Reader) :
    s.nextChar.last = s.last := by
  unfold Reader.nextChar
  simp only
  split <;> rfl

theorem Holds.swallowNewline
    (h : s.Holds l) :
    s.swallowNewline.Holds l := by
  unfold Reader.swallowNewline
  split
  · simp only
    split <;> exact h.of_eq rfl rfl rfl rfl rfl
  · exact h

theorem Holds.keepNewline
    (h : s.Holds l) :
    s.keepNewline.Holds l := by
  unfold Reader.keepNewline
  split
  · simp only
    split <;> exact h.of_eq rfl rfl rfl rfl rfl
  · exact h

/-- The branch for the separator. -/
theorem separatorChar_ends
    (h : s.Holds l) :
    Ends l s.separatorChar := by
  cases hacc : l.accept (.field s.f) with
  | ok l' =>
      obtain ⟨s', hnext, hholds, -, -, hlast, -⟩ := h.separatorChar_ok hacc
      rw [hnext]
      refine .next ⟨hholds, fun hstart => ?_⟩
      rw [hlast] at hstart
      cases hstart
  | error k =>
      obtain ⟨what, hthrow⟩ := h.separatorChar_error hacc
      rw [hthrow]
      by_cases hrec : l.records = []
      · simp [Layout.accept, hrec] at hacc
      · simp only [Layout.accept, if_neg hrec] at hacc
        split_ifs at hacc with hfull
        · cases hacc
          exact .cells what hrec hfull
        · cases hacc
          exact .runtimeError what

/-- The end of a record that is not empty. -/
theorem recordReady_ends
    (h : s.Holds l) :
    Ends l (s.recordReady >>= fun s => .ok (.next
      { s with line := s.line + 1, pos := 0, last := .startOfRecord })) := by
  cases hacc : l.accept (.record s.f) with
  | ok l' =>
      obtain ⟨s', hready, hholds, -, -, -⟩ := h.recordReady_ok hacc
      obtain ⟨rfl, -⟩ := h.accepted.accept_ok hacc
      rw [hready]
      exact .next ⟨hholds.of_eq rfl rfl rfl rfl rfl, fun _ => rfl⟩
  | error k =>
      obtain ⟨what, hthrow⟩ := h.recordReady_error hacc
      rw [hthrow]
      by_cases hrec : l.records = []
      · simp only [Layout.accept, if_pos hrec] at hacc
        split_ifs at hacc with hcolumns
        cases hacc
        exact .columns what hrec hcolumns
      · simp only [Layout.accept, if_neg hrec] at hacc
        split_ifs at hacc with hfull
        cases hacc
        exact .cells what hrec hfull

/-- The branch for the end of a record. -/
theorem endOfRecord_ends
    (h : s.Holds l) :
    Ends l s.endOfRecord := by
  have hswallow := h.swallowNewline
  cases hlast : s.last with
  | beginQuote =>
      unfold endOfRecord
      simp only [swallowNewline_last, hlast]
      exact .runtimeError _
  | startOfRecord =>
      rw [endOfRecord_of_empty hlast]
      split_ifs
      · exact .runtimeError _
      · rw [hswallow.table]
        exact .done
  | endQuote =>
      rw [endOfRecord_of_begun (.inl hlast)]
      exact recordReady_ends hswallow
  | fieldData =>
      rw [endOfRecord_of_begun (.inr (.inl hlast))]
      exact recordReady_ends hswallow
  | separator =>
      rw [endOfRecord_of_begun (.inr (.inr hlast))]
      exact recordReady_ends hswallow

/-- The branch for a `char` of a quoted field. -/
theorem quotedChar_ends
    (h : s.Holds l) :
    Ends l s.quotedChar := by
  unfold quotedChar
  split
  · exact .runtimeError _
  split
  · exact .next ⟨h.keepNewline.of_eq rfl rfl rfl rfl rfl, fun hstart => by cases hstart⟩
  split
  · simp only
    split
    · exact .next ⟨h.of_eq rfl rfl rfl rfl rfl, fun hstart => by cases hstart⟩
    · exact .next ⟨h.of_eq rfl rfl rfl rfl rfl, fun hstart => by cases hstart⟩
  · exact .next ⟨h.of_eq rfl rfl rfl rfl rfl, fun hstart => by cases hstart⟩

/-- The branch for an unquoted `"`. -/
theorem quoteChar_ends
    (h : s.Progress l) :
    Ends l s.quoteChar := by
  unfold quoteChar
  split
  · exact .runtimeError _
  · exact .runtimeError _
  · exact .next ⟨h.holds.of_eq rfl rfl rfl rfl rfl, h.fresh⟩
  · exact .next ⟨h.holds.of_eq rfl rfl rfl rfl rfl, h.fresh⟩
  · exact .next ⟨h.holds.of_eq rfl rfl rfl rfl rfl, h.fresh⟩

/-- What an iteration can end with. -/
theorem step_ends
    (separator_i : Byte)
    (h : s.Progress l) :
    Ends l (step separator_i s) := by
  have hnext : s.nextChar.Progress l :=
    ⟨h.holds.nextChar, fun hstart => h.fresh ((nextChar_last s).symm.trans hstart)⟩
  unfold step
  simp only
  split
  · exact .next hnext
  split
  · exact quotedChar_ends hnext.holds
  split
  · exact endOfRecord_ends hnext.holds
  split
  · exact quoteChar_ends hnext
  split
  · exact separatorChar_ends hnext.holds
  · exact .next ⟨hnext.holds.of_eq rfl rfl rfl rfl rfl, fun hstart => by cases hstart⟩

end Branches

/-- The variables at the head of the loop fit the table.  The row to which the next field
goes is taken to have all its columns when cells are counted. -/
structure InRange (separator_i : Byte) (s : Reader) : Prop where
  header :
    s.readingHeader = true → (s.h ++ [s.f]).length < uint16Max →
      ∃ t', (makeHeader (s.h ++ [s.f])).run s.t = .ok () t'
  columns_pos :
    s.readingHeader = false → 0 < s.t.columns.toNat
  col_lt :
    s.readingHeader = false → s.col.toNat < s.t.columns.toNat
  row_eq :
    s.readingHeader = false → s.last = .startOfRecord → s.row = s.t.rows
  rows_eq :
    s.readingHeader = false → 0 < s.col.toNat → s.t.rows.toNat = s.row.toNat + 1
  stores :
    s.readingHeader = false → s.t.columns.toNat * (s.row.toNat + 1) < 2 ^ 32 →
      ∃ pos t',
        (Table.cell s.col s.row).run s.t = .ok pos t' ∧ t'.rows.toNat = s.row.toNat + 1
  throws :
    ∀ e, step separator_i s = .error e →
      e.kind = .runtimeError ∨
      e.kind = .outOfRange ∧
        (s.readingHeader = true ∧ uint16Max ≤ s.h.length + 1 ∨
          s.readingHeader = false ∧ 2 ^ 32 ≤ s.t.columns.toNat * (s.row.toNat + 1))

section Bounds

variable {separator_i : Byte} {s s' : Reader} {l : Layout}

theorem Holds.readingHeader_eq_true_iff
    (h : s.Holds l) :
    s.readingHeader = true ↔ l.records = [] := by
  rw [h.readingHeader, decide_eq_true_iff]

theorem Holds.readingHeader_eq_false_iff
    (h : s.Holds l) :
    s.readingHeader = false ↔ l.records ≠ [] := by
  rw [h.readingHeader, decide_eq_false_iff_not]

theorem Holds.columns_eq
    (h : s.Holds l)
    (hrec : l.records ≠ []) :
    s.t.columns.toNat = l.width := by
  rw [h.table]
  exact h.accepted.cols_toNat hrec

/-- The rows of the table are the records begun. -/
theorem Holds.holdsRows
    (h : s.Holds l)
    (hrec : l.records ≠ []) :
    s.t.HoldsRows l.begun := by
  rw [h.table]
  exact h.accepted.holdsRows hrec

theorem Holds.col_lt
    (h : s.Holds l)
    (hrec : l.records ≠ []) :
    s.col.toNat < s.t.columns.toNat := by
  rw [h.columns_eq hrec, h.col hrec]
  exact h.accepted.current_lt hrec

/-- The table has a row for the record begun if one of its fields has been stored. -/
theorem Holds.rows_eq
    (h : s.Holds l)
    (hrec : l.records ≠ []) :
    s.t.rows.toNat = s.row.toNat + if l.current = [] then 0 else 1 := by
  rw [(h.holdsRows hrec).rows_toNat, h.row]
  rfl

/-- The cell to which the next field goes. -/
theorem Holds.cell_run
    (h : s.Holds l)
    (hrec : l.records ≠ [])
    (hfit : s.t.columns.toNat * (s.row.toNat + 1) < 2 ^ 32) :
    ∃ pos t',
      (Table.cell s.col s.row).run s.t = .ok pos t' ∧ t'.rows.toNat = s.row.toNat + 1 := by
  have hbegun : l.begun ≤ s.row.toNat + 1 := by
    rw [h.row, Layout.begun]
    split_ifs <;> omega
  have hrows := (h.holdsRows hrec).resizeTo hfit
  have hcell := Table.cell_run (h.holdsRows hrec) (h.col_lt hrec) hfit
  rw [Nat.max_eq_right hbegun] at hcell
  exact ⟨_, _, hcell, hrows.rows_toNat⟩

/-- At the head of the loop the variables fit the table. -/
theorem Progress.inRange
    (separator_i : Byte)
    (h : s.Progress l) :
    s.InRange separator_i where
  header := by
    intro hheader hlt
    have hrec := h.holds.readingHeader_eq_true_iff.mp hheader
    rw [h.holds.table, Layout.table_of_no_record hrec]
    exact ⟨_, makeHeader_run _ (by simp) hlt⟩
  columns_pos := fun hdata =>
    (h.holds.holdsRows (h.holds.readingHeader_eq_false_iff.mp hdata)).columns_pos
  col_lt := fun hdata => h.holds.col_lt (h.holds.readingHeader_eq_false_iff.mp hdata)
  row_eq := by
    intro hdata hstart
    have hrows := h.holds.rows_eq (h.holds.readingHeader_eq_false_iff.mp hdata)
    rw [if_pos (h.fresh hstart)] at hrows
    exact UInt32.toNat_inj.mp hrows.symm
  rows_eq := by
    intro hdata hcol
    have hrec := h.holds.readingHeader_eq_false_iff.mp hdata
    rw [h.holds.col hrec] at hcol
    rw [h.holds.rows_eq hrec, if_neg (List.ne_nil_of_length_pos hcol)]
  stores := fun hdata => h.holds.cell_run (h.holds.readingHeader_eq_false_iff.mp hdata)
  throws := by
    intro e herror
    have hends := step_ends separator_i h
    rw [herror] at hends
    cases hends with
    | runtimeError what =>
        exact .inl rfl
    | columns what hrec hcolumns =>
        rw [← h.holds.header hrec] at hcolumns
        exact .inr ⟨rfl, .inl ⟨h.holds.readingHeader_eq_true_iff.mpr hrec, hcolumns⟩⟩
    | cells what hrec hcells =>
        rw [← h.holds.columns_eq hrec, ← h.holds.row] at hcells
        exact .inr ⟨rfl, .inr ⟨h.holds.readingHeader_eq_false_iff.mpr hrec, hcells⟩⟩

theorem next_eq
    (hgood : s.stream_i.good = true)
    (hstep : step separator_i s = .ok (.next s')) :
    next separator_i s = some s' := by
  rw [next, if_pos hgood, hstep]

/-- An iteration that goes on keeps the invariant. -/
theorem progress_next
    (h : ∃ l, s.Progress l)
    (hnext : next separator_i s = some s') :
    ∃ l, s'.Progress l := by
  obtain ⟨l, h⟩ := h
  have hends := step_ends separator_i h
  unfold next at hnext
  split at hnext
  · generalize step separator_i s = result at hends hnext
    cases hends with
    | next hprogress =>
        cases hnext
        exact ⟨_, hprogress⟩
    | _ => cases hnext
  · cases hnext

theorem progress_init
    (stream_i : IStream) :
    (init stream_i).Progress Layout.empty :=
  ⟨holds_init stream_i, fun _ => rfl⟩

/-- An exception of the loop is one of an iteration. -/
theorem exists_of_loop_error
    {e : StdException}
    (h : loop separator_i s = .error e) :
    ∃ n s', Iterates (next separator_i) s n s' ∧ step separator_i s' = .error e := by
  induction hm : s.stream_i.remaining using Nat.strong_induction_on generalizing s with
  | _ m ih =>
      cases hgood : s.stream_i.good with
      | false =>
          rw [loop_not_good hgood] at h
          cases h
      | true =>
          match hstep : step separator_i s with
          | .error e' =>
              rw [loop_error hgood hstep] at h
              cases h
              exact ⟨0, s, .zero s, hstep⟩
          | .ok (.done t) =>
              rw [loop_done hgood hstep] at h
              cases h
          | .ok (.next s') =>
              rw [loop_next hgood hstep] at h
              have hlower := step_remaining_lt hgood hstep
              rw [hm] at hlower
              obtain ⟨n, s'', hiter, herror⟩ := ih _ hlower h rfl
              exact ⟨n + 1, s'', .succ (next_eq hgood hstep) hiter, herror⟩

end Bounds

end Reader

section Result

theorem rows_le_begun
    {l : Layout}
    (h : l.Accepted) :
    l.table.rows.toNat ≤ l.begun := by
  by_cases hrec : l.records = []
  · rw [Layout.table_of_no_record hrec]
    exact Nat.zero_le _
  · exact (h.holdsRows hrec).rows_toNat.le

/-- **`readCSV` never drives the table out of range.**  At every head of the loop the
variables fit the table, and so the iterations throw nothing that stems from it.  The
table that is returned is that of the records that the text closes, the one that its end
closes included, and has no more rows than records have begun among them. -/
theorem readCSV_in_range
    (text : Bytes) (sep : Byte) :
    (∀ n s, Iterates (Reader.next sep) (Reader.init (IStream.ofBytes text)) n s →
      s.InRange sep) ∧
    (∀ e, readCSV text sep = .error e →
      ∃ n s, Iterates (Reader.next sep) (Reader.init (IStream.ofBytes text)) n s ∧
        Reader.step sep s = .error e) ∧
    ∀ t, readCSV text sep = .ok t →
      t = (Layout.ofTokens (scan sep text).closed).table ∧
        t.rows.toNat ≤ (Layout.ofTokens (scan sep text).closed).begun := by
  refine ⟨fun n s hiter => ?_, fun e => Reader.exists_of_loop_error, fun t h => ?_⟩
  · obtain ⟨l, h⟩ := hiter.invariant (fun s => ∃ l, s.Progress l) Reader.progress_next
      ⟨_, Reader.progress_init _⟩
    exact h.inRange sep
  · obtain ⟨haccepted, rfl⟩ := Scan.table_of_answer (readCSV_eq_ok_iff.mp h)
    exact ⟨rfl, rows_le_begun haccepted⟩

end Result

end Bren
end Brenlib
