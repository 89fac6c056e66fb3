import Mathlib.Data.List.GetD
import Brenlib.Base.DistinctNames
import Brenlib.Bren.Table

/-!
# `HeaderedTable`: columns with names

The model follows `hdr/bren/HeaderedTable.hpp` and `src/HeaderedTable.cpp`.  Row 0 of
the table holds the names of the columns.  The first lookup by name makes them distinct
and fills a map from names to columns, which later lookups use.

* `FirstRow s hdr`: the table has a first row, and it holds `hdr`; `HasHeader s hdr`: and
  all its rows are complete.
* `Renamed hdr hdr'`, `Conserves candidate hdr hdr'`: what making the names distinct may
  do to them.
* `Maps m hdr`: the map takes every name to its column.

**Results.**
* `makeHeadersUnique_run`: the nested loops end with distinct names and never run out of
  candidates for a new name.
* `readHeaders_run`: the map is filled, or an empty header makes it empty again.
-/

namespace Brenlib
namespace Bren

structure HeaderedTable extends Table Bytes where
  hdrs_ : UnorderedMap Bytes UInt16

namespace HeaderedTable

section Methods

/-- `HeaderedTable(obj_i)`. -/
def ofTable (obj_i : Table Bytes) : HeaderedTable :=
  { toTable := obj_i, hdrs_ := ∅ }

/-- A method of the base class. -/
def inherited
    {α : Type} (x : EStateM StdException (Table Bytes) α) :
    EStateM StdException HeaderedTable α := fun s =>
  match x.run s.toTable with
  | .ok a t => .ok a { s with toTable := t }
  | .error e t => .error e { s with toTable := t }

/-- The loop over `p`: whether some header has the name. -/
def isHeader_ (uniqName : Bytes) : EStateM StdException HeaderedTable Bool := do
  let t ← get
  (List.range t.cols_.toNat).anyM fun p => do
    let name ← inherited (Table.fetch (UInt16.ofNat p) 0)
    return name = uniqName

/-- The loop over `a`, with `n` numbers left below `UINT16_MAX`: a new name for column
`d` that no header has, or the empty string. -/
def uniqName_ (d : UInt16) : Nat → Nat → EStateM StdException HeaderedTable Bytes
  | 0, _ => return []
  | n + 1, a => do
      let name ← inherited (Table.fetch d 0)
      let uniqName := name ++ 0x5F :: decimal a
      if ← isHeader_ uniqName then
        uniqName_ d n (a + 1)
      else
        return uniqName

/-- The body of the loop over `d`. -/
def makeHeaderUnique_ (c d : UInt16) : EStateM StdException HeaderedTable Unit := do
  let name ← inherited (Table.fetch c 0)
  let dup ← inherited (Table.fetch d 0)
  if name = dup then
    let uniqName ← uniqName_ d 65535 0
    if uniqName = [] then
      throw ⟨.runtimeError, "Column name " ++ name.text ++
        " has duplicates, but unable to generate new unique name"⟩
    inherited (Table.assign d 0 uniqName)

def makeHeadersUnique_ : EStateM StdException HeaderedTable Unit := do
  let t ← get
  let cols := t.cols_.toNat
  forM (List.range' 0 cols) fun c =>
    forM (List.range' (c + 1) (cols - (c + 1))) fun d =>
      makeHeaderUnique_ (UInt16.ofNat c) (UInt16.ofNat d)

/-- The body of the loop over `c` in `readHeaders_`. -/
def readHeader_ (c : UInt16) : EStateM StdException HeaderedTable Unit := do
  let hdrname ← inherited (Table.fetch c 0)
  if hdrname = [] then
    modify fun t => { t with hdrs_ := ∅ }
    throw ⟨.runtimeError, s!"Header at row 1, column {c.toNat + 1} is empty"⟩
  modify fun t => { t with hdrs_ := insertNew t.hdrs_ hdrname c }

def readHeaders_ : EStateM StdException HeaderedTable Unit := do
  makeHeadersUnique_
  modify fun t => { t with hdrs_ := ∅ }
  let t ← get
  forM (List.range' 0 t.cols_.toNat) fun c => readHeader_ (UInt16.ofNat c)

/-- The end of `cell`: the map is searched for the name. -/
def find_ (colname_i : Bytes) (row_i : UInt32) :
    EStateM StdException HeaderedTable Nat := do
  let t ← get
  match t.hdrs_.lookup colname_i with
  | none =>
      throw ⟨.invalidArgument, "Unknown column header \"" ++ colname_i.text ++ "\""⟩
  | some column => inherited (Table.cell column row_i)

/-- `cell(colname_i, row_i)`: the position in `data_` of the returned reference. -/
def cell (colname_i : Bytes) (row_i : UInt32) :
    EStateM StdException HeaderedTable Nat := do
  let t ← get
  if t.cols_ = 0 then
    throw ⟨.logicError, "Please set the number of columns first"⟩
  if t.rows < 1 then
    throw ⟨.logicError, "No first row to read as header"⟩
  if colname_i = [] then
    throw ⟨.invalidArgument, "Given column name is empty"⟩
  if t.hdrs_.entries = [] then
    readHeaders_
  find_ colname_i row_i

end Methods

section Header

/-- The first row. -/
def headerRow (s : HeaderedTable) : List Bytes :=
  s.data_.take s.cols_.toNat

/-- The table with another first row. -/
def withHeader (s : HeaderedTable) (hdr : List Bytes) : HeaderedTable :=
  { s with data_ := hdr ++ s.data_.drop s.cols_.toNat }

/-- The table has a first row, and it holds the given names. -/
structure HasHeader (s : HeaderedTable) (hdr : List Bytes) : Prop where
  holds : ∃ k, Table.HoldsRows s.toTable (k + 1)
  row : s.headerRow = hdr

/-- The first row holds the given names, whatever the other rows are like. -/
structure FirstRow (s : HeaderedTable) (hdr : List Bytes) : Prop where
  columns_ne : s.cols_ ≠ 0
  rows_ne : s.rows ≠ 0
  row : s.headerRow = hdr

@[simp] theorem inherited_run
    {α : Type} (x : EStateM StdException (Table Bytes) α) (s : HeaderedTable) :
    (inherited x).run s =
      match x.run s.toTable with
      | .ok a t => .ok a { s with toTable := t }
      | .error e t => .error e { s with toTable := t } := rfl

variable {s : HeaderedTable} {hdr hdr' : List Bytes}

namespace FirstRow

theorem length_eq
    (h : FirstRow s hdr) :
    hdr.length = s.cols_.toNat := by
  have hle := Table.cols_le_length h.rows_ne
  rw [← h.row, headerRow, List.length_take]
  omega

theorem length_le
    (h : FirstRow s hdr) :
    hdr.length ≤ 65535 := by
  have hlt : s.cols_.toNat < 65536 := s.cols_.toNat_lt
  rw [h.length_eq]
  omega

theorem data_eq
    (h : FirstRow s hdr) :
    s.data_ = hdr ++ s.data_.drop s.cols_.toNat := by
  rw [← h.row, headerRow, List.take_append_drop]

theorem withHeader_self
    (h : FirstRow s hdr) :
    s.withHeader hdr = s := by
  rw [withHeader, ← h.data_eq]

theorem length_withHeader
    (h : FirstRow s hdr)
    (hlen : hdr'.length = hdr.length) :
    (s.withHeader hdr').data_.length = s.data_.length := by
  rw [HeaderedTable.withHeader, List.length_append, hlen, ← List.length_append]
  exact congrArg List.length h.data_eq.symm

/-- Another first row of the same length. -/
theorem withHeader
    (h : FirstRow s hdr)
    (hlen : hdr'.length = hdr.length) :
    FirstRow (s.withHeader hdr') hdr' where
  columns_ne := h.columns_ne
  rows_ne := by
    have hrows : (s.withHeader hdr').rows = s.rows := by
      unfold Table.rows
      rw [h.length_withHeader hlen]
      rfl
    rw [hrows]
    exact h.rows_ne
  row := by
    rw [headerRow]
    change (hdr' ++ s.data_.drop s.cols_.toNat).take s.cols_.toNat = hdr'
    rw [← h.length_eq, ← hlen, List.take_left]

theorem withHeader_withHeader
    (h : FirstRow s hdr)
    (hlen : hdr'.length = hdr.length) (hdr'' : List Bytes) :
    (s.withHeader hdr').withHeader hdr'' = s.withHeader hdr'' := by
  have hdrop : (hdr' ++ s.data_.drop s.cols_.toNat).drop s.cols_.toNat =
      s.data_.drop s.cols_.toNat := by
    rw [← h.length_eq, ← hlen, List.drop_left]
  simp only [HeaderedTable.withHeader, hdrop]

/-- Reading a header. -/
theorem fetch_run
    (h : FirstRow s hdr)
    {c : Nat} (hc : c < hdr.length) :
    (inherited (Table.fetch (UInt16.ofNat c) 0)).run s = .ok hdr[c] s := by
  have hcols := h.length_eq
  have hle := h.length_le
  have hci : (UInt16.ofNat c).toNat = c :=
    UInt16.toNat_ofNat_of_lt' (show c < 65536 by omega)
  have hfetch :
      (Table.fetch (UInt16.ofNat c) 0).run s.toTable = .ok _ s.toTable :=
    Table.fetch_first (by rw [hci]; omega) h.rows_ne
  have hget : s.data_.getD c default = hdr[c] := by
    rw [h.data_eq, List.getD_eq_getElem?_getD, List.getElem?_append_left hc,
      List.getElem?_eq_getElem hc]
    rfl
  rw [hci] at hfetch
  rw [inherited_run, hfetch]
  exact congrArg (EStateM.Result.ok · s) hget

/-- Writing a header. -/
theorem assign_run
    (h : FirstRow s hdr)
    {d : Nat} (hd : d < hdr.length) (name : Bytes) :
    (inherited (Table.assign (UInt16.ofNat d) 0 name)).run s =
      .ok () (s.withHeader (hdr.set d name)) := by
  have hcols := h.length_eq
  have hle := h.length_le
  have hdi : (UInt16.ofNat d).toNat = d :=
    UInt16.toNat_ofNat_of_lt' (show d < 65536 by omega)
  have hassign :
      (Table.assign (UInt16.ofNat d) 0 name).run s.toTable = .ok () _ :=
    Table.assign_first (by rw [hdi]; omega) h.rows_ne name
  have hset :
      s.data_.set d name = hdr.set d name ++ s.data_.drop s.cols_.toNat := by
    rw [h.data_eq, List.set_append_left _ _ hd, ← h.data_eq]
  rw [hdi] at hassign
  rw [inherited_run, hassign]
  change EStateM.Result.ok () _ = _
  simp only [HeaderedTable.withHeader, ← hset]

/-- The map is not part of the first row. -/
theorem withMap
    (h : FirstRow s hdr) (m : UnorderedMap Bytes UInt16) :
    FirstRow { s with hdrs_ := m } hdr :=
  ⟨h.columns_ne, h.rows_ne, h.row⟩

end FirstRow

namespace HasHeader

theorem firstRow
    (h : HasHeader s hdr) :
    FirstRow s hdr where
  columns_ne := by
    obtain ⟨k, hk⟩ := h.holds
    exact hk.cols_ne_zero
  rows_ne := by
    obtain ⟨k, hk⟩ := h.holds
    intro hzero
    have hcount := hk.rows_toNat
    rw [hzero] at hcount
    exact absurd hcount (Nat.succ_ne_zero k).symm
  row := h.row

theorem holdsRows_withHeader
    (h : HasHeader s hdr)
    (hlen : hdr'.length = hdr.length)
    {k : Nat} (hk : Table.HoldsRows s.toTable k) :
    Table.HoldsRows (s.withHeader hdr').toTable k :=
  ⟨hk.columns_pos, (h.firstRow.length_withHeader hlen).trans hk.length_data, hk.cells_lt⟩

theorem withHeader
    (h : HasHeader s hdr)
    (hlen : hdr'.length = hdr.length) :
    HasHeader (s.withHeader hdr') hdr' where
  holds := by
    obtain ⟨k, hk⟩ := h.holds
    exact ⟨k, h.holdsRows_withHeader hlen hk⟩
  row := (h.firstRow.withHeader hlen).row

theorem withMap
    (h : HasHeader s hdr) (m : UnorderedMap Bytes UInt16) :
    HasHeader { s with hdrs_ := m } hdr :=
  ⟨h.holds, h.row⟩

end HasHeader

end Header

section Distinct

open DistinctNames

variable {s : HeaderedTable} {hdr hdr' hdr'' : List Bytes}

/-- What making the names distinct may do to them: it keeps their number, makes none of
them empty, and changes nothing if they are distinct already. -/
structure Renamed (hdr hdr' : List Bytes) : Prop where
  length_eq : hdr'.length = hdr.length
  nonempty : [] ∉ hdr → [] ∉ hdr'
  same : hdr.Nodup → hdr' = hdr

theorem Renamed.refl
    (hdr : List Bytes) :
    Renamed hdr hdr :=
  ⟨rfl, id, fun _ => rfl⟩

theorem Renamed.trans
    (h : Renamed hdr hdr') (h' : Renamed hdr' hdr'') :
    Renamed hdr hdr'' where
  length_eq := h'.length_eq.trans h.length_eq
  nonempty := fun hne => h'.nonempty (h.nonempty hne)
  same := by
    intro hnodup
    obtain rfl := h.same hnodup
    exact h'.same hnodup

theorem anyM_run
    {p : Nat → EStateM StdException HeaderedTable Bool} {q : Nat → Bool}
    (is : List Nat)
    (hrun : ∀ i ∈ is, (p i).run s = .ok (q i) s) :
    (is.anyM p).run s = .ok (is.any q) s := by
  induction is with
  | nil =>
      rfl
  | cons i is ih =>
      rw [List.anyM, run_bind_ok (hrun i (by simp))]
      cases hq : q i with
      | true =>
          simp [hq]
      | false =>
          simpa [hq] using ih fun j hj => hrun j (by simp [hj])

theorem isHeader_run
    (h : FirstRow s hdr) (name : Bytes) :
    (isHeader_ name).run s = .ok (decide (name ∈ hdr)) s := by
  have hrun :
      ∀ p ∈ List.range s.cols_.toNat,
        (do
          let other ← inherited (Table.fetch (UInt16.ofNat p) 0)
          return decide (other = name) :
            EStateM StdException HeaderedTable Bool).run s =
          .ok (decide (hdr.getD p [] = name)) s := by
    intro p hp
    have hlt : p < hdr.length := by
      rw [h.length_eq]
      exact List.mem_range.mp hp
    rw [run_bind_ok (h.fetch_run hlt), List.getD_eq_getElem _ _ hlt]
    rfl
  have hany :
      (List.range s.cols_.toNat).any (fun p => decide (hdr.getD p [] = name)) =
        decide (name ∈ hdr) := by
    rw [Bool.eq_iff_iff, List.any_eq_true, decide_eq_true_eq, ← h.length_eq]
    constructor
    · rintro ⟨p, hp, hname⟩
      have hlt := List.mem_range.mp hp
      rw [decide_eq_true_eq, List.getD_eq_getElem _ _ hlt] at hname
      exact hname ▸ List.getElem_mem hlt
    · intro hmem
      obtain ⟨p, hlt, hname⟩ := List.getElem_of_mem hmem
      refine ⟨p, List.mem_range.mpr hlt, ?_⟩
      rw [decide_eq_true_eq, List.getD_eq_getElem _ _ hlt, hname]
  rw [isHeader_, EStateM.run_bind, EStateM.run_get]
  simp only
  rw [anyM_run _ hrun, hany]

/-- The candidates for a new name. -/
def candidate (name : Bytes) (a : Nat) : Bytes :=
  name ++ 0x5F :: decimal a

theorem candidate_injective
    (name : Bytes) :
    Function.Injective (candidate name) := by
  intro a b h
  have hdecimal := List.append_cancel_left h
  exact decimal_injective (List.cons.inj hdecimal).2

theorem candidate_ne_nil
    (name : Bytes) (a : Nat) :
    candidate name a ≠ [] :=
  List.append_ne_nil_of_right_ne_nil name (List.cons_ne_nil _ _)

theorem candidate_ne
    (name : Bytes) (a : Nat) :
    candidate name a ≠ name := by
  intro h
  have hlen := congrArg List.length h
  rw [candidate, List.length_append, List.length_cons] at hlen
  omega

/-- Replacements so far are kept up. -/
def Keeps (hdr hdr' : List Bytes) : Prop :=
  ∀ hdr₀, Conserves candidate hdr₀ hdr → Conserves candidate hdr₀ hdr'

/-- The loop over `a` finds a candidate that is no header, if there is one. -/
theorem uniqName_run
    (h : FirstRow s hdr)
    {d : Nat} (hd : d < hdr.length)
    {n a : Nat} (hfresh : ∃ a', a ≤ a' ∧ a' < a + n ∧ candidate hdr[d] a' ∉ hdr) :
    ∃ a', (uniqName_ (UInt16.ofNat d) n a).run s = .ok (candidate hdr[d] a') s ∧
      candidate hdr[d] a' ∉ hdr := by
  induction n generalizing a with
  | zero =>
      obtain ⟨a', hge, hlt, -⟩ := hfresh
      omega
  | succ n ih =>
      have hrun :
          (uniqName_ (UInt16.ofNat d) (n + 1) a).run s =
            if candidate hdr[d] a ∈ hdr then (uniqName_ (UInt16.ofNat d) n (a + 1)).run s
            else .ok (candidate hdr[d] a) s := by
        rw [uniqName_, run_bind_ok (h.fetch_run hd),
          run_bind_ok (isHeader_run h (hdr[d] ++ 0x5F :: decimal a))]
        by_cases hmem : candidate hdr[d] a ∈ hdr
        · have hmem' : hdr[d] ++ 0x5F :: decimal a ∈ hdr := hmem
          simp only [hmem, hmem', decide_true, if_true]
        · have hmem' : hdr[d] ++ 0x5F :: decimal a ∉ hdr := hmem
          simp only [hmem, hmem', decide_false, Bool.false_eq_true, if_false]
          rfl
      rw [hrun]
      by_cases hmem : candidate hdr[d] a ∈ hdr
      · rw [if_pos hmem]
        refine ih ?_
        obtain ⟨a', hge, hlt, hnot⟩ := hfresh
        have hne : a' ≠ a := by
          rintro rfl
          exact hnot hmem
        exact ⟨a', by omega, by omega, hnot⟩
      · rw [if_neg hmem]
        exact ⟨a, rfl, hmem⟩

/-- One pair of columns: the later one gets a new name if both have the same. -/
theorem makeHeaderUnique_run
    (h : FirstRow s hdr)
    {c d : Nat} (hcd : c < d) (hd : d < hdr.length)
    (hdistinct : DistinctTo hdr c d) :
    ∃ hdr',
      (makeHeaderUnique_ (UInt16.ofNat c) (UInt16.ofNat d)).run s =
          .ok () (s.withHeader hdr') ∧
        Renamed hdr hdr' ∧ Keeps hdr hdr' ∧ DistinctTo hdr' c (d + 1) := by
  have hc : c < hdr.length := by omega
  rw [makeHeaderUnique_, run_bind_ok (h.fetch_run hc), run_bind_ok (h.fetch_run hd)]
  by_cases hsame : hdr[c] = hdr[d]
  · obtain ⟨a, ha, hnot⟩ :=
      exists_fresh (candidate_injective hdr[d]) (List.getElem_mem hd)
        (candidate_ne hdr[d]) h.length_le
    obtain ⟨a', hname, hfresh⟩ :=
      uniqName_run h hd (n := 65535) (a := 0) ⟨a, Nat.zero_le a, by omega, hnot⟩
    have hne := candidate_ne_nil hdr[d] a'
    refine ⟨hdr.set d (candidate hdr[d] a'), ?_, ⟨List.length_set, ?_, ?_⟩, ?_,
      hdistinct.replace hfresh⟩
    · rw [if_pos hsame, run_bind_ok hname, if_neg hne]
      exact h.assign_run hd _
    · intro hempty hmem
      rcases List.mem_or_eq_of_mem_set hmem with hmem | heq
      · exact hempty hmem
      · exact hne heq.symm
    · intro hnodup
      exact absurd ((hnodup.getElem_inj_iff).mp hsame) (Nat.ne_of_lt hcd)
    · intro hdr₀ hconserves
      exact hconserves.replace hcd (by rw [List.getElem?_eq_getElem hc, hsame])
        (List.getElem?_eq_getElem hd) hfresh
  · refine ⟨hdr, ?_, .refl hdr, fun _ => id, hdistinct.skip ?_⟩
    · rw [if_neg hsame, h.withHeader_self]
      rfl
    · rw [List.getElem?_eq_getElem hc, List.getElem?_eq_getElem hd]
      exact fun heq => hsame (Option.some.inj heq)

/-- The loop over `d`. -/
theorem makeHeaderUnique_forM_run
    (h : FirstRow s hdr)
    {c d n : Nat} (hcd : c < d) (hd : d + n = hdr.length)
    (hdistinct : DistinctTo hdr c d) :
    ∃ hdr',
      (forM (List.range' d n) fun d =>
          makeHeaderUnique_ (UInt16.ofNat c) (UInt16.ofNat d)).run s =
          .ok () (s.withHeader hdr') ∧
        Renamed hdr hdr' ∧ Keeps hdr hdr' ∧ DistinctTo hdr' c (d + n) := by
  induction n generalizing s hdr d with
  | zero =>
      refine ⟨hdr, ?_, .refl hdr, fun _ => id, hdistinct⟩
      rw [h.withHeader_self]
      rfl
  | succ n ih =>
      obtain ⟨hdr₁, hrun₁, hren₁, hkeeps₁, hdistinct₁⟩ :=
        makeHeaderUnique_run h hcd (by omega) hdistinct
      have hlen := hren₁.length_eq
      obtain ⟨hdr', hrun, hren, hkeeps, hdistinct'⟩ :=
        ih (h.withHeader hlen) (d := d + 1) (by omega) (by omega) hdistinct₁
      refine ⟨hdr', ?_, hren₁.trans hren, fun hdr₀ h₀ => hkeeps hdr₀ (hkeeps₁ hdr₀ h₀), ?_⟩
      · rw [List.range'_succ, List.forM_cons, run_bind_ok hrun₁, hrun,
          h.withHeader_withHeader hlen]
      · rwa [Nat.add_right_comm, Nat.add_assoc] at hdistinct'

/-- The loop over `c`. -/
theorem makeHeadersUnique_forM_run
    (h : FirstRow s hdr)
    {c n : Nat} (hc : c + n = hdr.length)
    (hdistinct : DistinctTo hdr c (c + 1)) :
    ∃ hdr',
      (forM (List.range' c n) fun c =>
          forM (List.range' (c + 1) (hdr.length - (c + 1))) fun d =>
            makeHeaderUnique_ (UInt16.ofNat c) (UInt16.ofNat d)).run s =
          .ok () (s.withHeader hdr') ∧
        Renamed hdr hdr' ∧ Keeps hdr hdr' ∧ hdr'.Nodup := by
  induction n generalizing s hdr c with
  | zero =>
      refine ⟨hdr, ?_, .refl hdr, fun _ => id, hdistinct.nodup (by omega)⟩
      rw [h.withHeader_self]
      rfl
  | succ n ih =>
      obtain ⟨hdr₁, hrun₁, hren₁, hkeeps₁, hdistinct₁⟩ :=
        makeHeaderUnique_forM_run h (n := hdr.length - (c + 1)) (Nat.lt_succ_self c)
          (by omega) hdistinct
      have hlen := hren₁.length_eq
      obtain ⟨hdr', hrun, hren, hkeeps, hnodup⟩ :=
        ih (h.withHeader hlen) (c := c + 1) (by omega) (hdistinct₁.next (by omega))
      refine ⟨hdr', ?_, hren₁.trans hren, fun hdr₀ h₀ => hkeeps hdr₀ (hkeeps₁ hdr₀ h₀), hnodup⟩
      rw [hlen] at hrun
      rw [List.range'_succ, List.forM_cons, run_bind_ok hrun₁, hrun,
        h.withHeader_withHeader hlen]

/-- The names are distinct behind the loops, and there is always a new name. -/
theorem makeHeadersUnique_run
    (h : FirstRow s hdr) :
    ∃ hdr',
      (makeHeadersUnique_).run s = .ok () (s.withHeader hdr') ∧
        Renamed hdr hdr' ∧ Conserves candidate hdr hdr' ∧ hdr'.Nodup := by
  obtain ⟨hdr', hrun, hren, hkeeps, hnodup⟩ :=
    makeHeadersUnique_forM_run h (Nat.zero_add hdr.length) (distinctTo_zero hdr)
  refine ⟨hdr', ?_, hren, hkeeps hdr (.refl candidate hdr), hnodup⟩
  rw [makeHeadersUnique_, EStateM.run_bind, EStateM.run_get]
  simp only
  rw [← h.length_eq, hrun]

end Distinct

section Map

open DistinctNames

variable {s : HeaderedTable} {hdr : List Bytes} {m : UnorderedMap Bytes UInt16}

/-- The map takes the names of the first `n` columns to these columns. -/
def MapsTo (m : UnorderedMap Bytes UInt16) (hdr : List Bytes) (n : Nat) : Prop :=
  ∀ (name : Bytes) (i : UInt16),
    m.lookup name = some i ↔ i.toNat < n ∧ hdr[i.toNat]? = some name

/-- The map takes every name to its column. -/
def Maps (m : UnorderedMap Bytes UInt16) (hdr : List Bytes) : Prop :=
  ∀ (name : Bytes) (i : UInt16), m.lookup name = some i ↔ hdr[i.toNat]? = some name

theorem mapsTo_empty
    (hdr : List Bytes) :
    MapsTo ∅ hdr 0 := by
  intro name i
  simp [AList.lookup_empty]

theorem MapsTo.maps
    (h : MapsTo m hdr hdr.length) :
    Maps m hdr := by
  intro name i
  rw [h name i]
  constructor
  · exact fun h => h.2
  · exact fun hi => ⟨(List.getElem?_eq_some_iff.mp hi).1, hi⟩

/-- The next name is new to the map. -/
theorem MapsTo.insertNew
    {c : Nat}
    (h : MapsTo m hdr c)
    (hnodup : hdr.Nodup)
    (hlen : hdr.length ≤ 65535)
    (hc : c < hdr.length) :
    MapsTo (insertNew m hdr[c] (UInt16.ofNat c)) hdr (c + 1) := by
  have hci : (UInt16.ofNat c).toNat = c :=
    UInt16.toNat_ofNat_of_lt' (show c < 65536 by omega)
  have hnew : m.lookup hdr[c] = none := by
    rw [Option.eq_none_iff_forall_ne_some]
    intro i hi
    obtain ⟨hlt, hname⟩ := (h _ i).mp hi
    have hget := (List.getElem?_eq_some_iff.mp hname).2
    exact absurd (hnodup.getElem_inj_iff.mp hget) (Nat.ne_of_lt hlt)
  intro name i
  rw [lookup_insertNew]
  by_cases hname : name = hdr[c]
  · subst hname
    rw [if_pos ⟨rfl, hnew⟩, Option.some.injEq]
    constructor
    · rintro rfl
      rw [hci]
      exact ⟨Nat.lt_succ_self c, List.getElem?_eq_getElem hc⟩
    · rintro ⟨-, hi⟩
      have hget := (List.getElem?_eq_some_iff.mp hi).2
      have hic := hnodup.getElem_inj_iff.mp hget
      rw [← UInt16.toNat_inj, hci, hic]
  · rw [if_neg fun h => hname h.1, h name i]
    refine and_congr_left fun hi => ?_
    have hne : i.toNat ≠ c := by
      intro hic
      rw [hic, List.getElem?_eq_getElem hc] at hi
      exact hname (Option.some.inj hi).symm
    omega

/-- The loop over `c` fills the map, unless a header is empty. -/
theorem readHeader_forM_run
    (h : FirstRow s hdr)
    (hnodup : hdr.Nodup)
    {c n : Nat} (hc : c + n = hdr.length)
    (hmaps : MapsTo s.hdrs_ hdr c)
    (hbefore : ∀ i (hi : i < hdr.length), i < c → hdr[i] ≠ []) :
    ([] ∉ hdr ∧
      ∃ m,
        (forM (List.range' c n) fun c => readHeader_ (UInt16.ofNat c)).run s =
          .ok () { s with hdrs_ := m } ∧
        Maps m hdr) ∨
    ([] ∈ hdr ∧
      ∃ what,
        (forM (List.range' c n) fun c => readHeader_ (UInt16.ofNat c)).run s =
          .error ⟨.runtimeError, what⟩ { s with hdrs_ := ∅ }) := by
  induction n generalizing s c with
  | zero =>
      refine .inl ⟨?_, s.hdrs_, rfl, ?_⟩
      · intro hmem
        obtain ⟨i, hi, hempty⟩ := List.getElem_of_mem hmem
        exact hbefore i hi (by omega) hempty
      · obtain rfl : c = hdr.length := hc
        exact hmaps.maps
  | succ n ih =>
      have hlt : c < hdr.length := by omega
      by_cases hempty : hdr[c] = []
      · have hrun :
            ∃ what,
              (readHeader_ (UInt16.ofNat c)).run s =
                .error ⟨.runtimeError, what⟩ { s with hdrs_ := ∅ } := by
          rw [readHeader_, run_bind_ok (h.fetch_run hlt), if_pos hempty]
          exact ⟨_, rfl⟩
        obtain ⟨what, hrun⟩ := hrun
        refine .inr ⟨hempty ▸ List.getElem_mem hlt, what, ?_⟩
        rw [List.range'_succ, List.forM_cons, run_bind_error hrun]
      · have hrun :
            (readHeader_ (UInt16.ofNat c)).run s =
              .ok () { s with hdrs_ := insertNew s.hdrs_ hdr[c] (UInt16.ofNat c) } := by
          rw [readHeader_, run_bind_ok (h.fetch_run hlt), if_neg hempty]
          rfl
        rw [List.range'_succ, List.forM_cons, run_bind_ok hrun]
        refine ih (h.withMap _) (by omega) (hmaps.insertNew hnodup h.length_le hlt) ?_
        intro i hi hic
        by_cases hlast : i = c
        · subst hlast
          exact hempty
        · exact hbefore i hi (by omega)

/-- Reading the headers makes them distinct and fills the map, unless one of them is
empty. -/
theorem readHeaders_run
    (h : FirstRow s hdr) :
    ∃ hdr',
      Renamed hdr hdr' ∧ Conserves candidate hdr hdr' ∧ hdr'.Nodup ∧
      (([] ∉ hdr' ∧
        ∃ m,
          (readHeaders_).run s = .ok () { s.withHeader hdr' with hdrs_ := m } ∧
          Maps m hdr') ∨
      ([] ∈ hdr' ∧
        ∃ what,
          (readHeaders_).run s =
            .error ⟨.runtimeError, what⟩ { s.withHeader hdr' with hdrs_ := ∅ })) := by
  obtain ⟨hdr', hrun, hren, hconserves, hnodup⟩ := makeHeadersUnique_run h
  refine ⟨hdr', hren, hconserves, hnodup, ?_⟩
  have hheader : FirstRow { s.withHeader hdr' with hdrs_ := ∅ } hdr' :=
    (h.withHeader hren.length_eq).withMap ∅
  have hloop :
      (readHeaders_).run s =
        (forM (List.range' 0 hdr'.length) fun c => readHeader_ (UInt16.ofNat c)).run
          { s.withHeader hdr' with hdrs_ := ∅ } := by
    rw [hheader.length_eq, readHeaders_, run_bind_ok hrun]
    rfl
  rw [hloop]
  exact readHeader_forM_run hheader hnodup (Nat.zero_add _) (mapsTo_empty hdr')
    (fun i _ hi => absurd hi (Nat.not_lt_zero i))

end Map

end HeaderedTable

end Bren
end Brenlib
