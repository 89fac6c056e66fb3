import Brenlib.Bren.HeaderedTableLookup

/-!
# The map from names to columns as a cache

The map is filled by the first lookup that gets as far as reading the headers, and it is
never filled again.  Meanwhile row 0 can be written by number, and `rows(0)` drops it.

* `Session`: a table with the header that its map was filled from.
* `Current t`: lookups refer to the columns by their names in row 0 as it is now.
* `Fits s call s'`: the call asks for fewer than 2^32 cells, or it is refused before.
* `Cached s`: the map is empty, or it is that of the header that was read.

**Results.**
* `current_iff_unchanged`: lookups are right exactly as long as row 0 holds the header
  that was read, or there are no rows at all.
* `stale_after_write`: writing to row 0 behind the first lookup makes them wrong.
-/

namespace Brenlib
namespace Bren

open TransitionSystem

namespace HeaderedTable

/-- A table, with the header that its map was filled from. -/
structure Session where
  table : HeaderedTable
  read : Option (List Bytes)

/-- Lookups by name refer to the columns that row 0 gives the name now, and they find
every name of a header whose names are distinct and not empty. -/
structure Current (t : HeaderedTable) : Prop where
  refers :
    ∀ colname_i row_i pos t',
      t.columns.toNat * (row_i.toNat + 1) < 2 ^ 32 →
      (cell colname_i row_i).run t = .ok pos t' →
        ∃ column : UInt16,
          pos = t.columns.toNat * row_i.toNat + column.toNat ∧
            t'.headerRow[column.toNat]? = some colname_i
  finds :
    ∀ colname_i row_i,
      t.columns.toNat * (row_i.toNat + 1) < 2 ^ 32 →
      colname_i ∈ t.headerRow → [] ∉ t.headerRow → t.headerRow.Nodup →
        ∃ pos t', (cell colname_i row_i).run t = .ok pos t'

/-- The calls that are refused whatever row they ask for. -/
def Call.Refused (s : HeaderedTable) : Call → Prop
  | .table call => call.Refused s.toTable
  | .lookup colname_i _ => ∃ e t, ∀ row_i, (cell colname_i row_i).run s = .error e t

namespace Session

/-- A new headered table holds the cells of a table and has read no header. -/
def init (obj_i : Table Bytes) : Session :=
  { table := ofTable obj_i, read := none }

/-- The session behind a call.  A call that fills the empty map has read the header. -/
def next (s : Session) (call : Call) : Session :=
  let t := stateOf (call.method.run s.table)
  { table := t
    read :=
      if s.table.hdrs_.entries = [] ∧ t.hdrs_.entries ≠ [] then some t.headerRow
      else s.read }

/-- One call as a step. -/
def Calls (s : Session) (call : Call) (s' : Session) : Prop :=
  s.next call = s'

/-- The rows asked for have fewer than 2^32 cells, if the call gets as far as asking for
them. -/
def Fits (s : Session) (call : Call) (s' : Session) : Prop :=
  ¬ call.Refused s.table → HeaderedTable.Fits s.table call s'.table

/-- Row 0 holds the header that was read, or there is no row. -/
def Unchanged (s : Session) : Prop :=
  ∀ hdr, s.read = some hdr → s.table.rows = 0 ∨ s.table.headerRow = hdr

/-- The map is empty, or it takes the names that were read to their columns. -/
structure Cached (s : Session) : Prop where
  valid : s.table.toTable.Valid
  unread : s.read = none → s.table.hdrs_.entries = []
  filled :
    ∀ hdr, s.read = some hdr →
      hdr ≠ [] ∧ [] ∉ hdr ∧ hdr.length = s.table.columns.toNat ∧
        Maps s.table.hdrs_ hdr

end Session

section Filling

variable {s s₁ s' : HeaderedTable} {hdr : List Bytes} {colname_i : Bytes}
variable {row_i : UInt32} {call : Call}

/-- What a call does to the map: it keeps it, leaves an empty one empty, or fills it from
the header behind the call. -/
inductive Filling (s s' : HeaderedTable) : Prop
  | kept
      (hmap : s'.hdrs_ = s.hdrs_)
  | empty
      (hbefore : s.hdrs_.entries = [])
      (hafter : s'.hdrs_.entries = [])
  | read
      (hbefore : s.hdrs_.entries = [])
      (hheader : HasHeader s' s'.headerRow)
      (hne : [] ∉ s'.headerRow)
      (hmaps : Maps s'.hdrs_ s'.headerRow)

theorem Ready.filling
    (h : Ready s s₁) :
    Filling s s₁ := by
  cases h with
  | cached hheader hfilled =>
      exact .kept rfl
  | @read hdr hdr' m hempty hheader hren hnodup hne hmaps =>
      have hafter := (hheader.withHeader hren.length_eq).withMap m
      refine .read hempty ⟨hafter.holds, rfl⟩ ?_ ?_
      · rw [hafter.row]
        exact hne
      · rw [hafter.row]
        exact hmaps

/-- A table that is ready and knows the name refers to a column that has it in row 0. -/
theorem Ready.refers
    (h : Ready s s₁)
    (hmaps : s.hdrs_.entries = [] ∨ Maps s.hdrs_ s.headerRow)
    {column : UInt16} (hlookup : s₁.hdrs_.lookup colname_i = some column)
    (hfit : s.columns.toNat * (row_i.toNat + 1) < 2 ^ 32) :
    ∃ t',
      (inherited (Table.cell column row_i)).run s₁ =
          .ok (s.columns.toNat * row_i.toNat + column.toNat) t' ∧
        t'.headerRow[column.toNat]? = some colname_i := by
  have hcols := h.below.columns
  have hready : ∃ hdr, HasHeader s₁ hdr ∧ Maps s₁.hdrs_ hdr := by
    cases h with
    | cached hheader hfilled =>
        exact ⟨_, hheader, hmaps.resolve_left hfilled⟩
    | read hempty hheader hren hnodup hne hmaps =>
        exact ⟨_, (hheader.withHeader hren.length_eq).withMap _, hmaps⟩
  obtain ⟨hdr, hheader, hmaps₁⟩ := hready
  obtain ⟨k, hk⟩ := hheader.holds
  have hcolumn := (hmaps₁ colname_i column).mp hlookup
  rw [← hcols] at hfit ⊢
  obtain ⟨hrun, -, hafter⟩ := hheader.cell_run hk hcolumn hfit
  refine ⟨_, hrun, ?_⟩
  rw [hafter.row]
  exact hcolumn

/-- The map behind a lookup. -/
theorem filling_lookup
    (h : s.toTable.Valid)
    (hfit : s.columns.toNat * (row_i.toNat + 1) < 2 ^ 32) :
    Filling s (stateOf ((cell colname_i row_i).run s)) := by
  have hcases := lookup_cases h colname_i row_i
  generalize (cell colname_i row_i).run s = r at hcases
  cases hcases with
  | noFirstRow what hrows =>
      exact .kept rfl
  | noName what hname =>
      exact .kept rfl
  | emptyHeader what hempty hheader hren hmem =>
      exact .empty hempty rfl
  | unknown what hready hlookup =>
      exact hready.filling
  | @found s₁ column hready hlookup =>
      have hsame :
          (stateOf ((inherited (Table.cell column row_i)).run s₁)).hdrs_ = s₁.hdrs_ := by
        rw [inherited_run]
        cases (Table.cell column row_i).run s₁.toTable <;> rfl
      cases hready.filling with
      | kept hmap =>
          exact .kept (hsame.trans hmap)
      | empty hbefore hafter =>
          exact .empty hbefore (by rw [hsame, hafter])
      | read hbefore hheader hne hmaps =>
          obtain ⟨k, hk⟩ := hheader.holds
          have hfit₁ : s₁.columns.toNat * (row_i.toNat + 1) < 2 ^ 32 := by
            rw [hready.below.columns]
            exact hfit
          have hcolumn := (hmaps colname_i column).mp hlookup
          obtain ⟨hrun, -, hafter⟩ := hheader.cell_run hk hcolumn hfit₁
          rw [hrun, stateOf_ok]
          refine .read hbefore ⟨hafter.holds, rfl⟩ ?_ ?_
          · rw [hafter.row]
            exact hne
          · rw [hafter.row]
            exact hmaps

/-- The map behind a call, and the columns, which stay once they are set. -/
theorem filling_call
    (h : s.toTable.Valid)
    (hstep : Guarded Fits Calls s call s') :
    Filling s s' ∧ (s.columns ≠ 0 → s'.columns = s.columns) := by
  obtain ⟨hfit, rfl⟩ := hstep
  cases call with
  | table call =>
      rw [stateOf_table]
      refine ⟨.kept rfl, ?_⟩
      obtain ⟨m, hm⟩ := h
      have hcall :
          Guarded Table.Fits Table.Calls s.toTable
            (call, answerOf (call.method.run s.toTable))
            (stateOf (call.method.run s.toTable)) :=
        ⟨hfit, rfl, rfl⟩
      exact (Table.effect_of_calls hm hcall).columns_kept
  | lookup colname_i row_i =>
      rw [stateOf_lookup]
      exact ⟨filling_lookup h hfit, fun _ => (below_lookup h colname_i hfit).columns⟩

end Filling

namespace Session

variable {s s' : Session} {call : Call} {obj_i : Table Bytes}

theorem cached_init
    (h : obj_i.Valid) :
    (init obj_i).Cached where
  valid := h
  unread := fun _ => rfl
  filled := fun _ hread => nomatch hread

/-- What a step leaves behind, a call within the limit leaves behind as well. -/
theorem exists_guarded
    (hstep : Guarded Fits Calls s call s') :
    ∃ call', Guarded HeaderedTable.Fits HeaderedTable.Calls s.table call' s'.table := by
  obtain ⟨hfit, rfl⟩ := hstep
  by_cases hrefused : call.Refused s.table
  · cases call with
    | table call =>
        refine ⟨.table (.columns 0), Nat.two_pow_pos 32, ?_⟩
        have hzero : (Table.Call.columns 0).Refused s.table.toTable := .inl rfl
        change stateOf _ = stateOf _
        rw [stateOf_table, stateOf_table, Table.Call.stateOf_of_refused hrefused,
          Table.Call.stateOf_of_refused hzero]
    | lookup colname_i row_i =>
        obtain ⟨e, t, hthrows⟩ := hrefused
        have hcols : s.table.columns.toNat < 2 ^ 16 := s.table.columns.toNat_lt
        refine ⟨.lookup colname_i 0, ?_, ?_⟩
        · change s.table.columns.toNat * 1 < 2 ^ 32
          omega
        · change stateOf _ = stateOf _
          rw [stateOf_lookup, stateOf_lookup, hthrows, hthrows]
  · exact ⟨call, hfit hrefused, rfl⟩

/-- The header is read once. -/
theorem Cached.step
    (h : s.Cached)
    (hstep : Guarded Fits Calls s call s') :
    s'.Cached := by
  obtain ⟨call', hguarded⟩ := exists_guarded hstep
  obtain ⟨-, hnext⟩ := hstep
  have hread :
      s'.read =
        if s.table.hdrs_.entries = [] ∧ s'.table.hdrs_.entries ≠ [] then
          some s'.table.headerRow
        else s.read := by
    subst hnext
    rfl
  have hvalid := valid_call h.valid hguarded
  obtain ⟨hfilling, hcolumns⟩ := filling_call h.valid hguarded
  cases hfilling with
  | kept hmap =>
      have hsame : s'.read = s.read := by
        rw [hread, hmap, if_neg fun hboth => hboth.2 hboth.1]
      refine ⟨hvalid, ?_, ?_⟩
      · rw [hsame, hmap]
        exact h.unread
      · rw [hsame, hmap]
        intro hdr hhdr
        obtain ⟨hnil, hne, hlen, hmaps⟩ := h.filled hdr hhdr
        have hcols : s.table.columns ≠ 0 := by
          intro hzero
          rw [hzero] at hlen
          exact hnil (List.length_eq_zero_iff.mp hlen)
        rw [hcolumns hcols]
        exact ⟨hnil, hne, hlen, hmaps⟩
  | empty hbefore hafter =>
      have hsame : s'.read = s.read := by
        rw [hread, if_neg fun hboth => hboth.2 hafter]
      refine ⟨hvalid, fun _ => hafter, ?_⟩
      rw [hsame]
      intro hdr hhdr
      obtain ⟨hnil, -, -, hmaps⟩ := h.filled hdr hhdr
      exact absurd hbefore (hmaps.filled hnil)
  | read hbefore hheader hne hmaps =>
      have hfilled := hmaps.filled hheader.ne_nil
      rw [if_pos ⟨hbefore, hfilled⟩] at hread
      refine ⟨hvalid, ?_, ?_⟩
      · rw [hread]
        exact fun hnone => nomatch hnone
      · rw [hread]
        rintro hdr ⟨⟩
        exact ⟨hheader.ne_nil, hne, hheader.firstRow.length_eq, hmaps⟩

/-- Lookups go through the header in row 0 if it is the one that was read. -/
theorem Cached.maps
    (h : s.Cached)
    (hunchanged : s.Unchanged)
    (hrows : s.table.rows ≠ 0) :
    s.table.hdrs_.entries = [] ∨ Maps s.table.hdrs_ s.table.headerRow := by
  cases hread : s.read with
  | none =>
      exact .inl (h.unread hread)
  | some hdr =>
      obtain ⟨-, -, -, hmaps⟩ := h.filled hdr hread
      rw [(hunchanged hdr hread).resolve_left hrows]
      exact .inr hmaps

theorem Cached.current
    (h : s.Cached)
    (hunchanged : s.Unchanged) :
    Current s.table where
  refers := by
    intro colname_i row_i pos t' hfit hrun
    have hcases := lookup_cases h.valid colname_i row_i
    rw [hrun] at hcases
    generalize hr : EStateM.Result.ok pos t' = r at hcases
    cases hcases with
    | @found s₁ column hready hlookup =>
        have hrows : s.table.rows ≠ 0 := by
          cases hready with
          | cached hheader _ => exact hheader.firstRow.rows_ne
          | read _ hheader => exact hheader.firstRow.rows_ne
        obtain ⟨t, hcell, hname⟩ :=
          hready.refers (h.maps hunchanged hrows) hlookup hfit
        rw [hcell] at hr
        cases hr
        exact ⟨column, rfl, hname⟩
    | _ => cases hr
  finds := by
    intro colname_i row_i hfit hmem hne hnodup
    have hheader := hasHeader_of_headerRow h.valid (List.ne_nil_of_mem hmem)
    have hmaps := h.maps hunchanged hheader.firstRow.rows_ne
    have hcases := lookup_cases h.valid colname_i row_i
    generalize (cell colname_i row_i).run s.table = r at hcases
    cases hcases with
    | noFirstRow what hrows =>
        exact absurd hrows hheader.firstRow.rows_ne
    | noName what hname =>
        exact absurd (hname ▸ hmem) hne
    | emptyHeader what hempty hheader' hren hmem' =>
        rw [hren.same (hheader.unique hheader' ▸ hnodup), ← hheader.unique hheader'] at hmem'
        exact absurd hmem' hne
    | unknown what hready hlookup =>
        cases hready with
        | cached _ hfilled =>
            have hknown := hmaps.resolve_left hfilled
            exact absurd hmem ((hknown.lookup_eq_none_iff hheader.firstRow.length_le).mp hlookup)
        | read hempty hheader' hren _ _ hmaps' =>
            rw [hren.same (hheader.unique hheader' ▸ hnodup),
              ← hheader.unique hheader'] at hmaps'
            exact absurd hmem ((hmaps'.lookup_eq_none_iff hheader.firstRow.length_le).mp hlookup)
    | found hready hlookup =>
        obtain ⟨t, hcell, -⟩ := hready.refers hmaps hlookup hfit
        exact ⟨_, t, hcell⟩

/-- A name that was read refers to its column, so row 0 holds it if lookups are right. -/
theorem Cached.unchanged
    (h : s.Cached)
    (hcurrent : Current s.table) :
    s.Unchanged := by
  intro hdr hread
  obtain ⟨hnil, hne, hlen, hmaps⟩ := h.filled hdr hread
  refine or_iff_not_imp_left.mpr fun hrows => ?_
  have hheader := hasHeader_of_valid h.valid hrows
  have hfilled := hmaps.filled hnil
  obtain ⟨k, hk⟩ := hheader.holds
  have hfit : s.table.columns.toNat * ((0 : UInt32).toNat + 1) < 2 ^ 32 :=
    hk.row_fits (Nat.succ_pos k)
  refine List.ext_getElem (hheader.firstRow.length_eq.trans hlen.symm) fun c hc hc' => ?_
  have hle := hheader.firstRow.length_le
  have hci : (UInt16.ofNat c).toNat = c :=
    UInt16.toNat_ofNat_of_lt' (show c < 65536 by omega)
  have hlookup : s.table.hdrs_.lookup hdr[c] = some (UInt16.ofNat c) := by
    rw [hmaps, hci]
    exact List.getElem?_eq_getElem hc'
  have hcases := lookup_cases h.valid hdr[c] 0
  generalize hrun : (cell hdr[c] 0).run s.table = r at hcases
  cases hcases with
  | noFirstRow what hzero =>
      exact absurd hzero hrows
  | noName what hname =>
      exact absurd (hname ▸ List.getElem_mem hc') hne
  | emptyHeader what hempty =>
      exact absurd hempty hfilled
  | unknown what hready hnone =>
      cases hready with
      | cached => exact absurd (hlookup.symm.trans hnone) (by simp)
      | read hempty => exact absurd hempty hfilled
  | found hready hfound =>
      cases hready with
      | read hempty => exact absurd hempty hfilled
      | cached =>
          obtain rfl := Option.some.inj (hlookup.symm.trans hfound)
          have hcolumn :
              s.table.headerRow[(UInt16.ofNat c).toNat]? = some s.table.headerRow[c] := by
            rw [hci]
            exact List.getElem?_eq_getElem hc
          obtain ⟨hcell, -, hafter⟩ := hheader.cell_run hk hcolumn hfit
          rw [hcell] at hrun
          obtain ⟨column, hpos, hname⟩ := hcurrent.refers _ _ _ _ hfit hrun
          obtain hcol : (UInt16.ofNat c).toNat = column.toNat :=
            Nat.add_left_cancel hpos
          rw [hafter.row, ← hcol, hcolumn] at hname
          exact Option.some.inj hname

/-- **The map is a cache that is not refreshed.**  Along every run within 2^32 cells on a
headered table made from any table, lookups by name agree with row 0 if and only if row 0
holds the header that the map was filled from, nothing has been read yet, or there is no
row. -/
theorem current_iff_unchanged
    {before : List (Table.Call Bytes × Table.Answer Bytes)} {calls : List Call}
    (hbefore : Run (Guarded Table.Fits Table.Calls) Table.empty before obj_i)
    (hrun : Run (Guarded Fits Calls) (init obj_i) calls s) :
    Current s.table ↔ s.Unchanged := by
  have hvalid : obj_i.Valid := by
    obtain ⟨m, -, hm⟩ :=
      hbefore.simulates Table.Represents Table.represents_step Table.represents_empty
    exact ⟨m, hm⟩
  have hcached : s.Cached :=
    hrun.invariant Cached Cached.step (cached_init hvalid)
  exact ⟨hcached.unchanged, hcached.current⟩

/-- A header is written and read, and another name is written over it. -/
def overwrittenCalls : List Call :=
  [.table (.columns 1), .table (.write 0 0 [0x61]), .lookup [0x61] 0,
    .table (.write 0 0 [0x62])]

theorem run_overwrittenCalls :
    Run (Guarded Fits Calls) (init Table.empty) overwrittenCalls
      (overwrittenCalls.foldl next (init Table.empty)) :=
  .cons ⟨fun _ => by decide, rfl⟩ <| .cons ⟨fun _ => by decide, rfl⟩ <|
    .cons ⟨fun _ => by decide, rfl⟩ <| .single ⟨fun _ => by decide, rfl⟩

/-- The old name is written back, and lookups are right again. -/
theorem current_iff_unchanged_example :
    Current ((overwrittenCalls ++ [Call.table (.write 0 0 [0x61])]).foldl next
      (init Table.empty)).table := by
  refine (current_iff_unchanged (.nil Table.empty)
    (run_overwrittenCalls.append (.single ⟨fun _ => by decide, rfl⟩))).mpr ?_
  intro hdr hread
  exact .inr (Option.some.inj hread)

/-- The column that is named `b` now is found by its old name `a` and not as `b`. -/
theorem stale_after_write :
    ∃ calls s, Run (Guarded Fits Calls) (init Table.empty) calls s ∧
      s.table.headerRow = [[0x62]] ∧
      (cell [0x61] 0).run s.table = .ok 0 s.table ∧
      (∃ what, (cell [0x62] 0).run s.table = .error ⟨.invalidArgument, what⟩ s.table) ∧
      ¬ Current s.table := by
  refine ⟨_, _, run_overwrittenCalls, rfl, rfl, ⟨_, rfl⟩, fun hcurrent => ?_⟩
  obtain ⟨column, hpos, hname⟩ := hcurrent.refers [0x61] 0 0 _ (by decide) rfl
  have hzero : column.toNat = 0 := by
    rw [show (0 : UInt32).toNat = 0 from rfl, Nat.mul_zero, Nat.zero_add] at hpos
    exact hpos.symm
  rw [hzero] at hname
  exact absurd hname (by decide)

end Session

end HeaderedTable

end Bren
end Brenlib
