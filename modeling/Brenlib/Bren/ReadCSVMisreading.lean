import Brenlib.Bren.ReadCSVLoss

/-!
# A field that is misread

Once the content that the scanner has kept of a field can no longer become the content
that was written, whatever follows, the returned table is not the one that was written.

* `Misread before content P`: behind the tokens `before` no field `content` is reported;
  `P` says what the part kept so far is spoiled by.
* `Misread.step`: a further byte does not mend it.
* `Accepted.shows_cell`: the cells of a table are the fields of its layout, at their
  places.
* `not_shows_of_closed`, `not_shows_of_misread`: the returned table shows something else.
-/

namespace Brenlib
namespace Bren

open PaddedRows

namespace Csv
namespace Layout

/-- The records, and the fields of the record begun last. -/
def lines (l : Layout) : List (List Bytes) :=
  l.records ++ [l.current]

/-- A token adds fields at the end of a line only. -/
theorem lines_push
    (l : Layout) (token : Token) {i : Nat} {row : List Bytes}
    (h : l.lines[i]? = some row) :
    ∃ tail, (l.push token).lines[i]? = some (row ++ tail) := by
  have hlt : i < l.records.length + 1 := by
    obtain ⟨hlt, -⟩ := List.getElem?_eq_some_iff.mp h
    simpa [lines] using hlt
  rcases Nat.lt_succ_iff_lt_or_eq.mp hlt with hi | rfl
  · rw [lines, List.getElem?_append_left hi] at h
    have hmore (more : List (List Bytes)) : (l.records ++ more)[i]? = some row := by
      rw [List.getElem?_append_left hi, h]
    refine ⟨[], ?_⟩
    rw [List.append_nil]
    cases token with
    | field f =>
        exact hmore [l.current ++ [f]]
    | record f =>
        have hrecord := hmore ([l.current ++ [f]] ++ [[]])
        rwa [← List.append_assoc] at hrecord
    | fault =>
        exact hmore [l.current]
  · obtain rfl : l.current = row := by simpa [lines] using h
    cases token with
    | field f =>
        exact ⟨[f], by simp [lines, push]⟩
    | record f =>
        exact ⟨[f], by simp [lines, push]⟩
    | fault =>
        exact ⟨[], by simp [lines, push]⟩

theorem lines_foldl
    (tokens : List Token) {l : Layout} {i : Nat} {row : List Bytes}
    (h : l.lines[i]? = some row) :
    ∃ tail, (tokens.foldl push l).lines[i]? = some (row ++ tail) := by
  induction tokens generalizing l row with
  | nil =>
      exact ⟨[], by simpa using h⟩
  | cons token tokens ih =>
      obtain ⟨tail, hpush⟩ := lines_push l token h
      obtain ⟨tail', hrest⟩ := ih hpush
      exact ⟨tail ++ tail', by rw [List.foldl_cons, hrest, List.append_assoc]⟩

/-- A line that is not empty is a row of the table. -/
theorem rows_of_lines
    {l : Layout} {i : Nat} {row : List Bytes}
    (h : l.lines[i]? = some row)
    (hne : row ≠ []) :
    l.rows[i]? = some row := by
  unfold rows
  split_ifs with hcurrent
  · rw [lines, hcurrent] at h
    by_cases hi : i < l.records.length
    · rw [List.getElem?_append_left hi] at h
      rwa [List.append_nil]
    · rw [List.getElem?_append_right (Nat.le_of_not_lt hi)] at h
      obtain rfl : [] = row := by
        rw [List.getElem?_singleton] at h
        split_ifs at h
        exact Option.some.inj h
      exact absurd rfl hne
  · exact h

/-- The cells of a table that shows the given rows are the fields of its layout. -/
theorem Accepted.shows_cell
    {l : Layout} (h : l.Accepted)
    {N : Nat} {table : List (List Bytes)}
    (hshows : l.table.Shows N table)
    (hwidth : ∀ row ∈ table, row.length = N)
    (hrec : l.records ≠ [])
    {i c : Nat} {row : List Bytes}
    (hrow : l.rows[i]? = some row)
    (hc : c < N) :
    table[i]?.bind (·[c]?) = some (row.getD c []) := by
  have hcols : l.width = N := by
    rw [← h.cols_toNat hrec]
    exact hshows.columns
  have hbegun : l.begun = table.length := by
    rw [← (h.holdsRows hrec).rows_toNat]
    exact hshows.row_count
  have hi : i < l.begun := by
    rw [← length_rows]
    exact (List.getElem?_eq_some_iff.mp hrow).1
  have hlimit := (h.holdsRows hrec).rows_lt
  have hwidthLt := h.width_lt hrec
  obtain ⟨fields, hfields⟩ : ∃ fields, table[i]? = some fields :=
    ⟨_, List.getElem?_eq_getElem (by omega)⟩
  have hlen : fields.length = N := hwidth fields (List.mem_of_getElem? hfields)
  obtain ⟨value, hvalue⟩ : ∃ value, fields[c]? = some value :=
    ⟨_, List.getElem?_eq_getElem (by omega)⟩
  have hci : (UInt16.ofNat c).toNat = c := UInt16.toNat_ofNat_of_lt' (show c < 65536 by omega)
  have hii : (UInt32.ofNat i).toNat = i := UInt32.toNat_ofNat_of_lt' (show i < 4294967296 by omega)
  have hcell := hshows.cell (UInt16.ofNat c) (UInt32.ofNat i) value (by
    rw [hci, hii, hfields]
    exact hvalue)
  have hpresent :
      (Table.fetch (UInt16.ofNat c) (UInt32.ofNat i)).run l.table = .ok _ l.table :=
    Table.fetch_present (h.holdsRows hrec) (by rw [hci, h.cols_toNat hrec, hcols]; exact hc)
      (by rw [hii]; exact hi)
  rw [hpresent] at hcell
  obtain ⟨hcell, -⟩ := EStateM.Result.ok.inj hcell
  rw [hci, hii, h.cols_toNat hrec, List.getD_eq_getElem?_getD, table_eq hrec, hcols,
    getElem?_flat_padded [] (fun r hr => hcols ▸ h.rows_le hrec hr) hc, hrow] at hcell
  rw [hfields, Option.bind_some, hvalue, ← hcell]
  rfl

end Layout

namespace Scan

/-- What spoils the part of a field that has been kept: it stays when bytes are added,
and the part is not the content. -/
structure Spoils (P : Bytes → Prop) (content : Bytes) : Prop where
  push : ∀ {f}, P f → ∀ b, P (f ++ [b])
  ne : ∀ {f}, P f → f ≠ content

/-- The field behind the tokens `before` has been reported with other content, or will
be, or is dropped. -/
def Misread (before : List Token) (content : Bytes) (P : Bytes → Prop) (σ : Scan) : Prop :=
  (∃ token, before ++ [token] <+: σ.out ∧ token.content ≠ some content) ∨
  (σ.out = before ∧
    match σ.mode with
    | .emptyLine _ => True
    | .bare | .quoteSeen => P σ.f
    | .quoted fresh _ => fresh = false ∧ P σ.f
    | .start _ | .afterCr | .afterSep => False)

section Misread

variable {before : List Token} {content : Bytes} {P : Bytes → Prop}
variable {sep b : Byte} {σ : Scan}

theorem Misread.of_extends
    {τ : Scan} (token : Token)
    (htoken : before ++ [token] <+: σ.out)
    (hne : token.content ≠ some content)
    (h : σ.out <+: τ.out) :
    τ.Misread before content P :=
  .inl ⟨token, htoken.trans h, hne⟩

/-- A byte outside quotes, behind a part that is spoiled. -/
theorem misread_inField
    (hspoils : Spoils P content)
    (hout : σ.out = before)
    (hf : P σ.f) :
    (inField sep σ b).Misread before content P := by
  have hne : some σ.f ≠ some content := fun h => hspoils.ne hf (Option.some.inj h)
  unfold inField
  split_ifs
  · exact .inl ⟨.record σ.f, by simp [closeRecord, hout], hne⟩
  · exact .inl ⟨.field σ.f, by simp [closeField, hout], hne⟩
  · exact .inr ⟨hout, hspoils.push hf b⟩

theorem Misread.step
    (hspoils : Spoils P content)
    (h : σ.Misread before content P) :
    (step sep σ b).Misread before content P := by
  rcases h with ⟨token, htoken, hne⟩ | ⟨hout, hmode⟩
  · exact .of_extends token htoken hne (out_prefix_step sep σ b)
  · unfold Scan.step
    cases hσ : σ.mode with
    | start _ =>
        simp [hσ] at hmode
    | afterCr =>
        simp [hσ] at hmode
    | afterSep =>
        simp [hσ] at hmode
    | emptyLine cr =>
        simp only [afterEmpty]
        split_ifs
        · exact .inr ⟨hout, trivial⟩
        · exact .of_extends .fault
            (σ := { mode := .start false, f := [], out := σ.out ++ [.fault] })
            (by simp [hout]) (by simp [Token.content])
            (out_prefix_atStart sep false _ b)
    | bare =>
        simp only [hσ] at hmode
        exact misread_inField hspoils hout hmode
    | quoted fresh cr =>
        simp only [hσ] at hmode
        obtain ⟨rfl, hf⟩ := hmode
        simp only [inQuotes, Bool.false_eq_true, false_and, if_false]
        split_ifs
        · exact .inr ⟨hout, hf⟩
        · exact .inl ⟨.fault, by simp [hout], by simp [Token.content]⟩
        · exact .inr ⟨hout, rfl, hspoils.push hf b⟩
    | quoteSeen =>
        simp only [hσ] at hmode
        simp only [afterQuote]
        split_ifs
        · exact .inr ⟨hout, rfl, hspoils.push hmode b⟩
        · exact misread_inField hspoils hout hmode

theorem Misread.scanFrom
    (hspoils : Spoils P content)
    (h : σ.Misread before content P) (text : Bytes) :
    (scanFrom sep σ text).Misread before content P :=
  scanFrom_induction (fun _ _ h => h.step hspoils) h text

/-- At the end of the text the field behind `before` is another one, or there is none. -/
theorem Misread.closed
    (hspoils : Spoils P content)
    (h : σ.Misread before content P) :
    σ.closed = before ∨
      ∃ token rest, σ.closed = before ++ token :: rest ∧ token.content ≠ some content := by
  have hprefix : σ.out <+: σ.closed := by
    unfold Scan.closed
    split <;> simp
  rcases h with ⟨token, htoken, hne⟩ | ⟨hout, hmode⟩
  · obtain ⟨rest, hrest⟩ := htoken.trans hprefix
    exact .inr ⟨token, rest, by rw [← hrest]; simp, hne⟩
  · unfold Scan.closed
    cases hσ : σ.mode with
    | bare =>
        simp only [hσ] at hmode
        refine .inr ⟨.record σ.f, [], by simp [hout], ?_⟩
        exact fun h => hspoils.ne hmode (Option.some.inj h)
    | afterSep =>
        simp [hσ] at hmode
    | start _ =>
        exact .inl hout
    | afterCr =>
        exact .inl hout
    | emptyLine _ =>
        exact .inl hout
    | quoted _ _ =>
        exact .inl hout
    | quoteSeen =>
        exact .inl hout

/-- A table is not returned as it was written if the field behind `before` is another one, or
if there is none. -/
theorem not_shows_of_closed
    {N : Nat} {rows rows' : List (List Bytes)} {left right : List Bytes}
    (hclosed : σ.closed = before ∨
      ∃ token rest, σ.closed = before ++ token :: rest ∧ token.content ≠ some content)
    (hcontent : content ≠ [])
    (hbefore : Layout.ofTokens before = Layout.ofRecords rows left)
    (hwidth : ∀ row ∈ rows ++ (left ++ content :: right) :: rows', row.length = N)
    {t : Table Bytes}
    (hanswer : σ.answer = .ok t) :
    ¬ t.Shows N (rows ++ (left ++ content :: right) :: rows') := by
  intro hshows
  obtain ⟨hacc, rfl⟩ := table_of_answer hanswer
  set l := Layout.ofTokens σ.closed with hl
  have hrec : l.records ≠ [] := by
    intro hnil
    have hcount := hshows.row_count
    rw [Layout.table_of_no_record hnil] at hcount
    simp [Table.empty, Table.rows] at hcount
  have hc : left.length < N := by
    rw [← hwidth (left ++ content :: right) (by simp)]
    simp
  have hcell {row : List Bytes} (hrow : l.rows[rows.length]? = some row) :
      row.getD left.length [] = content := by
    have hvalue := hacc.shows_cell hshows hwidth hrec hrow hc
    simpa using hvalue.symm
  have hlines : (Layout.ofTokens before).lines[rows.length]? = some left := by
    rw [hbefore]
    simp [Layout.lines, Layout.ofRecords]
  rcases hclosed with hclosed | ⟨token, rest, hclosed, hne⟩
  · rw [← hclosed, ← hl] at hbefore hlines
    by_cases hleft : left = []
    · have hcount := hshows.row_count
      rw [(hacc.holdsRows hrec).rows_toNat, hbefore] at hcount
      simp [Layout.begun, Layout.ofRecords, hleft] at hcount
    · have hvalue := hcell (Layout.rows_of_lines hlines hleft)
      rw [List.getD_eq_getElem?_getD, List.getElem?_eq_none le_rfl] at hvalue
      exact hcontent hvalue.symm
  · have hpush :
        l = rest.foldl Layout.push ((Layout.ofTokens before).push token) := by
      rw [hl, hclosed]
      simp [Layout.ofTokens]
    have hreport {g : Bytes} (hg : token.content = some g)
        (htoken : ((Layout.ofTokens before).push token).lines[rows.length]? =
          some (left ++ [g])) : False := by
      obtain ⟨tail, htail⟩ := Layout.lines_foldl rest htoken
      rw [← hpush] at htail
      have hvalue := hcell (Layout.rows_of_lines htail (by simp))
      simp [List.getD_eq_getElem?_getD] at hvalue
      exact hne (by rw [hg, hvalue])
    cases token with
    | field g =>
        refine hreport rfl ?_
        rw [hbefore]
        simp [Layout.lines, Layout.push, Layout.ofRecords]
    | record g =>
        refine hreport rfl ?_
        rw [hbefore]
        simp [Layout.lines, Layout.push, Layout.ofRecords]
    | fault =>
        refine hacc.shape (Layout.faulty_ofTokens ?_)
        rw [hclosed]
        simp

/-- A table with a field that has been misread is not returned as it was written. -/
theorem not_shows_of_misread
    {N : Nat} {rows rows' : List (List Bytes)} {left right : List Bytes}
    (hspoils : Spoils P content)
    (h : σ.Misread before content P)
    (hcontent : content ≠ [])
    (hbefore : Layout.ofTokens before = Layout.ofRecords rows left)
    (hwidth : ∀ row ∈ rows ++ (left ++ content :: right) :: rows', row.length = N)
    {t : Table Bytes}
    (hanswer : σ.answer = .ok t) :
    ¬ t.Shows N (rows ++ (left ++ content :: right) :: rows') :=
  not_shows_of_closed (h.closed hspoils) hcontent hbefore hwidth hanswer

end Misread

end Scan

end Csv

end Bren
end Brenlib
