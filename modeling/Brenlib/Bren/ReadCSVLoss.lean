import Brenlib.Bren.ReadCSVDecoding

/-!
# The cells of a returned table

The contents of the fields reach the table through the tokens of the scan
(`mem_of_readCSV`), so an invariant of the scan says which bytes cannot be found
in a returned table.

**Result.**  `readCSV_drops_eof`: no cell of a returned table contains the byte
`0xFF`, because the reader takes it for the end of its input.
-/

namespace Brenlib
namespace Bren

namespace Csv

/-- The field a token reports. -/
def Token.content : Token → Option Bytes
  | .field f => some f
  | .record f => some f
  | .fault => none

namespace Layout

/-- All fields in the order of the text. -/
def fields (l : Layout) : List Bytes :=
  l.records.flatten ++ l.current

theorem fields_push
    (l : Layout) (token : Token) :
    (l.push token).fields = l.fields ++ token.content.toList := by
  cases token <;> simp [push, fields, Token.content]

/-- Grouping keeps the order of the fields. -/
theorem fields_ofTokens
    (tokens : List Token) :
    (ofTokens tokens).fields = tokens.filterMap Token.content := by
  induction tokens using List.reverseRecOn with
  | nil =>
      rfl
  | append_singleton tokens token ih =>
      rw [ofTokens_append_singleton, fields_push, ih, List.filterMap_append]
      cases token <;> rfl

theorem faulty_ofTokens
    {tokens : List Token} (h : Token.fault ∈ tokens) :
    (ofTokens tokens).Malformed := by
  induction tokens using List.reverseRecOn with
  | nil =>
      cases h
  | append_singleton tokens token ih =>
      rw [ofTokens_append_singleton]
      rcases List.mem_append.mp h with h | h
      · exact (ih h).push token
      · rw [← List.mem_singleton.mp h]
        exact .inl rfl

/-- Every cell of the table of a layout is one of its fields, or empty. -/
theorem mem_data_table
    {l : Layout} {value : Bytes}
    (h : value ∈ l.table.data_) :
    value = [] ∨ value ∈ l.fields := by
  by_cases hrec : l.records = []
  · rw [table_of_no_record hrec] at h
    cases h
  · rw [table_eq hrec] at h
    obtain ⟨row, hrow, hvalue⟩ := List.mem_flatMap.mp h
    rw [PaddedRows.pad, List.rightpad, List.mem_append] at hvalue
    rcases hvalue with hvalue | hvalue
    · right
      rcases List.mem_append.mp hrow with hrow | hrow
      · exact List.mem_append_left _ (List.mem_flatten.mpr ⟨row, hrow, hvalue⟩)
      · split at hrow
        · cases hrow
        · rw [List.mem_singleton.mp hrow] at hvalue
          exact List.mem_append_right _ hvalue
    · exact .inl (List.eq_of_mem_replicate hvalue)

/-- The first cell is the first field. -/
theorem Accepted.fetch_first
    {l : Layout} (h : l.Accepted)
    {value : Bytes} {t : Table Bytes}
    (hfetch : (Table.fetch 0 0).run l.table = .ok value t) :
    l.fields.head? = some value := by
  by_cases hrec : l.records = []
  · rw [table_of_no_record hrec] at hfetch
    cases hfetch
  · have hcols := h.cols_toNat hrec
    have hpos : 0 < l.width := Nat.zero_lt_of_lt (h.current_lt hrec)
    have hbegun : 0 < l.begun := by
      have := List.length_pos_iff.mpr hrec
      unfold begun
      omega
    obtain ⟨hdr, rest, hcons⟩ := List.exists_cons_of_ne_nil hrec
    have hwidth : l.width = hdr.length := by simp [width, hcons]
    rw [hwidth] at hpos
    obtain ⟨f, fs, hhdr⟩ :=
      List.exists_cons_of_ne_nil (List.length_pos_iff.mp hpos)
    have hpresent :=
      Table.fetch_present (h.holdsRows hrec)
        (show (0 : UInt16).toNat < _ by rw [hcols, hwidth]; exact hpos)
        (show (0 : UInt32).toNat < _ from hbegun)
    rw [hpresent] at hfetch
    obtain ⟨hvalue, -⟩ := EStateM.Result.ok.inj hfetch
    rw [← hvalue, table_eq hrec]
    simp [rows, fields, hcons, hhdr, PaddedRows.pad, List.rightpad]

end Layout

namespace Scan

/-- The tokens of a text, with the record that the end of the text completes. -/
def closed (σ : Scan) : List Token :=
  match σ.mode with
  | .afterSep | .bare => σ.out ++ [.record σ.f]
  | _ => σ.out

/-- A returned table is that of the grouped tokens. -/
theorem table_of_answer
    {σ : Scan} {t : Table Bytes}
    (h : σ.answer = .ok t) :
    (Layout.ofTokens σ.closed).Accepted ∧ t = (Layout.ofTokens σ.closed).table := by
  have hall {tokens : List Token} {l : Layout}
      (hrun : Layout.run tokens = .ok l) :
      (Layout.ofTokens tokens).Accepted ∧ l = Layout.ofTokens tokens := by
    obtain ⟨rfl, hw, hm⟩ := (Layout.run_eq_ok_iff _ _).mp hrun
    exact ⟨⟨hw, hm⟩, rfl⟩
  cases hrun : Layout.run σ.out with
  | error k =>
      rw [answer, hrun] at h
      cases h
  | ok l =>
      rw [answer_of_run hrun] at h
      have hrecord
          (h : (l.accept (.record σ.f)).map Layout.table = .ok t) :
          (Layout.ofTokens (σ.out ++ [.record σ.f])).Accepted ∧
            t = (Layout.ofTokens (σ.out ++ [.record σ.f])).table := by
        cases hacc : l.accept (.record σ.f) with
        | error k =>
            rw [hacc] at h
            cases h
        | ok l' =>
            rw [hacc] at h
            cases h
            have hrun' : Layout.run (σ.out ++ [.record σ.f]) = .ok l' := by
              rw [Layout.run_append_singleton, hrun]
              exact hacc
            obtain ⟨haccepted, rfl⟩ := hall hrun'
            exact ⟨haccepted, rfl⟩
      obtain ⟨haccepted, rfl⟩ := hall hrun
      cases hmode : σ.mode with
      | afterSep =>
          simp only [finish, closed, hmode] at h ⊢
          exact hrecord h
      | bare =>
          simp only [finish, closed, hmode] at h ⊢
          exact hrecord h
      | quoted fresh cr =>
          simp only [finish, closed, hmode] at h ⊢
          split_ifs at h
          cases h
          exact ⟨haccepted, rfl⟩
      | start first =>
          simp only [finish, closed, hmode] at h ⊢
          cases h
          exact ⟨haccepted, rfl⟩
      | afterCr =>
          simp only [finish, closed, hmode] at h ⊢
          cases h
          exact ⟨haccepted, rfl⟩
      | emptyLine cr =>
          simp only [finish, closed, hmode] at h ⊢
          cases h
          exact ⟨haccepted, rfl⟩
      | quoteSeen =>
          simp only [finish, closed, hmode] at h ⊢
          cases h
          exact ⟨haccepted, rfl⟩

end Scan

end Csv

open Csv

/-- A value read from an existing cell is one of the cells, or the default. -/
theorem Table.mem_of_fetch
    {t : Table Bytes} {column : UInt16} {row : UInt32} {value : Bytes}
    (h : (Table.fetch column row).run t = .ok value t) :
    value = [] ∨ value ∈ t.data_ := by
  rw [Table.fetch, EStateM.run_bind] at h
  cases hcell : (Table.cell column row).run t with
  | error e s =>
      rw [hcell] at h
      cases h
  | ok pos s =>
      rw [hcell] at h
      cases h
      rw [List.getD_eq_getElem?_getD]
      cases hget : t.data_[pos]? with
      | none =>
          exact .inl rfl
      | some v =>
          exact .inr (List.mem_of_getElem? hget)

/-- The cells of a returned table are fields of the scan, or empty. -/
theorem mem_of_readCSV
    {text : Bytes} {sep : Byte} {t : Table Bytes}
    (h : readCSV text sep = .ok t)
    {value : Bytes} (hvalue : value ∈ t.data_) :
    value = [] ∨ value ∈ (scan sep text).closed.filterMap Token.content := by
  obtain ⟨-, rfl⟩ := Scan.table_of_answer (readCSV_eq_ok_iff.mp h)
  rw [← Layout.fields_ofTokens]
  exact Layout.mem_data_table hvalue

section Eof

namespace Csv

/-- The byte `0xFF` has not been kept, unless the text is at fault. -/
def Scan.WithoutEof (σ : Scan) : Prop :=
  Token.fault ∈ σ.out ∨
    (Byte.eof ∉ σ.f ∧ ∀ token ∈ σ.out, ∀ f ∈ token.content, Byte.eof ∉ f)

namespace Scan

theorem WithoutEof.of_extends
    {σ τ : Scan}
    (hfault : Token.fault ∈ σ.out) (h : σ.out <+: τ.out) :
    τ.WithoutEof :=
  .inl (h.subset hfault)

section Steps

variable {sep b : Byte} {σ : Scan}
  (hf : Byte.eof ∉ σ.f)
  (hout : ∀ token ∈ σ.out, ∀ f ∈ token.content, Byte.eof ∉ f)
include hf hout

theorem withoutEof_append
    {token : Token}
    (htoken : ∀ f ∈ token.content, f = σ.f) :
    ∀ t ∈ σ.out ++ [token], ∀ f ∈ t.content, Byte.eof ∉ f := by
  intro t ht f hcontent
  rcases List.mem_append.mp ht with h | h
  · exact hout t h f hcontent
  · rw [List.mem_singleton.mp h] at hcontent
    rwa [htoken f hcontent]

theorem withoutEof_closeRecord :
    (σ.closeRecord b).WithoutEof :=
  .inr ⟨by simp [closeRecord], withoutEof_append hf hout (by simp [Token.content])⟩

theorem withoutEof_closeField :
    σ.closeField.WithoutEof :=
  .inr ⟨by simp [closeField], withoutEof_append hf hout (by simp [Token.content])⟩

theorem withoutEof_push
    (hb : ¬ endsRecord b) :
    (σ.push b).WithoutEof := by
  refine .inr ⟨?_, hout⟩
  have heof : ¬ Byte.eof = b := fun h => hb (.inr (.inr h.symm))
  simp [push, hf, heof]

theorem withoutEof_atStart
    (sep : Byte) (first : Bool) :
    (atStart sep first σ b).WithoutEof := by
  unfold atStart
  split_ifs with h₁ h₂ h₃ h₄
  · exact .inr ⟨hf, hout⟩
  · exact .inr ⟨hf, hout⟩
  · exact .inr ⟨by simp [openQuote], hout⟩
  · exact withoutEof_closeField hf hout
  · exact withoutEof_push hf hout h₂

theorem withoutEof_inField
    (sep : Byte) :
    (inField sep σ b).WithoutEof := by
  unfold inField
  split_ifs with h₁ h₂
  · exact withoutEof_closeRecord hf hout
  · exact withoutEof_closeField hf hout
  · exact withoutEof_push hf hout h₁

end Steps

/-- No byte of the text brings `0xFF` into a field. -/
theorem withoutEof_step
    (sep : Byte) (σ : Scan) (b : Byte)
    (h : σ.WithoutEof) :
    (step sep σ b).WithoutEof := by
  rcases h with hfault | ⟨hf, hout⟩
  · exact .of_extends hfault (out_prefix_step sep σ b)
  · unfold step
    split
    · exact withoutEof_atStart hf hout sep _
    · split_ifs
      · exact .inr ⟨hf, hout⟩
      · exact withoutEof_atStart (σ := { σ with mode := .start false }) hf hout sep _
    · unfold afterEmpty
      split_ifs
      · exact .inr ⟨hf, hout⟩
      · exact .of_extends (σ := { mode := .start false, f := [], out := σ.out ++ [.fault] })
          (by simp) (out_prefix_atStart sep false _ b)
    · unfold atField
      split_ifs with h₁ h₂ h₃
      · exact withoutEof_closeRecord hf hout
      · exact .inr ⟨by simp [openQuote], hout⟩
      · exact withoutEof_closeField hf hout
      · exact withoutEof_push hf hout h₁
    · exact withoutEof_inField hf hout sep
    · unfold inQuotes
      split_ifs with h₁ h₂ h₃
      · exact .inr ⟨hf, hout⟩
      · exact .inr ⟨hf, hout⟩
      · exact .inl (by simp)
      · exact .inr ⟨by simp [hf, Ne.symm h₃], hout⟩
    · unfold afterQuote
      split_ifs with h₁
      · have hquote : ¬ Byte.eof = b := by
          rw [h₁]
          decide
        exact .inr ⟨by simp [hf, hquote], hout⟩
      · exact withoutEof_inField hf hout sep

theorem withoutEof_scan
    (sep : Byte) (text : Bytes) :
    (scan sep text).WithoutEof :=
  scanFrom_induction (fun σ b h => withoutEof_step sep σ b h)
    (.inr ⟨by simp [init], by simp [init]⟩) text

/-- The same for the tokens with the last record. -/
theorem WithoutEof.closed
    {σ : Scan} (h : σ.WithoutEof) :
    Token.fault ∈ σ.closed ∨
      ∀ f ∈ σ.closed.filterMap Token.content, Byte.eof ∉ f := by
  unfold Scan.closed
  rcases h with hfault | ⟨hf, hout⟩
  · left
    split <;> simp [hfault]
  · right
    intro f hmem
    obtain ⟨token, htoken, hcontent⟩ := List.mem_filterMap.mp hmem
    have hcases : token ∈ σ.out ∨ token = .record σ.f := by
      split at htoken <;> simp_all
    rcases hcases with htoken | rfl
    · exact hout token htoken f hcontent
    · simp only [Token.content, Option.some.injEq] at hcontent
      rwa [← hcontent]

end Scan

end Csv

/-- **The byte `0xFF` never reaches the table**: a field that contains it is not
returned, whatever the input and however the field is encoded. -/
theorem readCSV_drops_eof
    (text : Bytes) (sep : Byte) {content : Bytes}
    (heof : Byte.eof ∈ content) :
    ¬ ∃ t column row,
      readCSV text sep = .ok t ∧
      (Table.fetch column row).run t = .ok content t := by
  rintro ⟨t, column, row, hread, hfetch⟩
  have hne : content ≠ [] := List.ne_nil_of_mem heof
  have hcell := (Table.mem_of_fetch hfetch).resolve_left hne
  have hfield := (mem_of_readCSV hread hcell).resolve_left hne
  obtain ⟨hacc, -⟩ := Scan.table_of_answer (readCSV_eq_ok_iff.mp hread)
  rcases (Scan.withoutEof_scan sep text).closed with hfault | hclean
  · exact hacc.shape (Layout.faulty_ofTokens hfault)
  · exact hclean content hfield heof

/-- `a`, then a record with the Latin-1 text `x\xFFy`. -/
def latinDocument (quoted : Bool) : Document where
  bom := false
  records :=
    [⟨[⟨false, [0x61]⟩], .lf⟩, ⟨[⟨quoted, [0x78, 0xFF, 0x79]⟩], .lf⟩]

theorem readCSV_drops_eof_latin :
    ¬ ∃ t column row,
      readCSV ((latinDocument true).encode 0x3B) 0x3B = .ok t ∧
      (Table.fetch column row).run t = .ok [0x78, 0xFF, 0x79] t :=
  readCSV_drops_eof _ _ (by decide)

/-- The bare field is split into two records, the quoted one is rejected. -/
theorem readCSV_latin :
    (¬ ∃ t,
      readCSV ((latinDocument false).encode 0x3B) 0x3B = .ok t ∧
      (Table.fetch 0 1).run t = .ok [0x78, 0xFF, 0x79] t) ∧
    ¬ ∃ t,
      readCSV ((latinDocument true).encode 0x3B) 0x3B = .ok t ∧
      (Table.fetch 0 1).run t = .ok [0x78, 0xFF, 0x79] t := by
  have hbare :
      (scan 0x3B ((latinDocument false).encode 0x3B)).answer =
        .ok { cols_ := 1, data_ := [[0x61], [0x78], [0x79]] } := by
    decide
  have hquoted :
      (scan 0x3B ((latinDocument true).encode 0x3B)).answer =
        .error .runtimeError := by
    decide
  constructor
  · rintro ⟨t, hread, hfetch⟩
    rw [readCSV_eq_ok_iff, hbare] at hread
    cases hread
    cases hfetch
  · rintro ⟨t, hread, -⟩
    rw [readCSV_eq_ok_iff, hquoted] at hread
    cases hread

end Eof

end Bren
end Brenlib
