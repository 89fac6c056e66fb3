import Brenlib.Bren.CsvRoundTrip
import Brenlib.Bren.CsvWriterRows
import Brenlib.Bren.Logger
import Brenlib.Bren.ReadCSVMisreading

/-!
# Writing without quotes

With `quoting = never` a field is written as it is, or refused if it contains a byte
that ends a field.  A double quote is not such a byte, but at the start of a field
the reader takes it for an opening quote.

* `Scan.Short k`: of the first `k` bytes of such a field, fewer than `k` are kept.
* `misread_of_bare_quote`: behind such a field the scan is misled for good.
* `not_readBack_of_mandatory`: a field that is refused cannot be read back.
* `writeTable_alike`: what is written does not depend on the logger.

**Result.**  `readable_or_refused_iff`: what is written can be read back, and what
cannot be read back is refused, exactly when no field begins with a double quote
without being refused, and the table is within the limits of the reader or one of its
fields is refused with the logger set up.
-/

namespace Brenlib
namespace Bren

open Csv Frames

namespace Csv

/-- Fields in front of another one, each with the separator behind it. -/
def preceding (sep : Byte) (fds : List Field) : Bytes :=
  fds.flatMap fun fd => fd.encode ++ [sep]

theorem joined_preceding
    (sep : Byte) (left : List Field) (fd : Field) (right : List Field) :
    joined sep (left ++ fd :: right) =
      preceding sep left ++ (fd.encode ++ CsvWriter.following sep right) := by
  induction left with
  | nil =>
      simp [preceding, CsvWriter.joined_cons]
  | cons g left ih =>
      obtain ⟨fd', fds, hcons⟩ : ∃ fd' fds, left ++ fd :: right = fd' :: fds :=
        List.exists_cons_of_ne_nil (by simp)
      rw [List.cons_append, hcons, joined_cons_cons, ← hcons, ih]
      simp [preceding]

namespace Scan

section Prefix

variable {sep : Byte} {first : Bool} {m : Mode}

/-- The fields in front of another one are reported one by one. -/
theorem scan_preceding
    (out : List Token)
    (hsep : Separator sep)
    (hm : BeginsField first m)
    {fds : List Field}
    (hfds : ∀ fd ∈ fds, fd.WellFormed sep)
    (hfirst :
      first = true →
        ∀ fd ∈ fds.head?, ∀ b ∈ fd.content.head?, ¬ skipped b) :
    ∃ m',
      BeginsField (first && fds.isEmpty) m' ∧
      scanFrom sep { mode := m, f := [], out := out } (preceding sep fds) =
        { mode := m', f := [], out := out ++ (fds.map Field.content).map .field } := by
  induction fds generalizing first m out with
  | nil =>
      exact ⟨m, by simpa using hm, by simp [preceding]⟩
  | cons fd fds ih =>
      have hfield :
          scanFrom sep { mode := m, f := [], out := out } fd.encode =
            { mode := fieldEnd m fd, f := fd.content, out := out } :=
        scan_field hm (hfds fd (by simp)) (fun h => hfirst h fd (by simp))
      obtain ⟨m', hm', hscan⟩ :=
        ih (out ++ [.field fd.content]) .afterSep
          (fun g hg => hfds g (by simp [hg])) (fun h => by cases h)
      refine ⟨m', by simpa using hm', ?_⟩
      rw [preceding, List.flatMap_cons, scanFrom_append, scanFrom_append, hfield,
        scanFrom_cons, step_separator hsep hm fd, scanFrom_nil]
      exact hscan.trans (by simp)

end Prefix

section Quote

variable {sep b : Byte} {before : List Token} {k : Nat} {σ : Scan}

/-- Behind the first `k` bytes of a field that begins with a quote: fewer than `k` are
kept. -/
def Short (before : List Token) (k : Nat) (σ : Scan) : Prop :=
  σ.out = before ∧ σ.f.length < k ∧
    match σ.mode with
    | .bare | .quoteSeen | .quoted _ _ => True
    | .start _ | .afterCr | .emptyLine _ | .afterSep => False

/-- A byte of the field adds at most one byte to what is kept. -/
theorem short_step
    (hcr : b ≠ Byte.cr) (hlf : b ≠ Byte.lf) (heof : b ≠ Byte.eof)
    (hsep : b ≠ sep)
    (h : σ.Short before k) :
    (step sep σ b).Short before (k + 1) := by
  obtain ⟨hout, hlen, hmode⟩ := h
  have hend : ¬ endsRecord b := not_endsRecord hcr.symm hlf.symm heof.symm
  have hinField : inField sep σ b = σ.push b := by
    rw [inField, if_neg hend, if_neg fun h => hsep h.1]
  have hpush : (σ.push b).Short before (k + 1) :=
    ⟨hout, by simpa [push] using hlen, trivial⟩
  unfold step
  cases hσ : σ.mode with
  | bare =>
      simp only [hinField]
      exact hpush
  | quoted fresh cr =>
      simp only [inQuotes, if_neg heof]
      split_ifs
      · exact ⟨hout, by omega, by simp [hσ]⟩
      · exact ⟨hout, by show σ.f.length < _; omega, trivial⟩
      · exact ⟨hout, by simpa using hlen, trivial⟩
  | quoteSeen =>
      simp only [afterQuote]
      split_ifs
      · exact ⟨hout, by simpa using hlen, trivial⟩
      · rw [hinField]
        exact hpush
  | start _ =>
      simp [hσ] at hmode
  | afterCr =>
      simp [hσ] at hmode
  | emptyLine _ =>
      simp [hσ] at hmode
  | afterSep =>
      simp [hσ] at hmode

theorem short_scan
    {content : Bytes}
    (hcr : Byte.cr ∉ content) (hlf : Byte.lf ∉ content)
    (heof : Byte.eof ∉ content) (hsep : sep ∉ content)
    (h : σ.Short before k) :
    (scanFrom sep σ content).Short before (k + content.length) :=
  scanFrom_counted (P := fun k σ => σ.Short before k)
    (fun _ _ _ hb => short_step (ne_of_mem_of_not_mem hb hcr) (ne_of_mem_of_not_mem hb hlf)
      (ne_of_mem_of_not_mem hb heof) (ne_of_mem_of_not_mem hb hsep)) h

/-- The part kept contains a byte that the content does not have. -/
def Foreign (content f : Bytes) : Prop :=
  ∃ b ∈ f, b ∉ content

theorem spoils_foreign
    (content : Bytes) :
    Spoils (Foreign content) content where
  push := by
    rintro f ⟨c, hc, hnot⟩ b
    exact ⟨c, by simp [hc], hnot⟩
  ne := by
    rintro f ⟨c, hc, hnot⟩ rfl
    exact hnot hc

/-- What ends the field is read with a part of its content missing, or is taken for a
byte of the field. -/
theorem misread_delimiter
    (hsep : Separator sep)
    (content : Bytes)
    (h : σ.Short before content.length)
    (hb : b = sep ∨ b = Byte.cr ∨ b = Byte.lf)
    (hnot : b ∉ content) :
    (step sep σ b).Misread before content (Foreign content) := by
  obtain ⟨hout, hlen, hmode⟩ := h
  have hne : some σ.f ≠ some content := by
    intro heq
    rw [Option.some.inj heq] at hlen
    exact lt_irrefl _ hlen
  have hskip : ¬ skipped b := by
    rcases hb with rfl | rfl | rfl
    · exact not_skipped_of_ascii hsep.ascii
    · decide
    · decide
  have hquote : b ≠ Byte.quote := by
    rcases hb with rfl | rfl | rfl
    · exact hsep.ne_quote
    · decide
    · decide
  have heof : b ≠ Byte.eof := by
    rcases hb with rfl | rfl | rfl
    · exact hsep.ne_eof
    · decide
    · decide
  have hinField : (inField sep σ b).Misread before content (Foreign content) := by
    unfold inField
    split_ifs with hend hfield
    · exact .inl ⟨.record σ.f, by simp [closeRecord, hout], hne⟩
    · exact .inl ⟨.field σ.f, by simp [closeField, hout], hne⟩
    · have hline : b = Byte.cr ∨ b = Byte.lf :=
        hb.resolve_left fun h => hfield ⟨h, hquote⟩
      exact absurd (hline.imp id .inl) hend
  unfold step
  cases hσ : σ.mode with
  | bare =>
      exact hinField
  | quoted fresh cr =>
      simp only [inQuotes, if_neg hquote, if_neg heof]
      rw [if_neg fun h => hskip h.2]
      exact .inr ⟨hout, rfl, b, by simp, hnot⟩
  | quoteSeen =>
      simp only [afterQuote, if_neg hquote]
      exact hinField
  | start _ =>
      simp [hσ] at hmode
  | afterCr =>
      simp [hσ] at hmode
  | emptyLine _ =>
      simp [hσ] at hmode
  | afterSep =>
      simp [hσ] at hmode

/-- Behind a bare field that begins with a quote, the text is misread for good. -/
theorem misread_of_bare_quote
    (hsep : Separator sep)
    (rs : List Record) (left : List Field) {content : Bytes} (rest : Bytes)
    (hne : ∀ r ∈ rs, joined sep r.fields ≠ [])
    (hfds : ∀ r ∈ rs, ∀ fd ∈ r.fields, fd.WellFormed sep)
    (hleft : ∀ fd ∈ left, fd.WellFormed sep)
    (hfirst : ∀ r ∈ rs.head?, ∀ fd ∈ r.fields.head?, ∀ c ∈ fd.content.head?, ¬ skipped c)
    (hfirst' : rs = [] → ∀ fd ∈ left.head?, ∀ c ∈ fd.content.head?, ¬ skipped c)
    (hquote : content.head? = some Byte.quote)
    (hcr : Byte.cr ∉ content) (hlf : Byte.lf ∉ content)
    (heof : Byte.eof ∉ content) (hcontent : sep ∉ content)
    (hb : b = sep ∨ b = Byte.cr ∨ b = Byte.lf) :
    (scan sep (rs.flatMap (Record.encode sep) ++
        (preceding sep left ++ (content ++ b :: rest)))).Misread
      (tokens (rs.map Record.contents) ++ (left.map Field.content).map .field)
      content (Foreign content) := by
  obtain ⟨tail, rfl⟩ : ∃ tail, content = Byte.quote :: tail := by
    cases content with
    | nil =>
        cases hquote
    | cons c tail =>
        exact ⟨tail, by rw [Option.some.inj hquote]⟩
  obtain ⟨m, hm, hscan⟩ :=
    scan_records true [] hsep (.inl rfl) hne hfds (fun _ => hfirst)
  have hline :
      (preceding sep left ++ (Byte.quote :: tail ++ b :: rest)).head? ≠ some Byte.lf := by
    cases left with
    | nil =>
        simp only [preceding, List.flatMap_nil, List.nil_append, List.cons_append,
          List.head?_cons, ne_eq, Option.some.injEq]
        decide
    | cons fd left =>
        have hfield :=
          head?_encode_append hsep (hleft fd (by simp))
            (preceding sep left ++ (Byte.quote :: tail ++ b :: rest))
        simpa [preceding] using hfield
  obtain ⟨m', hm', hprec⟩ :=
    scan_preceding (tokens (rs.map Record.contents)) hsep
      (.start (true && rs.isEmpty)) hleft (fun h => hfirst' (by simpa using h))
  have hout : [] ++ rs.flatMap (fun r => recordTokens r.contents) =
      tokens (rs.map Record.contents) := by
    simp [tokens, List.flatMap_map]
  have hopen :=
    step_beginsField sep
      (tokens (rs.map Record.contents) ++ (left.map Field.content).map .field)
      (b := Byte.quote) hm' (fun h => absurd h.2 (by decide)) (by decide)
  rw [if_pos rfl] at hopen
  have hshort :
      Short (tokens (rs.map Record.contents) ++ (left.map Field.content).map .field) 1
        { mode := .quoted ((true && rs.isEmpty) && left.isEmpty) false, f := [],
          out := tokens (rs.map Record.contents) ++ (left.map Field.content).map .field } :=
    ⟨rfl, Nat.zero_lt_one, trivial⟩
  have hnot : b ∉ Byte.quote :: tail := by
    rcases hb with rfl | rfl | rfl
    · exact hcontent
    · exact hcr
    · exact hlf
  simp only [List.mem_cons, not_or] at hcr hlf heof hcontent
  have hkept := short_scan hcr.2 hlf.2 heof.2 hcontent.2 hshort
  rw [Nat.add_comm] at hkept
  have hmisread := misread_delimiter hsep (Byte.quote :: tail) hkept hb hnot
  rw [scan, scanFrom_append, init, hscan, scan_beginsRecord hm (by simp) hline, hout,
    scanFrom_append, hprec, List.cons_append, scanFrom_cons, hopen, scanFrom_append,
    scanFrom_cons]
  exact hmisread.scanFrom (spoils_foreign _) rest

end Quote

section Cut

variable {sep b : Byte} {before : List Token} {k : Nat} {σ : Scan}

/-- Behind the first `k` bytes of a field that begins with a quote: fewer than `k` are kept,
in a field that is being read or in one that has been cut off. -/
def Cut (before : List Token) (k : Nat) (σ : Scan) : Prop :=
  (∃ token, before ++ [token] <+: σ.out ∧ ∀ c, token.content = some c → c.length < k) ∨
    σ.Short before k

theorem cut_inField
    (hout : σ.out = before)
    (hlen : σ.f.length < k) :
    (inField sep σ b).Cut before (k + 1) := by
  have hcontent (f : Bytes) (hf : f.length < k) (c : Bytes) (hc : some f = some c) :
      c.length < k + 1 :=
    Option.some.inj hc ▸ Nat.lt_succ_of_lt hf
  unfold inField
  split_ifs
  · exact .inl ⟨.record σ.f, by simp [closeRecord, hout], hcontent σ.f hlen⟩
  · exact .inl ⟨.field σ.f, by simp [closeField, hout], hcontent σ.f hlen⟩
  · exact .inr ⟨hout, by simpa [push] using hlen, trivial⟩

theorem cut_step
    (h : σ.Cut before k) :
    (step sep σ b).Cut before (k + 1) := by
  rcases h with ⟨token, htoken, hlen⟩ | ⟨hout, hlen, hmode⟩
  · exact .inl ⟨token, htoken.trans (out_prefix_step sep σ b),
      fun c hc => Nat.lt_succ_of_lt (hlen c hc)⟩
  · unfold step
    cases hσ : σ.mode with
    | bare => exact cut_inField hout hlen
    | quoted fresh cr =>
        simp only [inQuotes]
        split_ifs
        · exact .inr ⟨hout, Nat.lt_succ_of_lt hlen, by simp [hσ]⟩
        · exact .inr ⟨hout, Nat.lt_succ_of_lt hlen, trivial⟩
        · exact .inl ⟨.fault, by simp [hout], by simp [Token.content]⟩
        · exact .inr ⟨hout, by simpa using hlen, trivial⟩
    | quoteSeen =>
        simp only [afterQuote]
        split_ifs
        · exact .inr ⟨hout, by simpa using hlen, trivial⟩
        · exact cut_inField hout hlen
    | start _ => simp [hσ] at hmode
    | afterCr => simp [hσ] at hmode
    | emptyLine _ => simp [hσ] at hmode
    | afterSep => simp [hσ] at hmode

/-- A line feed ends the field that is cut, or the text ends inside quotes. -/
theorem Cut.closed
    {content : Bytes}
    (h : σ.Cut before content.length) :
    (step sep σ Byte.lf).closed = before ∨
      ∃ token rest, (step sep σ Byte.lf).closed = before ++ token :: rest ∧
        token.content ≠ some content := by
  have hreported (τ : Scan) : τ.out <+: τ.closed := by
    unfold Scan.closed
    split <;> simp
  have htaken {τ : Scan} (token : Token) (htoken : before ++ [token] <+: τ.out)
      (hlen : ∀ c, token.content = some c → c.length < content.length) :
      ∃ token rest, τ.closed = before ++ token :: rest ∧ token.content ≠ some content := by
    obtain ⟨rest, hrest⟩ := htoken.trans (hreported τ)
    exact ⟨token, rest, by rw [← hrest]; simp, fun h => Nat.lt_irrefl _ (hlen content h)⟩
  rcases h with ⟨token, htoken, hlen⟩ | ⟨hout, hlen, hmode⟩
  · exact .inr (htaken token (htoken.trans (out_prefix_step sep σ Byte.lf)) hlen)
  · have hcontent (c : Bytes) (hc : some σ.f = some c) : c.length < content.length :=
      Option.some.inj hc ▸ hlen
    have hends : endsRecord Byte.lf := .inr (.inl rfl)
    have hquote : Byte.lf ≠ Byte.quote := by decide
    have hclose : (closeRecord σ Byte.lf).out = before ++ [.record σ.f] := by
      rw [closeRecord, hout]
    unfold step
    cases hσ : σ.mode with
    | bare =>
        simp only [inField, if_pos hends]
        exact .inr (htaken (.record σ.f) (hclose ▸ List.prefix_rfl) hcontent)
    | quoted fresh cr =>
        have hskip : ¬ (fresh = true ∧ skipped Byte.lf) := fun h => absurd h.2 (by decide)
        simp only [inQuotes, if_neg hskip, if_neg hquote]
        exact .inl hout
    | quoteSeen =>
        simp only [afterQuote, if_neg hquote, inField, if_pos hends]
        exact .inr (htaken (.record σ.f) (hclose ▸ List.prefix_rfl) hcontent)
    | start _ => simp [hσ] at hmode
    | afterCr => simp [hσ] at hmode
    | emptyLine _ => simp [hσ] at hmode
    | afterSep => simp [hσ] at hmode

/-- A byte that ends a field ends the one that is written as it is. -/
theorem step_ends_bare
    (hsep : Separator sep)
    (out : List Token) (c : Bytes)
    (hb : b = Byte.cr ∨ b = Byte.lf ∨ b = sep) :
    ∃ token, token.content = some c ∧
      (step sep { mode := fieldEnd .afterSep ⟨false, c⟩, f := c, out := out } b).out =
        out ++ [token] := by
  have hline (hends : endsRecord b) :
      (step sep { mode := fieldEnd .afterSep ⟨false, c⟩, f := c, out := out } b).out =
        out ++ [.record c] := by
    unfold fieldEnd
    split_ifs <;> simp_all [step, atField, inField, closeRecord]
  rcases hb with rfl | rfl | rfl
  · exact ⟨.record c, rfl, hline (.inl rfl)⟩
  · exact ⟨.record c, rfl, hline (.inr (.inl rfl))⟩
  · exact ⟨.field c, rfl, by rw [step_separator hsep .afterSep ⟨false, c⟩]⟩

end Cut

end Scan

section Plain

/-- The text of a table with all fields as they are. -/
def bareDocument (e : LineEnd) (table : List (List Bytes)) : Document where
  bom := false
  records := table.map fun row => ⟨row.map (Field.mk false), e⟩

theorem contents_bareRecord
    (e : LineEnd) (row : List Bytes) :
    Record.contents ⟨row.map (Field.mk false), e⟩ = row := by
  have hcontent : Field.content ∘ Field.mk false = id := rfl
  simp [Record.contents, hcontent]

theorem contents_bareDocument
    (e : LineEnd) (table : List (List Bytes)) :
    (bareDocument e table).contents = table := by
  have hcontents :
      (Record.contents ∘ fun row => ⟨row.map (Field.mk false), e⟩) = id := by
    funext row
    exact contents_bareRecord e row
  simp [Document.contents, bareDocument, hcontents]

/-- A table of at least two columns, without the bytes that end a field. -/
structure Plain (sep : Byte) (N : Nat) (table : List (List Bytes)) : Prop where
  columns_ge : 2 ≤ N
  rows_ne : table ≠ []
  width : ∀ row ∈ table, row.length = N
  clean :
    ∀ row ∈ table, ∀ f ∈ row,
      Byte.eof ∉ f ∧ Byte.cr ∉ f ∧ Byte.lf ∉ f ∧ sep ∉ f
  ascii_start : ∀ b ∈ ((table.headD []).headD []).head?, b < 0x80

variable {sep : Byte} {N : Nat} {table : List (List Bytes)}

namespace Plain

theorem field_wellFormed
    (h : Plain sep N table)
    {row : List Bytes} (hrow : row ∈ table)
    {f : Bytes} (hf : f ∈ row)
    (hhead : f.head? ≠ some Byte.quote) :
    Field.WellFormed sep ⟨false, f⟩ := by
  obtain ⟨heof, hcr, hlf, hsep⟩ := h.clean row hrow f hf
  exact ⟨heof, fun _ => ⟨hcr, hlf, hsep, hhead⟩⟩

theorem joined_ne
    (h : Plain sep N table)
    {row : List Bytes} (hrow : row ∈ table) :
    joined sep (row.map (Field.mk false)) ≠ [] := by
  have hlen := h.width row hrow
  have hge := h.columns_ge
  match row with
  | [] =>
      rw [List.length_nil] at hlen
      omega
  | [f] =>
      rw [List.length_singleton] at hlen
      omega
  | f :: g :: row =>
      simp

theorem row_ne
    (h : Plain sep N table)
    {row : List Bytes} (hrow : row ∈ table) :
    row ≠ [] := by
  rintro rfl
  have hlen := h.width [] hrow
  have hge := h.columns_ge
  rw [List.length_nil] at hlen
  omega

/-- No line of the text is empty. -/
theorem records_joined_ne
    (h : Plain sep N table) (e : LineEnd)
    {rows : List (List Bytes)} (hrows : ∀ row ∈ rows, row ∈ table) :
    ∀ r ∈ (bareDocument e rows).records, joined sep r.fields ≠ [] := by
  intro r hr
  obtain ⟨row, hrow, rfl⟩ := List.mem_map.mp hr
  exact h.joined_ne (hrows row hrow)

/-- Rows without a quote at the start of a field are text that means what it says. -/
theorem records_wellFormed
    (h : Plain sep N table) (e : LineEnd)
    {rows : List (List Bytes)} (hrows : ∀ row ∈ rows, row ∈ table)
    (hhead : ∀ row ∈ rows, ∀ f ∈ row, f.head? ≠ some Byte.quote) :
    ∀ r ∈ (bareDocument e rows).records, ∀ fd ∈ r.fields, fd.WellFormed sep := by
  intro r hr fd hfd
  obtain ⟨row, hrow, rfl⟩ := List.mem_map.mp hr
  obtain ⟨f, hf, rfl⟩ := List.mem_map.mp hfd
  exact h.field_wellFormed (hrows row hrow) hf (hhead row hrow f hf)

theorem asciiStart
    (h : Plain sep N table) (e : LineEnd) :
    (bareDocument e table).AsciiStart := by
  rw [Document.AsciiStart, Document.firstContent, contents_bareDocument]
  exact h.ascii_start

/-- A table without quotes at the start of a field, within the limits. -/
theorem wellFormed
    (h : Plain sep N table)
    (hhead : ∀ row ∈ table, ∀ f ∈ row, f.head? ≠ some Byte.quote)
    (hcolumns : N ≤ 65534)
    (hcells : table.length * N < 2 ^ 32)
    (e : LineEnd) :
    (bareDocument e table).WellFormed sep N where
  columns_pos := Nat.le_of_succ_le h.columns_ge
  columns_le := hcolumns
  records_ne := by simpa [bareDocument] using h.rows_ne
  cells_lt := by simpa [bareDocument] using hcells
  width := by
    intro r hr
    obtain ⟨row, hrow, rfl⟩ := List.mem_map.mp hr
    simpa using h.width row hrow
  not_empty := h.records_joined_ne e fun _ hrow => hrow
  fields := h.records_wellFormed e (fun _ hrow => hrow) hhead

/-- The first field of the text is not skipped. -/
theorem not_skipped
    (h : Plain sep N table)
    {row : List Bytes} (hrow : row ∈ table.head?)
    {f : Bytes} (hf : f ∈ row.head?)
    {b : Byte} (hb : b ∈ f.head?) :
    ¬ Scan.skipped b := by
  refine not_skipped_of_ascii (h.ascii_start b ?_)
  have htable : table.head? = some row := hrow
  have hfield : row.head? = some f := hf
  simpa only [List.headD_eq_head?_getD, htable, hfield, Option.getD_some] using hb

/-- A text that is read back is within the limits of a table. -/
theorem limits_of_shows
    (hsep : Separator sep)
    (h : Plain sep N table)
    (hhead : ∀ row ∈ table, ∀ f ∈ row, f.head? ≠ some Byte.quote)
    {e : LineEnd} {t : Table Bytes}
    (hread : readCSV ((bareDocument e table).encode sep) sep = .ok t) :
    N ≤ 65534 ∧ table.length * N < 2 ^ 32 := by
  have hjoined := h.records_joined_ne e fun _ hrow => hrow
  have hfields := h.records_wellFormed e (fun _ hrow => hrow) hhead
  obtain ⟨m, hm, hscan⟩ :=
    Scan.scan_records true [] hsep (.inl rfl) hjoined hfields
      (fun _ _ hr _ hfd _ hb => (h.asciiStart e).not_skipped hr hfd hb)
  have htokens :
      (bareDocument e table).records.flatMap (fun r => Scan.recordTokens r.contents) =
        tokens table := by
    simp only [bareDocument, List.flatMap_map, contents_bareRecord]
    rfl
  have hclosed : (scan sep ((bareDocument e table).encode sep)).closed = tokens table := by
    rw [Document.encode, scan_append, Document.scan_mark, Scan.init, hscan, htokens]
    rcases hm with rfl | ⟨-, rfl⟩ <;> rfl
  obtain ⟨hacc, -⟩ := Scan.table_of_answer (readCSV_eq_ok_iff.mp hread)
  rw [hclosed, Layout.ofTokens_tokens table fun _ hrow => h.row_ne hrow] at hacc
  obtain ⟨hdr, rest, hcons⟩ := List.exists_cons_of_ne_nil h.rows_ne
  have hwidth : (Layout.ofRecords table []).width = N := by
    have hhdr := h.width hdr (by simp [hcons])
    simpa [Layout.width, Layout.ofRecords, hcons] using hhdr
  have hbegun : (Layout.ofRecords table []).begun = table.length := by
    simp [Layout.begun, Layout.ofRecords]
  rcases hacc.within with hnil | ⟨hcols, hcells⟩
  · exact absurd hnil h.rows_ne
  · rw [hwidth] at hcols hcells
    rw [hbegun, Nat.mul_comm] at hcells
    exact ⟨by omega, hcells⟩

/-- The text in front of a field, the field, and the byte that ends it. -/
theorem exists_encode_split
    (sep : Byte) (e : LineEnd)
    (rows : List (List Bytes)) (left : List Bytes) (content : Bytes)
    (right : List Bytes) (rows' : List (List Bytes)) :
    ∃ b rest, (b = sep ∨ b = Byte.cr ∨ b = Byte.lf) ∧
      (bareDocument e (rows ++ (left ++ content :: right) :: rows')).encode sep =
        (bareDocument e rows).records.flatMap (Record.encode sep) ++
          (preceding sep (left.map (Field.mk false)) ++ (content ++ b :: rest)) := by
  obtain ⟨b, rest, hb, htext⟩ :
      ∃ b rest, (b = sep ∨ b = Byte.cr ∨ b = Byte.lf) ∧
        CsvWriter.following sep (right.map (Field.mk false)) ++
            (e.encode ++ (bareDocument e rows').records.flatMap (Record.encode sep)) =
          b :: rest := by
    cases right with
    | nil =>
        cases e with
        | lf =>
            exact ⟨_, _, .inr (.inr rfl), rfl⟩
        | cr =>
            exact ⟨_, _, .inr (.inl rfl), rfl⟩
        | crlf =>
            exact ⟨_, _, .inr (.inl rfl), rfl⟩
    | cons g right =>
        exact ⟨_, _, .inl rfl, rfl⟩
  refine ⟨b, rest, hb, ?_⟩
  rw [← htext]
  simp [bareDocument, Document.encode, Document.mark, Record.encode, joined_preceding,
    Field.encode]

/-- A table with a quote at the start of a field is not read back. -/
theorem not_shows_of_quote
    (hsep : Separator sep)
    (h : Plain sep N table)
    (hquote : ∃ row ∈ table, ∃ f ∈ row, f.head? = some Byte.quote)
    {e : LineEnd} {t : Table Bytes}
    (hread : readCSV ((bareDocument e table).encode sep) sep = .ok t) :
    ¬ t.Shows N table := by
  obtain ⟨rows, left, content, right, rows', rfl, hrows, hleft, hcontent⟩ :=
    PaddedRows.exists_first_cell hquote
  have hmem : left ++ content :: right ∈ rows ++ (left ++ content :: right) :: rows' := by
    simp
  have hsub : ∀ row ∈ rows, row ∈ rows ++ (left ++ content :: right) :: rows' :=
    fun _ hrow => List.mem_append_left _ hrow
  obtain ⟨heof, hcr, hlf, hclean⟩ := h.clean _ hmem content (by simp)
  obtain ⟨b, rest, hb, hencode⟩ := exists_encode_split sep e rows left content right rows'
  have hleftFields : ∀ fd ∈ left.map (Field.mk false), fd.WellFormed sep := by
    intro fd hfd
    obtain ⟨f, hf, rfl⟩ := List.mem_map.mp hfd
    exact h.field_wellFormed hmem (by simp [hf]) (hleft f hf)
  have hstart :
      ∀ r ∈ (bareDocument e rows).records.head?, ∀ fd ∈ r.fields.head?,
        ∀ c ∈ fd.content.head?, ¬ Scan.skipped c := by
    intro r hr fd hfd c hc
    rw [bareDocument, List.head?_map] at hr
    obtain ⟨row, hrow, rfl⟩ := Option.mem_map.mp hr
    rw [List.head?_map] at hfd
    obtain ⟨f, hf, rfl⟩ := Option.mem_map.mp hfd
    exact h.not_skipped (by rw [List.head?_append, hrow]; rfl) hf hc
  have hstart' :
      (bareDocument e rows).records = [] →
        ∀ fd ∈ (left.map (Field.mk false)).head?, ∀ c ∈ fd.content.head?,
          ¬ Scan.skipped c := by
    intro hnil fd hfd c hc
    have hnil' : rows = [] := by simpa [bareDocument] using hnil
    rw [List.head?_map] at hfd
    obtain ⟨f, hf, rfl⟩ := Option.mem_map.mp hfd
    have hfirst :
        left ++ content :: right ∈
          (rows ++ (left ++ content :: right) :: rows').head? := by
      simp [hnil']
    exact h.not_skipped hfirst (by rw [List.head?_append, hf]; rfl) hc
  have hmisread :=
    Scan.misread_of_bare_quote hsep (bareDocument e rows).records
      (left.map (Field.mk false)) rest (h.records_joined_ne e hsub)
      (h.records_wellFormed e hsub hrows) hleftFields hstart hstart' hcontent hcr hlf heof
      hclean hb
  have hrecords : (bareDocument e rows).records.map Record.contents = rows :=
    contents_bareDocument e rows
  have hcontents : (left.map (Field.mk false)).map Field.content = left := by
    simp [Function.comp_def]
  rw [← hencode, hrecords, hcontents] at hmisread
  have hbefore :
      Layout.ofTokens (tokens rows ++ left.map .field) = Layout.ofRecords rows left :=
    Layout.ofTokens_append_fields
      (Layout.ofTokens_tokens rows fun row hrow => h.row_ne (hsub row hrow)) left
  have hnil : content ≠ [] := by
    rintro rfl
    cases hcontent
  exact Scan.not_shows_of_misread (Scan.spoils_foreign content) hmisread hnil hbefore
    h.width (readCSV_eq_ok_iff.mp hread)

/-- The text of a table without the bytes that end a field is read back exactly if no
field begins with a quote, and the table is within the limits. -/
theorem shows_iff
    (hsep : Separator sep)
    (h : Plain sep N table)
    (e : LineEnd) :
    (∃ t,
      readCSV ((bareDocument e table).encode sep) sep = .ok t ∧ t.Shows N table) ↔
      (∀ row ∈ table, ∀ f ∈ row, f.head? ≠ some Byte.quote) ∧
        N ≤ 65534 ∧ table.length * N < 2 ^ 32 := by
  constructor
  · rintro ⟨t, hread, hshows⟩
    have hhead : ∀ row ∈ table, ∀ f ∈ row, f.head? ≠ some Byte.quote :=
      fun row hrow f hf hquote =>
        h.not_shows_of_quote hsep ⟨row, hrow, f, hf, hquote⟩ hread hshows
    exact ⟨hhead, h.limits_of_shows hsep hhead hread⟩
  · rintro ⟨hhead, hcolumns, hcells⟩
    obtain ⟨t, hread, hshows⟩ :=
      readCSV_encode hsep (h.wellFormed hhead hcolumns hcells e) (h.asciiStart e)
    rw [contents_bareDocument] at hshows
    exact ⟨t, hread, hshows⟩

end Plain

end Plain

end Csv

namespace CsvWriter

section Writing

variable {utf8 : Utf8Cpp} {w : CsvWriter} {settings : CsvSettings}
  {names : RowCalls × List Bytes} {rows : List (RowCalls × List Bytes)}

/-- Fields that have been written were printable. -/
theorem printable_of_forM
    {method : Bytes → Method Nat} {fs : List Bytes} {w' : CsvWriter}
    (hmethod : WritesLike utf8 w method)
    (hout : w.out_ ≠ none)
    (hfits : w.Fits fs)
    (hrun : (forM fs fun f => discard (method f)).run w = .ok () w') :
    ∀ f ∈ fs, Printable utf8 w.settings_ f := by
  rcases forM_cases hmethod hout hfits with
    ⟨hprint, -⟩ | ⟨before, f, after, e, -, -, -, -, hrefused⟩
  · exact hprint
  · rw [hrefused] at hrun
    cases hrun

/-- Rows that have been written consist of printable fields. -/
theorem printable_of_writeRows
    {w' : CsvWriter}
    (hout : w.out_ ≠ none)
    (hlines : w.lines_ ≠ 0)
    (hcolumn : w.column_ = 0)
    (hcolumns : w.columns_ ≠ 0)
    (hwidth : ∀ row ∈ rows, row.2.length = w.columns_)
    (hrun : (forM rows fun row => writeRow utf8 row).run w = .ok () w') :
    ∀ row ∈ rows, ∀ f ∈ row.2, Printable utf8 w.settings_ f := by
  induction rows generalizing w with
  | nil =>
      intro row hrow
      cases hrow
  | cons row rows ih =>
      have hlen := hwidth row (by simp)
      have hfits : w.Fits row.2 := .inr (by omega)
      obtain ⟨method, hmethod, hlike⟩ := writeRow_like utf8 row hout (.inr hlines) hfits
      rw [List.forM_cons, EStateM.run_bind] at hrun
      cases hrow : (writeRow utf8 row).run w with
      | error e w₁ =>
          rw [hrow] at hrun
          cases hrun
      | ok u w₁ =>
          have hprint : ∀ f ∈ row.2, Printable utf8 w.settings_ f :=
            printable_of_forM hmethod hout hfits (hlike.symm.trans hrow)
          have hne : row.2 ≠ [] := by
            intro hnil
            rw [hnil, List.length_nil] at hlen
            exact hcolumns hlen.symm
          have hwritten := writeRow_run hout hprint (.inr hlines) hcolumn hlen hne
          rw [hwritten] at hrun
          have hrest : ∀ r ∈ rows, ∀ f ∈ r.2, Printable utf8 w.settings_ f :=
            ih (w := w.afterRecord row.2) hout (Nat.succ_ne_zero _) hcolumn hcolumns
              (fun r hr => hwidth r (by simp [hr])) hrun
          intro r hr
          rcases List.mem_cons.mp hr with rfl | hr
          · exact hprint
          · exact hrest r hr

/-- A table that has been written consists of printable fields. -/
theorem printable_of_writeTable
    {N destination_i : Nat} {w' : CsvWriter}
    (hpos : 1 ≤ N)
    (hwidth : ∀ row ∈ names :: rows, row.2.length = N)
    (hrun :
      (writeTable utf8 destination_i names rows).run (init settings) = .ok () w') :
    ∀ row ∈ names :: rows, ∀ f ∈ row.2, Printable utf8 settings f := by
  have hnames : ∀ f ∈ names.2, Printable utf8 settings f := by
    set w : CsvWriter := { init settings with out_ := some destination_i } with hw
    have hout : w.out_ ≠ none := by simp [hw]
    obtain ⟨method, hmethod, hlike⟩ :=
      writeHeader_like utf8 names hout rfl (.inl rfl)
    cases hheader : (writeHeader utf8 names).run w with
    | error e w₁ =>
        rw [writeTable, EStateM.run_bind, destination_run] at hrun
        simp only [← hw, EStateM.run_bind, hheader] at hrun
        cases hrun
    | ok u w₁ =>
        exact printable_of_forM hmethod hout (.inl rfl) (hlike.symm.trans hheader)
  have hlen := hwidth names (by simp)
  rw [writeTable_headed hnames] at hrun
  have hrows : ∀ row ∈ rows, ∀ f ∈ row.2, Printable utf8 settings f :=
    printable_of_writeRows (w := headed settings destination_i names.2)
      (by simp [headed, afterRecord]) (Nat.succ_ne_zero _) rfl
      (by show names.2.length ≠ 0; omega)
      (fun row hrow => (hwidth row (by simp [hrow])).trans hlen.symm) hrun
  intro row hrow
  rcases List.mem_cons.mp hrow with rfl | hrow
  · exact hnames
  · exact hrows row hrow

end Writing

section Loggers

variable (r r' : Raising) (utf8 : Utf8Cpp)

theorem endRow_alike :
    Alike (@endRow r) (@endRow r') := by
  unfold endRow
  refine (alike_refl _).bind fun w => (fcet_alike r r' _ _ _).bind fun _ => .ite (alike_refl _) ?_
  dsimp only
  split
  · exact (fcet_alike r r' _ _ _).bind fun _ => alike_refl _
  · exact alike_refl _

theorem quotedField_alike
    (field_i : Bytes) :
    Alike (@quotedField_ utf8 r field_i) (@quotedField_ utf8 r' field_i) := by
  unfold quotedField_
  refine (alike_refl _).bind fun w => (fcet_alike r r' _ _ _).bind fun _ => ?_
  have hprint :
      (∃ printed, @toPrint r w.settings_ field_i = .ok printed ∧
        @toPrint r' w.settings_ field_i = .ok printed) ∨
      ∃ e e', @toPrint r w.settings_ field_i = .error e ∧
        @toPrint r' w.settings_ field_i = .error e' := by
    unfold toPrint
    cases w.settings_.quoting with
    | never =>
        dsimp only
        cases findFirstOf field_i [Byte.cr, Byte.lf, w.settings_.fieldSep] with
        | none => exact .inl ⟨_, rfl, rfl⟩
        | some pos => exact .inr ⟨_, _, rfl, rfl⟩
    | always => exact .inl ⟨_, rfl, rfl⟩
    | needed =>
        dsimp only
        split_ifs
        · exact .inl ⟨_, rfl, rfl⟩
        · exact .inl ⟨_, rfl, rfl⟩
  rcases hprint with ⟨printed, hp, hp'⟩ | ⟨e, e', he, he'⟩
  · rw [hp, hp']
    have hrest (w : CsvWriter) :
        Alike (if w.columns_ ≠ 0 ∧ w.column_ = w.columns_ then @endRow r else pure w.column_)
          (if w.columns_ ≠ 0 ∧ w.column_ = w.columns_ then @endRow r' else pure w.column_) :=
      .ite (endRow_alike r r') (alike_refl _)
    dsimp only
    split_ifs
    · exact (alike_refl _).bind fun _ => (alike_refl _).bind fun _ => (alike_refl _).bind fun _ =>
        (alike_refl _).bind hrest
    · exact (alike_refl _).bind fun _ => (alike_refl _).bind fun _ => (alike_refl _).bind hrest
  · rw [he, he']
    exact alike_throw e e'

theorem writeFields_alike
    (row_i : List Bytes) :
    Alike (@writeFields_ utf8 r row_i) (@writeFields_ utf8 r' row_i) := by
  unfold writeFields_
  refine (alike_refl _).bind fun w => ?_
  have hrest :=
    (Alike.forM (fun fld => (quotedField_alike r r' utf8 fld).discard) row_i).bind
      fun _ => alike_refl (do
        let w ← get
        return if w.column_ ≠ 0 then w.column_ else w.columns_ : Method Nat)
  exact .ite ((fcet_alike r r' _ _ _).bind fun _ => hrest) hrest

theorem checkField_alike :
    Alike (@checkField r) (@checkField r') :=
  (alike_refl _).bind fun _ => (fcet_alike r r' _ _ _).bind fun _ => fcet_alike r r' _ _ _

theorem checkHeader_alike :
    Alike (@checkHeader r) (@checkHeader r') :=
  (alike_refl _).bind fun _ => (fcet_alike r r' _ _ _).bind fun _ => fcet_alike r r' _ _ _

theorem destination_alike
    (destination_i : Option Nat) :
    Alike (@destination r destination_i) (@destination r' destination_i) :=
  (fcet_alike r r' _ _ _).bind fun _ => (alike_refl _).bind fun _ =>
    (fcet_alike r r' _ _ _).bind fun _ => alike_refl _

theorem writeHeader_alike
    (row : RowCalls × List Bytes) :
    Alike (@writeHeader utf8 r row) (@writeHeader utf8 r' row) := by
  unfold writeHeader
  cases row.1 with
  | together =>
      exact ((checkHeader_alike r r').bind fun _ => writeFields_alike r r' utf8 row.2).discard
  | fieldByField =>
      exact .forM (fun name =>
        ((checkHeader_alike r r').bind fun _ => quotedField_alike r r' utf8 name).discard) row.2

theorem writeRow_alike
    (row : RowCalls × List Bytes) :
    Alike (@writeRow utf8 r row) (@writeRow utf8 r' row) := by
  unfold writeRow
  cases row.1 with
  | together =>
      exact ((checkField_alike r r').bind fun _ => writeFields_alike r r' utf8 row.2).discard
  | fieldByField =>
      exact .forM (fun name =>
        ((checkField_alike r r').bind fun _ => quotedField_alike r r' utf8 name).discard) row.2

/-- A table that is written is the same with every logger. -/
theorem writeTable_alike
    (destination_i : Nat) (names : RowCalls × List Bytes)
    (rows : List (RowCalls × List Bytes)) :
    Alike (@writeTable utf8 r destination_i names rows)
      (@writeTable utf8 r' destination_i names rows) :=
  (destination_alike r r' _).bind fun _ => (writeHeader_alike r r' utf8 names).bind fun _ =>
    (endRow_alike r r').discard.bind fun _ => .forM (writeRow_alike r r' utf8) rows

end Loggers

section Unquoted

/-- Tables for a writer without quotes, with nothing said about their size or about
what is in their fields. -/
structure Unquoted
    (settings : CsvSettings) (N : Nat) (table : List (List Bytes)) : Prop where
  separator : Separator settings.fieldSep
  quoting : settings.quoting = .never
  columns_ge : 2 ≤ N
  width : ∀ row ∈ table, row.length = N
  valid : ∀ row ∈ table, ∀ f ∈ row, ∃ cs, f = Utf8.encode cs
  ascii_start : ∀ b ∈ ((table.headD []).headD []).head?, b < 0x80

/-- The field is read back from a line of its own, behind an empty field. -/
def ReadBack (sep : Byte) (f : Bytes) : Prop :=
  ∃ t, readCSV (sep :: (f ++ [Byte.lf])) sep = .ok t ∧ t.Shows 2 [[[], f]]

/-- A table that is written without an exception is read back as it was, and every field
that could not be read back is refused with `std::runtime_error`. -/
def ReadableOrRefused
    (raising : Raising) (utf8 : Utf8Cpp) (settings : CsvSettings) (N destination_i : Nat)
    (names : RowCalls × List Bytes) (rows : List (RowCalls × List Bytes)) : Prop :=
  (∀ w,
    (writeTable utf8 destination_i names rows).run (init settings) = .ok () w →
      ∃ t,
        readCSV w.output settings.fieldSep = .ok t ∧
        t.Shows N ((names :: rows).map Prod.snd)) ∧
  ∀ row ∈ (names :: rows).map Prod.snd, ∀ f ∈ row,
    ¬ ReadBack settings.fieldSep f →
      ∀ w : CsvWriter, w.settings_ = settings →
        ∃ what, (quotedField_ utf8 f).run w = .error ⟨.runtimeError, what⟩ w

variable {settings : CsvSettings} {N : Nat} {table : List (List Bytes)} {f : Bytes}

theorem not_mandatoryQuoting_iff :
    ¬ MandatoryQuoting settings f ↔
      Byte.cr ∉ f ∧ Byte.lf ∉ f ∧ settings.fieldSep ∉ f := by
  simp only [MandatoryQuoting, not_exists, not_and, List.mem_cons, List.not_mem_nil,
    or_false, not_or]
  constructor
  · intro h
    exact ⟨fun hcr => (h _ hcr).1 rfl, fun hlf => (h _ hlf).2.1 rfl,
      fun hsep => (h _ hsep).2.2 rfl⟩
  · rintro ⟨hcr, hlf, hsep⟩ b hb
    exact ⟨fun h => hcr (h ▸ hb), fun h => hlf (h ▸ hb), fun h => hsep (h ▸ hb)⟩

theorem eof_not_mem_of_valid
    (hvalid : ∃ cs, f = Utf8.encode cs) :
    Byte.eof ∉ f := by
  obtain ⟨cs, rfl⟩ := hvalid
  intro heof
  exact absurd (Utf8.toNat_lt_of_mem_encode heof) (by decide)

/-- A table of fields that are not refused is plain. -/
theorem Unquoted.plain
    (h : Unquoted settings N table)
    (hne : table ≠ [])
    (hbare : ∀ row ∈ table, ∀ f ∈ row, ¬ MandatoryQuoting settings f) :
    Plain settings.fieldSep N table where
  columns_ge := h.columns_ge
  rows_ne := hne
  width := h.width
  clean := fun row hrow f hf =>
    ⟨eof_not_mem_of_valid (h.valid row hrow f hf),
      not_mandatoryQuoting_iff.mp (hbare row hrow f hf)⟩
  ascii_start := h.ascii_start

/-- Without quotes every field is written as it is. -/
theorem documentOf_eq_bareDocument
    (hquoting : settings.quoting = .never)
    (table : List (List Bytes)) :
    documentOf settings table = bareDocument (lineEndOf settings) table := by
  have hfield : fieldOf settings = Csv.Field.mk false := by
    funext f
    simp [fieldOf, hquoting]
  have hrecord :
      recordOf settings = fun row => ⟨row.map (Csv.Field.mk false), lineEndOf settings⟩ := by
    funext row
    rw [recordOf, hfield]
  rw [documentOf, hrecord, bareDocument]

/-- A field that is not refused is read back on its own exactly if it does not begin
with a quote. -/
theorem readBack_iff
    (hsep : Separator settings.fieldSep)
    (hvalid : ∃ cs, f = Utf8.encode cs)
    (hbare : ¬ MandatoryQuoting settings f) :
    ReadBack settings.fieldSep f ↔ f.head? ≠ some Byte.quote := by
  have hplain : Plain settings.fieldSep 2 [[[], f]] :=
    { columns_ge := le_rfl
      rows_ne := by simp
      width := by simp
      clean := by
        simpa using ⟨eof_not_mem_of_valid hvalid, not_mandatoryQuoting_iff.mp hbare⟩
      ascii_start := by simp }
  have hshows := hplain.shows_iff hsep .lf
  have htext :
      (bareDocument .lf [[[], f]]).encode settings.fieldSep =
        settings.fieldSep :: (f ++ [Byte.lf]) := by
    simp [bareDocument, Document.encode, Document.mark, Record.encode, joined,
      Field.encode, LineEnd.encode]
  rw [htext] at hshows
  simpa [ReadBack] using hshows

/-- The part of a field in front of the first byte that must be quoted. -/
theorem exists_first_mandatory
    (hbad : MandatoryQuoting settings f) :
    ∃ c b rest, f = c ++ b :: rest ∧ ¬ MandatoryQuoting settings c ∧
      (b = Byte.cr ∨ b = Byte.lf ∨ b = settings.fieldSep) := by
  induction f with
  | nil =>
      obtain ⟨b, hb, -⟩ := hbad
      cases hb
  | cons b f ih =>
      by_cases hb : b ∈ [Byte.cr, Byte.lf, settings.fieldSep]
      · refine ⟨[], b, f, rfl, ?_, by simpa using hb⟩
        rintro ⟨c, hc, -⟩
        cases hc
      · have hrest : MandatoryQuoting settings f := by
          obtain ⟨c, hc, hmem⟩ := hbad
          rcases List.mem_cons.mp hc with rfl | hc
          · exact absurd hmem hb
          · exact ⟨c, hc, hmem⟩
        obtain ⟨c, b', rest, rfl, hclean, hb'⟩ := ih hrest
        refine ⟨b :: c, b', rest, rfl, ?_, hb'⟩
        rintro ⟨x, hx, hmem⟩
        rcases List.mem_cons.mp hx with rfl | hx
        · exact hb hmem
        · exact hclean ⟨x, hx, hmem⟩

/-- The scan behind an empty field and the separator. -/
def afterEmptyField : Scan :=
  { mode := .afterSep, f := [], out := [.field []] }

/-- A field that begins with a quote is at most taken in up to its end. -/
theorem cut_of_quote
    (hne : f ≠ [])
    (hquote : f.head? = some Byte.quote) :
    (Scan.scanFrom settings.fieldSep afterEmptyField f).Cut [.field []] f.length := by
  obtain ⟨b, rest, rfl⟩ := List.exists_cons_of_ne_nil hne
  obtain rfl : b = Byte.quote := Option.some.inj hquote
  have hopen :=
    Scan.step_beginsField settings.fieldSep [.field []] (b := Byte.quote) .afterSep
      (fun h => absurd h.2 (by decide)) (by decide)
  rw [if_pos rfl] at hopen
  rw [afterEmptyField, Scan.scanFrom_cons, hopen, List.length_cons, Nat.add_comm]
  exact Scan.scanFrom_counted (P := fun k σ => σ.Cut [.field []] k)
    (fun _ _ _ _ h => Scan.cut_step h) (.inr ⟨rfl, Nat.zero_lt_one, trivial⟩)

/-- Any other field that calls for quotes is cut at the first byte that does. -/
theorem cut_of_bare
    (hsep : Separator settings.fieldSep)
    (hvalid : ∃ cs, f = Utf8.encode cs)
    (hbad : MandatoryQuoting settings f)
    (hquote : f.head? ≠ some Byte.quote) :
    (Scan.scanFrom settings.fieldSep afterEmptyField f).Cut [.field []] f.length := by
  obtain ⟨c, b, rest, hsplit, hclean, hb⟩ := exists_first_mandatory hbad
  have hhead : c.head? ≠ some Byte.quote := by
    cases c with
    | nil => simp
    | cons y c =>
        rw [hsplit] at hquote
        exact hquote
  obtain ⟨hcr, hlf, hsepc⟩ := not_mandatoryQuoting_iff.mp hclean
  have heof : Byte.eof ∉ c := by
    have hall := eof_not_mem_of_valid hvalid
    rw [hsplit] at hall
    exact fun h => hall (List.mem_append_left _ h)
  have hwell : Field.WellFormed settings.fieldSep ⟨false, c⟩ :=
    ⟨heof, fun _ => ⟨hcr, hlf, hsepc, hhead⟩⟩
  have hfield :
      Scan.scanFrom settings.fieldSep afterEmptyField (Field.encode ⟨false, c⟩) =
        { mode := Scan.fieldEnd .afterSep ⟨false, c⟩, f := c, out := [.field []] } :=
    Scan.scan_field .afterSep hwell (fun h => by cases h)
  obtain ⟨token, htoken, hout⟩ := Scan.step_ends_bare hsep [.field []] c hb
  refine .inl ⟨token, ?_, fun d hd => ?_⟩
  · rw [hsplit, Scan.scanFrom_append, Scan.scanFrom_cons]
    change _ <+: (Scan.scanFrom settings.fieldSep
      (Scan.step settings.fieldSep (Scan.scanFrom settings.fieldSep _
        (Field.encode ⟨false, c⟩)) b) rest).out
    rw [hfield, ← hout]
    exact Scan.out_prefix_scanFrom _ _ _
  · obtain rfl := Option.some.inj (htoken.symm.trans hd)
    rw [hsplit, List.length_append, List.length_cons]
    omega

/-- A field that calls for quotes is not read back without them. -/
theorem not_readBack_of_mandatory
    (hsep : Separator settings.fieldSep)
    (hvalid : ∃ cs, f = Utf8.encode cs)
    (hbad : MandatoryQuoting settings f) :
    ¬ ReadBack settings.fieldSep f := by
  rintro ⟨t, hread, hshows⟩
  have hne : f ≠ [] := by
    rintro rfl
    obtain ⟨b, hb, -⟩ := hbad
    cases hb
  have hstart :
      Scan.step settings.fieldSep Scan.init settings.fieldSep = afterEmptyField :=
    Scan.step_separator hsep (.start true) ⟨false, []⟩
  have hcut : (Scan.scanFrom settings.fieldSep afterEmptyField f).Cut [.field []] f.length := by
    by_cases hquote : f.head? = some Byte.quote
    · exact cut_of_quote hne hquote
    · exact cut_of_bare hsep hvalid hbad hquote
  have hclosed := @Scan.Cut.closed settings.fieldSep _ _ _ hcut
  have hscan :
      scan settings.fieldSep (settings.fieldSep :: (f ++ [Byte.lf])) =
        Scan.step settings.fieldSep (Scan.scanFrom settings.fieldSep afterEmptyField f)
          Byte.lf := by
    rw [scan, Scan.scanFrom_cons, hstart, Scan.scanFrom_append]
    rfl
  rw [← hscan] at hclosed
  have hbefore : Layout.ofTokens [.field []] = Layout.ofRecords [] [[]] := rfl
  have hwidth : ∀ row ∈ [] ++ ([[]] ++ f :: []) :: [], row.length = 2 := by simp
  exact Scan.not_shows_of_closed hclosed hne hbefore hwidth (readCSV_eq_ok_iff.mp hread) hshows

/-- What a table with the fields that are written is read back as. -/
theorem written_readable
    [Raising] {utf8 : Utf8Cpp} {names : RowCalls × List Bytes}
    {rows : List (RowCalls × List Bytes)}
    (h : Unquoted settings N ((names :: rows).map Prod.snd))
    (hhead : ∀ row ∈ (names :: rows).map Prod.snd, ∀ f ∈ row,
      f.head? = some Byte.quote → MandatoryQuoting settings f)
    (hsize : (∃ row ∈ (names :: rows).map Prod.snd, ∃ f ∈ row, MandatoryQuoting settings f) ∨
      (N ≤ 65534 ∧ (names :: rows).length * N < 2 ^ 32))
    {destination_i : Nat} {w : CsvWriter}
    (hrun : (writeTable utf8 destination_i names rows).run (init settings) = .ok () w) :
    ∃ t,
      readCSV w.output settings.fieldSep = .ok t ∧
      t.Shows N ((names :: rows).map Prod.snd) := by
  have hpos : 1 ≤ N := Nat.le_of_succ_le h.columns_ge
  have hwidth : ∀ row ∈ names :: rows, row.2.length = N :=
    fun row hrow => h.width row.2 (List.mem_map_of_mem hrow)
  have hne : (names :: rows).map Prod.snd ≠ [] := by simp
  -- A table that is written is written with every logger.
  rw [(writeTable_alike _ Raising.declared utf8 destination_i names rows).run_eq_ok_iff] at hrun
  have hprint := printable_of_writeTable hpos hwidth hrun
  have hbare : ∀ row ∈ (names :: rows).map Prod.snd, ∀ f ∈ row,
      ¬ MandatoryQuoting settings f := by
    intro row hrow f hf
    obtain ⟨calls, hcalls, rfl⟩ := List.mem_map.mp hrow
    exact (hprint calls hcalls f hf).2 h.quoting
  have hlimits : N ≤ 65534 ∧ (names :: rows).length * N < 2 ^ 32 :=
    hsize.resolve_left fun ⟨row, hrow, f, hf, hbad⟩ => hbare row hrow f hf hbad
  obtain ⟨w', hrun', houtput⟩ := writeTable_run hpos hwidth hprint destination_i
  obtain rfl : w = w' := by
    rw [hrun] at hrun'
    exact (EStateM.Result.ok.inj hrun').2
  rw [houtput, documentOf_eq_bareDocument h.quoting]
  refine ((h.plain hne hbare).shows_iff h.separator _).mpr ⟨?_, ?_⟩
  · exact fun row hrow f hf hquote => hbare row hrow f hf (hhead row hrow f hf hquote)
  · simpa using hlimits

/-- A table without a field to refuse is only read back within the limits of the reader. -/
theorem limits_of_readable
    [Raising] {utf8 : Utf8Cpp} {names : RowCalls × List Bytes}
    {rows : List (RowCalls × List Bytes)}
    (h : Unquoted settings N ((names :: rows).map Prod.snd))
    {destination_i : Nat}
    (hread : ∀ w,
      (writeTable utf8 destination_i names rows).run (init settings) = .ok () w →
        ∃ t,
          readCSV w.output settings.fieldSep = .ok t ∧
          t.Shows N ((names :: rows).map Prod.snd))
    (hbare : ∀ row ∈ (names :: rows).map Prod.snd, ∀ f ∈ row, ¬ MandatoryQuoting settings f) :
    N ≤ 65534 ∧ (names :: rows).length * N < 2 ^ 32 := by
  have hpos : 1 ≤ N := Nat.le_of_succ_le h.columns_ge
  have hwidth : ∀ row ∈ names :: rows, row.2.length = N :=
    fun row hrow => h.width row.2 (List.mem_map_of_mem hrow)
  have hprint : ∀ row ∈ names :: rows, ∀ f ∈ row.2, Printable utf8 settings f :=
    fun row hrow f hf =>
      ⟨(utf8.is_valid_iff f).mpr (h.valid row.2 (List.mem_map_of_mem hrow) f hf),
        fun _ => hbare row.2 (List.mem_map_of_mem hrow) f hf⟩
  obtain ⟨w, hrun, houtput⟩ := writeTable_run hpos hwidth hprint destination_i
  have hback := hread w
    (((writeTable_alike _ Raising.declared utf8 destination_i names rows).run_eq_ok_iff
      (init settings) () w).mpr hrun)
  rw [houtput, documentOf_eq_bareDocument h.quoting] at hback
  have hshows := ((h.plain (by simp) hbare).shows_iff h.separator _).mp hback
  simpa using hshows.2

theorem readableOrRefused_iff
    [raising : Raising] {setUp : Prop}
    (hdeclares : Raising.DeclaresIf .runtimeError setUp)
    (utf8 : Utf8Cpp) {names : RowCalls × List Bytes}
    {rows : List (RowCalls × List Bytes)}
    (h : Unquoted settings N ((names :: rows).map Prod.snd))
    (destination_i : Nat) :
    ReadableOrRefused raising utf8 settings N destination_i names rows ↔
      (∀ row ∈ (names :: rows).map Prod.snd, ∀ f ∈ row,
        f.head? = some Byte.quote → MandatoryQuoting settings f) ∧
      ((∃ row ∈ (names :: rows).map Prod.snd, ∃ f ∈ row, MandatoryQuoting settings f) ∧ setUp ∨
        (∀ row ∈ (names :: rows).map Prod.snd, ∀ f ∈ row, ¬ MandatoryQuoting settings f) ∧
          N ≤ 65534 ∧ (names :: rows).length * N < 2 ^ 32) := by
  have hvalid {row : List Bytes} (hrow : row ∈ (names :: rows).map Prod.snd)
      {f : Bytes} (hf : f ∈ row) : utf8.is_valid f = true :=
    (utf8.is_valid_iff f).mpr (h.valid row hrow f hf)
  constructor
  · rintro ⟨hread, hrefused⟩
    refine ⟨fun row hrow f hf hquote => ?_, ?_⟩
    · by_contra hbare
      have hlost : ¬ ReadBack settings.fieldSep f := fun hback =>
        (readBack_iff h.separator (h.valid row hrow f hf) hbare).mp hback hquote
      obtain ⟨what, hrun⟩ := hrefused row hrow f hf hlost (init settings) rfl
      have hprint : Printable utf8 (init settings).settings_ f :=
        ⟨hvalid hrow hf, fun _ => hbare⟩
      have hwritten := ((quotedField_alike raising .declared utf8 f).run_eq_ok_iff _ _ _).mpr
        (quotedField_run hprint (.inl rfl))
      cases hwritten.symm.trans hrun
    · by_cases hsome :
        ∃ row ∈ (names :: rows).map Prod.snd, ∃ f ∈ row, MandatoryQuoting settings f
      · obtain ⟨row, hrow, f, hf, hbad⟩ := hsome
        refine .inl ⟨⟨row, hrow, f, hf, hbad⟩, ?_⟩
        have hlost := not_readBack_of_mandatory h.separator (h.valid row hrow f hf) hbad
        obtain ⟨what, hrun⟩ := hrefused row hrow f hf hlost (init settings) rfl
        obtain ⟨message, hraised⟩ :=
          quotedField_raises (w := init settings) (hvalid hrow hf) h.quoting hbad
        have hexc := EStateM.Result.error.inj (hraised.symm.trans hrun)
        exact (hdeclares.iff message).mp ⟨what, hexc.1⟩
      · push Not at hsome
        exact .inr ⟨hsome, limits_of_readable h hread hsome⟩
  · rintro ⟨hhead, hgood⟩
    refine ⟨fun w hrun => written_readable h hhead (hgood.imp And.left And.right) hrun, ?_⟩
    intro row hrow f hf hlost w hw
    subst hw
    by_cases hbad : MandatoryQuoting w.settings_ f
    · have hsetUp : setUp := by
        rcases hgood with ⟨-, hsetUp⟩ | ⟨hbare, -⟩
        · exact hsetUp
        · exact absurd hbad (hbare row hrow f hf)
      obtain ⟨message, hrun⟩ := quotedField_raises (hvalid hrow hf) h.quoting hbad
      obtain ⟨what, hraised⟩ := (hdeclares.iff message).mpr hsetUp
      exact ⟨what, by rw [hrun, hraised]⟩
    · refine absurd ?_ hlost
      refine (readBack_iff h.separator (h.valid row hrow f hf) hbad).mpr ?_
      exact fun hquote => hbad (hhead row hrow f hf hquote)

/-- **What is written without quotes can be read back, and what cannot be read back is
refused**, exactly when every field that begins with a double quote is refused for another
byte, and either a field is refused and the logger is set up, or none is refused and the
table is within the limits of the reader. -/
theorem readable_or_refused_iff
    (calls : List Logger.ConfigCall) (now : Now) (here : Site)
    (utf8 : Utf8Cpp) {names : RowCalls × List Bytes}
    {rows : List (RowCalls × List Bytes)}
    (h : Unquoted settings N ((names :: rows).map Prod.snd))
    (destination_i : Nat) :
    ReadableOrRefused (.ofLogger (Logger.configured calls) now here) utf8 settings N
        destination_i names rows ↔
      (∀ row ∈ (names :: rows).map Prod.snd, ∀ f ∈ row,
        f.head? = some Byte.quote → MandatoryQuoting settings f) ∧
      ((∃ row ∈ (names :: rows).map Prod.snd, ∃ f ∈ row, MandatoryQuoting settings f) ∧
          (Logger.configured calls).SetUp here ∨
        (∀ row ∈ (names :: rows).map Prod.snd, ∀ f ∈ row, ¬ MandatoryQuoting settings f) ∧
          N ≤ 65534 ∧ (names :: rows).length * N < 2 ^ 32) :=
  @readableOrRefused_iff _ _ (.ofLogger (Logger.configured calls) now here) _
    (Logger.raised_kind_iff (by decide)) utf8 _ _ h destination_i

/-- The check of `quotedField_` without quoting. -/
def neverSite : Site where
  file := ⟨literal "src/CsvWriter.cpp", by decide⟩
  line := 132

/-- A header and one row; a quote behind the start of a field does no harm, whatever the
logger. -/
theorem readable_or_refused_iff_example :
    ReadableOrRefused (.ofLogger (Logger.configured []) Logger.checkNow neverSite) leanUtf8
        (plainSettings true) 2 1
        (.together, [[0x61], []]) [(.fieldByField, [[0x62, 0x22], [0x63]])] ↔
      (∀ row ∈ [[[0x61], []], [[0x62, 0x22], [0x63]]], ∀ f ∈ row,
        f.head? = some Byte.quote → MandatoryQuoting (plainSettings true) f) ∧
      ((∃ row ∈ [[[0x61], []], [[0x62, 0x22], [0x63]]], ∃ f ∈ row,
          MandatoryQuoting (plainSettings true) f) ∧
            (Logger.configured []).SetUp neverSite ∨
        (∀ row ∈ [[[0x61], []], [[0x62, 0x22], [0x63]]], ∀ f ∈ row,
          ¬ MandatoryQuoting (plainSettings true) f) ∧
            2 ≤ 65534 ∧ 2 * 2 < 2 ^ 32) :=
  readable_or_refused_iff [] Logger.checkNow neverSite leanUtf8
    { separator := by decide
      quoting := rfl
      columns_ge := le_rfl
      width := by decide
      valid := fun row hrow f hf => Utf8.exists_encode_of_ascii <| by
        intro b hb
        fin_cases hrow <;> fin_cases hf <;> fin_cases hb <;> decide
      ascii_start := by
        intro b hb
        obtain rfl := Option.some.inj hb
        decide } 1

/-- The field `"x"` is written as it is and read back as `x`. -/
theorem bare_quote_is_lost :
    Unquoted (plainSettings true) 2 [[[0x61], [0x62]], [[0x22, 0x78, 0x22], [0x79]]] ∧
      ¬ ReadableOrRefused (.ofLogger (Logger.configured [.stderror 0]) Logger.checkNow neverSite)
        leanUtf8 (plainSettings true) 2 1 (.together, [[0x61], [0x62]])
        [(.together, [[0x22, 0x78, 0x22], [0x79]])] := by
  refine ⟨⟨by decide, rfl, le_rfl, by decide, ?_, ?_⟩, ?_⟩
  · intro row hrow f hf
    refine Utf8.exists_encode_of_ascii fun b hb => ?_
    fin_cases hrow <;> fin_cases hf <;> fin_cases hb <;> decide
  · intro b hb
    obtain rfl := Option.some.inj hb
    decide
  · rintro ⟨hread, -⟩
    obtain ⟨t, htable, hshows⟩ := hread _ rfl
    have hanswer :
        (scan 0x3B [0x61, 0x3B, 0x62, 0x0A, 0x22, 0x78, 0x22, 0x3B, 0x79, 0x0A]).answer =
          .ok { cols_ := 2, data_ := [[0x61], [0x62], [0x78], [0x79]] } := by
      decide
    rw [readCSV_eq_ok_iff] at htable
    obtain rfl := Except.ok.inj (hanswer.symm.trans htable)
    have hcell := hshows.cell 0 1 [0x22, 0x78, 0x22] rfl
    cases hcell

end Unquoted

end CsvWriter

end Bren
end Brenlib
