import Brenlib.Bren.CsvScanner

/-!
# CSV documents and their text

A `Document` is a list of records together with everything a writer may choose:
a byte order mark, the encoding of every field and the line end of every record.
`Document.encode` is its text, `Document.encodeOpen` the same text without the
last line end.

**Results.**  The scan of the text of a well-formed document
* `scan_encode`: reports exactly the fields of the document, record by record;
* `scan_encodeOpen`: reports the records before the last one, and is then behind
  the last field of the document, in a mode that only depends on how that field
  is encoded.
-/

namespace Brenlib
namespace Bren
namespace Csv

/-- A field and the choice of its encoding. -/
structure Field where
  quoted : Bool
  content : Bytes
deriving DecidableEq, Repr

/-- The content with every double quote doubled. -/
def doubled (content : Bytes) : Bytes :=
  content.flatMap fun b =>
    if b = Byte.quote then [Byte.quote, Byte.quote] else [b]

def Field.encode (fd : Field) : Bytes :=
  if fd.quoted then Byte.quote :: (doubled fd.content ++ [Byte.quote])
  else fd.content

/-- The encoding can be told apart from what surrounds the field. -/
structure Field.WellFormed (sep : Byte) (fd : Field) : Prop where
  without_eof : Byte.eof ∉ fd.content
  bare :
    fd.quoted = false →
      Byte.cr ∉ fd.content ∧ Byte.lf ∉ fd.content ∧ sep ∉ fd.content ∧
        fd.content.head? ≠ some Byte.quote

instance (sep : Byte) (fd : Field) : Decidable (fd.WellFormed sep) :=
  decidable_of_iff
    (Byte.eof ∉ fd.content ∧
      (fd.quoted = false →
        Byte.cr ∉ fd.content ∧ Byte.lf ∉ fd.content ∧ sep ∉ fd.content ∧
          fd.content.head? ≠ some Byte.quote))
    ⟨fun ⟨heof, hbare⟩ => ⟨heof, hbare⟩, fun h => ⟨h.without_eof, h.bare⟩⟩

inductive LineEnd where
  | lf
  | cr
  | crlf
deriving DecidableEq, Repr

def LineEnd.encode : LineEnd → Bytes
  | .lf => [Byte.lf]
  | .cr => [Byte.cr]
  | .crlf => [Byte.cr, Byte.lf]

structure Record where
  fields : List Field
  lineEnd : LineEnd
deriving DecidableEq, Repr

/-- The fields joined by the separator. -/
def joined (sep : Byte) : List Field → Bytes
  | [] => []
  | [fd] => fd.encode
  | fd :: fds => fd.encode ++ sep :: joined sep fds

def Record.encode (sep : Byte) (r : Record) : Bytes :=
  joined sep r.fields ++ r.lineEnd.encode

/-- What a reader should find in the record. -/
def Record.contents (r : Record) : List Bytes :=
  r.fields.map Field.content

structure Document where
  bom : Bool
  records : List Record
deriving DecidableEq, Repr

/-- The byte order mark U+FEFF in UTF-8. -/
def byteOrderMark : Bytes := [0xEF, 0xBB, 0xBF]

namespace Document

def mark (d : Document) : Bytes :=
  if d.bom then byteOrderMark else []

def encode (sep : Byte) (d : Document) : Bytes :=
  d.mark ++ d.records.flatMap (Record.encode sep)

/-- The text without the line end of the last record. -/
def encodeOpen (sep : Byte) (d : Document) : Bytes :=
  d.mark ++ (d.records.dropLast.flatMap (Record.encode sep) ++
    joined sep (d.records.getLast?.elim [] Record.fields))

/-- What a reader should find in the document. -/
def contents (d : Document) : List (List Bytes) :=
  d.records.map Record.contents

/-- Records of `N` fields each, none of them the empty string, within the limits
of a table. -/
structure WellFormed (sep : Byte) (N : Nat) (d : Document) : Prop where
  columns_pos : 1 ≤ N
  columns_le : N ≤ 65534
  records_ne : d.records ≠ []
  cells_lt : d.records.length * N < 2 ^ 32
  width : ∀ r ∈ d.records, r.fields.length = N
  not_empty : ∀ r ∈ d.records, joined sep r.fields ≠ []
  fields : ∀ r ∈ d.records, ∀ fd ∈ r.fields, fd.WellFormed sep

instance (sep : Byte) (N : Nat) (d : Document) : Decidable (d.WellFormed sep N) :=
  decidable_of_iff
    (1 ≤ N ∧ N ≤ 65534 ∧ d.records ≠ [] ∧ d.records.length * N < 2 ^ 32 ∧
      (∀ r ∈ d.records, r.fields.length = N) ∧
      (∀ r ∈ d.records, joined sep r.fields ≠ []) ∧
      ∀ r ∈ d.records, ∀ fd ∈ r.fields, fd.WellFormed sep)
    ⟨fun ⟨h₁, h₂, h₃, h₄, h₅, h₆, h₇⟩ => ⟨h₁, h₂, h₃, h₄, h₅, h₆, h₇⟩,
      fun h => ⟨h.columns_pos, h.columns_le, h.records_ne, h.cells_lt, h.width,
        h.not_empty, h.fields⟩⟩

/-- Content of the first field of the header. -/
def firstContent (d : Document) : Bytes :=
  (d.contents.headD []).headD []

/-- The content of the first header field does not start with a byte of the upper
half. -/
def AsciiStart (d : Document) : Prop :=
  ∀ b ∈ d.firstContent.head?, b < 0x80

instance (d : Document) : Decidable d.AsciiStart :=
  Option.decidableForallMem d.firstContent.head?

end Document

/-- An ASCII separator other than double quote, CR and LF. -/
structure Separator (sep : Byte) : Prop where
  ascii : sep < 0x80
  ne_quote : sep ≠ Byte.quote
  ne_cr : sep ≠ Byte.cr
  ne_lf : sep ≠ Byte.lf

instance (sep : Byte) : Decidable (Separator sep) :=
  decidable_of_iff
    (sep < 0x80 ∧ sep ≠ Byte.quote ∧ sep ≠ Byte.cr ∧ sep ≠ Byte.lf)
    ⟨fun ⟨h₁, h₂, h₃, h₄⟩ => ⟨h₁, h₂, h₃, h₄⟩,
      fun h => ⟨h.ascii, h.ne_quote, h.ne_cr, h.ne_lf⟩⟩

theorem Separator.ne_eof
    {sep : Byte} (h : Separator sep) :
    sep ≠ Byte.eof := by
  rintro rfl
  exact absurd h.ascii (by decide)

theorem not_endsRecord
    {b : Byte}
    (hcr : ¬ Byte.cr = b) (hlf : ¬ Byte.lf = b) (heof : ¬ Byte.eof = b) :
    ¬ Scan.endsRecord b := by
  rintro (h | h | h)
  · exact hcr h.symm
  · exact hlf h.symm
  · exact heof h.symm

theorem Separator.not_endsRecord
    {sep : Byte} (h : Separator sep) :
    ¬ Scan.endsRecord sep :=
  Csv.not_endsRecord h.ne_cr.symm h.ne_lf.symm h.ne_eof.symm

theorem not_skipped_of_ascii
    {b : Byte} (h : b < 0x80) :
    ¬ Scan.skipped b := by
  rintro ⟨-, hhigh⟩
  rw [Byte.isHigh_iff] at hhigh
  exact absurd h (UInt8.not_lt.mpr hhigh)

@[simp] theorem joined_cons_cons
    (sep : Byte) (fd fd' : Field) (fds : List Field) :
    joined sep (fd :: fd' :: fds) =
      fd.encode ++ sep :: joined sep (fd' :: fds) := rfl

@[simp] theorem doubled_nil :
    doubled [] = [] := rfl

theorem doubled_cons
    (b : Byte) (content : Bytes) :
    doubled (b :: content) =
      (if b = Byte.quote then [Byte.quote, Byte.quote] else [b]) ++
        doubled content := rfl

namespace Scan

/-- The modes in which a field begins, `first` for the first one of the text. -/
inductive BeginsField : Bool → Mode → Prop where
  | start (first : Bool) : BeginsField first (.start first)
  | afterSep : BeginsField false .afterSep

/-- The mode behind the encoding of a field. -/
def fieldEnd (m : Mode) (fd : Field) : Mode :=
  if fd.quoted then .quoteSeen
  else if fd.content = [] then m
  else .bare

section Field

variable {sep : Byte} {f content : Bytes} {out : List Token}

theorem scan_bare
    (hcr : Byte.cr ∉ content) (hlf : Byte.lf ∉ content)
    (heof : Byte.eof ∉ content) (hsep : sep ∉ content) :
    scanFrom sep { mode := .bare, f := f, out := out } content =
      { mode := .bare, f := f ++ content, out := out } := by
  induction content generalizing f with
  | nil =>
      simp
  | cons b content ih =>
      simp only [List.mem_cons, not_or] at hcr hlf heof hsep
      have hend := not_endsRecord hcr.1 hlf.1 heof.1
      have hstep :
          step sep { mode := .bare, f := f, out := out } b =
            { mode := .bare, f := f ++ [b], out := out } := by
        simp [step, inField, hend, push, Ne.symm hsep.1]
      rw [scanFrom_cons, hstep, ih hcr.2 hlf.2 heof.2 hsep.2]
      simp

theorem scan_doubled
    (sep : Byte) (f : Bytes) (out : List Token)
    (heof : Byte.eof ∉ content) (cr : Bool) :
    ∃ cr',
      scanFrom sep { mode := .quoted false cr, f := f, out := out }
          (doubled content) =
        { mode := .quoted false cr', f := f ++ content, out := out } := by
  induction content generalizing f cr with
  | nil =>
      exact ⟨cr, by simp⟩
  | cons b content ih =>
      simp only [List.mem_cons, not_or] at heof
      rw [doubled_cons]
      by_cases hquote : b = Byte.quote
      · obtain ⟨cr', hscan⟩ := ih (f ++ [Byte.quote]) heof.2 false
        refine ⟨cr', ?_⟩
        simp [hquote, step, inQuotes, afterQuote, hscan]
      · obtain ⟨cr', hscan⟩ := ih (f ++ [b]) heof.2 (b = Byte.cr)
        refine ⟨cr', ?_⟩
        simp [hquote, step, inQuotes, Ne.symm heof.1, hscan]

/-- A whole quoted field, behind its opening quote. -/
theorem scan_quoted
    {fresh : Bool}
    (heof : Byte.eof ∉ content)
    (hfresh : fresh = true → ∀ b ∈ content.head?, ¬ skipped b) :
    scanFrom sep { mode := .quoted fresh false, f := [], out := out }
        (doubled content ++ [Byte.quote]) =
      { mode := .quoteSeen, f := content, out := out } := by
  have hquoteSkipped : ¬ skipped Byte.quote := by decide
  rw [scanFrom_append]
  cases content with
  | nil =>
      simp [step, inQuotes, hquoteSkipped]
  | cons b content =>
      simp only [List.mem_cons, not_or] at heof
      have hskip : ¬ (fresh = true ∧ skipped b) := fun h =>
        hfresh h.1 b (by simp) h.2
      rw [doubled_cons]
      by_cases hquote : b = Byte.quote
      · obtain ⟨cr', hscan⟩ :=
          scan_doubled sep [Byte.quote] out heof.2 false
        simp [hquote, step, inQuotes, hquoteSkipped, afterQuote, hscan]
      · obtain ⟨cr', hscan⟩ :=
          scan_doubled sep [b] out heof.2 (b = Byte.cr)
        simp [hquote, step, inQuotes, hskip, Ne.symm heof.1, hscan]

variable {first : Bool} {m : Mode} {fd : Field}

/-- The first byte of a field that is neither skipped nor a line end. -/
theorem step_beginsField
    (sep : Byte) (out : List Token)
    (hm : BeginsField first m)
    {b : Byte}
    (hskip : ¬ (first = true ∧ skipped b))
    (hend : ¬ endsRecord b) :
    step sep { mode := m, f := [], out := out } b =
      if b = Byte.quote then
        { mode := .quoted first false, f := [], out := out }
      else if b = sep then
        { mode := .afterSep, f := [], out := out ++ [.field []] }
      else { mode := .bare, f := [b], out := out } := by
  cases hm with
  | start =>
      simp [step, atStart, hskip, hend, openQuote, closeField, push]
  | afterSep =>
      simp [step, atField, hend, openQuote, closeField, push]

theorem scan_field
    (hm : BeginsField first m)
    (hfd : fd.WellFormed sep)
    (hfirst : first = true → ∀ b ∈ fd.content.head?, ¬ skipped b) :
    scanFrom sep { mode := m, f := [], out := out } fd.encode =
      { mode := fieldEnd m fd, f := fd.content, out := out } := by
  obtain ⟨quoted, content⟩ := fd
  have heof : Byte.eof ∉ content := hfd.without_eof
  cases quoted with
  | true =>
      have hopen :=
        step_beginsField sep out (b := Byte.quote) hm
          (fun h => absurd h.2 (by decide)) (by decide)
      rw [if_pos rfl] at hopen
      simp only [Field.encode, if_true, scanFrom_cons, hopen]
      exact scan_quoted heof hfirst
  | false =>
      obtain ⟨hcr, hlf, hsep, hhead⟩ := hfd.bare rfl
      simp only [Field.encode, fieldEnd, Bool.false_eq_true, if_false]
      cases content with
      | nil =>
          simp
      | cons b content =>
          simp only [List.mem_cons, not_or] at hcr hlf hsep heof
          have hend := not_endsRecord hcr.1 hlf.1 heof.1
          have hquote : ¬ b = Byte.quote := by simpa using hhead
          have hbegin :=
            step_beginsField sep out hm
              (fun h => hfirst h.1 b (by simp) h.2) hend
          rw [if_neg hquote, if_neg (Ne.symm hsep.1)] at hbegin
          rw [scanFrom_cons, hbegin,
            scan_bare hcr.2 hlf.2 heof.2 hsep.2]
          simp

/-- The separator behind a field. -/
theorem step_separator
    (hsep : Separator sep)
    (hm : BeginsField first m)
    (fd : Field) :
    step sep { mode := fieldEnd m fd, f := fd.content, out := out } sep =
      { mode := .afterSep, f := [], out := out ++ [.field fd.content] } := by
  have hend := hsep.not_endsRecord
  have hquote := hsep.ne_quote
  have hskip : ¬ skipped sep := not_skipped_of_ascii hsep.ascii
  unfold fieldEnd
  split_ifs with hq hnil
  · simp [step, afterQuote, inField, hquote, hend, closeField]
  · rw [hnil, step_beginsField _ _ hm (fun h => hskip h.2) hend]
    simp [hquote]
  · simp [step, inField, hquote, hend, closeField]

end Field

section Record

variable {sep : Byte} {out : List Token} {first : Bool} {m : Mode}

/-- The mode behind the fields of a record. -/
def fieldsEnd (m : Mode) : List Field → Mode
  | [] => m
  | [fd] => fieldEnd m fd
  | _ :: fds => fieldsEnd .afterSep fds

@[simp] theorem fieldsEnd_cons_cons
    (m : Mode) (fd fd' : Field) (fds : List Field) :
    fieldsEnd m (fd :: fd' :: fds) = fieldsEnd .afterSep (fd' :: fds) := rfl

/-- The modes in which a line end ends a record that is not empty. -/
def InRecord (m : Mode) : Prop :=
  m = .afterSep ∨ m = .bare ∨ m = .quoteSeen

theorem fieldsEnd_afterSep
    (fds : List Field) :
    InRecord (fieldsEnd .afterSep fds) := by
  induction fds with
  | nil =>
      exact .inl rfl
  | cons fd fds ih =>
      cases fds with
      | nil =>
          simp only [fieldsEnd, fieldEnd]
          split_ifs <;> simp [InRecord]
      | cons fd' fds =>
          exact ih

/-- A record that is not the empty string is not left in the mode it began in. -/
theorem inRecord_fieldsEnd
    {fds : List Field}
    (h : joined sep fds ≠ []) :
    InRecord (fieldsEnd m fds) := by
  cases fds with
  | nil =>
      exact absurd rfl h
  | cons fd fds =>
      cases fds with
      | nil =>
          simp only [joined, Field.encode] at h
          simp only [fieldsEnd, fieldEnd]
          split_ifs with hq hnil
          · exact .inr (.inr rfl)
          · simp [hq, hnil] at h
          · exact .inr (.inl rfl)
      | cons fd' fds =>
          exact fieldsEnd_afterSep (fd' :: fds)

/-- Only the encoding of the last field decides whether the scan is behind a
closing quote. -/
theorem fieldsEnd_eq_quoteSeen
    {fds : List Field}
    (hm : BeginsField first m) :
    fieldsEnd m fds = .quoteSeen ↔
      ∃ fd ∈ fds.getLast?, fd.quoted = true := by
  have hne : m ≠ .quoteSeen := by
    cases hm <;> simp
  induction fds generalizing m first with
  | nil =>
      simpa [fieldsEnd] using hne
  | cons fd fds ih =>
      cases fds with
      | nil =>
          simp only [fieldsEnd, fieldEnd]
          split_ifs with hq hnil <;> simp [hq, hne]
      | cons fd' fds =>
          rw [fieldsEnd_cons_cons, List.getLast?_cons_cons]
          exact ih .afterSep (by simp)

/-- The tokens of the fields before the last one. -/
def fieldTokens (contents : List Bytes) : List Token :=
  contents.dropLast.map .field

/-- The tokens of a record. -/
def recordTokens (contents : List Bytes) : List Token :=
  fieldTokens contents ++ [.record (contents.getLastD [])]

theorem scan_joined
    (hsep : Separator sep)
    (hm : BeginsField first m)
    {fds : List Field}
    (hne : fds ≠ [])
    (hfds : ∀ fd ∈ fds, fd.WellFormed sep)
    (hfirst :
      first = true →
        ∀ fd ∈ fds.head?, ∀ b ∈ fd.content.head?, ¬ skipped b) :
    scanFrom sep { mode := m, f := [], out := out } (joined sep fds) =
      { mode := fieldsEnd m fds
        f := (fds.map Field.content).getLastD []
        out := out ++ fieldTokens (fds.map Field.content) } := by
  induction fds generalizing m first out with
  | nil =>
      exact absurd rfl hne
  | cons fd fds ih =>
      have hfd := hfds fd (by simp)
      have hhead := fun h => hfirst h fd (by simp)
      cases fds with
      | nil =>
          simp [joined, scan_field hm hfd hhead, fieldsEnd, fieldTokens]
      | cons fd' fds =>
          rw [joined_cons_cons, scanFrom_append, scan_field hm hfd hhead, scanFrom_cons,
            step_separator hsep hm fd,
            ih .afterSep (by simp) (fun g hg => hfds g (by simp [hg]))
              (fun h => by cases h)]
          simp [fieldTokens]

/-- The mode behind a line end. -/
def afterLineEnd : LineEnd → Mode
  | .cr => .afterCr
  | .lf | .crlf => .start false

theorem scan_lineEnd
    (hm : InRecord m) (f : Bytes) (e : LineEnd) :
    scanFrom sep { mode := m, f := f, out := out } e.encode =
      { mode := afterLineEnd e, f := [], out := out ++ [.record f] } := by
  have hclose (b : Byte) (hb : b = Byte.cr ∨ b = Byte.lf) :
      step sep { mode := m, f := f, out := out } b =
        closeRecord { mode := m, f := f, out := out } b := by
    have hend : endsRecord b := by
      rcases hb with h | h
      · exact .inl h
      · exact .inr (.inl h)
    have hquote : ¬ b = Byte.quote := by
      rcases hb with h | h <;> rw [h] <;> decide
    rcases hm with rfl | rfl | rfl <;>
      simp [step, atField, inField, afterQuote, hend, hquote]
  have hlf : ¬ Byte.lf = Byte.cr := by decide
  cases e with
  | lf =>
      simp [LineEnd.encode, hclose, closeRecord, afterLineEnd, hlf]
  | cr =>
      simp [LineEnd.encode, hclose, closeRecord, afterLineEnd]
  | crlf =>
      rw [LineEnd.encode, scanFrom_cons, hclose _ (.inl rfl)]
      simp [closeRecord, afterLineEnd, step]

/-- Where a record that is not the first one of the text may begin. -/
def BeginsRecord (first : Bool) (m : Mode) : Prop :=
  m = .start first ∨ (first = false ∧ m = .afterCr)

theorem beginsRecord_afterLineEnd
    (e : LineEnd) :
    BeginsRecord false (afterLineEnd e) := by
  cases e with
  | lf =>
      exact .inl rfl
  | cr =>
      exact .inr ⟨rfl, rfl⟩
  | crlf =>
      exact .inl rfl

/-- Behind a `\r`, a text that does not start with `\n` is read as after any other
line end. -/
theorem scan_beginsRecord
    (hm : BeginsRecord first m)
    {text : Bytes}
    (hne : text ≠ [])
    (hhead : text.head? ≠ some Byte.lf) :
    scanFrom sep { mode := m, f := [], out := out } text =
      scanFrom sep { mode := .start first, f := [], out := out } text := by
  rcases hm with rfl | ⟨rfl, rfl⟩
  · rfl
  · cases text with
    | nil =>
        exact absurd rfl hne
    | cons b text =>
        have hb : ¬ b = Byte.lf := by simpa using hhead
        simp [step, hb]

/-- A well-formed field does not begin with a line feed. -/
theorem head?_encode
    {fd : Field} (hfd : fd.WellFormed sep) :
    fd.encode.head? ≠ some Byte.lf := by
  unfold Field.encode
  split_ifs with hq
  · simp only [List.head?_cons, ne_eq, Option.some.injEq]
    decide
  · obtain ⟨-, hlf, -⟩ := hfd.bare (by simpa using hq)
    exact fun h => hlf (List.mem_of_mem_head? h)

/-- Nor does a field with a separator behind it. -/
theorem head?_encode_append
    (hsep : Separator sep)
    {fd : Field} (hfd : fd.WellFormed sep) (text : Bytes) :
    (fd.encode ++ sep :: text).head? ≠ some Byte.lf := by
  have hhead := head?_encode hfd
  rw [List.head?_append]
  cases henc : fd.encode.head? with
  | none =>
      simpa using hsep.ne_lf
  | some b =>
      rw [henc] at hhead
      exact hhead

/-- A record of well-formed fields does not begin with a line feed. -/
theorem head?_joined
    (hsep : Separator sep)
    {fds : List Field}
    (hfds : ∀ fd ∈ fds, fd.WellFormed sep) :
    (joined sep fds).head? ≠ some Byte.lf := by
  cases fds with
  | nil =>
      simp [joined]
  | cons fd fds =>
      have hfd := hfds fd (by simp)
      cases fds with
      | nil =>
          exact head?_encode hfd
      | cons fd' fds =>
          exact head?_encode_append hsep hfd _

/-- The fields of a record, from wherever a record may begin. -/
theorem scan_fields
    (out : List Token)
    (hsep : Separator sep)
    (hm : BeginsRecord first m)
    {fds : List Field}
    (hne : joined sep fds ≠ [])
    (hfds : ∀ fd ∈ fds, fd.WellFormed sep)
    (hfirst :
      first = true →
        ∀ fd ∈ fds.head?, ∀ b ∈ fd.content.head?, ¬ skipped b) :
    scanFrom sep { mode := m, f := [], out := out } (joined sep fds) =
      { mode := fieldsEnd (.start first) fds
        f := (fds.map Field.content).getLastD []
        out := out ++ fieldTokens (fds.map Field.content) } := by
  rw [scan_beginsRecord hm hne (head?_joined hsep hfds)]
  refine scan_joined hsep (.start first) ?_ hfds hfirst
  rintro rfl
  exact hne rfl

theorem scan_record
    (out : List Token)
    (hsep : Separator sep)
    (hm : BeginsRecord first m)
    {r : Record}
    (hne : joined sep r.fields ≠ [])
    (hfds : ∀ fd ∈ r.fields, fd.WellFormed sep)
    (hfirst :
      first = true →
        ∀ fd ∈ r.fields.head?, ∀ b ∈ fd.content.head?, ¬ skipped b) :
    scanFrom sep { mode := m, f := [], out := out } (r.encode sep) =
      { mode := afterLineEnd r.lineEnd, f := [],
        out := out ++ recordTokens r.contents } := by
  rw [Record.encode, scanFrom_append, scan_fields out hsep hm hne hfds hfirst,
    scan_lineEnd (inRecord_fieldsEnd hne)]
  simp [recordTokens, Record.contents]

/-- Records, the first of which may be the first one of the text. -/
theorem scan_records
    (first : Bool) (out : List Token)
    (hsep : Separator sep)
    (hm : BeginsRecord first m)
    {rs : List Record}
    (hne : ∀ r ∈ rs, joined sep r.fields ≠ [])
    (hfds : ∀ r ∈ rs, ∀ fd ∈ r.fields, fd.WellFormed sep)
    (hfirst :
      first = true →
        ∀ r ∈ rs.head?, ∀ fd ∈ r.fields.head?,
          ∀ b ∈ fd.content.head?, ¬ skipped b) :
    ∃ m',
      BeginsRecord (first && rs.isEmpty) m' ∧
      scanFrom sep { mode := m, f := [], out := out }
          (rs.flatMap (Record.encode sep)) =
        { mode := m', f := [],
          out := out ++ rs.flatMap fun r => recordTokens r.contents } := by
  induction rs generalizing first m out with
  | nil =>
      exact ⟨m, by simpa using hm, by simp⟩
  | cons r rs ih =>
      have hrecord :=
        scan_record out hsep hm (hne r (by simp)) (hfds r (by simp))
          (fun h => hfirst h r (by simp))
      obtain ⟨m', hm', hscan⟩ :=
        ih false (out ++ recordTokens r.contents)
          (beginsRecord_afterLineEnd r.lineEnd)
          (fun q hq => hne q (by simp [hq])) (fun q hq => hfds q (by simp [hq]))
          (fun h => by cases h)
      refine ⟨m', by simpa using hm', ?_⟩
      rw [List.flatMap_cons, scanFrom_append, hrecord, hscan]
      simp

end Record

end Scan

/-- The tokens of the given records. -/
def tokens (rows : List (List Bytes)) : List Token :=
  rows.flatMap Scan.recordTokens

namespace Document

variable {sep : Byte} {N : Nat} {d : Document}

/-- The byte order mark is skipped. -/
theorem scan_mark
    (sep : Byte) (d : Document) :
    scan sep d.mark = Scan.init := by
  unfold mark
  split
  · have hskip : ∀ b ∈ byteOrderMark, Scan.skipped b := by
      intro b hb
      simp only [byteOrderMark, List.mem_cons, List.not_mem_nil, or_false] at hb
      rcases hb with rfl | rfl | rfl <;> decide
    have hstep (b : Byte) (hb : b ∈ byteOrderMark) :
        Scan.step sep Scan.init b = Scan.init := by
      simp [Scan.step, Scan.init, Scan.atStart, hskip b hb]
    simp only [scan, byteOrderMark, Scan.scanFrom_cons, Scan.scanFrom_nil]
    rw [hstep _ (by decide), hstep _ (by decide), hstep _ (by decide)]
  · rfl

theorem AsciiStart.not_skipped
    (h : d.AsciiStart)
    {r : Record} (hr : r ∈ d.records.head?)
    {fd : Field} (hfd : fd ∈ r.fields.head?)
    {b : Byte} (hb : b ∈ fd.content.head?) :
    ¬ Scan.skipped b := by
  apply not_skipped_of_ascii
  apply h
  have hcontents : d.contents.head? = some r.contents := by
    rw [contents, List.head?_map, hr]
    rfl
  have hcontent : r.contents.head? = some fd.content := by
    rw [Record.contents, List.head?_map, hfd]
    rfl
  have hfirst : d.firstContent = fd.content := by
    simp only [firstContent, List.headD_eq_head?_getD, hcontents, hcontent,
      Option.getD_some]
  rwa [hfirst]

/-- The scan of a document reports its records. -/
theorem scan_encode
    (hsep : Separator sep)
    (h : d.WellFormed sep N)
    (hstart : d.AsciiStart) :
    ∃ m,
      Scan.BeginsRecord false m ∧
      scan sep (d.encode sep) =
        { mode := m, f := [], out := tokens d.contents } := by
  obtain ⟨m, hm, hscan⟩ :=
    Scan.scan_records true [] hsep (.inl rfl) h.not_empty
      h.fields (fun _ _ hr _ hfd _ hb => hstart.not_skipped hr hfd hb)
  have hempty : d.records.isEmpty = false := by simpa using h.records_ne
  refine ⟨m, by simpa [hempty] using hm, ?_⟩
  rw [encode, scan_append, scan_mark, Scan.init, hscan]
  simp [tokens, contents, List.flatMap_map]

/-- The scan without the last line end stops behind the last field. -/
theorem scan_encodeOpen
    (hsep : Separator sep)
    (h : d.WellFormed sep N)
    (hstart : d.AsciiStart)
    {rs : List Record} {r : Record}
    (hlast : d.records = rs ++ [r]) :
    scan sep (d.encodeOpen sep) =
      { mode := Scan.fieldsEnd (.start rs.isEmpty) r.fields
        f := r.contents.getLastD []
        out := tokens (rs.map Record.contents) ++ Scan.fieldTokens r.contents } := by
  have hmem : r ∈ d.records := by simp [hlast]
  have hsub : ∀ q ∈ rs, q ∈ d.records := fun q hq => by simp [hlast, hq]
  obtain ⟨m, hm, hscan⟩ :=
    Scan.scan_records true [] hsep (.inl rfl)
      (fun q hq => h.not_empty q (hsub q hq)) (fun q hq => h.fields q (hsub q hq))
      (fun _ q hq fd hfd b hb => by
        refine hstart.not_skipped (r := q) ?_ hfd hb
        rw [hlast, List.head?_append, hq]
        rfl)
  have hfields :=
    Scan.scan_fields (tokens (rs.map Record.contents)) hsep hm
      (h.not_empty r hmem) (h.fields r hmem)
      (fun hfirst fd hfd b hb => by
        have hnil : rs = [] := by simpa using hfirst
        refine hstart.not_skipped (r := r) ?_ hfd hb
        simp [hlast, hnil])
  have htokens :
      tokens (rs.map Record.contents) =
        [] ++ rs.flatMap fun q => Scan.recordTokens q.contents := by
    simp [tokens, List.flatMap_map]
  rw [htokens] at hfields
  rw [encodeOpen, scan_append, scan_mark, Scan.init, Scan.scanFrom_append, hlast,
    List.dropLast_concat, hscan, List.getLast?_concat, Option.elim_some, hfields]
  simp [Record.contents, htokens]

end Document

end Csv
end Bren
end Brenlib
