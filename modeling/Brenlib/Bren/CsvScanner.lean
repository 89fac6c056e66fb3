import Brenlib.Bren.StdLibrary

/-!
# CSV text as a stream of fields: the scanner

This is the abstract view of what a CSV reader does with its input before any
table is involved: it cuts the text into fields.  The scanner reads one byte at
a time, without look-ahead and without an end-of-file marker in the data type of
a byte, and reports

* `Token.field f`: the field `f` was ended by a separator;
* `Token.record f`: the field `f` was ended by the end of its record;
* `Token.fault`: the text is malformed here (an empty line that is not the last
  one, or the byte `0xFF` inside quotes).

Outside quotes the byte `0xFF` ends a record, because the reader takes it for
the end of its input.  Bytes of the upper half of the byte range are skipped at
the start of the text, before the first field has content.

The scan is a fold, so the scan of a concatenation is the scan of the second part
from the state after the first (`scanFrom_append`), and tokens are only ever
added at the end (`out_prefix_scanFrom`).
-/

namespace Brenlib
namespace Bren
namespace Csv

/-- What the scanner reports, in the order of the text. -/
inductive Token where
  | field (f : Bytes)
  | record (f : Bytes)
  | fault
deriving DecidableEq, Repr

/-- Where the scanner is in the text. -/
inductive Mode where
  /-- At the start of a record, `first` for the first one of the text. -/
  | start (first : Bool)
  /-- Behind a `\r` that ended a record; a `\n` still belongs to it. -/
  | afterCr
  /-- Behind an empty line, `cr` if it ended in `\r`. -/
  | emptyLine (cr : Bool)
  /-- Behind a separator. -/
  | afterSep
  /-- Inside a field, outside quotes. -/
  | bare
  /-- Inside quotes; `fresh` if the field is the first one of the text and has no
  content yet, `cr` if the last byte was `\r`. -/
  | quoted (fresh cr : Bool)
  /-- Behind a quote that closes the field, unless another quote follows. -/
  | quoteSeen
deriving DecidableEq, Repr

/-- A scan in progress: the mode, the content of the field being read, and the
tokens so far. -/
structure Scan where
  mode : Mode
  f : Bytes
  out : List Token
deriving DecidableEq, Repr

namespace Scan

def init : Scan :=
  { mode := .start true, f := [], out := [] }

/-- The byte ends a record, outside quotes. -/
def endsRecord (b : Byte) : Prop :=
  b = Byte.cr ∨ b = Byte.lf ∨ b = Byte.eof

instance (b : Byte) : Decidable (endsRecord b) :=
  inferInstanceAs (Decidable (_ ∨ _ ∨ _))

/-- The byte is skipped before the first field has content. -/
def skipped (b : Byte) : Prop :=
  b ≠ Byte.eof ∧ Byte.isHigh b

instance (b : Byte) : Decidable (skipped b) :=
  inferInstanceAs (Decidable (_ ∧ _))

/-- The field read so far is the last one of its record. -/
def closeRecord (σ : Scan) (b : Byte) : Scan :=
  { mode := if b = Byte.cr then .afterCr else .start false
    f := []
    out := σ.out ++ [.record σ.f] }

/-- The field read so far is ended by a separator. -/
def closeField (σ : Scan) : Scan :=
  { mode := .afterSep, f := [], out := σ.out ++ [.field σ.f] }

/-- A byte of the field, outside quotes. -/
def push (σ : Scan) (b : Byte) : Scan :=
  { σ with mode := .bare, f := σ.f ++ [b] }

/-- An opening quote. -/
def openQuote (σ : Scan) (fresh : Bool) : Scan :=
  { σ with mode := .quoted fresh false, f := [] }

/-- The first byte of a record. -/
def atStart (sep : Byte) (first : Bool) (σ : Scan) (b : Byte) : Scan :=
  if first ∧ skipped b then σ
  else if endsRecord b then { σ with mode := .emptyLine (b = Byte.cr) }
  else if b = Byte.quote then σ.openQuote first
  else if b = sep then σ.closeField
  else σ.push b

/-- The first byte behind a separator. -/
def atField (sep : Byte) (σ : Scan) (b : Byte) : Scan :=
  if endsRecord b then σ.closeRecord b
  else if b = Byte.quote then σ.openQuote false
  else if b = sep then σ.closeField
  else σ.push b

/-- A byte behind the first one of a field that is not in quotes. -/
def inField (sep : Byte) (σ : Scan) (b : Byte) : Scan :=
  if endsRecord b then σ.closeRecord b
  else if b = sep ∧ b ≠ Byte.quote then σ.closeField
  else σ.push b

/-- A byte inside quotes. -/
def inQuotes (fresh : Bool) (σ : Scan) (b : Byte) : Scan :=
  if fresh ∧ skipped b then σ
  else if b = Byte.quote then { σ with mode := .quoteSeen }
  else
    { mode := .quoted false (b = Byte.cr)
      f := σ.f ++ [b]
      out := if b = Byte.eof then σ.out ++ [.fault] else σ.out }

/-- The byte behind a quote inside quotes. -/
def afterQuote (sep : Byte) (σ : Scan) (b : Byte) : Scan :=
  if b = Byte.quote then
    { σ with mode := .quoted false false, f := σ.f ++ [b] }
  else
    inField sep σ b

/-- The byte behind an empty line. -/
def afterEmpty (sep : Byte) (cr : Bool) (σ : Scan) (b : Byte) : Scan :=
  if cr ∧ b = Byte.lf then { σ with mode := .emptyLine false }
  else atStart sep false { mode := .start false, f := [], out := σ.out ++ [.fault] } b

/-- Read one byte. -/
def step (sep : Byte) (σ : Scan) (b : Byte) : Scan :=
  match σ.mode with
  | .start first => atStart sep first σ b
  | .afterCr =>
      if b = Byte.lf then { σ with mode := .start false }
      else atStart sep false { σ with mode := .start false } b
  | .emptyLine cr => afterEmpty sep cr σ b
  | .afterSep => atField sep σ b
  | .bare => inField sep σ b
  | .quoted fresh _ => inQuotes fresh σ b
  | .quoteSeen => afterQuote sep σ b

/-- Read a text from a given state. -/
def scanFrom (sep : Byte) (σ : Scan) (text : Bytes) : Scan :=
  text.foldl (step sep) σ

@[simp] theorem scanFrom_nil
    (sep : Byte) (σ : Scan) :
    scanFrom sep σ [] = σ := rfl

@[simp] theorem scanFrom_cons
    (sep : Byte) (σ : Scan) (b : Byte) (text : Bytes) :
    scanFrom sep σ (b :: text) = scanFrom sep (step sep σ b) text := rfl

theorem scanFrom_append
    (sep : Byte) (σ : Scan) (text text' : Bytes) :
    scanFrom sep σ (text ++ text') =
      scanFrom sep (scanFrom sep σ text) text' :=
  List.foldl_append

/-- What holds at the start and is preserved by every byte holds after any text. -/
theorem scanFrom_induction
    {sep : Byte} {P : Scan → Prop}
    (hstep : ∀ σ b, P σ → P (step sep σ b))
    {σ : Scan} (h : P σ) (text : Bytes) :
    P (scanFrom sep σ text) := by
  induction text generalizing σ with
  | nil =>
      exact h
  | cons b text ih =>
      exact ih (hstep σ b h)

/-- The same with the number of bytes, for what the bytes of one text preserve. -/
theorem scanFrom_counted
    {sep : Byte} {P : Nat → Scan → Prop} {text : Bytes}
    (hstep : ∀ k σ b, b ∈ text → P k σ → P (k + 1) (step sep σ b))
    {k : Nat} {σ : Scan} (h : P k σ) :
    P (k + text.length) (scanFrom sep σ text) := by
  induction text generalizing k σ with
  | nil =>
      exact h
  | cons b text ih =>
      rw [List.length_cons, Nat.add_comm text.length 1, ← Nat.add_assoc]
      exact ih (fun k σ c hc => hstep k σ c (List.mem_cons_of_mem b hc))
        (hstep k σ b List.mem_cons_self h)

theorem out_prefix_atStart
    (sep : Byte) (first : Bool) (σ : Scan) (b : Byte) :
    σ.out <+: (atStart sep first σ b).out := by
  unfold atStart
  split_ifs <;> simp [openQuote, closeField, push]

theorem out_prefix_inField
    (sep : Byte) (σ : Scan) (b : Byte) :
    σ.out <+: (inField sep σ b).out := by
  unfold inField
  split_ifs <;> simp [closeRecord, closeField, push]

/-- A byte adds tokens at the end. -/
theorem out_prefix_step
    (sep : Byte) (σ : Scan) (b : Byte) :
    σ.out <+: (step sep σ b).out := by
  unfold step
  split
  · exact out_prefix_atStart sep _ σ b
  · split_ifs
    · exact List.prefix_rfl
    · exact out_prefix_atStart sep false { σ with mode := .start false } b
  · unfold afterEmpty
    split_ifs
    · exact List.prefix_rfl
    · have hstart :=
        out_prefix_atStart sep false
          { mode := .start false, f := [], out := σ.out ++ [.fault] } b
      exact (List.prefix_append _ _).trans hstart
  · unfold atField
    split_ifs <;> simp [closeRecord, openQuote, closeField, push]
  · exact out_prefix_inField sep σ b
  · unfold inQuotes
    split_ifs <;> simp
  · unfold afterQuote
    split_ifs
    · exact List.prefix_rfl
    · exact out_prefix_inField sep σ b

theorem out_prefix_scanFrom
    (sep : Byte) (σ : Scan) (text : Bytes) :
    σ.out <+: (scanFrom sep σ text).out :=
  scanFrom_induction (P := fun τ => σ.out <+: τ.out)
    (fun τ b h => h.trans (out_prefix_step sep τ b))
    List.prefix_rfl text

end Scan

/-- The scan of a whole text. -/
def scan (sep : Byte) (text : Bytes) : Scan :=
  Scan.scanFrom sep Scan.init text

theorem scan_append
    (sep : Byte) (text text' : Bytes) :
    scan sep (text ++ text') = Scan.scanFrom sep (scan sep text) text' :=
  Scan.scanFrom_append sep Scan.init text text'

end Csv
end Bren
end Brenlib
