import Brenlib.Base.Utf8
import Brenlib.Bren.StdLibrary

/-!
# `CsvWriter`

The model follows `hdr/bren/CsvWriter.hpp` and `src/CsvWriter.cpp`.  Next to its
own members a `CsvWriter` carries `output`, the bytes written to its destination;
the destination pointer is set once and is never changed to another one, so one
list of bytes is enough.  The stream itself does not fail.

`utf8::is_valid` is a function of a library that is not part of the sources.  It
is a parameter, `Utf8Cpp`, with its documented meaning.
-/

namespace Brenlib
namespace Bren

/-- `utf8::is_valid`: the bytes are the encoding of some text. -/
structure Utf8Cpp where
  is_valid : Bytes → Bool
  is_valid_iff : ∀ s, is_valid s = true ↔ ∃ cs, s = Utf8.encode cs

/-- The UTF-8 check of the standard library of Lean. -/
def leanUtf8 : Utf8Cpp where
  is_valid := Utf8.isValid
  is_valid_iff := Utf8.isValid_iff

/-- `csvQuoting_e`. -/
inductive CsvQuoting where
  | never
  | always
  | needed
deriving DecidableEq, Repr

/-- `csvSettings_t`. -/
structure CsvSettings where
  fieldSep : Byte
  carriageReturn : Bool
  forceHeader : Bool
  quoting : CsvQuoting
deriving DecidableEq, Repr

structure CsvWriter where
  column_ : Nat
  columns_ : Nat
  lines_ : Nat
  out_ : Option Nat
  settings_ : CsvSettings
  output : Bytes
deriving DecidableEq, Repr

namespace CsvWriter

/-- `CsvWriter(csvSettings_i)`. -/
def init (csvSettings_i : CsvSettings) : CsvWriter where
  column_ := 0
  columns_ := 0
  lines_ := 0
  out_ := none
  settings_ := csvSettings_i
  output := []

/-- The settings `PayPal`. -/
def PayPal : CsvSettings where
  fieldSep := 0x2C
  carriageReturn := false
  forceHeader := true
  quoting := .always

/-- The settings `TicketMatic`. -/
def TicketMatic : CsvSettings where
  fieldSep := 0x3B
  carriageReturn := false
  forceHeader := true
  quoting := .needed

/-- A pointer formatted with `{:p}`. -/
def pointerText (p : Option Nat) : String :=
  "0x" ++ String.ofList (Nat.toDigits 16 (p.getD 0))

/-- A method of the writer. -/
abbrev Method := EStateM StdException CsvWriter

/-- `out_->write(s)` and `out_->put(c)`. -/
def write (s : Bytes) : Method Unit :=
  modify fun w => { w with output := w.output ++ s }

/-- `destination(destination_i)`. -/
def destination [Raising] (destination_i : Option Nat) : Method Unit := do
  fcet (destination_i ≠ none) .invalidArgument "Unable to write CSV to NULL pointer"
  let w ← get
  fcet (w.out_ = none ∨ destination_i = w.out_) .logicError
    (s!"Won't overwrite existing destination pointer {pointerText w.out_}" ++
      s!" with different destination pointer {pointerText destination_i}")
  set { w with out_ := destination_i }

/-- The loop of `doubleQuote_`: insert a second quote behind every quote found
from position `pos` on. -/
def doubleQuoteFrom (rv : Bytes) (pos : Nat) : Bytes :=
  match _ : find rv Byte.quote pos with
  | none => rv
  | some p => doubleQuoteFrom (rv.insertIdx (p + 1) Byte.quote) (p + 2)
termination_by rv.length - pos
decreasing_by
  obtain ⟨hle, hlt, -⟩ := find_eq_some ‹_›
  rw [List.length_insertIdx_of_le_length (by omega)]
  omega

/-- `doubleQuote_(str_i)`. -/
def doubleQuote_ (str_i : Bytes) : Bytes :=
  doubleQuoteFrom str_i 0

/-- Text of the exceptions for a writer without a destination. -/
def noDestination : String :=
  "Destination pointer for output not set yet, call destination() method first"

/-- `endRow()`. -/
def endRow [Raising] : Method Nat := do
  let w ← get
  fcet (w.out_ ≠ none) .logicError noDestination
  if w.columns_ ≠ 0 ∧ w.column_ = 0 then
    return w.columns_
  if w.columns_ ≠ 0 then
    fcet (w.column_ = w.columns_) .outOfRange
      (s!"Current amount of written columns ({w.column_}) is not equal to" ++
        s!" number of fields in CSV ({w.columns_})")
  else
    modify fun w => { w with columns_ := w.column_ }
  write (if w.settings_.carriageReturn then [Byte.cr, Byte.lf] else [Byte.lf])
  modify fun w => { w with column_ := 0, lines_ := w.lines_ + 1 }
  return (← get).columns_

/-- The text printed for a field: quoted or not, depending on the settings. -/
def toPrint [Raising] (settings_ : CsvSettings) (field_i : Bytes) :
    Except StdException Bytes :=
  let bad := [Byte.cr, Byte.lf, settings_.fieldSep]
  match settings_.quoting with
  | .never =>
      match findFirstOf field_i bad with
      | some pos =>
          .error (Raising.raised .runtimeError
            (s!"Field >{Bytes.text field_i}< contains character" ++
              s!" at zero-based position {pos} that needs mandatory quoting"))
      | none => .ok field_i
  | .always =>
      .ok (Byte.quote :: (doubleQuote_ field_i ++ [Byte.quote]))
  | .needed =>
      let doubled := doubleQuote_ field_i
      if findFirstOf doubled (bad ++ [Byte.quote]) ≠ none then
        .ok (Byte.quote :: (doubled ++ [Byte.quote]))
      else
        .ok doubled

section Methods

variable (utf8 : Utf8Cpp)

/-- `quotedField_(field_i)`. -/
def quotedField_ [Raising] (field_i : Bytes) : Method Nat := do
  let w ← get
  fcet (utf8.is_valid field_i = true) .invalidArgument
    s!"Given field >{Bytes.text field_i}< is not a valid UTF-8 encoded string"
  match toPrint w.settings_ field_i with
  | .error e => throw e
  | .ok printed =>
      if w.column_ ≠ 0 then
        write [w.settings_.fieldSep]
      write printed
      modify fun w => { w with column_ := w.column_ + 1 }
      let w ← get
      if w.columns_ ≠ 0 ∧ w.column_ = w.columns_ then
        endRow
      else
        return w.column_

/-- `writeFields_(row_i)`. -/
def writeFields_ [Raising] (row_i : List Bytes) : Method Nat := do
  let w ← get
  if w.columns_ ≠ 0 then
    fcet (w.column_ + row_i.length ≤ w.columns_) .outOfRange
      (s!"Current column {w.column_} + fields in row ({row_i.length})" ++
        s!" would exceed column count {w.columns_}")
  forM row_i fun fld => discard (quotedField_ utf8 fld)
  let w ← get
  return if w.column_ ≠ 0 then w.column_ else w.columns_

/-- The checks of `field` and `fields`. -/
def checkField [Raising] : Method Unit := do
  let w ← get
  fcet (w.out_ ≠ none) .logicError noDestination
  fcet (w.settings_.forceHeader = false ∨ w.lines_ ≠ 0) .logicError
    "The output CSV should contain a header but it was not yet written"

/-- The checks of `header` and `headers`. -/
def checkHeader [Raising] : Method Unit := do
  let w ← get
  fcet (w.out_ ≠ none) .logicError noDestination
  fcet (w.lines_ = 0) .logicError "Header has already been written"

/-- `field(field_i)`. -/
def field [Raising] (field_i : Bytes) : Method Nat := do
  checkField
  quotedField_ utf8 field_i

/-- `fields(fields_i)`. -/
def fields [Raising] (fields_i : List Bytes) : Method Nat := do
  checkField
  writeFields_ utf8 fields_i

/-- `headers(names_i)`. -/
def headers [Raising] (names_i : List Bytes) : Method Nat := do
  checkHeader
  writeFields_ utf8 names_i

/-- `header(name_i)`. -/
def header [Raising] (name_i : Bytes) : Method Nat := do
  checkHeader
  quotedField_ utf8 name_i

end Methods

end CsvWriter

end Bren
end Brenlib
