import Brenlib.Bren.CsvLayout
import Brenlib.Bren.CsvText

/-!
# The records of a text

A text is cut into records and fields byte by byte.  A line end outside quotes ends a
record, but an empty line is no record; a separator outside quotes ends a field; a quote at
the start of a field opens quotes, a quote in quotes closes them unless another one follows.
No limit and no fault is known here: every text has its records.

A reader whose end-of-file marker is a byte takes this byte for a line end, which `inBand`
says of it.

* `Cut`: where in the text we are, and the records and fields so far.
* `recordsOf`: the records of a text, the one that its end cuts off included.
* `EndsInQuotes`: the text ends inside quotes.
* `Cut.Within`: the limits of a table have been kept so far.
-/

namespace Brenlib
namespace Bren
namespace Csv

/-- A place between two bytes of a text. -/
inductive Place where
  /-- At the start of a line, `blank` if the line in front of it is empty. -/
  | lineStart (blank : Bool)
  /-- Behind a `\r` that ends a line; a `\n` still belongs to it. -/
  | afterCr (blank : Bool)
  /-- Behind a separator. -/
  | fieldStart
  /-- Inside a field, outside quotes. -/
  | bare
  | inQuotes
  /-- Behind a quote in quotes. -/
  | closing
deriving DecidableEq, Repr

/-- A text that has been cut so far: the complete records, the complete fields of the record
begun last, and the content of the field begun last. -/
structure Cut where
  place : Place
  records : List (List Bytes)
  fields : List Bytes
  field : Bytes
deriving DecidableEq, Repr

/-- The bytes that end a line outside quotes. -/
def endsLine (inBand : Bool) (b : Byte) : Prop :=
  b = Byte.cr ∨ b = Byte.lf ∨ (inBand = true ∧ b = Byte.eof)

instance (inBand : Bool) (b : Byte) : Decidable (endsLine inBand b) :=
  inferInstanceAs (Decidable (_ ∨ _ ∨ _))

namespace Cut

def init : Cut where
  place := .lineStart false
  records := []
  fields := []
  field := []

/-- The field begun last ends its record. -/
def endRecord (c : Cut) (b : Byte) : Cut where
  place := if b = Byte.cr then .afterCr false else .lineStart false
  records := c.records ++ [c.fields ++ [c.field]]
  fields := []
  field := []

/-- The field begun last is ended by a separator. -/
def endField (c : Cut) : Cut :=
  { c with place := .fieldStart, fields := c.fields ++ [c.field], field := [] }

/-- A byte of a field outside quotes. -/
def add (c : Cut) (b : Byte) : Cut :=
  { c with place := .bare, field := c.field ++ [b] }

/-- The first byte of a field. -/
def beginField (sep : Byte) (c : Cut) (b : Byte) : Cut :=
  if b = Byte.quote then { c with place := .inQuotes, field := [] }
  else if b = sep then c.endField
  else c.add b

/-- The first byte of a line. -/
def beginLine (inBand : Bool) (sep : Byte) (c : Cut) (b : Byte) : Cut :=
  if endsLine inBand b then
    { c with place := if b = Byte.cr then .afterCr true else .lineStart true }
  else c.beginField sep b

/-- A byte behind the start of a field, outside quotes. -/
def goOn (inBand : Bool) (sep : Byte) (c : Cut) (b : Byte) : Cut :=
  if endsLine inBand b then c.endRecord b
  else if b = sep ∧ b ≠ Byte.quote then c.endField
  else c.add b

/-- Cut off one more byte. -/
def step (inBand : Bool) (sep : Byte) (c : Cut) (b : Byte) : Cut :=
  match c.place with
  | .lineStart _ => c.beginLine inBand sep b
  | .afterCr blank =>
      if b = Byte.lf then { c with place := .lineStart blank }
      else c.beginLine inBand sep b
  | .fieldStart =>
      if endsLine inBand b then c.endRecord b else c.beginField sep b
  | .bare => c.goOn inBand sep b
  | .inQuotes =>
      if b = Byte.quote then { c with place := .closing }
      else { c with field := c.field ++ [b] }
  | .closing =>
      if b = Byte.quote then { c with place := .inQuotes, field := c.field ++ [b] }
      else c.goOn inBand sep b

/-- The records, the one that the end of the text cuts off included. -/
def all (c : Cut) : List (List Bytes) :=
  match c.place with
  | .lineStart _ | .afterCr _ => c.records
  | _ => c.records ++ [c.fields ++ [c.field]]

/-- The records and fields, as they are laid out in a table. -/
def layout (c : Cut) : Layout where
  records := c.records
  current := c.fields
  faulty := false

/-- The limits of a table have been kept. -/
def Within (c : Cut) : Prop :=
  c.layout.Within

instance (c : Cut) : Decidable c.Within :=
  inferInstanceAs (Decidable c.layout.Within)

/-- The end of the text, which ends the record of a field that is not in quotes. -/
def finish (c : Cut) : Cut :=
  match c.place with
  | .fieldStart | .bare => c.endRecord Byte.lf
  | _ => c

/-- A byte leaves the layout, or ends a field or a record. -/
theorem layout_step
    (inBand : Bool) (sep : Byte) (c : Cut) (b : Byte) :
    (c.step inBand sep b).layout = c.layout ∨
      (c.step inBand sep b).layout = c.layout.push (.field c.field) ∨
      (c.step inBand sep b).layout = c.layout.push (.record c.field) := by
  have hbegin :
      (c.beginField sep b).layout = c.layout ∨
        (c.beginField sep b).layout = c.layout.push (.field c.field) := by
    unfold beginField
    split_ifs
    · exact .inl rfl
    · exact .inr rfl
    · exact .inl rfl
  have hline :
      (c.beginLine inBand sep b).layout = c.layout ∨
        (c.beginLine inBand sep b).layout = c.layout.push (.field c.field) := by
    by_cases hends : endsLine inBand b
    · rw [beginLine, if_pos hends]
      exact .inl rfl
    · rw [beginLine, if_neg hends]
      exact hbegin
  have hgoOn :
      (c.goOn inBand sep b).layout = c.layout ∨
        (c.goOn inBand sep b).layout = c.layout.push (.field c.field) ∨
        (c.goOn inBand sep b).layout = c.layout.push (.record c.field) := by
    unfold goOn
    split_ifs
    · exact .inr (.inr rfl)
    · exact .inr (.inl rfl)
    · exact .inl rfl
  unfold step
  cases c.place with
  | lineStart blank => exact hline.imp_right .inl
  | afterCr blank =>
      dsimp only
      split_ifs
      · exact .inl rfl
      · exact hline.imp_right .inl
  | fieldStart =>
      dsimp only
      split_ifs
      · exact .inr (.inr rfl)
      · exact hbegin.imp_right .inl
  | bare => exact hgoOn
  | inQuotes =>
      dsimp only
      split_ifs
      · exact .inl rfl
      · exact .inl rfl
  | closing =>
      dsimp only
      split_ifs
      · exact .inl rfl
      · exact hgoOn

/-- Limits that are exceeded stay exceeded. -/
theorem within_of_step
    {inBand : Bool} {sep : Byte} {c : Cut} {b : Byte}
    (h : (c.step inBand sep b).Within) :
    c.Within := by
  unfold Within at h ⊢
  rcases layout_step inBand sep c b with heq | heq | heq
  · exact heq ▸ h
  · exact Layout.within_of_push (heq ▸ h)
  · exact Layout.within_of_push (heq ▸ h)

theorem within_of_finish
    {c : Cut}
    (h : c.finish.Within) :
    c.Within := by
  unfold finish at h
  split at h
  · exact @Layout.within_of_push _ (.record c.field) h
  · exact @Layout.within_of_push _ (.record c.field) h
  · exact h

/-- A byte that ends no line does not lead to the start of one. -/
theorem inLine_step
    {inBand : Bool} {sep : Byte} (c : Cut) {b : Byte}
    (hb : ¬ endsLine inBand b) (blank : Bool) :
    (c.step inBand sep b).place ≠ .lineStart blank ∧
      (c.step inBand sep b).place ≠ .afterCr blank := by
  have hlf : b ≠ Byte.lf := fun h => hb (.inr (.inl h))
  have hbegin :
      (c.beginField sep b).place ≠ .lineStart blank ∧
        (c.beginField sep b).place ≠ .afterCr blank := by
    unfold beginField
    split_ifs <;> exact ⟨nofun, nofun⟩
  have hgoOn :
      (c.goOn inBand sep b).place ≠ .lineStart blank ∧
        (c.goOn inBand sep b).place ≠ .afterCr blank := by
    unfold goOn
    rw [if_neg hb]
    split_ifs <;> exact ⟨nofun, nofun⟩
  unfold step
  cases hplace : c.place with
  | lineStart _ =>
      dsimp only
      rw [beginLine, if_neg hb]
      exact hbegin
  | afterCr _ =>
      dsimp only
      rw [if_neg hlf, beginLine, if_neg hb]
      exact hbegin
  | fieldStart =>
      dsimp only
      rw [if_neg hb]
      exact hbegin
  | bare => exact hgoOn
  | inQuotes =>
      dsimp only
      split_ifs
      · exact ⟨nofun, nofun⟩
      · simp
  | closing =>
      dsimp only
      split_ifs
      · exact ⟨nofun, nofun⟩
      · exact hgoOn

end Cut

/-- Cut a whole text. -/
def cut (inBand : Bool) (sep : Byte) (text : Bytes) : Cut :=
  text.foldl (Cut.step inBand sep) Cut.init

theorem cut_append
    (inBand : Bool) (sep : Byte) (text text' : Bytes) :
    cut inBand sep (text ++ text') = text'.foldl (Cut.step inBand sep) (cut inBand sep text) :=
  List.foldl_append

/-- The text without a byte order mark at its start. -/
def withoutMark (text : Bytes) : Bytes :=
  if byteOrderMark <+: text then text.drop byteOrderMark.length else text

/-- The records of a text, the one that its end cuts off included. -/
def recordsOf (sep : Byte) (text : Bytes) : List (List Bytes) :=
  (cut false sep (withoutMark text)).all

/-- Number of fields of the header record. -/
def headerWidth (sep : Byte) (text : Bytes) : Nat :=
  ((recordsOf sep text).headD []).length

/-- The records behind the header. -/
def dataRecords (sep : Byte) (text : Bytes) : List (List Bytes) :=
  (recordsOf sep text).tail

/-- The text ends inside a quoted field: behind a quote at the start of a field, and before
one that closes it. -/
def EndsInQuotes (sep : Byte) (text : Bytes) : Prop :=
  (cut false sep (withoutMark text)).place = .inQuotes

instance (sep : Byte) (text : Bytes) : Decidable (EndsInQuotes sep text) :=
  inferInstanceAs (Decidable (_ = _))

/-- A quoted field with a line end, and a record that is cut off. -/
example :
    recordsOf 0x3B
        [0x61, 0x3B, 0x62, 0x0D, 0x0A, 0x0A, 0x22, 0x78, 0x0A, 0x22, 0x22, 0x22, 0x3B, 0xFF] =
      [[[0x61], [0x62]], [[0x78, 0x0A, 0x22], [0xFF]]] := by
  decide

end Csv
end Bren
end Brenlib
