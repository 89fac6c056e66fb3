import Brenlib.Bren.ReadCSVDefects

/-!
# Which ragged and which open texts `readCSV` rejects

The records of a text are those of `recordsOf`, in which the byte `0xFF` is one like the
others.  The reader takes it for the end of its input and skips some bytes at the start, so
what it rejects are the defects of `asRead text` (`readCSV_eq_runtimeError_iff`).

**Results.**
* `readCSV_rejects_ragged_iff`: short data records with a non-empty last field are not
  rejected unless the text has a defect.  The check in the end-of-record branch looks at the
  field buffer, which `fieldReady` has cleared.
* `readCSV_rejects_open_quote_iff`: a text that ends inside quotes is only rejected for a
  defect.  The last byte must not be a `\r`, since looking for a `\n` behind it ends the
  loop.
* `leftOpen_iff_of_endsInQuotes`: without `0xFF` and skipped bytes, the reader too finds
  such a text open.
-/

namespace Brenlib
namespace Bren

open Csv

section Ragged

namespace Csv

/-- More than one field, fewer than the header, and a last field that is not
empty. -/
def ShortRecord (N : Nat) (r : List Bytes) : Prop :=
  1 < r.length ∧ r.length < N ∧ r.getLastD [] ≠ []

instance (N : Nat) (r : List Bytes) : Decidable (ShortRecord N r) :=
  inferInstanceAs (Decidable (_ ∧ _ ∧ _))

end Csv

/-- What rejecting ragged input means: a table is only returned when every data
record with more than one field has as many fields as the header, or fewer and an
empty last one; a short record makes the reader throw. -/
def RejectsRagged (sep : Byte) (text : Bytes) : Prop :=
  (∀ t, readCSV text sep = .ok t →
    ∀ r ∈ dataRecords sep text, 1 < r.length →
      r.length ≤ headerWidth sep text ∧
        (r.length = headerWidth sep text ∨ r.getLastD [] = [])) ∧
  ∀ r ∈ dataRecords sep text,
    ShortRecord (headerWidth sep text) r →
      ∃ what, readCSV text sep = .error ⟨.runtimeError, what⟩

/-- **Ragged input is rejected** exactly when the text has a defect, or it has no short
record, and either no record longer than the header or more records than a table. -/
theorem readCSV_rejects_ragged_iff
    (text : Bytes) (sep : Byte) :
    RejectsRagged sep text ↔
      Defective sep (asRead text) ∨
      ((∀ r ∈ dataRecords sep text, ¬ ShortRecord (headerWidth sep text) r) ∧
        ((∀ r ∈ dataRecords sep text, 1 < r.length → r.length ≤ headerWidth sep text) ∨
          ¬ (cut true sep (asRead text)).finish.Within)) := by
  rw [RejectsRagged, readCSV_eq_runtimeError_iff]
  simp only [readCSV_eq_ok_iff_cut]
  constructor
  · rintro ⟨haccepted, hthrow⟩
    by_cases hdef : Defective sep (asRead text)
    · exact .inl hdef
    · refine .inr ⟨fun r hr hshort => hdef (hthrow r hr hshort), ?_⟩
      by_cases hwithin : (cut true sep (asRead text)).finish.Within
      · exact .inl fun r hr hmany =>
          (haccepted _ ⟨⟨hdef, hwithin⟩, rfl⟩ r hr hmany).1
      · exact .inr hwithin
  · rintro (hdef | ⟨hshort, hlong⟩)
    · exact ⟨fun t ht => absurd hdef ht.1.1, fun _ _ _ => hdef⟩
    · refine ⟨?_, fun r hr h => absurd h (hshort r hr)⟩
      rintro t ⟨⟨-, hwithin⟩, -⟩ r hr hmany
      have hle := hlong.resolve_right (not_not.mpr hwithin) r hr hmany
      refine ⟨hle, ?_⟩
      by_contra hnot
      rw [not_or] at hnot
      exact hshort r hr ⟨hmany, lt_of_le_of_ne hle hnot.1, hnot.2⟩

/-- The text `a;b;c\n1;2\n` gives a table, although its second record is short. -/
theorem readCSV_accepts_short_record :
    ¬ RejectsRagged 0x3B
      [0x61, 0x3B, 0x62, 0x3B, 0x63, 0x0A, 0x31, 0x3B, 0x32, 0x0A] := by
  rintro ⟨-, hthrow⟩
  obtain ⟨what, herror⟩ := hthrow [[0x31], [0x32]] (by decide) (by decide)
  have hrej := readCSV_eq_error_iff.mp ⟨what, herror⟩
  exact absurd hrej (by decide)

end Ragged

section OpenQuote

namespace Csv

/-- Without the byte `0xFF`, both ways of cutting a text are the same. -/
theorem cut_inBand
    {sep : Byte} {text : Bytes}
    (heof : Byte.eof ∉ text) :
    cut true sep text = cut false sep text := by
  induction text using List.reverseRecOn with
  | nil => rfl
  | append_singleton text b ih =>
      rw [List.mem_append, List.mem_singleton, not_or] at heof
      have hends : endsLine true b = endsLine false b := by
        simp [endsLine, Ne.symm heof.2]
      rw [cut_append, cut_append, ih heof.1]
      simp only [List.foldl_cons, List.foldl_nil, Cut.step, Cut.beginLine, Cut.goOn, hends]

/-- For a text without `0xFF`, of which no byte but those of the byte order mark is skipped,
the last byte decides. -/
theorem leftOpen_iff_of_endsInQuotes
    {sep : Byte} {text : Bytes}
    (hopen : EndsInQuotes sep text)
    (heof : Byte.eof ∉ withoutMark text)
    (hskips : asRead text = withoutMark text) :
    LeftOpen sep (asRead text) ↔
      (cut true sep (asRead text)).Within ∧ (withoutMark text).getLast? ≠ some Byte.cr := by
  have hplace : (cut true sep (asRead text)).place = .inQuotes := by
    rw [hskips, cut_inBand heof]
    exact hopen
  rw [LeftOpen, hplace, hskips]
  simp

end Csv

/-- **An open quoted field is rejected** exactly when the text has a defect: an empty line, a
record that is too long or `0xFF` in quotes in a part within the limits, or quotes that are
still open where the text ends, within the limits and with another byte than `\r`. -/
theorem readCSV_rejects_open_quote_iff
    (text : Bytes) (sep : Byte) :
    (EndsInQuotes sep text →
      ∃ what, readCSV text sep = .error ⟨.runtimeError, what⟩) ↔
    (EndsInQuotes sep text →
      Broken sep (asRead text) ∨ LeftOpen sep (asRead text)) :=
  imp_congr_right fun _ => readCSV_eq_runtimeError_iff text sep

/-- The text `a\n"x\r` ends inside quotes and gives a table. -/
theorem readCSV_accepts_open_quote :
    ¬ (EndsInQuotes 0x3B [0x61, 0x0A, 0x22, 0x78, 0x0D] →
      ∃ what,
        readCSV [0x61, 0x0A, 0x22, 0x78, 0x0D] 0x3B =
          .error ⟨.runtimeError, what⟩) := by
  intro h
  have hrej := readCSV_eq_error_iff.mp (h (by decide))
  exact absurd hrej (by decide)

end OpenQuote

end Bren
end Brenlib
