import Brenlib.Bren.ReadCSVDefects

/-!
# The last line end of a text

The same text with and without a line end at its end.

**Results.**
* `readCSV_lineEnd_iff`: for every text that does not end in a line end, both are read as
  the same table exactly when the longer one is accepted, the shorter one does not end in
  quotes, and a field whose closing quote is its last byte is empty and neither in the header
  nor the first one of its record.
* `readCSV_encodeOpen_iff`: the same for the well-formed documents.  Where the first header
  field begins with an ASCII byte, nothing of the text is skipped, and only the last field of
  the document matters.
-/

namespace Brenlib
namespace Bren

namespace Csv

section LineEnd

variable {sep : Byte}

theorem endsLine_lf :
    endsLine true Byte.lf :=
  .inr (.inl rfl)

theorem endsLine_cr :
    endsLine true Byte.cr :=
  .inl rfl

/-- A line end completes the record of a field that is not in quotes. -/
theorem step_lineEnd
    {c : Cut} {b : Byte}
    (hplace : c.place = .fieldStart ∨ c.place = .bare ∨ c.place = .closing)
    (hends : endsLine true b)
    (hquote : b ≠ Byte.quote) :
    c.step true sep b = c.endRecord b := by
  unfold Cut.step
  rcases hplace with h | h | h
  · simp only [h, if_pos hends]
  · simp only [h, Cut.goOn, if_pos hends]
  · simp only [h, if_neg hquote, Cut.goOn, if_pos hends]

/-- The text behind the line end, at the start of a line. -/
theorem cut_lineEnd
    {text : Bytes}
    (hplace : (cut true sep text).place = .fieldStart ∨ (cut true sep text).place = .bare ∨
      (cut true sep text).place = .closing)
    (e : LineEnd) :
    (cut true sep (text ++ e.encode)).finish.layout =
      (cut true sep text).layout.push (.record (cut true sep text).field) := by
  have hcr := @step_lineEnd sep _ _ hplace endsLine_cr (by decide)
  have hlf := @step_lineEnd sep _ _ hplace endsLine_lf (by decide)
  rw [cut_append]
  cases e with
  | lf =>
      rw [LineEnd.encode, List.foldl_cons, hlf]
      rfl
  | cr =>
      rw [LineEnd.encode, List.foldl_cons, hcr]
      rfl
  | crlf =>
      rw [LineEnd.encode, List.foldl_cons, hcr]
      rfl

/-- A line end alone has no records. -/
theorem cut_lineEnd_alone
    (sep : Byte) (e : LineEnd) :
    (cut true sep e.encode).finish.layout = Layout.empty := by
  cases e with
  | lf => rfl
  | cr => rfl
  | crlf => rfl

/-- What is not skipped in front of a line end. -/
theorem dropWhile_append_lineEnd
    (text : Bytes) (e : LineEnd) :
    (text ++ e.encode).dropWhile (fun b => decide (Scan.skipped b)) =
      text.dropWhile (fun b => decide (Scan.skipped b)) ++ e.encode := by
  induction text with
  | nil =>
      cases e <;> rfl
  | cons b text ih =>
      by_cases hb : Scan.skipped b
      · rw [List.cons_append, List.dropWhile_cons_of_pos (by simpa using hb), ih,
          List.dropWhile_cons_of_pos (by simpa using hb)]
      · rw [List.cons_append, List.dropWhile_cons_of_neg (by simpa using hb),
          List.dropWhile_cons_of_neg (by simpa using hb), List.cons_append]

theorem asRead_append_lineEnd
    (text : Bytes) (e : LineEnd) :
    asRead (text ++ e.encode) = asRead text ++ e.encode := by
  unfold asRead
  rw [dropWhile_append_lineEnd]
  cases text.dropWhile fun b => decide (Scan.skipped b) with
  | nil =>
      cases e <;> rfl
  | cons b rest =>
      simp only [List.cons_append]
      split_ifs
      · rw [dropWhile_append_lineEnd, List.cons_append]
      · rfl

/-- The last byte of a part at the end of a text is the last one of the text. -/
theorem getLast?_of_suffix
    {part text : Bytes} {b : Byte}
    (h : part <:+ text)
    (hb : b ∈ part.getLast?) :
    b ∈ text.getLast? := by
  obtain ⟨before, rfl⟩ := h
  rw [List.getLast?_append, Option.mem_def.mp hb]
  rfl

/-- The last byte that is read is the last one of the text, or a quote. -/
theorem getLast?_asRead
    {text : Bytes} {b : Byte}
    (hb : b ∈ (asRead text).getLast?) :
    b ∈ text.getLast? ∨ b = Byte.quote := by
  have hsuffix := List.dropWhile_suffix (l := text) fun b => decide (Scan.skipped b)
  unfold asRead at hb
  cases hdrop : text.dropWhile fun b => decide (Scan.skipped b) with
  | nil =>
      rw [hdrop] at hb
      cases hb
  | cons b' rest =>
      rw [hdrop] at hb hsuffix
      dsimp only at hb
      split_ifs at hb with hquote
      · have hsuffix' := List.dropWhile_suffix (l := rest) fun b => decide (Scan.skipped b)
        cases hdrop' : rest.dropWhile fun b => decide (Scan.skipped b) with
        | nil =>
            rw [hdrop', List.getLast?_singleton, Option.mem_some_iff] at hb
            exact .inr (hb ▸ hquote)
        | cons b'' rest' =>
            rw [hdrop', List.getLast?_cons_cons] at hb
            rw [hdrop'] at hsuffix'
            exact .inl (getLast?_of_suffix
              (hsuffix'.trans ((List.suffix_cons b' rest).trans hsuffix)) hb)
      · exact .inl (getLast?_of_suffix hsuffix hb)

/-- A text that is not in a record at its end has no byte at all, if it does not end in a
line end. -/
theorem eq_nil_of_lineStart
    {text : Bytes} {blank : Bool}
    (hlast : ∀ b ∈ text.getLast?, ¬ endsLine true b)
    (hplace : (cut true sep text).place = .lineStart blank ∨
      (cut true sep text).place = .afterCr blank) :
    text = [] := by
  rcases List.eq_nil_or_concat' text with rfl | ⟨before, b, rfl⟩
  · rfl
  · have hb : ¬ endsLine true b := hlast b (by simp)
    have hnot := @Cut.inLine_step true sep (cut true sep before) b hb blank
    rw [cut_append] at hplace
    rcases hplace with h | h
    · exact absurd h hnot.1
    · exact absurd h hnot.2

/-- What comes behind the complete fields is stored by the end of the text, or makes no
difference: it is not in quotes, and a quoted field that is complete is empty and neither in
the header nor the first one of its record. -/
def Cut.LosesNothing (c : Cut) : Prop :=
  c.place ≠ .inQuotes ∧
    (c.place = .closing → c.field = [] ∧ c.fields ≠ [] ∧ c.records ≠ [])

instance (c : Cut) : Decidable c.LosesNothing :=
  inferInstanceAs (Decidable (_ ∧ (_ → _)))

/-- A longer text has the same defect. -/
theorem Broken.append
    {text : Bytes} (h : Broken sep text) (rest : Bytes) :
    Broken sep (text ++ rest) := by
  induction rest using List.reverseRecOn with
  | nil => rwa [List.append_nil]
  | append_singleton rest b ih =>
      rw [← List.append_assoc]
      exact (broken_concat_iff sep (text ++ rest) b).mpr (.inl ih)

end LineEnd

end Csv

open Csv

section LastLine

variable {sep : Byte} {text : Bytes}

/-- Behind a field that is not in quotes, the line end completes its record. -/
theorem lineEnd_record_iff
    (hplace : (cut true sep text).place = .fieldStart ∨ (cut true sep text).place = .bare ∨
      (cut true sep text).place = .closing)
    (e : LineEnd)
    (hfull : Readable sep (text ++ e.encode)) :
    (Readable sep text ∧
      (cut true sep (text ++ e.encode)).finish.layout.table =
        (cut true sep text).finish.layout.table) ↔
      (cut true sep text).LosesNothing := by
  have hlayout := cut_lineEnd hplace e
  have hacc := hfull.accepted
  rw [hlayout] at hacc ⊢
  have hwithin : (cut true sep text).Within := Layout.within_of_push hacc.within
  have hbroken : ¬ Broken sep text := fun h => hfull.1 (.inl (h.append e.encode))
  have hquotes : (cut true sep text).place ≠ .inQuotes := by
    rcases hplace with h | h | h <;> simp [h]
  have hdef : ¬ Defective sep text := by
    rintro (h | h)
    · exact hbroken h
    · exact hquotes h.2.1
  by_cases hclosing : (cut true sep text).place = .closing
  · have hfinish : (cut true sep text).finish = cut true sep text :=
      Cut.finish_eq_self (by simp [hclosing])
    have hread : Readable sep text := ⟨hdef, by rw [hfinish]; exact hwithin⟩
    have htable :=
      Layout.table_push_record_eq_iff (accepted_cut hbroken hwithin).current_lt hacc
    simp only [hread, true_and, hfinish, Cut.LosesNothing, hclosing, ne_eq, reduceCtorEq,
      not_false_eq_true, forall_const]
    rw [eq_comm]
    exact htable
  · have hfinish :
        (cut true sep text).finish = (cut true sep text).endRecord Byte.lf :=
      Cut.finish_eq_endRecord (by tauto)
    have hread : Readable sep text := ⟨hdef, by rw [hfinish]; exact hacc.within⟩
    simp only [hread, true_and, hfinish, Cut.LosesNothing, ne_eq, hquotes,
      not_false_eq_true, hclosing, false_imp_iff, iff_true]
    rfl

/-- The empty text is a table, and so is a line end alone. -/
theorem lineEnd_alone_iff
    (sep : Byte) (e : LineEnd) :
    (Readable sep [] ∧
      (cut true sep ([] ++ e.encode)).finish.layout.table =
        (cut true sep []).finish.layout.table) ↔
      (cut true sep []).LosesNothing := by
  have hdef : ¬ Defective sep [] := by
    rintro (h | ⟨-, h, -⟩)
    · exact not_broken_nil sep h
    · cases h
  have hread : Readable sep [] := ⟨hdef, Layout.within_empty⟩
  rw [List.nil_append, cut_lineEnd_alone]
  exact iff_of_true ⟨hread, rfl⟩ ⟨nofun, nofun⟩

/-- A text that ends in quotes is no table. -/
theorem not_readable_of_inQuotes
    (hplace : (cut true sep text).place = .inQuotes)
    (hlast : ∀ b ∈ text.getLast?, ¬ endsLine true b) :
    ¬ Readable sep text := by
  rintro ⟨hdef, hwithin⟩
  refine hdef (.inr ⟨Cut.within_of_finish hwithin, hplace, fun hcr => ?_⟩)
  exact hlast Byte.cr hcr endsLine_cr

/-- **A line end at the end of a text makes no difference**, if the text does not end in
one already, exactly when the reader stores everything in front of it without it. -/
theorem readCSV_lineEnd_iff
    (sep : Byte)
    (hlast : ∀ b ∈ text.getLast?, ¬ endsLine true b)
    (e : LineEnd) :
    (∃ t, readCSV (text ++ e.encode) sep = .ok t ∧ readCSV text sep = .ok t) ↔
      Readable sep (asRead (text ++ e.encode)) ∧
        (cut true sep (asRead text)).LosesNothing := by
  have hlast' : ∀ b ∈ (asRead text).getLast?, ¬ endsLine true b := by
    intro b hb
    rcases getLast?_asRead hb with h | rfl
    · exact hlast b h
    · decide
  simp only [readCSV_eq_ok_iff_cut, asRead_append_lineEnd]
  generalize asRead text = text at hlast' ⊢
  have hboth :
      (∃ t,
        (Readable sep (text ++ e.encode) ∧
          t = (cut true sep (text ++ e.encode)).finish.layout.table) ∧
        Readable sep text ∧ t = (cut true sep text).finish.layout.table) ↔
        Readable sep (text ++ e.encode) ∧ Readable sep text ∧
          (cut true sep (text ++ e.encode)).finish.layout.table =
            (cut true sep text).finish.layout.table := by
    constructor
    · rintro ⟨t, ⟨hfull, rfl⟩, hopen, htable⟩
      exact ⟨hfull, hopen, htable⟩
    · rintro ⟨hfull, hopen, htable⟩
      exact ⟨_, ⟨hfull, rfl⟩, hopen, htable⟩
  rw [hboth]
  refine and_congr_right fun hfull => ?_
  cases hplace : (cut true sep text).place with
  | fieldStart => exact lineEnd_record_iff (.inl hplace) e hfull
  | bare => exact lineEnd_record_iff (.inr (.inl hplace)) e hfull
  | closing => exact lineEnd_record_iff (.inr (.inr hplace)) e hfull
  | lineStart blank =>
      obtain rfl := eq_nil_of_lineStart hlast' (.inl hplace)
      exact lineEnd_alone_iff sep e
  | afterCr blank =>
      obtain rfl := eq_nil_of_lineStart hlast' (.inr hplace)
      exact lineEnd_alone_iff sep e
  | inQuotes =>
      have hopen := not_readable_of_inQuotes hplace hlast'
      exact iff_of_false (fun h => hopen h.1) (fun h => h.1 hplace)

end LastLine

section Documents

namespace Csv

/-- The last byte of a field is no line end. -/
theorem Field.WellFormed.getLast?_encode
    {sep b : Byte} {fd : Field}
    (h : fd.WellFormed sep)
    (hb : b ∈ fd.encode.getLast?) :
    ¬ endsLine true b := by
  unfold Field.encode at hb
  cases hquoted : fd.quoted with
  | true =>
      rw [hquoted, if_pos rfl, ← List.cons_append, List.getLast?_concat,
        Option.mem_some_iff] at hb
      subst hb
      decide
  | false =>
      rw [hquoted, if_neg Bool.false_ne_true] at hb
      have hmem := List.mem_of_getLast? hb
      obtain ⟨hcr, hlf, -, -⟩ := h.bare hquoted
      rintro (rfl | rfl | ⟨-, rfl⟩)
      · exact hcr hmem
      · exact hlf hmem
      · exact h.without_eof hmem

/-- The last byte of joined fields is no line end. -/
theorem getLast?_joined
    {sep b : Byte} (hsep : Separator sep)
    (fds : List Field)
    (hfields : ∀ fd ∈ fds, fd.WellFormed sep)
    (hb : b ∈ (joined sep fds).getLast?) :
    ¬ endsLine true b := by
  induction fds with
  | nil => cases hb
  | cons fd fds ih =>
      cases fds with
      | nil => exact (hfields fd (by simp)).getLast?_encode hb
      | cons fd' fds =>
          rw [joined_cons_cons, List.getLast?_append_cons] at hb
          cases hrest : joined sep (fd' :: fds) with
          | nil =>
              rw [hrest, List.getLast?_singleton, Option.mem_some_iff] at hb
              rw [← hb, ← endsRecord_iff]
              exact hsep.not_endsRecord
          | cons b' rest =>
              rw [hrest, List.getLast?_cons_cons, ← hrest] at hb
              exact ih (fun fd hfd => hfields fd (List.mem_cons_of_mem _ hfd)) hb

end Csv

variable {sep : Byte} {N : Nat} {d : Document}

/-- **The last line end is optional** exactly for a last field that is not in quotes, or that
is empty and not the first one of a data record, where the first header field begins with an
ASCII byte.  Where it does not, what is left of the text must be readable and lose nothing at
its end. -/
theorem readCSV_encodeOpen_iff
    (hsep : Separator sep)
    (h : d.WellFormed sep N) :
    (∃ t,
      readCSV (d.encode sep) sep = .ok t ∧
      readCSV (d.encodeOpen sep) sep = .ok t) ↔
      if d.AsciiStart then
        ∀ fd ∈ d.lastField,
          fd.quoted = false ∨
            (fd.content = [] ∧ 2 ≤ d.records.length ∧ 2 ≤ N)
      else
        Readable sep (asRead (d.encode sep)) ∧
          (cut true sep (asRead (d.encodeOpen sep))).LosesNothing := by
  split_ifs with hstart
  · exact readCSV_encodeOpen_asciiStart_iff hsep h hstart
  · obtain ⟨rs, r, hlast⟩ :=
      List.eq_nil_or_concat' d.records |>.resolve_left h.records_ne
    have hmem : r ∈ d.records := by simp [hlast]
    have hopen :
        d.encodeOpen sep = d.mark ++ (rs.flatMap (Record.encode sep) ++ joined sep r.fields) := by
      simp [Document.encodeOpen, hlast]
    have hfull : d.encode sep = d.encodeOpen sep ++ r.lineEnd.encode := by
      rw [hopen, Document.encode, hlast]
      simp [Record.encode]
    rw [hfull]
    refine readCSV_lineEnd_iff sep (fun b hb => ?_) r.lineEnd
    refine getLast?_joined hsep r.fields (h.fields r hmem) ?_
    rw [hopen, ← List.append_assoc,
      List.getLast?_append_of_ne_nil _ (h.not_empty r hmem)] at hb
    exact hb

theorem readCSV_encodeOpen_mixedDocument :
    (∃ t,
      readCSV (mixedDocument.encode 0x3B) 0x3B = .ok t ∧
      readCSV (mixedDocument.encodeOpen 0x3B) 0x3B = .ok t) ↔
      if mixedDocument.AsciiStart then
        ∀ fd ∈ mixedDocument.lastField,
          fd.quoted = false ∨
            (fd.content = [] ∧ 2 ≤ mixedDocument.records.length ∧ 2 ≤ 2)
      else
        Readable 0x3B (asRead (mixedDocument.encode 0x3B)) ∧
          (cut true 0x3B (asRead (mixedDocument.encodeOpen 0x3B))).LosesNothing :=
  readCSV_encodeOpen_iff (by decide) (by decide)

/-- `a`, then `"b"` in quotes as the last record. -/
def quotedLastDocument : Document where
  bom := false
  records := [⟨[⟨false, [0x61]⟩], .lf⟩, ⟨[⟨true, [0x62]⟩], .lf⟩]

/-- The text `a\n"b"` gives a table without the second record. -/
theorem readCSV_encodeOpen_quotedLast :
    Separator 0x3B ∧ quotedLastDocument.WellFormed 0x3B 1 ∧
      quotedLastDocument.AsciiStart ∧
      ¬ ∃ t,
        readCSV (quotedLastDocument.encode 0x3B) 0x3B = .ok t ∧
        readCSV (quotedLastDocument.encodeOpen 0x3B) 0x3B = .ok t := by
  refine ⟨by decide, by decide, by decide, ?_⟩
  rintro ⟨t, hfull, hopen⟩
  rw [readCSV_eq_ok_iff] at hfull hopen
  have hne :
      (scan 0x3B (quotedLastDocument.encode 0x3B)).answer ≠
        (scan 0x3B (quotedLastDocument.encodeOpen 0x3B)).answer := by
    decide
  exact hne (hfull.trans hopen.symm)

end Documents

end Bren
end Brenlib
