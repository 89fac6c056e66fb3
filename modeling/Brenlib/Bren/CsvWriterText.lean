import Brenlib.Base.WhileLoop
import Brenlib.Bren.CsvText
import Brenlib.Bren.CsvWriter

/-!
# What `CsvWriter` writes

The text printed for a field is an encoding of the field as it is described in
`CsvText` (`toPrint_eq`), so the bytes written for a row are those of a record.

**Results.**
* `doubleQuote_eq`: the loop of `doubleQuote_` doubles every quote; `doubleQuote_doubles`
  also says behind how many iterations it is left.
* `quotedField_run`, `quotedField_run_last` and `quotedField_refused`: what one field
  does to the writer, inside a row, as its last field, and when it is refused.
* `forM_run`, `forM_run_last` and `forM_refused`: the same for several fields.
-/

namespace Brenlib
namespace Bren

open Csv Loops

namespace CsvWriter

section DoubleQuote

theorem doubled_of_no_quote
    {s : Bytes} (h : ∀ b ∈ s, b ≠ Byte.quote) :
    doubled s = s := by
  induction s with
  | nil =>
      rfl
  | cons b s ih =>
      rw [doubled_cons, if_neg (h b (by simp)), ih fun c hc => h c (by simp [hc])]
      rfl

theorem doubled_append
    (s s' : Bytes) :
    doubled (s ++ s') = doubled s ++ doubled s' := by
  simp [doubled]

theorem insertIdx_length_append
    (before after : Bytes) (b : Byte) :
    (before ++ after).insertIdx before.length b = before ++ b :: after := by
  induction before with
  | nil =>
      rfl
  | cons c before ih =>
      simpa using ih

/-- One iteration of the loop of `doubleQuote_`, on `rv` and `pos`. -/
def doubleQuoteIteration (σ : Bytes × Nat) : Option (Bytes × Nat) :=
  (find σ.1 Byte.quote σ.2).map fun p =>
    (σ.1.insertIdx (p + 1) Byte.quote, p + 2)

/-- An iteration goes on behind the two quotes, and has not touched what follows. -/
theorem doubleQuoteIteration_next
    {mid : Bytes} (hmid : Byte.quote ∉ mid) (before rest : Bytes) :
    doubleQuoteIteration (before ++ (mid ++ Byte.quote :: rest), before.length) =
      some ((before ++ mid ++ [Byte.quote, Byte.quote]) ++ rest,
        (before ++ mid ++ [Byte.quote, Byte.quote]).length) := by
  have hidx :
      before.length + mid.length + 1 = (before ++ mid ++ [Byte.quote]).length := by
    simp [Nat.add_assoc]
  have happend :
      before ++ (mid ++ Byte.quote :: rest) =
        (before ++ mid ++ [Byte.quote]) ++ rest := by
    simp
  rw [doubleQuoteIteration, find_append hmid, Option.map_some, hidx, happend,
    insertIdx_length_append]
  simp [Nat.add_assoc]

theorem doubleQuoteFrom_of_finishes
    {σ τ : Bytes × Nat} {n : Nat}
    (h : Finishes doubleQuoteIteration σ n τ) :
    doubleQuoteFrom σ.1 σ.2 = τ.1 := by
  obtain ⟨hiter, hleft⟩ := h
  induction hiter with
  | zero σ =>
      rw [doubleQuoteFrom]
      rw [doubleQuoteIteration, Option.map_eq_none_iff] at hleft
      split
      · rfl
      · next p hp =>
        rw [hleft] at hp
        cases hp
  | succ hbody hrest ih =>
      rw [← ih hleft, doubleQuoteFrom]
      obtain ⟨p, hp, rfl⟩ := Option.map_eq_some_iff.mp hbody
      split
      · next hnone =>
        rw [hp] at hnone
        cases hnone
      · next q hq =>
        rw [hp, Option.some.injEq] at hq
        rw [hq]

/-- The loop has doubled the quotes of what is before its position; it goes on with the
rest, once for every quote. -/
theorem doubleQuote_finishes
    (before s : Bytes) :
    ∃ pos,
      Finishes doubleQuoteIteration (before ++ s, before.length) (s.count Byte.quote)
        (before ++ doubled s, pos) := by
  induction hn : s.length using Nat.strong_induction_on generalizing before s with
  | _ n ih =>
      by_cases hquote : Byte.quote ∈ s
      · obtain ⟨mid, rest, rfl, hmid⟩ := List.eq_append_cons_of_mem hquote
        have hrest : rest.length < n := by
          rw [← hn, List.length_append, List.length_cons]
          omega
        obtain ⟨pos, hfinishes⟩ :=
          ih rest.length hrest (before ++ mid ++ [Byte.quote, Byte.quote]) rest rfl
        have hcount :
            (mid ++ Byte.quote :: rest).count Byte.quote = rest.count Byte.quote + 1 := by
          rw [List.count_append, List.count_eq_zero.mpr hmid, List.count_cons_self,
            Nat.zero_add]
        have hdoubled :
            before ++ doubled (mid ++ Byte.quote :: rest) =
              before ++ mid ++ [Byte.quote, Byte.quote] ++ doubled rest := by
          rw [doubled_append, doubled_cons, if_pos rfl,
            doubled_of_no_quote fun b hb h => hmid (h ▸ hb)]
          simp
        rw [hcount, hdoubled]
        exact ⟨pos, .succ (doubleQuoteIteration_next hmid before rest) hfinishes⟩
      · rw [List.count_eq_zero.mpr hquote,
          doubled_of_no_quote fun b hb h => hquote (h ▸ hb)]
        refine ⟨before.length, .zero ?_⟩
        rw [doubleQuoteIteration, find_append_eq_none hquote, Option.map_none]

/-- `doubleQuote_` doubles every quote and keeps everything else. -/
theorem doubleQuote_eq
    (s : Bytes) :
    doubleQuote_ s = doubled s := by
  obtain ⟨pos, hfinishes⟩ := doubleQuote_finishes [] s
  exact doubleQuoteFrom_of_finishes hfinishes

theorem length_doubled
    (s : Bytes) :
    (doubled s).length = s.length + s.count Byte.quote := by
  induction s with
  | nil =>
      rfl
  | cons b s ih =>
      rw [doubled_cons, List.length_append, ih, List.length_cons]
      by_cases hb : b = Byte.quote
      · rw [if_pos hb, hb, List.count_cons_self, List.length_cons, List.length_singleton]
        omega
      · rw [if_neg hb, List.count_cons_of_ne hb, List.length_singleton]
        omega

theorem doubled_injective :
    Function.Injective doubled := by
  intro s
  induction s with
  | nil =>
      intro s' h
      cases s' with
      | nil =>
          rfl
      | cons b s' =>
          rw [doubled_nil, doubled_cons] at h
          split_ifs at h <;> cases h
  | cons b s ih =>
      intro s' h
      cases s' with
      | nil =>
          rw [doubled_nil, doubled_cons] at h
          split_ifs at h <;> cases h
      | cons b' s' =>
          -- the first byte says which of the two pieces is in front
          rw [doubled_cons, doubled_cons] at h
          have hfirst : b = b' := by
            have hhead := congrArg List.head? h
            split_ifs at hhead with hb hb' hb' <;> simp_all
          subst hfirst
          rw [ih (List.append_cancel_left h)]

/-- **`doubleQuote_` doubles every quote and stops.**  Its loop is left behind one
iteration for every quote of the string. -/
theorem doubleQuote_doubles
    (s : Bytes) :
    (∃ pos, Finishes doubleQuoteIteration (s, 0) (s.count Byte.quote)
      (doubleQuote_ s, pos)) ∧
    doubleQuote_ s = doubled s ∧
    (doubleQuote_ s).length = s.length + s.count Byte.quote ∧
    ∀ s', doubleQuote_ s' = doubleQuote_ s → s' = s := by
  obtain ⟨pos, hfinishes⟩ := doubleQuote_finishes [] s
  simp only [doubleQuote_eq]
  exact ⟨⟨pos, hfinishes⟩, trivial, length_doubled s, fun s' h => doubled_injective h⟩

end DoubleQuote

section Field

variable {settings : CsvSettings} {f : Bytes}

/-- The field contains a byte that calls for quotes. -/
def NeedsQuotes (settings : CsvSettings) (f : Bytes) : Prop :=
  ∃ b ∈ f, b ∈ [Byte.cr, Byte.lf, settings.fieldSep, Byte.quote]

instance (settings : CsvSettings) (f : Bytes) : Decidable (NeedsQuotes settings f) :=
  inferInstanceAs (Decidable (∃ b ∈ f, _))

/-- The field contains a byte that may not stand outside quotes. -/
def MandatoryQuoting (settings : CsvSettings) (f : Bytes) : Prop :=
  ∃ b ∈ f, b ∈ [Byte.cr, Byte.lf, settings.fieldSep]

instance (settings : CsvSettings) (f : Bytes) :
    Decidable (MandatoryQuoting settings f) :=
  inferInstanceAs (Decidable (∃ b ∈ f, _))

theorem MandatoryQuoting.of_mem
    {b : Byte} (hb : b ∈ f) (hbad : b ∈ [Byte.cr, Byte.lf, settings.fieldSep]) :
    MandatoryQuoting settings f :=
  ⟨b, hb, hbad⟩

/-- The field with the encoding that the settings ask for. -/
def fieldOf (settings : CsvSettings) (f : Bytes) : Field where
  quoted :=
    settings.quoting = .always ∨ (settings.quoting = .needed ∧ NeedsQuotes settings f)
  content := f

theorem mem_doubled
    {b : Byte} {s : Bytes} :
    b ∈ doubled s ↔ b ∈ s := by
  induction s with
  | nil =>
      rfl
  | cons c s ih =>
      rw [doubled_cons, List.mem_append, ih, List.mem_cons]
      split_ifs with hc <;> simp [hc]

theorem findFirstOf_ne_none_iff
    {s bad : Bytes} :
    findFirstOf s bad ≠ none ↔ ∃ b ∈ s, b ∈ bad := by
  rw [← Option.isSome_iff_ne_none, findFirstOf_isSome_iff]

/-- The text printed for a field is its encoding. -/
theorem toPrint_eq
    (hbare : settings.quoting = .never → ¬ MandatoryQuoting settings f) :
    toPrint settings f = .ok (fieldOf settings f).encode := by
  unfold toPrint
  cases hq : settings.quoting with
  | never =>
      have hnone : findFirstOf f [Byte.cr, Byte.lf, settings.fieldSep] = none := by
        by_contra hsome
        exact hbare hq (findFirstOf_ne_none_iff.mp hsome)
      simp [hnone, fieldOf, hq, Field.encode]
  | always =>
      simp [fieldOf, hq, Field.encode, doubleQuote_eq]
  | needed =>
      have hneeds :
          findFirstOf (doubled f)
                ([Byte.cr, Byte.lf, settings.fieldSep] ++ [Byte.quote]) ≠ none ↔
            NeedsQuotes settings f := by
        rw [findFirstOf_ne_none_iff]
        simp only [mem_doubled, NeedsQuotes]
        rfl
      simp only [doubleQuote_eq]
      by_cases hneed : NeedsQuotes settings f
      · rw [if_pos (hneeds.mpr hneed)]
        simp [fieldOf, hneed, hq, Field.encode]
      · rw [if_neg (mt hneeds.mp hneed)]
        have hnoquote : ∀ b ∈ f, b ≠ Byte.quote := fun b hb h =>
          hneed ⟨b, hb, by simp [h]⟩
        simp [fieldOf, hneed, hq, Field.encode, doubled_of_no_quote hnoquote]

/-- Without quoting, a field that calls for quotes is refused. -/
theorem toPrint_refused
    [Raising] (hquoting : settings.quoting = .never)
    (hbad : MandatoryQuoting settings f) :
    ∃ what, toPrint settings f = .error (Raising.raised .runtimeError what) := by
  have hsome : findFirstOf f [Byte.cr, Byte.lf, settings.fieldSep] ≠ none :=
    findFirstOf_ne_none_iff.mpr hbad
  obtain ⟨pos, hpos⟩ := Option.ne_none_iff_exists'.mp hsome
  simp [toPrint, hquoting, hpos]

/-- A field of valid UTF-8 is written in a well-formed encoding, without quoting if it
can be told from what surrounds it. -/
theorem fieldOf_wellFormed
    (hvalid : ∃ cs, f = Utf8.encode cs)
    (hbare :
      settings.quoting = .never →
        ¬ MandatoryQuoting settings f ∧ f.head? ≠ some Byte.quote) :
    (fieldOf settings f).WellFormed settings.fieldSep where
  without_eof := by
    obtain ⟨cs, rfl⟩ := hvalid
    intro heof
    have hlt := Utf8.toNat_lt_of_mem_encode heof
    exact absurd hlt (by decide)
  bare := by
    intro hquoted
    have hplain : ¬ MandatoryQuoting settings f ∧ f.head? ≠ some Byte.quote := by
      cases hq : settings.quoting with
      | never =>
          exact hbare hq
      | always =>
          simp [fieldOf, hq] at hquoted
      | needed =>
          have hneed : ¬ NeedsQuotes settings f := by
            simpa [fieldOf, hq] using hquoted
          refine ⟨?_, ?_⟩
          · rintro ⟨b, hb, hbad⟩
            exact hneed ⟨b, hb, List.mem_append_left [Byte.quote] hbad⟩
          · intro hhead
            exact hneed ⟨_, List.mem_of_mem_head? hhead, by simp⟩
    obtain ⟨hbad, hhead⟩ := hplain
    have hnot {b : Byte}
        (hb : b ∈ [Byte.cr, Byte.lf, settings.fieldSep]) :
        b ∉ f := fun hmem => hbad (.of_mem hmem hb)
    exact ⟨hnot (by simp), hnot (by simp), hnot (by simp), hhead⟩

/-- The field passes the checks of `quotedField_`. -/
def Printable (utf8 : Utf8Cpp) (settings : CsvSettings) (f : Bytes) : Prop :=
  utf8.is_valid f = true ∧
    (settings.quoting = .never → ¬ MandatoryQuoting settings f)

instance (utf8 : Utf8Cpp) (settings : CsvSettings) (f : Bytes) :
    Decidable (Printable utf8 settings f) :=
  inferInstanceAs (Decidable (_ ∧ _))

end Field

section Fields

variable {utf8 : Utf8Cpp} {w : CsvWriter} {f : Bytes}

/-- The line end that the settings ask for. -/
def lineEndOf (settings : CsvSettings) : LineEnd :=
  if settings.carriageReturn then .crlf else .lf

theorem encode_lineEndOf
    (settings : CsvSettings) :
    (lineEndOf settings).encode =
      if settings.carriageReturn then [Byte.cr, Byte.lf] else [Byte.lf] := by
  unfold lineEndOf
  split <;> rfl

/-- The record that is written for a row. -/
def recordOf (settings : CsvSettings) (row : List Bytes) : Record where
  fields := row.map (fieldOf settings)
  lineEnd := lineEndOf settings

/-- Fields behind others in a row: a separator before each of them. -/
def following (sep : Byte) (fds : List Field) : Bytes :=
  fds.flatMap fun fd => sep :: fd.encode

/-- What is written for the next fields of a row. -/
def nextFields (w : CsvWriter) (fs : List Bytes) : Bytes :=
  if w.column_ = 0 then
    joined w.settings_.fieldSep (fs.map (fieldOf w.settings_))
  else
    following w.settings_.fieldSep (fs.map (fieldOf w.settings_))

theorem joined_cons
    (sep : Byte) (fd : Field) (fds : List Field) :
    joined sep (fd :: fds) = fd.encode ++ following sep fds := by
  induction fds generalizing fd with
  | nil =>
      simp [joined, following]
  | cons fd' fds ih =>
      rw [joined_cons_cons, ih]
      simp [following]

theorem joined_append
    {sep : Byte} {fds : List Field} (hne : fds ≠ []) (fds' : List Field) :
    joined sep (fds ++ fds') = joined sep fds ++ following sep fds' := by
  obtain ⟨fd, fds, rfl⟩ := List.exists_cons_of_ne_nil hne
  simp [joined_cons, following]

/-- The writer behind a field that is not the last one of its row. -/
def afterField (w : CsvWriter) (f : Bytes) : CsvWriter :=
  { w with
    column_ := w.column_ + 1
    output := w.output ++ w.nextFields [f] }

/-- The writer behind the end of a row. -/
def afterRow (w : CsvWriter) : CsvWriter :=
  { w with
    column_ := 0
    lines_ := w.lines_ + 1
    output := w.output ++ (lineEndOf w.settings_).encode }

/-- The next fields are written one behind the other. -/
theorem nextFields_cons
    (w : CsvWriter) (f : Bytes) (fs : List Bytes) :
    w.nextFields (f :: fs) = w.nextFields [f] ++ (w.afterField f).nextFields fs := by
  have hcolumn : ¬ (w.afterField f).column_ = 0 := Nat.succ_ne_zero _
  unfold nextFields
  rw [if_neg hcolumn]
  split_ifs
  · simp [joined_cons, following, afterField]
  · simp [following, afterField]

/-- Ending a row of the known width. -/
theorem endRow_run
    (hout : w.out_ ≠ none)
    (hcolumn : w.column_ ≠ 0)
    (hwidth : w.column_ = w.columns_) :
    (endRow).run w = .ok w.columns_ w.afterRow := by
  have hcolumns : w.columns_ ≠ 0 := hwidth ▸ hcolumn
  simp [endRow, hout, hcolumns, hwidth, write, afterRow, encode_lineEndOf]

/-- Ending the first row fixes the width. -/
theorem endRow_run_first
    (hout : w.out_ ≠ none)
    (hwidth : w.columns_ = 0) :
    (endRow).run w =
      .ok w.column_ { w.afterRow with columns_ := w.column_ } := by
  simp [endRow, hout, hwidth, write, afterRow, encode_lineEndOf]

/-- The checks of `field` and `fields` pass. -/
theorem checkField_run
    (hout : w.out_ ≠ none)
    (hheader : w.settings_.forceHeader = false ∨ w.lines_ ≠ 0) :
    (checkField).run w = .ok () w := by
  simp [checkField, hout, hheader]

theorem checkField_throws
    (h : ¬ (w.out_ ≠ none ∧ (w.settings_.forceHeader = false ∨ w.lines_ ≠ 0))) :
    ∃ e, (checkField).run w = .error e w := by
  by_cases hout : w.out_ ≠ none
  · have hheader : ¬ (w.settings_.forceHeader = false ∨ w.lines_ ≠ 0) :=
      fun hheader => h ⟨hout, hheader⟩
    simp only [checkField, EStateM.run_bind, EStateM.run_get, fcet_run hout,
      fcet_run_throws hheader]
    exact ⟨_, rfl⟩
  · simp only [checkField, EStateM.run_bind, EStateM.run_get, fcet_run_throws hout]
    exact ⟨_, rfl⟩

/-- The checks of `header` and `headers` pass. -/
theorem checkHeader_run
    (hout : w.out_ ≠ none)
    (hlines : w.lines_ = 0) :
    (checkHeader).run w = .ok () w := by
  simp [checkHeader, hout, hlines]

theorem checkHeader_throws
    (h : ¬ (w.out_ ≠ none ∧ w.lines_ = 0)) :
    ∃ e, (checkHeader).run w = .error e w := by
  by_cases hout : w.out_ ≠ none
  · have hlines : ¬ w.lines_ = 0 := fun hlines => h ⟨hout, hlines⟩
    simp only [checkHeader, EStateM.run_bind, EStateM.run_get, fcet_run hout,
      fcet_run_throws hlines]
    exact ⟨_, rfl⟩
  · simp only [checkHeader, EStateM.run_bind, EStateM.run_get, fcet_run_throws hout]
    exact ⟨_, rfl⟩

section Single

variable (hprint : Printable utf8 w.settings_ f)
include hprint

/-- Printing a field, up to the question whether it is the last one. -/
theorem quotedField_run_eq :
    (quotedField_ utf8 f).run w =
      if w.columns_ ≠ 0 ∧ w.column_ + 1 = w.columns_ then
        (endRow).run (w.afterField f)
      else .ok (w.column_ + 1) (w.afterField f) := by
  have htext := toPrint_eq hprint.2
  have hvalid := hprint.1
  by_cases hcolumn : w.column_ = 0
  · have hnext : w.nextFields [f] = (fieldOf w.settings_ f).encode := by
      simp [nextFields, hcolumn, joined]
    simp only [quotedField_, afterField, hnext]
    simp [hvalid, htext, hcolumn, write]
    split <;> rfl
  · have hnext :
        w.nextFields [f] =
          w.settings_.fieldSep :: (fieldOf w.settings_ f).encode := by
      simp [nextFields, hcolumn, following]
    simp only [quotedField_, afterField, hnext]
    simp [hvalid, htext, hcolumn, write]
    split <;> rfl

/-- A field inside a row. -/
theorem quotedField_run
    (hroom : w.columns_ = 0 ∨ w.column_ + 1 < w.columns_) :
    (quotedField_ utf8 f).run w = .ok (w.column_ + 1) (w.afterField f) := by
  rw [quotedField_run_eq hprint, if_neg (by omega)]

/-- The last field of a row ends the row. -/
theorem quotedField_run_last
    (hout : w.out_ ≠ none)
    (hlast : w.column_ + 1 = w.columns_) :
    (quotedField_ utf8 f).run w = .ok w.columns_ (w.afterField f).afterRow := by
  rw [quotedField_run_eq hprint, if_pos (by omega)]
  exact endRow_run hout (Nat.succ_ne_zero _) hlast

omit hprint in
/-- Without quoting, a field that calls for quotes is refused before anything is written. -/
theorem quotedField_raises
    [Raising] (hvalid : utf8.is_valid f = true)
    (hquoting : w.settings_.quoting = .never)
    (hbad : MandatoryQuoting w.settings_ f) :
    ∃ what, (quotedField_ utf8 f).run w = .error (Raising.raised .runtimeError what) w := by
  obtain ⟨what, htext⟩ := toPrint_refused hquoting hbad
  refine ⟨what, ?_⟩
  simp [quotedField_, hvalid, htext]

omit hprint in
/-- A field that is refused leaves the writer as it was. -/
theorem quotedField_refused
    (hrefused : ¬ Printable utf8 w.settings_ f) :
    ∃ e,
      (quotedField_ utf8 f).run w = .error e w ∧
      (utf8.is_valid f = true → e.kind = .runtimeError) := by
  by_cases hvalid : utf8.is_valid f = true
  · have hbad : w.settings_.quoting = .never ∧ MandatoryQuoting w.settings_ f := by
      simpa [Printable, hvalid] using hrefused
    obtain ⟨what, hrun⟩ := quotedField_raises hvalid hbad.1 hbad.2
    exact ⟨⟨.runtimeError, what⟩, hrun, fun _ => rfl⟩
  · obtain ⟨what, hrun⟩ :
        ∃ what, (quotedField_ utf8 f).run w = .error ⟨.invalidArgument, what⟩ w := by
      simp only [quotedField_, EStateM.run_bind, EStateM.run_get, fcet_run_throws hvalid]
      exact ⟨_, rfl⟩
    exact ⟨_, hrun, fun h => absurd h hvalid⟩

end Single

section Several

/-- The method prints a field like `quotedField_`, until the row has ended. -/
def WritesLike (utf8 : Utf8Cpp) (w : CsvWriter) (method : Bytes → Method Nat) : Prop :=
  ∀ (f : Bytes) (w' : CsvWriter),
    w'.out_ = w.out_ → w'.lines_ = w.lines_ → w'.settings_ = w.settings_ →
      (method f).run w' = (quotedField_ utf8 f).run w'

/-- The writer behind several fields of a row. -/
def afterFields (w : CsvWriter) (fs : List Bytes) : CsvWriter :=
  { w with
    column_ := w.column_ + fs.length
    output := w.output ++ w.nextFields fs }

theorem afterFields_cons
    (w : CsvWriter) (f : Bytes) (fs : List Bytes) :
    (w.afterField f).afterFields fs = w.afterFields (f :: fs) := by
  have hcount : w.column_ + 1 + fs.length = w.column_ + (fs.length + 1) := by
    omega
  simp only [afterFields, afterField, List.length_cons, hcount,
    nextFields_cons w f fs, List.append_assoc]

@[simp] theorem afterFields_nil
    (w : CsvWriter) :
    w.afterFields [] = w := by
  simp [afterFields, nextFields, joined, following]

variable {method : Bytes → Method Nat}

/-- The first of several fields, with another field or a free row behind it. -/
theorem forM_cons_run
    (hmethod : WritesLike utf8 w method)
    {f : Bytes}
    (hprint : Printable utf8 w.settings_ f)
    (hroom : w.columns_ = 0 ∨ w.column_ + 1 < w.columns_)
    (fs : List Bytes) :
    (forM (f :: fs) fun f => discard (method f)).run w =
      (forM fs fun f => discard (method f)).run (w.afterField f) := by
  have hfirst :
      (method f).run w = .ok (w.column_ + 1) (w.afterField f) := by
    rw [hmethod f w rfl rfl rfl]
    exact quotedField_run hprint hroom
  rw [List.forM_cons, EStateM.run_bind, run_discard, hfirst]

/-- Several fields inside a row. -/
theorem forM_run
    (hmethod : WritesLike utf8 w method)
    {fs : List Bytes}
    (hprint : ∀ f ∈ fs, Printable utf8 w.settings_ f)
    (hroom : w.columns_ = 0 ∨ w.column_ + fs.length < w.columns_) :
    (forM fs fun f => discard (method f)).run w = .ok () (w.afterFields fs) := by
  induction fs generalizing w with
  | nil =>
      rw [afterFields_nil]
      rfl
  | cons f fs ih =>
      rw [List.length_cons] at hroom
      rw [forM_cons_run hmethod (hprint f (by simp)) (by omega), ← afterFields_cons]
      refine ih (w := w.afterField f) hmethod (fun g hg => hprint g (by simp [hg])) ?_
      exact hroom.imp id fun h => by
        change w.column_ + 1 + fs.length < w.columns_
        omega

/-- The fields before one that is refused are written. -/
theorem forM_refused
    (hmethod : WritesLike utf8 w method)
    {before : List Bytes} {f : Bytes}
    (hprint : ∀ g ∈ before, Printable utf8 w.settings_ g)
    (hrefused : ¬ Printable utf8 w.settings_ f)
    (hroom : w.columns_ = 0 ∨ w.column_ + before.length < w.columns_)
    (after : List Bytes) :
    ∃ e,
      (forM (before ++ f :: after) fun f => discard (method f)).run w =
        .error e (w.afterFields before) ∧
      (utf8.is_valid f = true → e.kind = .runtimeError) := by
  obtain ⟨e, hrun, hkind⟩ :=
    quotedField_refused (w := w.afterFields before) hrefused
  have hfield : (method f).run (w.afterFields before) = .error e (w.afterFields before) := by
    rw [hmethod f (w.afterFields before) rfl rfl rfl]
    exact hrun
  refine ⟨e, ?_, hkind⟩
  rw [List.forM_append, EStateM.run_bind, forM_run hmethod hprint hroom]
  simp only [List.forM_cons, EStateM.run_bind, run_discard, hfield]

/-- The fields up to the end of a row. -/
theorem forM_run_last
    (hmethod : WritesLike utf8 w method)
    (hout : w.out_ ≠ none)
    {fs : List Bytes}
    (hprint : ∀ f ∈ fs, Printable utf8 w.settings_ f)
    (hlast : w.column_ + fs.length = w.columns_)
    (hne : fs ≠ []) :
    (forM fs fun f => discard (method f)).run w =
      .ok () (w.afterFields fs).afterRow := by
  induction fs generalizing w with
  | nil =>
      exact absurd rfl hne
  | cons f fs ih =>
      rw [List.length_cons] at hlast
      by_cases hnil : fs = []
      · subst hnil
        have hrow :
            (method f).run w = .ok w.columns_ (w.afterField f).afterRow := by
          rw [hmethod f w rfl rfl rfl]
          exact quotedField_run_last (hprint f (by simp)) hout hlast
        rw [List.forM_cons, EStateM.run_bind, run_discard, hrow]
        rfl
      · have hpos : 0 < fs.length := List.length_pos_iff.mpr hnil
        rw [forM_cons_run hmethod (hprint f (by simp)) (by omega),
          ← afterFields_cons]
        refine ih (w := w.afterField f) hmethod hout
          (fun g hg => hprint g (by simp [hg])) ?_ hnil
        change w.column_ + 1 + fs.length = w.columns_
        omega

/-- The fields fit into the row, if its width is known. -/
def Fits (w : CsvWriter) (fs : List Bytes) : Prop :=
  w.columns_ = 0 ∨ w.column_ + fs.length ≤ w.columns_

instance (w : CsvWriter) (fs : List Bytes) : Decidable (w.Fits fs) :=
  inferInstanceAs (Decidable (_ ∨ _))

/-- Fields that fit are written one by one. -/
theorem discard_writeFields_run
    {fs : List Bytes}
    (hfits : w.Fits fs) :
    (discard (writeFields_ utf8 fs)).run w =
      (forM fs fun f => discard (quotedField_ utf8 f)).run w := by
  by_cases hzero : w.columns_ = 0
  · simp only [writeFields_, run_discard, EStateM.run_bind, EStateM.run_get, hzero,
      ne_eq, not_true_eq_false, if_false, EStateM.run_pure]
    cases (forM fs fun f => discard (quotedField_ utf8 f)).run w <;> rfl
  · have hle := hfits.resolve_left hzero
    simp only [writeFields_, run_discard, EStateM.run_bind, EStateM.run_get, hzero,
      ne_eq, not_false_eq_true, if_true, fcet_run hle, EStateM.run_pure]
    cases (forM fs fun f => discard (quotedField_ utf8 f)).run w <;> rfl

end Several

end Fields

end CsvWriter

end Bren
end Brenlib
