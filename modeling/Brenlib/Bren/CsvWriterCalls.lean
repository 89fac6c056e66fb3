import Mathlib.Data.List.TakeWhile
import Brenlib.Base.TransitionSystem
import Brenlib.Bren.CsvWriterText

/-!
# Histories of a `CsvWriter`

A client calls the methods of a writer in any order, and goes on when one of them
throws.  The sheet of a history says which fields have been accepted, through which
methods, and in which rows.

* `Call.method`: the calls.
* `CallCases`: what a call can do to a writer.
* `Session`: a writer and the sheet of its history; `Calls` is one call.
-/

namespace Brenlib
namespace Bren

open Csv

namespace CsvWriter

/-- What a client does with a writer. -/
inductive Call where
  | destination (destination_i : Option Nat)
  | header (name_i : Bytes)
  | headers (names_i : List Bytes)
  | field (field_i : Bytes)
  | fields (fields_i : List Bytes)
  | endRow
deriving DecidableEq, Repr

namespace Call

/-- The method that is called.  What it returns is dropped. -/
def method (utf8 : Utf8Cpp) : Call → Method Unit
  | .destination destination_i => CsvWriter.destination destination_i
  | .header name_i => discard (CsvWriter.header utf8 name_i)
  | .headers names_i => discard (CsvWriter.headers utf8 names_i)
  | .field field_i => discard (CsvWriter.field utf8 field_i)
  | .fields fields_i => discard (CsvWriter.fields utf8 fields_i)
  | .endRow => discard CsvWriter.endRow

/-- The fields that are handed over. -/
def contents : Call → List Bytes
  | .header name_i => [name_i]
  | .headers names_i => names_i
  | .field field_i => [field_i]
  | .fields fields_i => fields_i
  | .destination _ | .endRow => []

/-- The fields are handed over as a header. -/
def isHeader : Call → Bool
  | .header _ | .headers _ => true
  | .field _ | .fields _ | .destination _ | .endRow => false

/-- The checks that stand before the first field and before all output. -/
def Admitted (w : CsvWriter) : Call → Prop
  | .destination destination_i =>
      destination_i ≠ none ∧ (w.out_ = none ∨ destination_i = w.out_)
  | .header _ => w.out_ ≠ none ∧ w.lines_ = 0
  | .headers names_i => w.out_ ≠ none ∧ w.lines_ = 0 ∧ w.Fits names_i
  | .field _ => w.out_ ≠ none ∧ (w.settings_.forceHeader = false ∨ w.lines_ ≠ 0)
  | .fields fields_i =>
      w.out_ ≠ none ∧ (w.settings_.forceHeader = false ∨ w.lines_ ≠ 0) ∧
        w.Fits fields_i
  | .endRow =>
      w.out_ ≠ none ∧ (w.columns_ = 0 ∨ w.column_ = 0 ∨ w.column_ = w.columns_)

instance (w : CsvWriter) : (c : Call) → Decidable (c.Admitted w)
  | .destination _ => inferInstanceAs (Decidable (_ ∧ _))
  | .header _ => inferInstanceAs (Decidable (_ ∧ _))
  | .headers _ => inferInstanceAs (Decidable (_ ∧ _))
  | .field _ => inferInstanceAs (Decidable (_ ∧ _))
  | .fields _ => inferInstanceAs (Decidable (_ ∧ _))
  | .endRow => inferInstanceAs (Decidable (_ ∧ _))

end Call

section Cases

variable {utf8 : Utf8Cpp} {w : CsvWriter} {fs : List Bytes}

/-- A row of known width is never full between two calls. -/
def Open (w : CsvWriter) : Prop :=
  w.columns_ = 0 ∨ w.column_ < w.columns_

/-- The writer behind several fields of a row, with the row end if they fill it. -/
def filled (w : CsvWriter) (fs : List Bytes) : CsvWriter :=
  if fs ≠ [] ∧ w.columns_ ≠ 0 ∧ w.column_ + fs.length = w.columns_ then
    (w.afterFields fs).afterRow
  else w.afterFields fs

/-- What a call does to a writer: all of it, nothing, or the fields before one that is
refused. -/
inductive CallCases (utf8 : Utf8Cpp) (w : CsvWriter) :
    Call → EStateM.Result StdException CsvWriter Unit → Prop
  | connected
      (destination_i : Option Nat)
      (hadmitted : (Call.destination destination_i).Admitted w) :
      CallCases utf8 w (.destination destination_i)
        (.ok () { w with out_ := destination_i })
  | written
      {c : Call}
      (hadmitted : c.Admitted w)
      (hout : w.out_ ≠ none)
      (hfits : w.Fits c.contents)
      (hprint : ∀ f ∈ c.contents, Printable utf8 w.settings_ f) :
      CallCases utf8 w c (.ok () (w.filled c.contents))
  | rowEnded
      (hadmitted : Call.endRow.Admitted w)
      (hrow : w.columns_ = 0 ∨ w.column_ ≠ 0) :
      CallCases utf8 w .endRow (.ok () { w.afterRow with columns_ := w.column_ })
  | rejected
      {c : Call} {e : StdException}
      (hrejected : ¬ c.Admitted w) :
      CallCases utf8 w c (.error e w)
  | interrupted
      {c : Call} {e : StdException} {before after : List Bytes} {f : Bytes}
      (hadmitted : c.Admitted w)
      (hcontents : c.contents = before ++ f :: after)
      (hroom : w.columns_ = 0 ∨ w.column_ + before.length < w.columns_)
      (hprint : ∀ g ∈ before, Printable utf8 w.settings_ g)
      (hrefused : ¬ Printable utf8 w.settings_ f) :
      CallCases utf8 w c (.error e (w.afterFields before))

/-- Fields that fit are written up to the first one that is refused. -/
theorem forM_cases
    {method : Bytes → Method Nat}
    (hmethod : WritesLike utf8 w method)
    (hout : w.out_ ≠ none)
    (hfits : w.Fits fs) :
    ((∀ f ∈ fs, Printable utf8 w.settings_ f) ∧
      (forM fs fun f => discard (method f)).run w = .ok () (w.filled fs)) ∨
    ∃ before f after e,
      fs = before ++ f :: after ∧
      (w.columns_ = 0 ∨ w.column_ + before.length < w.columns_) ∧
      (∀ g ∈ before, Printable utf8 w.settings_ g) ∧
      ¬ Printable utf8 w.settings_ f ∧
      (forM fs fun f => discard (method f)).run w =
        .error e (w.afterFields before) := by
  by_cases hprint : ∀ f ∈ fs, Printable utf8 w.settings_ f
  · refine .inl ⟨hprint, ?_⟩
    unfold filled
    split_ifs with hfull
    · exact forM_run_last hmethod hout hprint hfull.2.2 hfull.1
    · by_cases hnil : fs = []
      · subst hnil
        rw [afterFields_nil]
        rfl
      · refine forM_run hmethod hprint ?_
        simp only [hnil, ne_eq, not_false_eq_true, true_and, not_and] at hfull
        rcases hfits with hzero | hle
        · exact .inl hzero
        · by_cases hzero : w.columns_ = 0
          · exact .inl hzero
          · have hne := hfull hzero
            omega
  · right
    cases hfind : fs.find? fun f => ¬ Printable utf8 w.settings_ f with
    | none =>
        refine absurd (fun f hf => ?_) hprint
        simpa using List.find?_eq_none.mp hfind f hf
    | some f =>
        obtain ⟨hrefused, before, after, rfl, hbefore⟩ :=
          List.find?_eq_some_iff_append.mp hfind
        replace hrefused : ¬ Printable utf8 w.settings_ f := by simpa using hrefused
        replace hbefore : ∀ g ∈ before, Printable utf8 w.settings_ g := by
          simpa using hbefore
        have hroom : w.columns_ = 0 ∨ w.column_ + before.length < w.columns_ :=
          hfits.imp id fun hle => by
            rw [List.length_append, List.length_cons] at hle
            omega
        obtain ⟨e, hrun, -⟩ := forM_refused hmethod hbefore hrefused hroom after
        exact ⟨before, f, after, e, rfl, hroom, hbefore, hrefused, hrun⟩

/-- One field is written like a list of one. -/
theorem discard_quotedField_run
    (f : Bytes) :
    (discard (quotedField_ utf8 f)).run w =
      (forM [f] fun f => discard (quotedField_ utf8 f)).run w := by
  simp only [List.forM_cons, List.forM_nil, EStateM.run_bind, run_discard,
    EStateM.run_pure]
  cases (quotedField_ utf8 f).run w <;> rfl

theorem discard_writeFields_rejected
    (utf8 : Utf8Cpp)
    (hfits : ¬ w.Fits fs) :
    ∃ e, (discard (writeFields_ utf8 fs)).run w = .error e w := by
  simp only [Fits, not_or] at hfits
  simp only [writeFields_, run_discard, EStateM.run_bind, EStateM.run_get, hfits.1,
    ne_eq, not_false_eq_true, if_true, fcet_run_throws hfits.2]
  exact ⟨_, rfl⟩

/-- The checks before the first field throw without a trace. -/
theorem call_rejected
    (utf8 : Utf8Cpp)
    {c : Call} (hrejected : ¬ c.Admitted w) :
    ∃ e, (c.method utf8).run w = .error e w := by
  cases c with
  | destination destination_i =>
      by_cases hnull : destination_i ≠ none
      · have hother : ¬ (w.out_ = none ∨ destination_i = w.out_) :=
          fun h => hrejected ⟨hnull, h⟩
        simp only [Call.method, destination, EStateM.run_bind, EStateM.run_get,
          fcet_run hnull, fcet_run_throws hother]
        exact ⟨_, rfl⟩
      · simp only [Call.method, destination, EStateM.run_bind, fcet_run_throws hnull]
        exact ⟨_, rfl⟩
  | header name_i =>
      obtain ⟨e, hcheck⟩ := checkHeader_throws hrejected
      exact ⟨e, by simp only [Call.method, header, run_discard, EStateM.run_bind, hcheck]⟩
  | field field_i =>
      obtain ⟨e, hcheck⟩ := checkField_throws hrejected
      exact ⟨e, by simp only [Call.method, field, run_discard, EStateM.run_bind, hcheck]⟩
  | headers names_i =>
      by_cases hpass : w.out_ ≠ none ∧ w.lines_ = 0
      · have hfits : ¬ w.Fits names_i := fun h => hrejected ⟨hpass.1, hpass.2, h⟩
        obtain ⟨e, hrow⟩ := discard_writeFields_rejected utf8 hfits
        refine ⟨e, ?_⟩
        rw [run_discard] at hrow
        simp only [Call.method, headers, run_discard, EStateM.run_bind,
          checkHeader_run hpass.1 hpass.2, hrow]
      · obtain ⟨e, hcheck⟩ := checkHeader_throws hpass
        exact ⟨e, by simp only [Call.method, headers, run_discard, EStateM.run_bind, hcheck]⟩
  | fields fields_i =>
      by_cases hpass : w.out_ ≠ none ∧ (w.settings_.forceHeader = false ∨ w.lines_ ≠ 0)
      · have hfits : ¬ w.Fits fields_i := fun h => hrejected ⟨hpass.1, hpass.2, h⟩
        obtain ⟨e, hrow⟩ := discard_writeFields_rejected utf8 hfits
        refine ⟨e, ?_⟩
        rw [run_discard] at hrow
        simp only [Call.method, fields, run_discard, EStateM.run_bind,
          checkField_run hpass.1 hpass.2, hrow]
      · obtain ⟨e, hcheck⟩ := checkField_throws hpass
        exact ⟨e, by simp only [Call.method, fields, run_discard, EStateM.run_bind, hcheck]⟩
  | endRow =>
      by_cases hout : w.out_ ≠ none
      · have hwidth : ¬ (w.columns_ = 0 ∨ w.column_ = 0 ∨ w.column_ = w.columns_) :=
          fun h => hrejected ⟨hout, h⟩
        simp only [not_or] at hwidth
        simp only [Call.method, endRow, run_discard, EStateM.run_bind, EStateM.run_get,
          fcet_run hout, hwidth.1, hwidth.2.1, ne_eq, not_false_eq_true, and_false,
          if_true, if_false, fcet_run_throws hwidth.2.2]
        exact ⟨_, rfl⟩
      · simp only [Call.method, endRow, run_discard, EStateM.run_bind, EStateM.run_get,
          fcet_run_throws hout]
        exact ⟨_, rfl⟩

/-- An admitted call writes its fields one behind the other. -/
theorem call_cases_of_forM
    {c : Call}
    (hadmitted : c.Admitted w)
    (hout : w.out_ ≠ none)
    (hfits : w.Fits c.contents)
    (hrun :
      (c.method utf8).run w =
        (forM c.contents fun f => discard (quotedField_ utf8 f)).run w) :
    CallCases utf8 w c ((c.method utf8).run w) := by
  rw [hrun]
  have hsame : WritesLike utf8 w (quotedField_ utf8) := fun _ _ _ _ _ => rfl
  have hcases := forM_cases hsame hout hfits
  rcases hcases with ⟨hprint, hforM⟩ |
    ⟨before, f, after, e, hcontents, hroom, hprint, hrefused, hforM⟩
  · rw [hforM]
    exact .written hadmitted hout hfits hprint
  · rw [hforM]
    exact .interrupted hadmitted hcontents hroom hprint hrefused

theorem call_cases
    (utf8 : Utf8Cpp)
    (hopen : w.Open) (c : Call) :
    CallCases utf8 w c ((c.method utf8).run w) := by
  by_cases hadmitted : c.Admitted w
  · cases c with
    | destination destination_i =>
        have hrun :
            (destination destination_i).run w =
              .ok () { w with out_ := destination_i } := by
          simp only [destination, EStateM.run_bind, fcet_run hadmitted.1,
            EStateM.run_get, fcet_run hadmitted.2, EStateM.run_set]
        rw [Call.method, hrun]
        exact .connected destination_i hadmitted
    | header name_i =>
        refine call_cases_of_forM hadmitted hadmitted.1 hopen ?_
        rw [Call.contents, ← discard_quotedField_run]
        simp only [Call.method, header, run_discard, EStateM.run_bind,
          checkHeader_run hadmitted.1 hadmitted.2]
    | headers names_i =>
        refine call_cases_of_forM hadmitted hadmitted.1 hadmitted.2.2 ?_
        rw [Call.contents, ← discard_writeFields_run hadmitted.2.2]
        simp only [Call.method, headers, run_discard, EStateM.run_bind,
          checkHeader_run hadmitted.1 hadmitted.2.1]
    | field field_i =>
        refine call_cases_of_forM hadmitted hadmitted.1 hopen ?_
        rw [Call.contents, ← discard_quotedField_run]
        simp only [Call.method, field, run_discard, EStateM.run_bind,
          checkField_run hadmitted.1 hadmitted.2]
    | fields fields_i =>
        refine call_cases_of_forM hadmitted hadmitted.1 hadmitted.2.2 ?_
        rw [Call.contents, ← discard_writeFields_run hadmitted.2.2]
        simp only [Call.method, fields, run_discard, EStateM.run_bind,
          checkField_run hadmitted.1 hadmitted.2.1]
    | endRow =>
        obtain ⟨hout, hwidth⟩ := hadmitted
        by_cases hzero : w.columns_ = 0
        · rw [Call.method, run_discard, endRow_run_first hout hzero]
          exact .rowEnded ⟨hout, hwidth⟩ (.inl hzero)
        · by_cases hcolumn : w.column_ = 0
          · have hrun : (endRow).run w = .ok w.columns_ w := by
              simp only [endRow, EStateM.run_bind, EStateM.run_get, fcet_run hout, hzero,
                hcolumn, ne_eq, not_false_eq_true, and_true, if_true, EStateM.run_pure]
            have hfits : w.Fits (Call.endRow).contents :=
              .inr (by rw [hcolumn]; exact Nat.zero_le _)
            have hidle : CallCases utf8 w .endRow (.ok () (w.filled (Call.endRow).contents)) :=
              .written ⟨hout, hwidth⟩ hout hfits (fun f hf => absurd hf List.not_mem_nil)
            rw [Call.method, run_discard, hrun]
            simpa [filled, Call.contents] using hidle
          · have hfull := (hwidth.resolve_left hzero).resolve_left hcolumn
            have hended : CallCases utf8 w .endRow _ := .rowEnded ⟨hout, hwidth⟩ (.inr hcolumn)
            rw [Call.method, run_discard, endRow_run hout hcolumn hfull]
            rw [hfull] at hended
            exact hended
  · obtain ⟨e, hrun⟩ := call_rejected utf8 hadmitted
    rw [hrun]
    exact .rejected hadmitted

end Cases

section History

/-- A field in the output, handed over as a header or not. -/
structure Entry where
  header : Bool
  content : Bytes
deriving DecidableEq, Repr

/-- What has been accepted: the complete rows, and the fields of the row begun. -/
structure Sheet where
  rows : List (List Entry)
  current : List Entry
deriving DecidableEq, Repr

namespace Sheet

def empty : Sheet :=
  { rows := [], current := [] }

/-- All fields in the order in which they were accepted. -/
def entries (sheet : Sheet) : List Entry :=
  sheet.rows.flatten ++ sheet.current

/-- More fields of the row begun, which may end it. -/
def add (sheet : Sheet) (es : List Entry) (ended : Bool) : Sheet :=
  if ended then { rows := sheet.rows ++ [sheet.current ++ es], current := [] }
  else { sheet with current := sheet.current ++ es }

/-- The bytes of a sheet: its complete rows with their line ends, and the fields of the
row begun with separators between them. -/
def text (settings : CsvSettings) (sheet : Sheet) : Bytes :=
  (sheet.rows.flatMap fun row =>
    (recordOf settings (row.map Entry.content)).encode settings.fieldSep) ++
  joined settings.fieldSep
    ((sheet.current.map Entry.content).map (fieldOf settings))

@[simp] theorem entries_add
    (sheet : Sheet) (es : List Entry) (ended : Bool) :
    (sheet.add es ended).entries = sheet.entries ++ es := by
  cases ended <;> simp [add, entries]

/-- Fields that do not end their row are joined to those before them. -/
theorem text_add
    (settings : CsvSettings) (sheet : Sheet) (es : List Entry) :
    (sheet.add es false).text settings =
      sheet.text settings ++
        if sheet.current = [] then
          joined settings.fieldSep ((es.map Entry.content).map (fieldOf settings))
        else
          following settings.fieldSep ((es.map Entry.content).map (fieldOf settings)) := by
  simp only [text, add, Bool.false_eq_true, if_false, List.map_append]
  split_ifs with hnil
  · simp [hnil, joined]
  · have hne : (sheet.current.map Entry.content).map (fieldOf settings) ≠ [] := by
      simpa using hnil
    rw [joined_append hne, List.append_assoc]

/-- The end of a row adds a line end. -/
theorem text_add_ended
    (settings : CsvSettings) (sheet : Sheet) (es : List Entry) :
    (sheet.add es true).text settings =
      (sheet.add es false).text settings ++ (lineEndOf settings).encode := by
  simp [text, add, recordOf, Record.encode, joined]

end Sheet

/-- A writer and what its history has made it accept. -/
structure Session where
  writer : CsvWriter
  sheet : Sheet
deriving DecidableEq, Repr

/-- A new writer. -/
def Session.init (settings : CsvSettings) : Session :=
  { writer := CsvWriter.init settings, sheet := .empty }

/-- The fields that a call accepts: those before the first one that is refused, if the
checks of the call pass. -/
def Call.accepted (utf8 : Utf8Cpp) (w : CsvWriter) (c : Call) : List Entry :=
  if c.Admitted w then
    (c.contents.takeWhile fun f => Printable utf8 w.settings_ f).map (Entry.mk c.isHeader)
  else []

/-- The session behind a call, whether it returns or throws.  The row ends when the
writer counts a line. -/
def Session.call (utf8 : Utf8Cpp) (s : Session) (c : Call) : Session :=
  let writer := stateOf ((c.method utf8).run s.writer)
  { writer := writer
    sheet := s.sheet.add (c.accepted utf8 s.writer) (writer.lines_ ≠ s.writer.lines_) }

/-- One call as a step. -/
def Calls (utf8 : Utf8Cpp) (s : Session) (c : Call) (t : Session) : Prop :=
  s.call utf8 c = t

/-- All fields that a list of calls accepts. -/
def acceptedBy (utf8 : Utf8Cpp) (s : Session) : List Call → List Entry
  | [] => []
  | c :: calls => c.accepted utf8 s.writer ++ acceptedBy utf8 (s.call utf8 c) calls

variable {utf8 : Utf8Cpp} {w : CsvWriter} {c : Call}

theorem accepted_of_all
    (hadmitted : c.Admitted w)
    (hprint : ∀ f ∈ c.contents, Printable utf8 w.settings_ f) :
    c.accepted utf8 w = c.contents.map (Entry.mk c.isHeader) := by
  rw [Call.accepted, if_pos hadmitted, List.takeWhile_eq_self_iff.mpr]
  simpa using hprint

theorem accepted_of_refused
    {before after : List Bytes} {f : Bytes}
    (hadmitted : c.Admitted w)
    (hcontents : c.contents = before ++ f :: after)
    (hprint : ∀ g ∈ before, Printable utf8 w.settings_ g)
    (hrefused : ¬ Printable utf8 w.settings_ f) :
    c.accepted utf8 w = before.map (Entry.mk c.isHeader) := by
  rw [Call.accepted, if_pos hadmitted, hcontents, List.takeWhile_append_of_pos]
  · simp [hrefused]
  · simpa using hprint

theorem accepted_of_rejected
    (hrejected : ¬ c.Admitted w) :
    c.accepted utf8 w = [] :=
  if_neg hrejected

/-- A call that returns has accepted all its fields. -/
theorem accepted_of_returns
    {w' : CsvWriter}
    (hopen : w.Open)
    (hrun : (c.method utf8).run w = .ok () w') :
    c.Admitted w ∧ c.accepted utf8 w = c.contents.map (Entry.mk c.isHeader) := by
  have hcases := call_cases utf8 hopen c
  rw [hrun] at hcases
  cases hcases with
  | connected destination_i hadmitted =>
      exact ⟨hadmitted, accepted_of_all hadmitted (fun f hf => absurd hf List.not_mem_nil)⟩
  | written hadmitted hout hfits hprint =>
      exact ⟨hadmitted, accepted_of_all hadmitted hprint⟩
  | rowEnded hadmitted hrow =>
      exact ⟨hadmitted, accepted_of_all hadmitted (fun f hf => absurd hf List.not_mem_nil)⟩

end History

end CsvWriter

end Bren
end Brenlib
