import Brenlib.Bren.CsvRecords
import Brenlib.Bren.ReadCSVDecoding

/-!
# The defects for which `readCSV` rejects a text

The reader skips some bytes at the start of a text; `asRead` is what is left.  Of this it
answers with the table of its records, unless

* there is an empty line that is not the last one, a record with more fields than the
  header, or a byte `0xFF` in quotes, in a part within the limits of a table (`Broken`);
* all of it is within the limits and ends in quotes, with another byte than `\r`
  (`LeftOpen`);
* it exceeds the limits.

In the first two cases it throws `std::runtime_error`, in the last one
`std::out_of_range`.

**Results.**
* `readCSV_eq_runtimeError_iff`: the first two cases, for every text.
* `readCSV_eq_ok_iff_cut`: none of the cases, for every text, and the table returned.

Both are stated with `cut`, which cuts a text into records and knows nothing of the
reader; the byte `0xFF` ends a line here, as it does for the reader.
-/

namespace Brenlib
namespace Bren
namespace Csv

/-- The text without the bytes that are skipped: all of them in front of the first field,
and, if this one begins with a quote, those behind the quote. -/
def asRead (text : Bytes) : Bytes :=
  match text.dropWhile (fun b => decide (Scan.skipped b)) with
  | [] => []
  | b :: rest =>
      if b = Byte.quote then b :: rest.dropWhile (fun b => decide (Scan.skipped b))
      else b :: rest

/-- The record begun last has as many complete fields as the header. -/
def Layout.Overlong (l : Layout) : Prop :=
  l.records ≠ [] ∧ l.width ≤ l.current.length

instance (l : Layout) : Decidable l.Overlong :=
  inferInstanceAs (Decidable (_ ∧ _))

/-- The next byte shows that an empty line is not the last one, or it is the byte `0xFF` in
quotes. -/
def Cut.FaultAt (c : Cut) (b : Byte) : Prop :=
  c.place = .lineStart true ∨ (c.place = .afterCr true ∧ b ≠ Byte.lf) ∨
    (c.place = .inQuotes ∧ b = Byte.eof)

instance (c : Cut) (b : Byte) : Decidable (c.FaultAt b) :=
  inferInstanceAs (Decidable (_ ∨ _))

/-- Within the limits, the record begun last is too long or the next byte is at fault. -/
def Cut.BrokenAt (c : Cut) (next : Option Byte) : Prop :=
  c.Within ∧ (c.layout.Overlong ∨ ∃ b ∈ next, c.FaultAt b)

/-- Some part of a text is within the limits, and a record of it is too long or the next
byte is at fault. -/
def Broken (sep : Byte) (text : Bytes) : Prop :=
  ∃ k ≤ text.length, (cut true sep (text.take k)).BrokenAt text[k]?

/-- A text within the limits ends in quotes, with another byte than `\r`. -/
def LeftOpen (sep : Byte) (text : Bytes) : Prop :=
  (cut true sep text).Within ∧ (cut true sep text).place = .inQuotes ∧
    text.getLast? ≠ some Byte.cr

instance (c : Cut) (next : Option Byte) : Decidable (c.BrokenAt next) :=
  inferInstanceAs (Decidable (_ ∧ (_ ∨ _)))

instance (sep : Byte) (text : Bytes) : Decidable (Broken sep text) :=
  inferInstanceAs (Decidable (∃ k ≤ _, _))

instance (sep : Byte) (text : Bytes) : Decidable (LeftOpen sep text) :=
  inferInstanceAs (Decidable (_ ∧ _ ∧ _))

/-- The texts to be refused for their form. -/
def Defective (sep : Byte) (text : Bytes) : Prop :=
  Broken sep text ∨ LeftOpen sep text

instance (sep : Byte) (text : Bytes) : Decidable (Defective sep text) :=
  inferInstanceAs (Decidable (_ ∨ _))

/-- A text without defects that is within the limits as a whole. -/
def Readable (sep : Byte) (text : Bytes) : Prop :=
  ¬ Defective sep text ∧ (cut true sep text).finish.Within

instance (sep : Byte) (text : Bytes) : Decidable (Readable sep text) :=
  inferInstanceAs (Decidable (_ ∧ _))

section Broken

theorem not_broken_nil
    (sep : Byte) :
    ¬ Broken sep [] := by
  rintro ⟨k, -, -, ⟨hrec, -⟩ | ⟨b, hb, -⟩⟩
  · rw [List.take_nil] at hrec
    exact hrec rfl
  · simp at hb

/-- One more byte. -/
theorem broken_concat_iff
    (sep : Byte) (text : Bytes) (b : Byte) :
    Broken sep (text ++ [b]) ↔
      Broken sep text ∨
      ((cut true sep text).Within ∧ (cut true sep text).FaultAt b) ∨
      ((cut true sep (text ++ [b])).Within ∧
        (cut true sep (text ++ [b])).layout.Overlong) := by
  constructor
  · rintro ⟨k, hk, hbroken⟩
    rw [List.length_append, List.length_singleton] at hk
    rcases Nat.lt_trichotomy k text.length with hlt | rfl | hgt
    · rw [List.take_append_of_le_length hlt.le, List.getElem?_append_left hlt] at hbroken
      exact .inl ⟨k, hlt.le, hbroken⟩
    · rw [List.take_left, List.getElem?_append_right le_rfl] at hbroken
      obtain ⟨hw, hover | ⟨b', hb', hfault⟩⟩ := hbroken
      · exact .inl ⟨text.length, le_rfl, by rw [List.take_length]; exact ⟨hw, .inl hover⟩⟩
      · rw [Nat.sub_self, List.getElem?_cons_zero, Option.mem_some_iff] at hb'
        exact .inr (.inl ⟨hw, hb' ▸ hfault⟩)
    · obtain rfl : k = (text ++ [b]).length := by
        rw [List.length_append, List.length_singleton]
        omega
      rw [List.take_length, List.getElem?_eq_none le_rfl] at hbroken
      obtain ⟨hw, hover | ⟨b', hb', -⟩⟩ := hbroken
      · exact .inr (.inr ⟨hw, hover⟩)
      · cases hb'
  · rintro (⟨k, hk, hbroken⟩ | ⟨hw, hfault⟩ | ⟨hw, hover⟩)
    · refine ⟨k, by rw [List.length_append]; omega, ?_⟩
      rw [List.take_append_of_le_length hk]
      refine ⟨hbroken.1, hbroken.2.imp_right ?_⟩
      rintro ⟨b', hb', hfault⟩
      refine ⟨b', ?_, hfault⟩
      have hlt : k < text.length := (List.getElem?_eq_some_iff.mp hb').1
      rwa [List.getElem?_append_left hlt]
    · refine ⟨text.length, by simp, ?_⟩
      rw [List.take_left, List.getElem?_append_right le_rfl, Nat.sub_self]
      exact ⟨hw, .inr ⟨b, rfl, hfault⟩⟩
    · refine ⟨(text ++ [b]).length, le_rfl, ?_⟩
      rw [List.take_length]
      exact ⟨hw, .inl hover⟩

end Broken

namespace Layout

/-- A record is only refused for the limits. -/
theorem accept_record_error
    {l : Layout} {f : Bytes} {k : ExceptionClass}
    (h : l.accept (.record f) = .error k) :
    k = .outOfRange := by
  simp only [accept] at h
  split_ifs at h <;> cases h <;> rfl

/-- A record within the limits keeps a layout well formed. -/
theorem not_malformed_push_record
    {l : Layout} {f : Bytes}
    (hw : l.Within)
    (hm : ¬ l.Malformed)
    (hwithin : (l.push (.record f)).Within) :
    ¬ (l.push (.record f)).Malformed := by
  intro hmal
  have herr : l.accept (.record f) = .error .runtimeError := by
    rw [accept_eq hw hm, if_neg (not_not.mpr hwithin), if_pos hmal]
  cases accept_record_error herr

/-- A well formed layout becomes malformed with a field that is one too many, or a
fault. -/
theorem accept_eq_overlong
    {l : Layout}
    (hw : l.Within)
    (hm : ¬ l.Malformed)
    {token : Token} (htoken : token ≠ .fault) :
    l.accept token =
      if ¬ (l.push token).Within then .error .outOfRange
      else if (l.push token).Overlong then .error .runtimeError
      else .ok (l.push token) := by
  have hof (hover : (l.push token).Overlong) : (l.push token).Malformed :=
    .inr ⟨hover.1, .inr hover.2⟩
  rw [accept_eq hw hm]
  by_cases hwithin : (l.push token).Within
  · rw [if_neg (not_not.mpr hwithin), if_neg (not_not.mpr hwithin)]
    have hiff : (l.push token).Malformed ↔ (l.push token).Overlong := by
      refine ⟨fun hmal => ?_, hof⟩
      cases token with
      | fault => exact absurd rfl htoken
      | record f => exact absurd hmal (not_malformed_push_record hw hm hwithin)
      | field f =>
          rcases hmal with hfaulty | ⟨hrec, ⟨r, hr, hlong⟩ | hover⟩
          · exact absurd (.inl hfaulty) hm
          · exact absurd (.inr ⟨hrec, .inl ⟨r, hr, hlong⟩⟩) hm
          · exact ⟨hrec, hover⟩
    simp only [hiff]
  · rw [if_pos hwithin, if_pos hwithin]

end Layout

section Simulation

/-- The place of a scanner that skips no more bytes. -/
def Mode.place : Mode → Option Place
  | .start false => some (.lineStart false)
  | .afterCr => some (.afterCr false)
  | .emptyLine false => some (.lineStart true)
  | .emptyLine true => some (.afterCr true)
  | .afterSep => some .fieldStart
  | .bare => some .bare
  | .quoted false _ => some .inQuotes
  | .quoteSeen => some .closing
  | .start true | .quoted true _ => none

/-- The scanner is where the text has been cut, with the same records and fields. -/
structure Follows (σ : Scan) (c : Cut) : Prop where
  place : σ.mode.place = some c.place
  field : σ.f = c.field
  layout : Layout.ofTokens σ.out = c.layout

/-- The scanner has added one token at most, and no fault. -/
def Scan.Adds (σ σ' : Scan) : Prop :=
  σ'.out = σ.out ∨ ∃ token, token ≠ .fault ∧ σ'.out = σ.out ++ [token]

variable {sep : Byte} {σ : Scan} {c : Cut} {b : Byte}

theorem Follows.place_eq
    {m : Mode} {place : Place}
    (h : Follows σ c)
    (hmode : σ.mode = m)
    (hplace : m.place = some place) :
    c.place = place :=
  Option.some.inj (h.place.symm.trans (hmode ▸ hplace))

theorem follows_push
    (h : Follows σ c) :
    Follows (σ.push b) (c.add b) ∧ σ.Adds (σ.push b) := by
  refine ⟨⟨rfl, ?_, h.layout⟩, .inl rfl⟩
  rw [Scan.push, Cut.add, h.field]

theorem follows_openQuote
    (h : Follows σ c) :
    Follows (σ.openQuote false) { c with place := .inQuotes, field := [] } ∧
      σ.Adds (σ.openQuote false) :=
  ⟨⟨rfl, rfl, h.layout⟩, .inl rfl⟩

theorem follows_closeField
    (h : Follows σ c) :
    Follows σ.closeField c.endField ∧ σ.Adds σ.closeField := by
  refine ⟨⟨rfl, rfl, ?_⟩, .inr ⟨.field σ.f, nofun, rfl⟩⟩
  rw [Scan.closeField, Layout.ofTokens_append_singleton, h.layout, h.field]
  rfl

theorem follows_closeRecord
    (h : Follows σ c) :
    Follows (σ.closeRecord b) (c.endRecord b) ∧ σ.Adds (σ.closeRecord b) := by
  refine ⟨⟨?_, rfl, ?_⟩, .inr ⟨.record σ.f, nofun, rfl⟩⟩
  · rw [Scan.closeRecord, Cut.endRecord]
    by_cases hcr : b = Byte.cr
    · rw [if_pos hcr, if_pos hcr]
      rfl
    · rw [if_neg hcr, if_neg hcr]
      rfl
  · rw [Scan.closeRecord, Layout.ofTokens_append_singleton, h.layout, h.field]
    rfl

theorem endsRecord_iff :
    Scan.endsRecord b ↔ endsLine true b := by
  simp [Scan.endsRecord, endsLine]

/-- The first byte of a line. -/
theorem follows_atStart
    (h : Follows σ c) :
    Follows (Scan.atStart sep false σ b) (c.beginLine true sep b) ∧
      σ.Adds (Scan.atStart sep false σ b) := by
  unfold Scan.atStart Cut.beginLine Cut.beginField
  simp only [Bool.false_eq_true, false_and, if_false, endsRecord_iff]
  by_cases hends : endsLine true b
  · rw [if_pos hends, if_pos hends]
    refine ⟨⟨?_, h.field, h.layout⟩, .inl rfl⟩
    by_cases hcr : b = Byte.cr
    · simp [Mode.place, hcr]
    · simp [Mode.place, hcr]
  · rw [if_neg hends, if_neg hends]
    split_ifs
    · exact follows_openQuote h
    · exact follows_closeField h
    · exact follows_push h

/-- The first byte behind a separator. -/
theorem follows_atField
    (h : Follows σ c) :
    Follows (Scan.atField sep σ b)
        (if endsLine true b then c.endRecord b else c.beginField sep b) ∧
      σ.Adds (Scan.atField sep σ b) := by
  unfold Scan.atField Cut.beginField
  simp only [endsRecord_iff]
  split_ifs
  · exact follows_closeRecord h
  · exact follows_openQuote h
  · exact follows_closeField h
  · exact follows_push h

/-- A byte behind the start of a field, outside quotes. -/
theorem follows_inField
    (h : Follows σ c) :
    Follows (Scan.inField sep σ b) (c.goOn true sep b) ∧
      σ.Adds (Scan.inField sep σ b) := by
  unfold Scan.inField Cut.goOn
  simp only [endsRecord_iff]
  split_ifs
  · exact follows_closeRecord h
  · exact follows_closeField h
  · exact follows_push h

/-- The scanner follows the text over a byte that is not at fault. -/
theorem follows_step
    (h : Follows σ c)
    (hfault : ¬ c.FaultAt b) :
    Follows (Scan.step sep σ b) (c.step true sep b) ∧ σ.Adds (Scan.step sep σ b) := by
  simp only [Cut.FaultAt, not_or, not_and, not_not] at hfault
  obtain ⟨hblank, hblankCr, heof⟩ := hfault
  have hplace := h.place
  unfold Scan.step Cut.step
  cases hmode : σ.mode with
  | start first =>
      cases first with
      | true => simp [hmode, Mode.place] at hplace
      | false =>
          rw [h.place_eq hmode rfl]
          exact follows_atStart h
  | afterCr =>
      rw [h.place_eq hmode rfl]
      dsimp only
      have hstart : Follows { σ with mode := .start false } { c with place := .lineStart false } :=
        ⟨rfl, h.field, h.layout⟩
      split_ifs with hlf
      · exact ⟨hstart, .inl rfl⟩
      · have hline := @follows_atStart sep _ _ b hstart
        exact hline
  | emptyLine cr =>
      cases cr with
      | false =>
          exact absurd (h.place_eq hmode rfl) hblank
      | true =>
          have hlf := hblankCr (h.place_eq hmode rfl)
          rw [h.place_eq hmode rfl]
          dsimp only
          rw [Scan.afterEmpty, if_pos ⟨rfl, hlf⟩, if_pos hlf]
          exact ⟨⟨rfl, h.field, h.layout⟩, .inl rfl⟩
  | afterSep =>
      rw [h.place_eq hmode rfl]
      exact follows_atField h
  | bare =>
      rw [h.place_eq hmode rfl]
      exact follows_inField h
  | quoted fresh cr =>
      cases fresh with
      | true => simp [hmode, Mode.place] at hplace
      | false =>
          have hne := heof (h.place_eq hmode rfl)
          rw [h.place_eq hmode rfl]
          dsimp only
          rw [Scan.inQuotes, if_neg (by simp), if_neg hne]
          split_ifs
          · exact ⟨⟨rfl, h.field, h.layout⟩, .inl rfl⟩
          · exact ⟨⟨rfl, by rw [h.field], h.layout⟩, .inl rfl⟩
  | quoteSeen =>
      rw [h.place_eq hmode rfl]
      dsimp only
      rw [Scan.afterQuote]
      split_ifs
      · refine ⟨⟨rfl, by rw [h.field], h.layout⟩, .inl rfl⟩
      · exact follows_inField h

/-- The scanner reports a fault at the byte that is at fault. -/
theorem fault_step
    (h : Follows σ c)
    (hfault : c.FaultAt b) :
    σ.out ++ [.fault] <+: (Scan.step sep σ b).out := by
  have hplace := h.place
  have hstart :
      σ.out ++ [.fault] <+:
        (Scan.atStart sep false
          { mode := .start false, f := [], out := σ.out ++ [.fault] } b).out :=
    Scan.out_prefix_atStart sep false
      { mode := .start false, f := [], out := σ.out ++ [.fault] } b
  unfold Scan.step
  cases hmode : σ.mode with
  | emptyLine cr =>
      dsimp only
      rw [Scan.afterEmpty, if_neg]
      · exact hstart
      · rintro ⟨rfl, rfl⟩
        simp [Cut.FaultAt, h.place_eq hmode rfl] at hfault
  | quoted fresh cr =>
      cases fresh with
      | true => simp [hmode, Mode.place] at hplace
      | false =>
          obtain rfl : b = Byte.eof := by
            simpa [Cut.FaultAt, h.place_eq hmode rfl] using hfault
          dsimp only
          rw [Scan.inQuotes, if_neg (by simp), if_neg (by decide)]
          exact List.prefix_rfl
  | start first =>
      cases first with
      | true => simp [hmode, Mode.place] at hplace
      | false =>
          simp [Cut.FaultAt, h.place_eq hmode rfl] at hfault
  | afterCr =>
      simp [Cut.FaultAt, h.place_eq hmode rfl] at hfault
  | afterSep =>
      simp [Cut.FaultAt, h.place_eq hmode rfl] at hfault
  | bare =>
      simp [Cut.FaultAt, h.place_eq hmode rfl] at hfault
  | quoteSeen =>
      simp [Cut.FaultAt, h.place_eq hmode rfl] at hfault

/-- One token more is refused for the limits or for a record that is too long. -/
theorem run_of_adds
    {σ σ' : Scan} {l : Layout}
    (hrun : Layout.run σ.out = .ok l)
    (hadds : σ.Adds σ') :
    Layout.run σ'.out =
      if ¬ (Layout.ofTokens σ'.out).Within then .error .outOfRange
      else if (Layout.ofTokens σ'.out).Overlong then .error .runtimeError
      else .ok (Layout.ofTokens σ'.out) := by
  obtain ⟨rfl, hwithin, hshape⟩ := (Layout.run_eq_ok_iff _ _).mp hrun
  rcases hadds with heq | ⟨token, htoken, heq⟩
  · have hover : ¬ (Layout.ofTokens σ.out).Overlong :=
      fun h => hshape (.inr ⟨h.1, .inr h.2⟩)
    rw [heq, hrun, if_neg (not_not.mpr hwithin), if_neg hover]
  · rw [heq, Layout.run_append_singleton, hrun, Layout.ofTokens_append_singleton]
    exact Layout.accept_eq_overlong hwithin hshape htoken

/-- The scanner behind the bytes that it skips. -/
def Scan.afresh : Scan :=
  { mode := .start false, f := [], out := [] }

/-- The tokens of a text are refused for a defect of the text or for the limits, or the
scanner follows the text. -/
inductive Course (sep : Byte) (text : Bytes) : Prop
  | broken
      (hbroken : Broken sep text)
      (hrun : Layout.run (Scan.scanFrom sep .afresh text).out = .error .runtimeError)
  | exceeded
      (hbroken : ¬ Broken sep text)
      (hwithin : ¬ (cut true sep text).Within)
      (hrun : Layout.run (Scan.scanFrom sep .afresh text).out = .error .outOfRange)
  | followed
      (hbroken : ¬ Broken sep text)
      (hrun :
        Layout.run (Scan.scanFrom sep .afresh text).out = .ok (cut true sep text).layout)
      (hfollows : Follows (Scan.scanFrom sep .afresh text) (cut true sep text))

section Course

variable {text : Bytes}

theorem scanFrom_concat
    (text : Bytes) (b : Byte) :
    Scan.scanFrom sep .afresh (text ++ [b]) =
      Scan.step sep (Scan.scanFrom sep .afresh text) b := by
  rw [Scan.scanFrom_append]
  rfl

theorem cut_concat
    (text : Bytes) (b : Byte) :
    cut true sep (text ++ [b]) = (cut true sep text).step true sep b := by
  rw [cut_append]
  rfl

/-- A text that is not broken is so behind one more byte only for this byte. -/
theorem not_broken_concat
    (hbroken : ¬ Broken sep text)
    (hfault : (cut true sep text).Within → ¬ (cut true sep text).FaultAt b)
    (hover : (cut true sep (text ++ [b])).Within →
      ¬ (cut true sep (text ++ [b])).layout.Overlong) :
    ¬ Broken sep (text ++ [b]) := by
  rw [broken_concat_iff]
  rintro (h | ⟨hw, h⟩ | ⟨hw, h⟩)
  · exact hbroken h
  · exact hfault hw h
  · exact hover hw h

/-- Tokens that are refused stay refused, for the same reason. -/
theorem run_concat_error
    {k : ExceptionClass}
    (hrun : Layout.run (Scan.scanFrom sep .afresh text).out = .error k) :
    Layout.run (Scan.scanFrom sep .afresh (text ++ [b])).out = .error k := by
  have hreported := Scan.out_prefix_step sep (Scan.scanFrom sep .afresh text) b
  rw [scanFrom_concat]
  exact Layout.run_error_of_prefix hreported hrun

/-- One more byte for a scanner that has followed the text. -/
theorem Course.next
    (hbroken : ¬ Broken sep text)
    (hrun : Layout.run (Scan.scanFrom sep .afresh text).out = .ok (cut true sep text).layout)
    (hfollows : Follows (Scan.scanFrom sep .afresh text) (cut true sep text)) :
    Course sep (text ++ [b]) := by
  obtain ⟨-, hwithin, -⟩ := (Layout.run_eq_ok_iff _ _).mp hrun
  by_cases hfault : (cut true sep text).FaultAt b
  · refine .broken ((broken_concat_iff ..).mpr (.inr (.inl ⟨hwithin, hfault⟩))) ?_
    rw [scanFrom_concat]
    refine Layout.run_error_of_prefix (fault_step hfollows hfault) ?_
    rw [Layout.run_append_singleton, hrun]
    rfl
  · obtain ⟨hgo, hadds⟩ := @follows_step sep _ _ _ hfollows hfault
    have hrun' := run_of_adds hrun hadds
    rw [hgo.layout] at hrun'
    rw [← scanFrom_concat, ← cut_concat] at hgo hrun'
    by_cases hw : (cut true sep (text ++ [b])).layout.Within
    · rw [if_neg (not_not.mpr hw)] at hrun'
      by_cases hover : (cut true sep (text ++ [b])).layout.Overlong
      · rw [if_pos hover] at hrun'
        exact .broken ((broken_concat_iff ..).mpr (.inr (.inr ⟨hw, hover⟩))) hrun'
      · rw [if_neg hover] at hrun'
        exact .followed (not_broken_concat hbroken (fun _ => hfault) fun _ => hover) hrun' hgo
    · rw [if_pos hw] at hrun'
      exact .exceeded (not_broken_concat hbroken (fun _ => hfault) fun h => absurd h hw) hw
        hrun'

/-- The scanner runs its course over every text: the induction is on the last byte. -/
theorem course
    (sep : Byte) (text : Bytes) :
    Course sep text := by
  induction text using List.reverseRecOn with
  | nil => exact .followed (not_broken_nil sep) rfl ⟨rfl, rfl, rfl⟩
  | append_singleton text b ih =>
      cases ih with
      | broken hbroken hrun =>
          exact .broken ((broken_concat_iff sep text b).mpr (.inl hbroken))
            (run_concat_error hrun)
      | exceeded hbroken hwithin hrun =>
          have hstays : ¬ (cut true sep (text ++ [b])).Within := by
            rw [cut_concat]
            exact fun h => hwithin (Cut.within_of_step h)
          exact .exceeded
            (not_broken_concat hbroken (fun h => absurd h hwithin) fun h => absurd h hstays)
            hstays (run_concat_error hrun)
      | followed hbroken hrun hfollows => exact .next hbroken hrun hfollows

end Course

namespace Scan

theorem atStart_quoted
    {fresh cr : Bool}
    (h : (atStart sep false σ b).mode = .quoted fresh cr) :
    b = Byte.quote ∧ cr = false := by
  unfold atStart at h
  rw [if_neg (by simp)] at h
  split_ifs at h with h₁ h₂ h₃
  · cases h
    exact ⟨h₂, rfl⟩
  · cases h
  · cases h

theorem inField_not_quoted
    {fresh cr : Bool} :
    (inField sep σ b).mode ≠ .quoted fresh cr := by
  unfold inField closeRecord
  split_ifs <;> simp [closeField, push]

/-- Behind a byte inside quotes, the mode knows whether it was a `\r`. -/
theorem step_quoted
    {fresh cr : Bool}
    (hskips : σ.mode.place ≠ none)
    (h : (step sep σ b).mode = .quoted fresh cr) :
    cr = decide (b = Byte.cr) := by
  have hquote : ¬ Byte.quote = Byte.cr := by decide
  have hstart {τ : Scan} (h : (atStart sep false τ b).mode = .quoted fresh cr) :
      cr = decide (b = Byte.cr) := by
    obtain ⟨rfl, rfl⟩ := atStart_quoted h
    simp [hquote]
  unfold step at h
  split at h
  · next first hmode =>
    cases first with
    | true => simp [hmode, Mode.place] at hskips
    | false => exact hstart h
  · split_ifs at h
    exact hstart h
  · unfold afterEmpty at h
    split_ifs at h
    exact hstart h
  · unfold atField closeRecord at h
    split_ifs at h with h₁ h₂ h₃
    · cases h
      simp [h₃, hquote]
    · cases h
    · cases h
  · exact absurd h inField_not_quoted
  · next fresh' cr' hmode =>
    unfold inQuotes at h
    split_ifs at h with h₁ h₂
    · simp [hmode, h₁.1, Mode.place] at hskips
    · cases h
      rfl
    · cases h
      rfl
  · unfold afterQuote at h
    split_ifs at h with h₁
    · cases h
      simp [h₁, hquote]
    · exact absurd h inField_not_quoted

end Scan

/-- Inside quotes, the mode says whether the last byte of the text is a `\r`. -/
theorem quoted_afresh
    {text : Bytes} {l : Layout} {fresh cr : Bool}
    (hrun : Layout.run (Scan.scanFrom sep .afresh text).out = .ok l)
    (hmode : (Scan.scanFrom sep .afresh text).mode = .quoted fresh cr) :
    cr = decide (text.getLast? = some Byte.cr) := by
  rcases List.eq_nil_or_concat' text with rfl | ⟨before, b, rfl⟩
  · cases hmode
  · cases course sep before with
    | broken hbroken herror => cases hrun.symm.trans (run_concat_error herror)
    | exceeded hbroken hwithin herror => cases hrun.symm.trans (run_concat_error herror)
    | followed hbroken hrun' hfollows =>
        have hskips : (Scan.scanFrom sep .afresh before).mode.place ≠ none := by
          rw [hfollows.place]
          simp
        rw [scanFrom_concat] at hmode
        simp [Scan.step_quoted hskips hmode]

/-- The end of the text leaves the records as they are, or ends one more. -/
theorem Cut.finish_eq_self
    {c : Cut}
    (h : c.place ≠ .fieldStart ∧ c.place ≠ .bare) :
    c.finish = c := by
  unfold Cut.finish
  split
  · exact absurd ‹_› h.1
  · exact absurd ‹_› h.2
  · rfl

theorem Cut.finish_eq_endRecord
    {c : Cut}
    (h : c.place = .fieldStart ∨ c.place = .bare) :
    c.finish = c.endRecord Byte.lf := by
  unfold Cut.finish
  rcases h with h | h <;> rw [h]

/-- The records of a text without defects can be accepted. -/
theorem accepted_cut
    {text : Bytes}
    (hbroken : ¬ Broken sep text)
    (hwithin : (cut true sep text).Within) :
    (cut true sep text).layout.Accepted := by
  cases course sep text with
  | broken hbroken' hrun => exact absurd hbroken' hbroken
  | exceeded hbroken hwithin' hrun => exact absurd hwithin hwithin'
  | followed hbroken hrun hfollows =>
      exact ⟨hwithin, ((Layout.run_eq_ok_iff _ _).mp hrun).2.2⟩

/-- So can those at the end of a readable text. -/
theorem Readable.accepted
    {text : Bytes} (h : Readable sep text) :
    (cut true sep text).finish.layout.Accepted := by
  obtain ⟨hdef, hwithin⟩ := h
  have hacc := accepted_cut (fun h => hdef (.inl h)) (Cut.within_of_finish hwithin)
  by_cases hplace : (cut true sep text).place = .fieldStart ∨ (cut true sep text).place = .bare
  · rw [Cut.finish_eq_endRecord hplace] at hwithin ⊢
    exact ⟨hwithin, Layout.not_malformed_push_record hacc.within hacc.shape hwithin⟩
  · rw [not_or] at hplace
    rw [Cut.finish_eq_self hplace]
    exact hacc

/-- A text that is not in quotes is not refused for its end. -/
theorem finish_outside
    {text : Bytes}
    (hwithin : (cut true sep text).Within)
    (h : (cut true sep text).place ≠ .fieldStart ∧ (cut true sep text).place ≠ .bare)
    (hopen : ¬ LeftOpen sep text) :
    (if LeftOpen sep text then .error .runtimeError
      else if ¬ (cut true sep text).finish.Within then .error .outOfRange
      else .ok (cut true sep text).finish.layout.table :
        Except ExceptionClass (Table Bytes)) =
      .ok (cut true sep text).layout.table := by
  rw [Cut.finish_eq_self h, if_neg hopen, if_neg (not_not.mpr hwithin)]

/-- The field at the end of the text ends its record. -/
theorem finish_record
    {text : Bytes}
    (hwithin : (cut true sep text).Within)
    (hshape : ¬ (cut true sep text).layout.Malformed)
    (h : (cut true sep text).place = .fieldStart ∨ (cut true sep text).place = .bare) :
    ((cut true sep text).layout.accept (.record (cut true sep text).field)).map Layout.table =
      if LeftOpen sep text then .error .runtimeError
      else if ¬ (cut true sep text).finish.Within then .error .outOfRange
      else .ok (cut true sep text).finish.layout.table := by
  have hopen : ¬ LeftOpen sep text := by
    rintro ⟨-, hplace, -⟩
    rcases h with h | h <;> simp [h] at hplace
  have hlayout :
      (cut true sep text).finish.layout =
        (cut true sep text).layout.push (.record (cut true sep text).field) := by
    rw [Cut.finish_eq_endRecord h]
    rfl
  have hiff :
      (cut true sep text).finish.Within ↔
        ((cut true sep text).layout.push (.record (cut true sep text).field)).Within := by
    rw [← hlayout]
    rfl
  rw [if_neg hopen, Layout.accept_eq hwithin hshape]
  by_cases hw : ((cut true sep text).layout.push (.record (cut true sep text).field)).Within
  · have hmal := Layout.not_malformed_push_record hwithin hshape hw
    rw [if_neg (not_not.mpr hw), if_neg (not_not.mpr (hiff.mpr hw)), if_neg hmal, hlayout]
    rfl
  · rw [if_pos hw, if_pos (mt hiff.mp hw)]
    rfl

/-- The end of the text completes a record, or is refused in quotes. -/
theorem finish_follows
    {text : Bytes}
    (hrun : Layout.run (Scan.scanFrom sep .afresh text).out =
      .ok (cut true sep text).layout)
    (hfollows : Follows (Scan.scanFrom sep .afresh text) (cut true sep text)) :
    (Scan.scanFrom sep .afresh text).finish (cut true sep text).layout =
      if LeftOpen sep text then .error .runtimeError
      else if ¬ (cut true sep text).finish.Within then .error .outOfRange
      else .ok (cut true sep text).finish.layout.table := by
  obtain ⟨-, hwithin, hshape⟩ := (Layout.run_eq_ok_iff _ _).mp hrun
  have hplace := hfollows.place
  have houtside
      (h : (cut true sep text).place ≠ .fieldStart ∧ (cut true sep text).place ≠ .bare ∧
        (cut true sep text).place ≠ .inQuotes) :=
    (finish_outside hwithin ⟨h.1, h.2.1⟩ fun hopen => h.2.2 hopen.2.1).symm
  unfold Scan.finish
  cases hmode : (Scan.scanFrom sep .afresh text).mode with
  | afterSep =>
      rw [hfollows.field]
      exact finish_record hwithin hshape (.inl (hfollows.place_eq hmode rfl))
  | bare =>
      rw [hfollows.field]
      exact finish_record hwithin hshape (.inr (hfollows.place_eq hmode rfl))
  | quoted fresh cr =>
      have hcr := quoted_afresh hrun hmode
      cases fresh with
      | true => simp [hmode, Mode.place] at hplace
      | false =>
          have hin := hfollows.place_eq hmode rfl
          have hopen : LeftOpen sep text ↔ cr = false := by
            simp [LeftOpen, hin, hcr, show (cut true sep text).Within from hwithin]
          cases cr with
          | true =>
              refine (finish_outside hwithin ⟨by simp [hin], by simp [hin]⟩ ?_).symm
              simp [hopen]
          | false =>
              rw [if_pos (hopen.mpr rfl)]
              rfl
  | start first =>
      cases first with
      | true => simp [hmode, Mode.place] at hplace
      | false =>
          exact houtside (by simp [hfollows.place_eq hmode rfl])
  | afterCr =>
      exact houtside (by simp [hfollows.place_eq hmode rfl])
  | emptyLine cr =>
      cases cr with
      | true => exact houtside (by simp [hfollows.place_eq hmode rfl])
      | false => exact houtside (by simp [hfollows.place_eq hmode rfl])
  | quoteSeen =>
      exact houtside (by simp [hfollows.place_eq hmode rfl])

/-- The answer to a text of which no byte is skipped. -/
theorem answer_afresh
    (sep : Byte) (text : Bytes) :
    (Scan.scanFrom sep .afresh text).answer =
      if Defective sep text then .error .runtimeError
      else if ¬ (cut true sep text).finish.Within then .error .outOfRange
      else .ok (cut true sep text).finish.layout.table := by
  cases course sep text with
  | broken hbroken hrun =>
      rw [Scan.answer, hrun, if_pos (.inl hbroken)]
      rfl
  | exceeded hbroken hwithin hrun =>
      have hdef : ¬ Defective sep text := by
        rintro (h | ⟨h, -⟩)
        · exact hbroken h
        · exact hwithin h
      rw [Scan.answer, hrun, if_neg hdef, if_pos fun h => hwithin (Cut.within_of_finish h)]
      rfl
  | followed hbroken hrun hfollows =>
      have hiff : Defective sep text ↔ LeftOpen sep text :=
        ⟨fun h => h.resolve_left hbroken, .inr⟩
      rw [Scan.answer_of_run hrun, finish_follows hrun hfollows]
      simp only [hiff]

end Simulation

section Skipping

variable {sep : Byte}

/-- The bytes that a scan skips make no difference to it. -/
theorem scanFrom_dropWhile
    {σ : Scan}
    (h : ∀ b, Scan.skipped b → Scan.step sep σ b = σ) (text : Bytes) :
    Scan.scanFrom sep σ (text.dropWhile (fun b => decide (Scan.skipped b))) =
      Scan.scanFrom sep σ text := by
  induction text with
  | nil => rfl
  | cons b text ih =>
      by_cases hb : Scan.skipped b
      · rw [List.dropWhile_cons_of_pos (by simpa using hb), ih, Scan.scanFrom_cons, h b hb]
      · rw [List.dropWhile_cons_of_neg (by simpa using hb)]

/-- A byte that is not skipped is read alike in both scans. -/
theorem scan_eq_afresh
    {b : Byte} (hb : ¬ Scan.skipped b) (hquote : b ≠ Byte.quote) (rest : Bytes) :
    scan sep (b :: rest) = Scan.scanFrom sep .afresh (b :: rest) := by
  have hstep : Scan.step sep Scan.init b = Scan.step sep Scan.afresh b := by
    simp only [Scan.step, Scan.init, Scan.afresh, Scan.atStart, hb, and_false, if_false]
    rw [if_neg hquote, if_neg hquote]
    rfl
  rw [scan, Scan.scanFrom_cons, Scan.scanFrom_cons, hstep]

/-- The state behind a quote at the start, `fresh` if bytes are still skipped. -/
def Scan.quoteOpen (fresh : Bool) : Scan :=
  { mode := .quoted fresh false, f := [], out := [] }

/-- Behind a quote at the start, the same holds of the byte behind it. -/
theorem scanFrom_quoteOpen
    {b : Byte} (hb : ¬ Scan.skipped b) (rest : Bytes) :
    Scan.scanFrom sep (.quoteOpen true) (b :: rest) =
      Scan.scanFrom sep (.quoteOpen false) (b :: rest) := by
  have hstep :
      Scan.step sep (.quoteOpen true) b = Scan.step sep (.quoteOpen false) b := by
    simp only [Scan.step, Scan.quoteOpen, Scan.inQuotes, hb, and_false, if_false]
  rw [Scan.scanFrom_cons, Scan.scanFrom_cons, hstep]

/-- The first byte behind those that are skipped is not one of them. -/
theorem not_skipped_of_dropWhile
    {text rest : Bytes} {b : Byte}
    (h : text.dropWhile (fun b => decide (Scan.skipped b)) = b :: rest) :
    ¬ Scan.skipped b := by
  have hhead := List.head?_dropWhile_not (fun b => decide (Scan.skipped b)) text
  rw [h] at hhead
  simpa using hhead

/-- The scan of a text answers like the one of the bytes that are not skipped. -/
theorem answer_scan
    (sep : Byte) (text : Bytes) :
    (scan sep text).answer = (Scan.scanFrom sep .afresh (asRead text)).answer := by
  have hinit :
      scan sep (text.dropWhile fun b => decide (Scan.skipped b)) = scan sep text :=
    scanFrom_dropWhile (fun b hb => by simp [Scan.step, Scan.init, Scan.atStart, hb]) text
  rw [← hinit, asRead]
  cases hdrop : text.dropWhile fun b => decide (Scan.skipped b) with
  | nil => rfl
  | cons b rest =>
      have hb := not_skipped_of_dropWhile hdrop
      dsimp only
      split_ifs with hquote
      · subst hquote
        have hopen :
            scan sep (Byte.quote :: rest) = Scan.scanFrom sep (.quoteOpen true) rest := rfl
        have hafresh (rest : Bytes) :
            Scan.scanFrom sep .afresh (Byte.quote :: rest) =
              Scan.scanFrom sep (.quoteOpen false) rest := rfl
        have hskips :=
          @scanFrom_dropWhile sep (.quoteOpen true)
            (fun b hb => by simp [Scan.step, Scan.quoteOpen, Scan.inQuotes, hb]) rest
        rw [hopen, hafresh, ← hskips]
        cases hdrop' : rest.dropWhile fun b => decide (Scan.skipped b) with
        | nil => rfl
        | cons b' rest' =>
            rw [scanFrom_quoteOpen (not_skipped_of_dropWhile hdrop')]
      · rw [scan_eq_afresh hb hquote]

end Skipping

end Csv

open Csv

/-- **What the reader answers**, read off the records of the text and its defects. -/
theorem readCSV_answer_eq
    (text : Bytes) (sep : Byte) :
    (readCSV text sep).mapError StdException.kind =
      if Defective sep (asRead text) then .error .runtimeError
      else if ¬ (cut true sep (asRead text)).finish.Within then .error .outOfRange
      else .ok (cut true sep (asRead text)).finish.layout.table := by
  rw [readCSV_eq_answer, answer_scan, answer_afresh]

/-- The reader throws `std::runtime_error` for defects only. -/
theorem readCSV_eq_runtimeError_iff
    (text : Bytes) (sep : Byte) :
    (∃ what, readCSV text sep = .error ⟨.runtimeError, what⟩) ↔
      Defective sep (asRead text) := by
  rw [readCSV_eq_error_iff, ← readCSV_eq_answer, readCSV_answer_eq]
  split_ifs <;> simp_all

/-- A table is returned for a text without defects and within the limits, and it is the
table of its records. -/
theorem readCSV_eq_ok_iff_cut
    (text : Bytes) (sep : Byte) (t : Table Bytes) :
    readCSV text sep = .ok t ↔
      Readable sep (asRead text) ∧
        t = (cut true sep (asRead text)).finish.layout.table := by
  rw [readCSV_eq_ok_iff, ← readCSV_eq_answer, readCSV_answer_eq, Readable, and_assoc]
  split_ifs with hdef hwithin
  · simp [hdef]
  · simp only [hdef, hwithin, not_false_eq_true, true_and, Except.ok.injEq]
    exact eq_comm
  · simp [hwithin]

end Bren
end Brenlib
