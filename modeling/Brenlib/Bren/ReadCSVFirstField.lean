import Brenlib.Base.Utf8
import Brenlib.Bren.ReadCSVMisreading

/-!
# The first header field

Bytes of the upper half are skipped while the reader is at the start of the
input.  This drops a byte order mark, but also the first bytes of a header field
that begins with a character outside ASCII, and opening a quote does not end it.

`Scan.Stripped k` says what has been kept of the first `k` bytes of such a field,
`Scan.Lost` that the first field reported is not the whole content, whatever
follows.

**Result.**  `readCSV_strips_first_field`: the first cell is never the complete
content of a first header field that begins with a character outside ASCII.
-/

namespace Brenlib
namespace Bren

open Csv

namespace Csv

/-- No byte of the upper half at the start. -/
def AsciiHead (f : Bytes) : Prop :=
  ∀ b ∈ f.head?, ¬ Byte.isHigh b

theorem AsciiHead.append
    {f : Bytes} (h : AsciiHead f) (hne : f ≠ []) (g : Bytes) :
    AsciiHead (f ++ g) := by
  obtain ⟨b, f', rfl⟩ := List.exists_cons_of_ne_nil hne
  exact h

theorem AsciiHead.singleton
    {b : Byte} (h : ¬ Byte.isHigh b) :
    AsciiHead [b] := by
  intro c hc
  obtain rfl : b = c := by simpa using hc
  exact h

theorem AsciiHead.ne
    {f : Bytes} (h : AsciiHead f)
    {b : Byte} (hb : Byte.isHigh b) (content : Bytes) :
    f ≠ b :: content := by
  rintro rfl
  exact h b rfl hb

namespace Scan

/-- What is kept of the first `k` bytes of the first field, when it begins with a
byte that is skipped: fewer than `k` bytes, and inside quotes none of the upper
half at the start. -/
def Stripped (k : Nat) (σ : Scan) : Prop :=
  σ.out = [] ∧ σ.f.length < k ∧
    match σ.mode with
    | .start first => first = true ∧ σ.f = []
    | .bare => True
    | .quoted fresh _ => AsciiHead σ.f ∧ (fresh = true ↔ σ.f = [])
    | .quoteSeen => AsciiHead σ.f
    | .afterCr | .emptyLine _ | .afterSep => False

/-- The first field has been reported without its first byte, or will be. -/
def Lost (content : Bytes) (σ : Scan) : Prop :=
  (∃ token ∈ σ.out.head?, token.content ≠ some content) ∨
  (σ.out = [] ∧
    match σ.mode with
    | .emptyLine _ => True
    | .bare | .quoteSeen => AsciiHead σ.f ∧ σ.f ≠ []
    | .quoted fresh _ => fresh = false ∧ AsciiHead σ.f ∧ σ.f ≠ []
    | .start _ | .afterCr | .afterSep => False)

/-- What is left of the field begins with another byte. -/
theorem spoils_asciiHead
    {first : Byte} (hfirst : Byte.isHigh first) (content : Bytes) :
    Spoils (fun f => AsciiHead f ∧ f ≠ []) (first :: content) where
  push := fun ⟨hhead, hne⟩ b => ⟨hhead.append hne [b], by simp⟩
  ne := fun ⟨hhead, _⟩ => hhead.ne hfirst content

/-- The first field is lost when it is misread at the start of the text. -/
theorem lost_iff
    {content : Bytes} {σ : Scan} :
    σ.Lost content ↔ σ.Misread [] content fun f => AsciiHead f ∧ f ≠ [] := by
  have htoken (token : Token) :
      token ∈ σ.out.head? ↔ [] ++ [token] <+: σ.out := by
    cases σ.out <;> simp [eq_comm]
  cases hmode : σ.mode <;> simp [Lost, Misread, htoken, hmode]

/-- A byte of the first field, in its bare encoding. -/
theorem stripped_step
    {sep b : Byte} {k : Nat} {σ : Scan}
    (hcr : b ≠ Byte.cr) (hlf : b ≠ Byte.lf) (heof : b ≠ Byte.eof)
    (hsep : b ≠ sep)
    (h : σ.Stripped k) :
    (step sep σ b).Stripped (k + 1) := by
  obtain ⟨hout, hlen, hmode⟩ := h
  have hend : ¬ endsRecord b := not_endsRecord hcr.symm hlf.symm heof.symm
  have hquote : ¬ Byte.isHigh Byte.quote := by decide
  unfold step
  cases hσ : σ.mode with
  | start first =>
      simp only [hσ] at hmode
      obtain ⟨rfl, hf⟩ := hmode
      simp only [atStart, if_neg hend, if_neg hsep, true_and]
      split_ifs with h₁ h₂
      · refine ⟨hout, by omega, ?_⟩
        simp [hσ, hf]
      · exact ⟨hout, by simp [openQuote], by simp [openQuote, AsciiHead]⟩
      · refine ⟨hout, ?_, trivial⟩
        simp [push]
        omega
  | afterCr =>
      simp [hσ] at hmode
  | emptyLine cr =>
      simp [hσ] at hmode
  | afterSep =>
      simp [hσ] at hmode
  | bare =>
      have hpush : inField sep σ b = σ.push b := by
        rw [inField, if_neg hend, if_neg fun h => hsep h.1]
      simp only [hpush]
      refine ⟨hout, ?_, trivial⟩
      simp [push]
      omega
  | quoted fresh cr =>
      simp only [hσ] at hmode
      obtain ⟨hhead, hfresh⟩ := hmode
      simp only [inQuotes]
      split_ifs with h₁ h₂
      · exact ⟨hout, by omega, by simpa [hσ] using ⟨hhead, hfresh⟩⟩
      · exact ⟨hout, by show σ.f.length < _; omega, hhead⟩
      · refine ⟨by simpa using hout, by simp; omega, ?_, by simp⟩
        by_cases hf : σ.f = []
        · have hb : ¬ Byte.isHigh b := fun hhigh =>
            h₁ ⟨hfresh.mpr hf, heof, hhigh⟩
          simpa [hf] using AsciiHead.singleton hb
        · exact hhead.append hf [b]
  | quoteSeen =>
      simp only [hσ] at hmode
      simp only [afterQuote]
      split_ifs with h₁
      · refine ⟨hout, by simp; omega, ?_, by simp⟩
        by_cases hf : σ.f = []
        · simpa [hf, h₁] using AsciiHead.singleton hquote
        · exact hmode.append hf [b]
      · have hpush : inField sep σ b = σ.push b := by
          rw [inField, if_neg hend, if_neg fun h => hsep h.1]
        simp only [hpush]
        refine ⟨hout, ?_, trivial⟩
        simp [push]
        omega

/-- The content of the first field in its bare encoding. -/
theorem stripped_scan_bare
    {sep : Byte} {content : Bytes}
    (hcr : Byte.cr ∉ content) (hlf : Byte.lf ∉ content)
    (heof : Byte.eof ∉ content) (hsep : sep ∉ content)
    {k : Nat} {σ : Scan} (h : σ.Stripped k) :
    (scanFrom sep σ content).Stripped (k + content.length) :=
  scanFrom_counted (P := fun k σ => σ.Stripped k)
    (fun _ _ _ hb => stripped_step (ne_of_mem_of_not_mem hb hcr) (ne_of_mem_of_not_mem hb hlf)
      (ne_of_mem_of_not_mem hb heof) (ne_of_mem_of_not_mem hb hsep)) h

/-- The content of the first field inside quotes, every quote doubled. -/
theorem stripped_scan_doubled
    (sep : Byte) {content : Bytes}
    (heof : Byte.eof ∉ content)
    {k : Nat} {σ : Scan} (h : σ.Stripped k)
    (hmode : ∃ fresh cr, σ.mode = .quoted fresh cr) :
    (scanFrom sep σ (doubled content)).Stripped (k + content.length) ∧
      ∃ fresh cr, (scanFrom sep σ (doubled content)).mode = .quoted fresh cr := by
  induction content generalizing k σ with
  | nil =>
      exact ⟨h, hmode⟩
  | cons b content ih =>
      simp only [List.mem_cons, not_or] at heof
      obtain ⟨fresh, cr, hσ⟩ := hmode
      obtain ⟨hout, hlen, hhead⟩ := id h
      simp only [hσ] at hhead
      rw [doubled_cons, scanFrom_append, List.length_cons,
        Nat.add_comm content.length 1, ← Nat.add_assoc]
      have hquoteSkipped : ¬ skipped Byte.quote := by decide
      by_cases hquote : b = Byte.quote
      · rw [if_pos hquote]
        have htwo :
            scanFrom sep σ [Byte.quote, Byte.quote] =
              { mode := .quoted false false, f := σ.f ++ [Byte.quote],
                out := σ.out } := by
          simp [step, hσ, inQuotes, hquoteSkipped, afterQuote]
        rw [htwo]
        refine ih heof.2 ⟨hout, by simp; omega, ?_, by simp⟩ ⟨_, _, rfl⟩
        by_cases hf : σ.f = []
        · simpa [hf] using AsciiHead.singleton (show ¬ Byte.isHigh Byte.quote by decide)
        · exact hhead.1.append hf [Byte.quote]
      · rw [if_neg hquote, scanFrom_cons, scanFrom_nil]
        have hone : step sep σ b = inQuotes fresh σ b := by
          simp only [step, hσ]
        rw [hone, inQuotes]
        split_ifs with hskip
        · refine ih heof.2 ⟨hout, by omega, ?_⟩ ⟨fresh, cr, hσ⟩
          simpa [hσ] using hhead
        · exact absurd ‹b = Byte.eof›.symm heof.1
        · refine ih heof.2 ⟨hout, by simp; omega, ?_, by simp⟩ ⟨_, _, rfl⟩
          by_cases hf : σ.f = []
          · have hb : ¬ Byte.isHigh b := fun hhigh =>
              hskip ⟨hhead.2.mpr hf, Ne.symm heof.1, hhigh⟩
            simpa [hf] using AsciiHead.singleton hb
          · exact hhead.1.append hf [b]

/-- Behind the encoding of a first field that begins with a skipped byte. -/
theorem stripped_scan_field
    {sep : Byte} {fd : Field}
    (hfd : fd.WellFormed sep)
    {first : Byte} {content : Bytes}
    (hcontent : fd.content = first :: content)
    (hfirst : Byte.isHigh first) :
    (scan sep fd.encode).Stripped fd.content.length := by
  have heof := hfd.without_eof
  rw [hcontent, List.mem_cons, not_or] at heof
  have hskip : skipped first := ⟨Ne.symm heof.1, hfirst⟩
  rw [scan, Field.encode, hcontent, List.length_cons, Nat.add_comm]
  split_ifs with hq
  · have hquote : ¬ skipped Byte.quote ∧ ¬ endsRecord Byte.quote := by decide
    have hne : ¬ first = Byte.quote := by
      rintro rfl
      exact absurd hfirst (by decide)
    have hopen :
        step sep (step sep init Byte.quote) first =
          { mode := .quoted true false, f := [], out := [] } := by
      simp [step, init, atStart, hquote, openQuote, inQuotes, hskip]
    have hstripped :
        Stripped 1 { mode := .quoted true false, f := [], out := [] } :=
      ⟨rfl, Nat.zero_lt_one, by simp [AsciiHead]⟩
    obtain ⟨hkept, fresh, cr, hmode⟩ :=
      stripped_scan_doubled sep heof.2 hstripped ⟨_, _, rfl⟩
    rw [doubled_cons, if_neg hne, scanFrom_cons, List.append_assoc,
      List.singleton_append, scanFrom_cons, hopen, scanFrom_append]
    generalize scanFrom sep _ (doubled content) = τ at hkept hmode
    obtain ⟨hout, hlen, hhead⟩ := hkept
    simp only [hmode] at hhead
    have hclose :
        step sep τ Byte.quote = { τ with mode := .quoteSeen } := by
      simp [step, hmode, inQuotes, hquote]
    rw [scanFrom_cons, hclose]
    exact ⟨hout, hlen, hhead.1⟩
  · obtain ⟨hcr, hlf, hsep, -⟩ := hfd.bare (by simpa using hq)
    rw [hcontent, List.mem_cons, not_or] at hcr hlf hsep
    have hstep : step sep init first = init := by
      simp [step, init, atStart, hskip]
    rw [scanFrom_cons, hstep]
    exact stripped_scan_bare hcr.2 hlf.2 heof.2 hsep.2
      ⟨rfl, Nat.zero_lt_one, rfl, rfl⟩

/-- What ends the first field is read with a part of its content missing. -/
theorem lost_delimiter
    {sep : Byte} (hsep : Separator sep)
    {first : Byte} {content : Bytes} {σ : Scan}
    (h : σ.Stripped (first :: content).length)
    {b : Byte} (hb : b = sep ∨ b = Byte.cr ∨ b = Byte.lf) :
    (step sep σ b).Lost (first :: content) := by
  obtain ⟨hout, hlen, hmode⟩ := h
  have hf : some σ.f ≠ some (first :: content) := by
    intro heq
    rw [Option.some.inj heq] at hlen
    exact lt_irrefl _ hlen
  have hhigh : ¬ Byte.isHigh b := by
    rcases hb with rfl | rfl | rfl
    · rw [Byte.isHigh_iff]
      exact UInt8.not_le.mpr hsep.ascii
    · decide
    · decide
  have hquote : ¬ b = Byte.quote := by
    rcases hb with rfl | rfl | rfl
    · exact hsep.ne_quote
    · decide
    · decide
  have heof : ¬ b = Byte.eof := by
    rcases hb with rfl | rfl | rfl
    · exact hsep.ne_eof
    · decide
    · decide
  have hends : ¬ endsRecord b → b = sep := fun hend =>
    hb.resolve_right fun h => hend (h.elim .inl fun h => .inr (.inl h))
  have hinField : (inField sep σ b).Lost (first :: content) := by
    unfold inField
    split_ifs with h₁ h₂
    · exact .inl ⟨.record σ.f, by simp [closeRecord, hout], hf⟩
    · exact .inl ⟨.field σ.f, by simp [closeField, hout], hf⟩
    · exact absurd ⟨hends h₁, hquote⟩ h₂
  unfold step
  cases hσ : σ.mode with
  | start _ =>
      simp only [hσ] at hmode
      obtain ⟨rfl, -⟩ := hmode
      simp only [atStart]
      split_ifs with h₁ h₂ h₃
      · exact absurd h₁.2.2 hhigh
      · exact .inr ⟨hout, trivial⟩
      · exact .inl ⟨.field σ.f, by simp [closeField, hout], hf⟩
      · exact absurd (hends h₂) h₃
  | afterCr =>
      simp [hσ] at hmode
  | emptyLine cr =>
      simp [hσ] at hmode
  | afterSep =>
      simp [hσ] at hmode
  | bare =>
      exact hinField
  | quoted fresh cr =>
      simp only [hσ] at hmode
      simp only [inQuotes, if_neg hquote, if_neg heof]
      rw [if_neg fun h => hhigh h.2.2]
      refine .inr ⟨hout, rfl, ?_, by simp⟩
      by_cases hnil : σ.f = []
      · simpa [hnil] using AsciiHead.singleton hhigh
      · exact hmode.1.append hnil [b]
  | quoteSeen =>
      simp only [afterQuote, if_neg hquote]
      exact hinField

/-- Once the start of the first field is lost, the first field reported is not the
whole content. -/
theorem Lost.closed
    {σ : Scan} {first : Byte} {content : Bytes}
    (hfirst : Byte.isHigh first)
    (h : σ.Lost (first :: content))
    (hfault : Token.fault ∉ σ.closed) :
    (σ.closed.filterMap Token.content).head? ≠ some (first :: content) := by
  have hclosed := (lost_iff.mp h).closed (spoils_asciiHead hfirst content)
  rcases hclosed with hclosed | ⟨token, rest, hclosed, hne⟩
  · simp [hclosed]
  · rw [hclosed] at hfault ⊢
    cases token with
    | field f =>
        simpa [Token.content] using hne
    | record f =>
        simpa [Token.content] using hne
    | fault =>
        simp at hfault

end Scan

namespace Document

/-- The text begins, behind the byte order mark, with the first header field and
the separator or line end behind it. -/
theorem encode_eq_first
    {sep : Byte} {N : Nat} {d : Document}
    (h : d.WellFormed sep N) :
    ∃ (fd : Field) (delimiter : Byte) (rest : Bytes),
      fd.content = d.firstContent ∧ fd.WellFormed sep ∧
      (delimiter = sep ∨ delimiter = Byte.cr ∨ delimiter = Byte.lf) ∧
      d.encode sep = d.mark ++ (fd.encode ++ delimiter :: rest) := by
  obtain ⟨r, rs, hrecords⟩ := List.exists_cons_of_ne_nil h.records_ne
  have hmem : r ∈ d.records := by simp [hrecords]
  obtain ⟨fd, fds, hfields⟩ : ∃ fd fds, r.fields = fd :: fds := by
    refine List.exists_cons_of_ne_nil fun hnil => h.not_empty r hmem ?_
    rw [hnil]
    rfl
  have hcontent : fd.content = d.firstContent := by
    simp [firstContent, contents, hrecords, Record.contents, hfields]
  have hfd : fd.WellFormed sep := h.fields r hmem fd (by simp [hfields])
  rw [encode, hrecords, List.flatMap_cons, Record.encode, hfields]
  cases fds with
  | nil =>
      obtain ⟨b, bs, hend, hb⟩ :
          ∃ b bs, r.lineEnd.encode = b :: bs ∧ (b = Byte.cr ∨ b = Byte.lf) := by
        cases r.lineEnd with
        | lf =>
            exact ⟨_, _, rfl, .inr rfl⟩
        | cr =>
            exact ⟨_, _, rfl, .inl rfl⟩
        | crlf =>
            exact ⟨_, _, rfl, .inl rfl⟩
      exact ⟨fd, b, bs ++ rs.flatMap (Record.encode sep), hcontent, hfd, .inr hb,
        by simp [joined, hend]⟩
  | cons fd' fds =>
      exact ⟨fd, sep, joined sep (fd' :: fds) ++ r.lineEnd.encode ++
        rs.flatMap (Record.encode sep), hcontent, hfd, .inl rfl, by simp⟩

end Document

/-- The content begins with the encoding of a character outside ASCII, other than
the byte order mark. -/
def BeginsNonAscii (content : Bytes) : Prop :=
  ∃ c : Char,
    0x80 ≤ c.toNat ∧ c.toNat ≠ 0xFEFF ∧ String.utf8EncodeChar c <+: content

theorem BeginsNonAscii.high
    {content : Bytes} (h : BeginsNonAscii content) :
    ∃ first rest, content = first :: rest ∧ Byte.isHigh first := by
  obtain ⟨c, hc, -, tail, rfl⟩ := h
  obtain ⟨b, bs, hencode, hb⟩ := Utf8.head_encodeChar_of_not_ascii hc
  refine ⟨b, bs ++ tail, by rw [hencode]; rfl, ?_⟩
  rw [Byte.isHigh_iff, UInt8.le_iff_toNat_le]
  exact hb

end Csv

/-- **The first header field is stripped** of the bytes of a character outside
ASCII: the first cell is never the complete content of such a field. -/
theorem readCSV_strips_first_field
    {sep : Byte} {N : Nat} {d : Document}
    (hsep : Separator sep)
    (h : d.WellFormed sep N)
    (hstart : BeginsNonAscii d.firstContent) :
    ¬ ∃ t t',
      readCSV (d.encode sep) sep = .ok t ∧
      (Table.fetch 0 0).run t = .ok d.firstContent t' := by
  rintro ⟨t, t', hread, hfetch⟩
  obtain ⟨first, rest, hfirst, hhigh⟩ := hstart.high
  obtain ⟨fd, delimiter, tail, hcontent, hfd, hdelimiter, htext⟩ :=
    Document.encode_eq_first h
  have hstripped :=
    Scan.stripped_scan_field hfd (hcontent.trans hfirst) hhigh
  rw [hcontent.trans hfirst] at hstripped
  have hlost : (scan sep (d.encode sep)).Lost (first :: rest) := by
    rw [htext, scan_append, Document.scan_mark, Scan.scanFrom_append,
      Scan.scanFrom_cons]
    have hlost := Scan.lost_iff.mp (Scan.lost_delimiter hsep hstripped hdelimiter)
    exact Scan.lost_iff.mpr (hlost.scanFrom (Scan.spoils_asciiHead hhigh rest) tail)
  obtain ⟨hacc, rfl⟩ := Scan.table_of_answer (readCSV_eq_ok_iff.mp hread)
  have hcell := hacc.fetch_first hfetch
  rw [Layout.fields_ofTokens, hfirst] at hcell
  exact hlost.closed hhigh (fun hf => hacc.shape (Layout.faulty_ofTokens hf)) hcell

/-- The header `é;b` and one record, the first field in quotes or not. -/
def accentDocument (quoted : Bool) : Document where
  bom := false
  records :=
    [⟨[⟨quoted, [0xC3, 0xA9]⟩, ⟨false, [0x62]⟩], .lf⟩,
      ⟨[⟨false, [0x31]⟩, ⟨false, [0x32]⟩], .lf⟩]

theorem readCSV_strips_first_field_accent :
    ¬ ∃ t t',
      readCSV ((accentDocument true).encode 0x3B) 0x3B = .ok t ∧
      (Table.fetch 0 0).run t = .ok (accentDocument true).firstContent t' :=
  readCSV_strips_first_field (by decide) (N := 2) (by decide)
    ⟨Char.ofNat 0xE9, by decide, by decide, by decide⟩

/-- The first cell of the returned table is empty instead. -/
theorem readCSV_accent :
    Separator 0x3B ∧ (accentDocument false).WellFormed 0x3B 2 ∧
      BeginsNonAscii (accentDocument false).firstContent ∧
      ¬ ∃ t t',
        readCSV ((accentDocument false).encode 0x3B) 0x3B = .ok t ∧
        (Table.fetch 0 0).run t = .ok (accentDocument false).firstContent t' := by
  refine ⟨by decide, by decide,
    ⟨Char.ofNat 0xE9, by decide, by decide, by decide⟩, ?_⟩
  rintro ⟨t, t', hread, hfetch⟩
  have htable :
      (scan 0x3B ((accentDocument false).encode 0x3B)).answer =
        .ok { cols_ := 2, data_ := [[], [0x62], [0x31], [0x32]] } := by
    decide
  rw [readCSV_eq_ok_iff, htable] at hread
  cases hread
  cases hfetch

end Bren
end Brenlib
