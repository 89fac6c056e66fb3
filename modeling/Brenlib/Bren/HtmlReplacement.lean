import Brenlib.Bren.HtmlCharEntRefs

/-!
# Which references `htmlCharEntRefCodes2ascii` replaces

`Replaced s r` is the replacement that the function is for, read from left to right.  Names
contain neither ampersands nor semicolons, so references do not overlap, and the result is
determined (`Replaced.unique`).

A reference is `Hidden` when the function skips it: an ampersand stands in front of it
without a semicolon in between, and the two are so close together that what is between the
ampersand and the semicolon is not longer than the longest name.

**Results.**
* `Scanned.compares`: the result of the function is the replacement, or longer than it
  where a reference is hidden.
* `replaces_all_iff`: it is the replacement exactly where no reference is hidden.
-/

namespace Brenlib
namespace Bren

namespace Html

/-- The bytes begin with a reference of the table. -/
def StartsReference (s : Bytes) : Prop :=
  ∃ name c rest, hcerc2asc.lookup name = some c ∧ s = reference name ++ rest

/-- The second string is the first one with every reference of the table replaced, and
everything else kept in order. -/
inductive Replaced : Bytes → Bytes → Prop
  | nil :
      Replaced [] []
  | replace
      {name rest r : Bytes} {c : Byte}
      (hlookup : hcerc2asc.lookup name = some c)
      (hrest : Replaced rest r) :
      Replaced (reference name ++ rest) (c :: r)
  | keep
      {b : Byte} {s r : Bytes}
      (hstart : ¬ StartsReference (b :: s))
      (hrest : Replaced s r) :
      Replaced (b :: s) (b :: r)

/-- A reference stands behind a stray ampersand, at most `maxlen` bytes between that
ampersand and the semicolon. -/
def Hidden (s : Bytes) : Prop :=
  ∃ before w name after,
    s = before ++ Byte.ampersand :: (w ++ (reference name ++ after)) ∧
    Byte.semicolon ∉ w ∧ name ∈ hcerc2asc ∧ w.length + 1 + name.length ≤ maxlen

section References

variable {name name' rest rest' s r r' pre content : Bytes} {b c : Byte}

theorem reference_append
    (name rest : Bytes) :
    reference name ++ rest =
      Byte.ampersand :: (name ++ Byte.semicolon :: rest) := by
  rw [reference, List.cons_append, List.append_assoc, List.singleton_append]

/-- The first semicolon ends the name. -/
theorem reference_inj
    (hname : Byte.semicolon ∉ name)
    (hname' : Byte.semicolon ∉ name')
    (h : reference name ++ rest = reference name' ++ rest') :
    name = name' ∧ rest = rest' := by
  rw [reference_append, reference_append, List.cons.injEq] at h
  exact append_cons_inj hname hname' h.2

theorem Replaced.of_reference
    (hlookup : hcerc2asc.lookup name = some c)
    (h : Replaced (reference name ++ rest) r) :
    ∃ r', r = c :: r' ∧ Replaced rest r' := by
  generalize hs : reference name ++ rest = s at h
  cases h with
  | nil =>
      rw [reference_append] at hs
      cases hs
  | @replace name' rest' r' c' hlookup' hrest =>
      obtain ⟨-, hname, -⟩ := name_spec hlookup
      obtain ⟨-, hname', -⟩ := name_spec hlookup'
      obtain ⟨rfl, rfl⟩ := reference_inj hname hname' hs
      obtain rfl := Option.some.inj (hlookup.symm.trans hlookup')
      exact ⟨r', rfl, hrest⟩
  | keep hstart hrest =>
      exact absurd ⟨name, c, rest, hlookup, hs.symm⟩ hstart

theorem Replaced.of_not_starts
    (hstart : ¬ StartsReference (b :: s))
    (h : Replaced (b :: s) r) :
    ∃ r', r = b :: r' ∧ Replaced s r' := by
  generalize hs : b :: s = t at h
  cases h with
  | nil =>
      cases hs
  | replace hlookup hrest =>
      exact absurd ⟨_, _, _, hlookup, hs⟩ hstart
  | @keep b' s' r' _ hrest =>
      obtain ⟨rfl, rfl⟩ := List.cons.inj hs
      exact ⟨r', rfl, hrest⟩

/-- A replacement is determined. -/
theorem Replaced.unique
    (h : Replaced s r)
    (h' : Replaced s r') :
    r = r' := by
  induction h generalizing r' with
  | nil =>
      cases h' with
      | nil => rfl
  | replace hlookup hrest ih =>
      obtain ⟨r'', rfl, hrest'⟩ := h'.of_reference hlookup
      rw [ih hrest']
  | keep hstart hrest ih =>
      obtain ⟨r'', rfl, hrest'⟩ := h'.of_not_starts hstart
      rw [ih hrest']

/-- A part in which no reference begins is kept. -/
theorem Replaced.append
    (pre : Bytes)
    (hpre : ∀ x y, pre = x ++ y → y ≠ [] → ¬ StartsReference (y ++ s))
    (h : Replaced s r) :
    Replaced (pre ++ s) (pre ++ r) := by
  induction pre with
  | nil =>
      exact h
  | cons b pre ih =>
      refine .keep (hpre [] (b :: pre) rfl (List.cons_ne_nil b pre)) (ih ?_)
      intro x y hxy hy
      exact hpre (b :: x) y (by rw [hxy, List.cons_append]) hy

/-- A reference begins with an ampersand, and its name ends at the first semicolon. -/
theorem StartsReference.of_append
    (hpre : Byte.semicolon ∉ pre)
    (hne : pre ≠ [])
    (h : StartsReference (pre ++ Byte.semicolon :: rest)) :
    ∃ name c, hcerc2asc.lookup name = some c ∧ pre = Byte.ampersand :: name := by
  obtain ⟨name, c, after, hlookup, heq⟩ := h
  obtain ⟨b, pre', rfl⟩ := List.exists_cons_of_ne_nil hne
  rw [reference_append, List.cons_append, List.cons.injEq] at heq
  rw [List.mem_cons, not_or] at hpre
  obtain ⟨-, hname, -⟩ := name_spec hlookup
  obtain ⟨rfl, -⟩ := append_cons_inj hpre.2 hname heq.2
  exact ⟨pre', c, hlookup, by rw [heq.1]⟩

theorem StartsReference.mem_of_ampersand
    (hcontent : Byte.semicolon ∉ content)
    (h : StartsReference (Byte.ampersand :: (content ++ Byte.semicolon :: rest))) :
    content ∈ hcerc2asc := by
  have hpre : Byte.semicolon ∉ Byte.ampersand :: content := by
    rw [List.mem_cons, not_or]
    exact ⟨by decide, hcontent⟩
  obtain ⟨name, c, hlookup, heq⟩ :=
    StartsReference.of_append hpre (List.cons_ne_nil _ _) h
  rw [List.tail_eq_of_cons_eq heq]
  exact mem_hcerc2asc hlookup

theorem not_startsReference_of_ne
    (hne : b ≠ Byte.ampersand) :
    ¬ StartsReference (b :: s) := by
  rintro ⟨name, c, after, -, heq⟩
  rw [reference_append, List.cons.injEq] at heq
  exact hne heq.1

theorem not_startsReference_of_no_semicolon
    (hsc : Byte.semicolon ∉ s) :
    ¬ StartsReference s := by
  rintro ⟨name, c, after, -, rfl⟩
  rw [reference_append] at hsc
  exact hsc (by simp)

end References

section HiddenReferences

variable {name rest s r content w : Bytes} {b c : Byte}

theorem not_hidden_of_no_semicolon
    (hsc : Byte.semicolon ∉ s) :
    ¬ Hidden s := by
  rintro ⟨before, w, name, after, rfl, -⟩
  rw [reference_append] at hsc
  exact hsc (by simp)

theorem Hidden.append
    (h : Hidden s)
    (pre : Bytes) :
    Hidden (pre ++ s) := by
  obtain ⟨before, w, name, after, rfl, hrest⟩ := h
  exact ⟨pre ++ before, w, name, after, by rw [List.append_assoc], hrest⟩

theorem Hidden.of_other
    (hne : b ≠ Byte.ampersand)
    (h : Hidden (b :: s)) :
    Hidden s := by
  obtain ⟨before, w, name, after, heq, hrest⟩ := h
  cases before with
  | nil =>
      exact absurd (List.head_eq_of_cons_eq heq) hne
  | cons a before =>
      exact ⟨before, w, name, after, List.tail_eq_of_cons_eq heq, hrest⟩

/-- The content of a reference that hides another one ends in the other one's name. -/
theorem content_of_hidden
    (hcontent : Byte.semicolon ∉ content)
    (hw : Byte.semicolon ∉ w)
    (hname : name ∈ hcerc2asc)
    (heq : content ++ Byte.semicolon :: rest = w ++ (reference name ++ s)) :
    content = w ++ Byte.ampersand :: name := by
  obtain ⟨c, hlookup⟩ := Option.isSome_iff_exists.mp (AList.lookup_isSome.mpr hname)
  obtain ⟨-, hsc, -⟩ := name_spec hlookup
  have hw' : Byte.semicolon ∉ w ++ Byte.ampersand :: name := by
    rw [List.mem_append, List.mem_cons, not_or, not_or]
    exact ⟨hw, by decide, hsc⟩
  rw [reference_append, ← List.cons_append, ← List.append_assoc] at heq
  exact (append_cons_inj hcontent hw' heq).1

/-- A reference is hidden by the ampersand in front, or by a later one. -/
theorem Hidden.of_ampersand
    (hcontent : Byte.semicolon ∉ content)
    (h : Hidden (Byte.ampersand :: (content ++ Byte.semicolon :: rest))) :
    (∃ w name, content = w ++ Byte.ampersand :: name ∧ name ∈ hcerc2asc ∧
      content.length ≤ maxlen) ∨
    Hidden (content ++ Byte.semicolon :: rest) := by
  obtain ⟨before, w, name, after, heq, hw, hname, hlen⟩ := h
  cases before with
  | nil =>
      have hsplit := content_of_hidden hcontent hw hname (List.tail_eq_of_cons_eq heq)
      refine .inl ⟨w, name, hsplit, hname, ?_⟩
      rw [hsplit, List.length_append, List.length_cons]
      omega
  | cons a before =>
      exact .inr ⟨before, w, name, after, List.tail_eq_of_cons_eq heq, hw, hname, hlen⟩

/-- A part without a semicolon that does not end in a known name hides nothing. -/
theorem Hidden.of_content
    (hcontent : Byte.semicolon ∉ content)
    (hno : ∀ w name, content = w ++ Byte.ampersand :: name → name ∉ hcerc2asc)
    (h : Hidden (content ++ Byte.semicolon :: rest)) :
    Hidden rest := by
  induction content with
  | nil =>
      exact h.of_other (by decide)
  | cons b content ih =>
      have hcontent' := fun hmem => hcontent (List.mem_cons_of_mem b hmem)
      have hno' : ∀ w name, content = w ++ Byte.ampersand :: name → name ∉ hcerc2asc := by
        intro w name heq
        exact hno (b :: w) name (by rw [heq, List.cons_append])
      by_cases hb : b = Byte.ampersand
      · subst hb
        rcases Hidden.of_ampersand hcontent' h with ⟨w, name, heq, hname, -⟩ | hlater
        · exact absurd hname (hno' w name heq)
        · exact ih hcontent' hno' hlater
      · exact ih hcontent' hno' (h.of_other hb)

/-- Behind an ampersand without a reference, everything up to the semicolon is kept. -/
theorem Replaced.skip
    (hcontent : Byte.semicolon ∉ content)
    (hno : ∀ w name,
      Byte.ampersand :: content = w ++ Byte.ampersand :: name → name ∉ hcerc2asc)
    (h : Replaced rest r) :
    Replaced (Byte.ampersand :: (content ++ Byte.semicolon :: rest))
      (Byte.ampersand :: (content ++ Byte.semicolon :: r)) := by
  have hpre : Byte.semicolon ∉ Byte.ampersand :: content := by
    rw [List.mem_cons, not_or]
    exact ⟨by decide, hcontent⟩
  have hsemicolon : Replaced (Byte.semicolon :: rest) (Byte.semicolon :: r) :=
    .keep (not_startsReference_of_ne (by decide)) h
  refine Replaced.append (Byte.ampersand :: content) ?_ hsemicolon
  intro x y hxy hy hstart
  have hsc : Byte.semicolon ∉ y := fun hmem => hpre (hxy ▸ List.mem_append_right x hmem)
  obtain ⟨name, c, hlookup, rfl⟩ := hstart.of_append hsc hy
  exact hno x name hxy (mem_hcerc2asc hlookup)

/-- Behind an ampersand, a reference is replaced even if the text in front of it is
none. -/
theorem Replaced.behind
    (hw : Byte.semicolon ∉ w)
    (hlookup : hcerc2asc.lookup name = some c)
    (h : Replaced rest r) :
    Replaced (Byte.ampersand :: (w ++ (reference name ++ rest)))
      (Byte.ampersand :: (w ++ c :: r)) := by
  obtain ⟨-, hname, -⟩ := name_spec hlookup
  have hpre : Byte.semicolon ∉ Byte.ampersand :: w := by
    rw [List.mem_cons, not_or]
    exact ⟨by decide, hw⟩
  refine Replaced.append (Byte.ampersand :: w) ?_ (.replace hlookup h)
  intro x y hxy hy hstart
  have hsc : Byte.semicolon ∉ y ++ Byte.ampersand :: name := by
    rw [List.mem_append, List.mem_cons, not_or, not_or]
    exact ⟨fun hmem => hpre (hxy ▸ List.mem_append_right x hmem), by decide, hname⟩
  rw [reference_append, ← List.cons_append, ← List.append_assoc] at hstart
  obtain ⟨name', c', hlookup', heq⟩ := hstart.of_append hsc (by simp)
  -- the name would contain the ampersand of the reference behind it
  obtain ⟨a, y, rfl⟩ := List.exists_cons_of_ne_nil hy
  obtain ⟨hamp, -⟩ := name_spec hlookup'
  rw [List.cons_append, List.cons.injEq] at heq
  exact hamp (heq.2 ▸ by simp)

/-- A result is the replacement, or longer than it where a reference is hidden. -/
def Compares (s r : Bytes) : Prop :=
  ∃ r', Replaced s r' ∧ (r' = r ∧ ¬ Hidden s ∨ r'.length < r.length ∧ Hidden s)

theorem Compares.other
    (hne : b ≠ Byte.ampersand)
    (h : Compares s r) :
    Compares (b :: s) (b :: r) := by
  obtain ⟨r', hr', hcase⟩ := h
  refine ⟨b :: r', .keep (not_startsReference_of_ne hne) hr', ?_⟩
  rcases hcase with ⟨rfl, hnot⟩ | ⟨hlt, hhidden⟩
  · exact .inl ⟨rfl, fun h => hnot (h.of_other hne)⟩
  · exact .inr ⟨Nat.succ_lt_succ hlt, hhidden.append [b]⟩

theorem compares_of_no_semicolon
    (hs : Byte.semicolon ∉ s) :
    Compares s s := by
  refine ⟨s, ?_, .inl ⟨rfl, not_hidden_of_no_semicolon hs⟩⟩
  have hkept := Replaced.append s ?_ .nil
  · rwa [List.append_nil] at hkept
  · intro x y hxy _
    rw [List.append_nil]
    rw [hxy] at hs
    exact not_startsReference_of_no_semicolon fun hmem => hs (List.mem_append_right x hmem)

theorem Compares.tooLong
    (hcontent : Byte.semicolon ∉ content)
    (hlong : maxlen < content.length)
    (h : Compares (content ++ Byte.semicolon :: rest) r) :
    Compares (Byte.ampersand :: (content ++ Byte.semicolon :: rest)) (Byte.ampersand :: r) := by
  obtain ⟨r', hr', hcase⟩ := h
  refine ⟨Byte.ampersand :: r', .keep ?_ hr', ?_⟩
  · intro hstart
    have hlookup := hstart.mem_of_ampersand hcontent
    exact absurd (length_le_maxlen hlookup) (Nat.not_le.mpr hlong)
  · rcases hcase with ⟨rfl, hnot⟩ | ⟨hlt, hhidden⟩
    · refine .inl ⟨rfl, fun h => ?_⟩
      rcases Hidden.of_ampersand hcontent h with ⟨-, -, -, -, hle⟩ | hlater
      · exact absurd hle (Nat.not_le.mpr hlong)
      · exact hnot hlater
    · exact .inr ⟨Nat.succ_lt_succ hlt, hhidden.append [Byte.ampersand]⟩

/-- What is no reference is passed, and no reference begins in it. -/
theorem Compares.unknown
    (hcontent : Byte.semicolon ∉ content)
    (hlookup : hcerc2asc.lookup content = none)
    (hno : ∀ w name, content = w ++ Byte.ampersand :: name → name ∉ hcerc2asc)
    (h : Compares rest r) :
    Compares (Byte.ampersand :: (content ++ Byte.semicolon :: rest))
      (Byte.ampersand :: (content ++ Byte.semicolon :: r)) := by
  obtain ⟨r', hr', hcase⟩ := h
  have hskip := Replaced.skip hcontent (fun w name heq => ?_) hr'
  · refine ⟨_, hskip, ?_⟩
    rcases hcase with ⟨rfl, hnot⟩ | ⟨hlt, hhidden⟩
    · refine .inl ⟨rfl, fun h => hnot ?_⟩
      rcases Hidden.of_ampersand hcontent h with ⟨w, name, heq, hname, -⟩ | hlater
      · exact absurd hname (hno w name heq)
      · exact hlater.of_content hcontent hno
    · refine .inr ⟨?_, ?_⟩
      · simpa using hlt
      · have happend := hhidden.append (Byte.ampersand :: (content ++ [Byte.semicolon]))
        simpa using happend
  · cases w with
    | nil =>
        rw [← List.tail_eq_of_cons_eq heq, ← AList.lookup_eq_none]
        exact hlookup
    | cons a w =>
        exact hno w name (List.tail_eq_of_cons_eq heq)

/-- What is no reference is passed, and with it one that begins in it. -/
theorem Compares.hides
    (hw : Byte.semicolon ∉ w)
    (hname : name ∈ hcerc2asc)
    (hshort : w.length + 1 + name.length ≤ maxlen)
    (h : Compares rest r) :
    Compares (Byte.ampersand :: (w ++ (reference name ++ rest)))
      (Byte.ampersand :: (w ++ (reference name ++ r))) := by
  obtain ⟨r', hr', hcase⟩ := h
  obtain ⟨c, hlookup⟩ := Option.isSome_iff_exists.mp (AList.lookup_isSome.mpr hname)
  have hbehind := Replaced.behind hw hlookup hr'
  have hlen : r'.length ≤ r.length := by
    rcases hcase with ⟨rfl, -⟩ | ⟨hlt, -⟩
    · exact le_rfl
    · exact le_of_lt hlt
  refine ⟨_, hbehind, .inr ⟨?_, [], w, name, rest, rfl, hw, hname, hshort⟩⟩
  rw [reference_append]
  simp only [List.length_cons, List.length_append]
  omega

theorem Compares.known
    (hlookup : hcerc2asc.lookup name = some c)
    (h : Compares rest r) :
    Compares (reference name ++ rest) (c :: r) := by
  obtain ⟨r', hr', hcase⟩ := h
  obtain ⟨hamp, hcontent, -⟩ := name_spec hlookup
  have hno : ∀ w name', name = w ++ Byte.ampersand :: name' → name' ∉ hcerc2asc := by
    rintro w name' rfl
    exact absurd (by simp) hamp
  refine ⟨c :: r', .replace hlookup hr', ?_⟩
  rcases hcase with ⟨rfl, hnot⟩ | ⟨hlt, hhidden⟩
  · refine .inl ⟨rfl, fun h => hnot ?_⟩
    rw [reference_append] at h
    rcases Hidden.of_ampersand hcontent h with ⟨w, name', heq, hname, -⟩ | hlater
    · exact absurd hname (hno w name' heq)
    · exact hlater.of_content hcontent hno
  · exact .inr ⟨Nat.succ_lt_succ hlt, hhidden.append (reference name)⟩

/-- The result of the function compared with the replacement. -/
theorem Scanned.compares
    (h : Scanned s r) :
    Compares s r := by
  induction h with
  | nil =>
      exact compares_of_no_semicolon List.not_mem_nil
  | other hne hrest ih =>
      exact ih.other hne
  | unclosed hsc =>
      refine compares_of_no_semicolon ?_
      rw [List.mem_cons, not_or]
      exact ⟨by decide, hsc⟩
  | tooLong hcontent hlong hrest ih =>
      exact ih.tooLong hcontent hlong
  | @unknown content rest r hcontent hshort hlookup hrest ih =>
      by_cases hno : ∀ w name, content = w ++ Byte.ampersand :: name → name ∉ hcerc2asc
      · exact ih.unknown hcontent hlookup hno
      · push Not at hno
        obtain ⟨w, name, rfl, hname⟩ := hno
        rw [List.mem_append, not_or] at hcontent
        rw [List.length_append, List.length_cons] at hshort
        have hhides := ih.hides hcontent.1 hname (by omega)
        rw [reference_append, reference_append] at hhides
        rw [List.append_assoc, List.append_assoc]
        exact hhides
  | known hlookup hrest ih =>
      rw [← reference_append]
      exact ih.known hlookup

theorem replaced_of_not_hidden
    (h : ¬ Hidden s) :
    Replaced s (htmlCharEntRefCodes2ascii s) := by
  obtain ⟨r, hr⟩ := exists_scanned s
  obtain ⟨r', hr', ⟨rfl, -⟩ | ⟨-, hhidden⟩⟩ := hr.compares
  · rwa [hr.eq]
  · exact absurd hhidden h

theorem not_replaced_of_hidden
    (h : Hidden s) :
    ¬ Replaced s (htmlCharEntRefCodes2ascii s) := by
  intro hreplaced
  obtain ⟨r, hr⟩ := exists_scanned s
  obtain ⟨r', hr', ⟨-, hnot⟩ | ⟨hlt, -⟩⟩ := hr.compares
  · exact hnot h
  · rw [hr.eq] at hreplaced
    rw [hreplaced.unique hr'] at hlt
    exact absurd hlt (Nat.lt_irrefl _)

/-- **The function replaces every reference** exactly where none is hidden. -/
theorem replaces_all_iff
    (s : Bytes) :
    Replaced s (htmlCharEntRefCodes2ascii s) ↔ ¬ Hidden s :=
  ⟨fun h hhidden => not_replaced_of_hidden hhidden h, replaced_of_not_hidden⟩

/-- The text `&x&lt;` is left as it is. -/
theorem skips_reference :
    htmlCharEntRefCodes2ascii (literal "&x&lt;") = literal "&x&lt;" ∧
    Replaced (literal "&x&lt;") (literal "&x<") ∧
    ¬ Replaced (literal "&x&lt;") (htmlCharEntRefCodes2ascii (literal "&x&lt;")) := by
  refine ⟨?_, ?_, ?_⟩
  · have hscanned : Scanned (literal "&x&lt;") (literal "&x&lt;") :=
      @Scanned.unknown (literal "x&lt") [] [] (by decide) (by decide) (by decide) .nil
    exact hscanned.eq
  · exact @Replaced.behind (literal "lt") [] [] (literal "x") _
      (by decide) (by decide) .nil
  · exact not_replaced_of_hidden
      ⟨[], literal "x", literal "lt", [], by decide, by decide, by decide, by decide⟩

end HiddenReferences

end Html

end Bren
end Brenlib
