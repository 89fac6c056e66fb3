import Brenlib.Bren.CsvScanner
import Brenlib.Bren.Table

/-!
# CSV text as records: the layout

The tokens of a scan group the fields into records.  A `Layout` is that grouping:
the complete records, the header first, and the fields of the record begun last.

A reader cannot accept every layout.  `Layout.accept` adds one token and says
which exception class the reader answers with when it cannot:

* `std::out_of_range` past the limits, 65535 columns or 2^32 cells;
* `std::runtime_error` for a fault and for a record longer than the header.

**Result.**  `run_eq_ok_iff`: all tokens are accepted exactly when the layout is within the
limits and well formed.
-/

namespace Brenlib
namespace Bren
namespace Csv

structure Layout where
  records : List (List Bytes)
  current : List Bytes
  faulty : Bool
deriving DecidableEq, Repr

namespace Layout

def empty : Layout :=
  { records := [], current := [], faulty := false }

/-- Number of fields of the header record. -/
def width (l : Layout) : Nat :=
  (l.records.headD []).length

/-- Number of records begun. -/
def begun (l : Layout) : Nat :=
  l.records.length + if l.current = [] then 0 else 1

/-- Group one more token. -/
def push (l : Layout) : Token → Layout
  | .field f => { l with current := l.current ++ [f] }
  | .record f =>
      { l with records := l.records ++ [l.current ++ [f]], current := [] }
  | .fault => { l with faulty := true }

/-- The grouping of a list of tokens. -/
def ofTokens (tokens : List Token) : Layout :=
  tokens.foldl push empty

/-- The limits of a reader: fewer than 65535 columns and fewer than 2^32 cells. -/
def Within (l : Layout) : Prop :=
  l.records = [] ∨ (l.width < 65535 ∧ l.width * l.begun < 2 ^ 32)

/-- A fault, or a record with more fields than the header. -/
def Malformed (l : Layout) : Prop :=
  l.faulty = true ∨
    (l.records ≠ [] ∧
      ((∃ r ∈ l.records, l.width < r.length) ∨ l.width ≤ l.current.length))

instance (l : Layout) : Decidable l.Within :=
  inferInstanceAs (Decidable (_ ∨ _))

instance (l : Layout) : Decidable l.Malformed :=
  inferInstanceAs (Decidable (_ ∨ _))

/-- Add one token, or say with which exception class the reader refuses it. -/
def accept (l : Layout) (token : Token) : Except ExceptionClass Layout :=
  match token with
  | .fault => .error .runtimeError
  | .field _ =>
      if l.records = [] then .ok (l.push token)
      else if 2 ^ 32 ≤ l.width * (l.records.length + 1) then .error .outOfRange
      else if l.width ≤ l.current.length + 1 then .error .runtimeError
      else .ok (l.push token)
  | .record _ =>
      if l.records = [] then
        if 65535 ≤ l.current.length + 1 then .error .outOfRange
        else .ok (l.push token)
      else if 2 ^ 32 ≤ l.width * (l.records.length + 1) then .error .outOfRange
      else .ok (l.push token)

/-- Add all tokens. -/
def run (tokens : List Token) : Except ExceptionClass Layout :=
  tokens.foldlM accept empty

@[simp] theorem run_nil :
    run [] = .ok empty := rfl

theorem run_append_singleton
    (tokens : List Token) (token : Token) :
    run (tokens ++ [token]) = run tokens >>= fun l => l.accept token := by
  simp [run, List.foldlM_append]

/-- Once a token is refused, later tokens do not matter. -/
theorem run_error_of_prefix
    {tokens tokens' : List Token} {k : ExceptionClass}
    (hpre : tokens <+: tokens')
    (h : run tokens = .error k) :
    run tokens' = .error k := by
  obtain ⟨rest, rfl⟩ := hpre
  unfold run at h ⊢
  rw [List.foldlM_append, h]
  rfl

@[simp] theorem ofTokens_nil :
    ofTokens [] = empty := rfl

@[simp] theorem ofTokens_append_singleton
    (tokens : List Token) (token : Token) :
    ofTokens (tokens ++ [token]) = (ofTokens tokens).push token := by
  simp [ofTokens]

theorem within_empty : empty.Within :=
  Or.inl rfl

theorem not_malformed_empty : ¬ empty.Malformed := by
  simp [Malformed, empty]

/-- The header keeps its place when records are added. -/
theorem width_push
    {l : Layout} (h : l.records ≠ []) (token : Token) :
    (l.push token).width = l.width := by
  cases token with
  | field f =>
      rfl
  | fault =>
      rfl
  | record f =>
      obtain ⟨hdr, rest, hcons⟩ := List.exists_cons_of_ne_nil h
      simp [push, width, hcons]

theorem records_ne_nil_of_accept
    {l l' : Layout} {f : Bytes}
    (h : l.accept (.record f) = .ok l') :
    l'.records ≠ [] := by
  simp only [accept] at h
  split_ifs at h <;> cases h <;> simp [push]

/-- One token, seen through the closed forms of the limits and of the shape. -/
theorem accept_eq
    {l : Layout}
    (hw : l.Within)
    (hm : ¬ l.Malformed)
    (token : Token) :
    l.accept token =
      if ¬ (l.push token).Within then .error .outOfRange
      else if (l.push token).Malformed then .error .runtimeError
      else .ok (l.push token) := by
  simp only [Malformed, not_or, not_and, not_exists, not_lt, not_le] at hm
  obtain ⟨hfaulty, hshape⟩ := hm
  by_cases hrec : l.records = []
  · cases token with
    | field f =>
        simp [accept, hrec, push, Within, Malformed, hfaulty]
    | fault =>
        simp [accept, hrec, push, Within, Malformed]
    | record f =>
        simp only [accept, hrec, push, Within, Malformed, width, begun]
        by_cases hlen : 65535 ≤ l.current.length + 1
        · have hnot : ¬ l.current.length + 1 < 65535 := by omega
          simp [hlen, hnot]
        · have hlt : l.current.length + 1 < 65535 := by omega
          have hcells : l.current.length < 4294967295 := by omega
          simp [hlen, hlt, hcells, hfaulty]
  · have hwidth := width_push hrec
    obtain ⟨hle, hcur⟩ := hshape hrec
    rcases hw with hnil | ⟨hcols, hcells⟩
    · exact absurd hnil hrec
    · cases token with
      | fault =>
          have hwithin : (l.push .fault).Within :=
            Or.inr ⟨hcols, hcells⟩
          have hmal : (l.push .fault).Malformed :=
            Or.inl rfl
          simp only [accept, hwithin, hmal, not_true_eq_false, if_false, if_true]
      | field f =>
          have hbegun : (l.push (.field f)).begun = l.records.length + 1 := by
            simp [push, begun]
          have hwithin :
              (l.push (.field f)).Within ↔
                ¬ 2 ^ 32 ≤ l.width * (l.records.length + 1) := by
            rw [Within, hwidth, hbegun, not_le]
            simp [push, hrec, hcols]
          have hmal :
              (l.push (.field f)).Malformed ↔
                l.width ≤ l.current.length + 1 := by
            rw [Malformed, hwidth]
            simp only [push, hfaulty, List.length_append, List.length_singleton]
            constructor
            · rintro (h | ⟨-, ⟨r, hr, hlt⟩ | h⟩)
              · cases h
              · exact absurd hlt (not_lt.mpr (hle r hr))
              · exact h
            · exact fun h => Or.inr ⟨hrec, Or.inr h⟩
          simp only [accept, hrec, hwithin, hmal, if_false, not_not]
      | record f =>
          have hbegun : (l.push (.record f)).begun = l.records.length + 1 := by
            simp [push, begun]
          have hwithin :
              (l.push (.record f)).Within ↔
                ¬ 2 ^ 32 ≤ l.width * (l.records.length + 1) := by
            rw [Within, hwidth, hbegun, not_le]
            simp [push, hcols]
          have hmal : ¬ (l.push (.record f)).Malformed := by
            rw [Malformed, hwidth]
            simp only [push, hfaulty, List.mem_append, List.mem_singleton,
              List.length_nil]
            rintro (h | ⟨-, ⟨r, hr | rfl, hlt⟩ | h⟩)
            · cases h
            · exact absurd hlt (not_lt.mpr (hle r hr))
            · simp at hlt
              omega
            · omega
          simp only [accept, hrec, hwithin, hmal, if_false, not_not]

theorem within_of_push
    {l : Layout} {token : Token}
    (h : (l.push token).Within) :
    l.Within := by
  by_cases hrec : l.records = []
  · exact Or.inl hrec
  · have hne : (l.push token).records ≠ [] := by
      cases token <;> simp [push, hrec]
    have hbegun : l.begun ≤ (l.push token).begun := by
      cases token with
      | field f =>
          simp only [begun, push]
          split <;> simp
      | record f =>
          simp only [begun, push, List.length_append]
          split <;> simp
      | fault =>
          exact le_rfl
    obtain h | ⟨hcols, hcells⟩ := h
    · exact absurd h hne
    · rw [width_push hrec] at hcols hcells
      exact Or.inr ⟨hcols,
        lt_of_le_of_lt (Nat.mul_le_mul_left _ hbegun) hcells⟩

theorem Malformed.push
    {l : Layout} (token : Token)
    (h : l.Malformed) :
    (l.push token).Malformed := by
  obtain hfaulty | ⟨hrec, hshape⟩ := h
  · left
    cases token <;> simp [Layout.push, hfaulty]
  · right
    refine ⟨by cases token <;> simp [Layout.push, hrec], ?_⟩
    rw [width_push hrec]
    obtain ⟨r, hr, hlt⟩ | hle := hshape
    · refine Or.inl ⟨r, ?_, hlt⟩
      cases token <;> simp [Layout.push, hr]
    · cases token with
      | field f =>
          right
          simp only [Layout.push, List.length_append]
          omega
      | record f =>
          left
          refine ⟨l.current ++ [f], by simp [Layout.push], ?_⟩
          simp only [List.length_append, List.length_singleton]
          omega
      | fault =>
          exact Or.inr hle

/-- The tokens are all accepted exactly when their layout is within the limits
and well formed. -/
theorem run_eq_ok_iff
    (tokens : List Token) (l : Layout) :
    run tokens = .ok l ↔
      l = ofTokens tokens ∧ l.Within ∧ ¬ l.Malformed := by
  induction tokens using List.reverseRecOn generalizing l with
  | nil =>
      constructor
      · intro h
        cases h
        exact ⟨rfl, within_empty, not_malformed_empty⟩
      · rintro ⟨rfl, -, -⟩
        rfl
  | append_singleton tokens token ih =>
      rw [run_append_singleton, ofTokens_append_singleton]
      constructor
      · intro h
        cases hrun : run tokens with
        | error k =>
            rw [hrun] at h
            cases h
        | ok l₀ =>
            obtain ⟨rfl, hw, hm⟩ := (ih l₀).mp hrun
            rw [hrun] at h
            change accept _ _ = _ at h
            rw [accept_eq hw hm] at h
            split_ifs at h with hw' hm'
            cases h
            exact ⟨rfl, hw', hm'⟩
      · rintro ⟨rfl, hw', hm'⟩
        have hw := within_of_push hw'
        have hm : ¬ (ofTokens tokens).Malformed := fun h => hm' (h.push token)
        rw [(ih _).mpr ⟨rfl, hw, hm⟩]
        change accept _ _ = _
        rw [accept_eq hw hm]
        simp [hw', hm']

end Layout

end Csv
end Bren
end Brenlib
