import Mathlib.Data.List.Lex
import Mathlib.Tactic

/-!
# The lexicographic order of texts in columns

Texts that put digits of a fixed number into columns of fixed widths are sorted as the
numbers in the columns are.

* `append_lt_append_iff`: columns of one width are compared one after the other.
* `numeral`: the number that digits denote; `numeral_lt_iff`: digits in one column are
  compared as numbers.
-/

namespace Brenlib
namespace Lexicographic

universe u

section Columns

variable {α : Type u} [LinearOrder α]

/-- The first column decides unless both texts have the same one. -/
theorem append_lt_append_iff
    {a a' b b' : List α}
    (hwidth : a.length = a'.length) :
    a ++ b < a' ++ b' ↔ a < a' ∨ a = a' ∧ b < b' := by
  induction a generalizing a' with
  | nil =>
      obtain rfl := List.length_eq_zero_iff.mp hwidth.symm
      simp
  | cons x a ih =>
      obtain ⟨x', a', rfl⟩ := List.exists_cons_of_length_eq_add_one hwidth.symm
      rw [List.cons_append, List.cons_append, List.cons_lt_cons_iff, List.cons_lt_cons_iff,
        ih (Nat.succ.inj hwidth), List.cons.injEq]
      tauto

theorem cons_lt_cons_self_iff
    {x : α} {b b' : List α} :
    x :: b < x :: b' ↔ b < b' := by
  rw [List.cons_lt_cons_iff]
  simp

end Columns

section Numerals

variable {base offset : Nat}

/-- The number that digits denote, the first digit being the most significant one. -/
def numeral (base offset : Nat) (digits : List Nat) : Nat :=
  digits.foldl (fun n c => base * n + (c - offset)) 0

theorem foldl_eq
    (digits : List Nat) (n : Nat) :
    digits.foldl (fun n c => base * n + (c - offset)) n =
      base ^ digits.length * n + numeral base offset digits := by
  induction digits generalizing n with
  | nil =>
      simp [numeral]
  | cons c digits ih =>
      have hnumeral : numeral base offset (c :: digits) =
          digits.foldl (fun n c => base * n + (c - offset)) (base * 0 + (c - offset)) := rfl
      rw [hnumeral, List.foldl_cons, ih, ih, List.length_cons, Nat.pow_succ, Nat.mul_add,
        Nat.mul_assoc, Nat.mul_zero, Nat.zero_add, Nat.add_assoc]

theorem numeral_cons
    (c : Nat) (digits : List Nat) :
    numeral base offset (c :: digits) =
      base ^ digits.length * (c - offset) + numeral base offset digits := by
  change digits.foldl _ (base * 0 + (c - offset)) = _
  rw [foldl_eq, Nat.mul_zero, Nat.zero_add]

/-- The characters are digits. -/
def AreDigits (base offset : Nat) (digits : List Nat) : Prop :=
  ∀ c ∈ digits, offset ≤ c ∧ c < offset + base

theorem numeral_lt_pow
    {digits : List Nat}
    (hdigits : AreDigits base offset digits) :
    numeral base offset digits < base ^ digits.length := by
  induction digits with
  | nil =>
      exact Nat.one_pos
  | cons c digits ih =>
      obtain ⟨hc, hdigits⟩ := List.forall_mem_cons.mp hdigits
      have hrest := ih hdigits
      rw [numeral_cons, List.length_cons]
      calc base ^ digits.length * (c - offset) + numeral base offset digits
          < base ^ digits.length * (c - offset) + base ^ digits.length := by omega
        _ = base ^ digits.length * (c - offset + 1) := (Nat.mul_succ _ _).symm
        _ ≤ base ^ digits.length * base := Nat.mul_le_mul_left _ (by omega)

/-- Digits in a column of one width are sorted as their numbers. -/
theorem numeral_lt_iff
    {ds es : List Nat}
    (hwidth : ds.length = es.length)
    (hds : AreDigits base offset ds)
    (hes : AreDigits base offset es) :
    ds < es ↔ numeral base offset ds < numeral base offset es := by
  induction ds generalizing es with
  | nil =>
      obtain rfl := List.length_eq_zero_iff.mp hwidth.symm
      simp
  | cons d ds ih =>
      obtain ⟨e, es, rfl⟩ := List.exists_cons_of_length_eq_add_one hwidth.symm
      have hwidth := Nat.succ.inj hwidth
      obtain ⟨hd, hds⟩ := List.forall_mem_cons.mp hds
      obtain ⟨he, hes⟩ := List.forall_mem_cons.mp hes
      have hltd := numeral_lt_pow hds
      have hlte := numeral_lt_pow hes
      rw [List.cons_lt_cons_iff, ih hwidth hds hes, numeral_cons, numeral_cons, ← hwidth]
      rw [← hwidth] at hlte
      generalize base ^ ds.length = p at hltd hlte
      rcases Nat.lt_trichotomy d e with hlt | rfl | hgt
      · have hstep : p * (d - offset + 1) ≤ p * (e - offset) := Nat.mul_le_mul_left _ (by omega)
        rw [Nat.mul_add, Nat.mul_one] at hstep
        exact iff_of_true (.inl hlt) (by omega)
      · simp
      · have hstep : p * (e - offset + 1) ≤ p * (d - offset) := Nat.mul_le_mul_left _ (by omega)
        rw [Nat.mul_add, Nat.mul_one] at hstep
        exact iff_of_false (by omega) (by omega)

end Numerals

end Lexicographic
end Brenlib
