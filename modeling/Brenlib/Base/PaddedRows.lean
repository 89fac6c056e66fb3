import Mathlib.Data.List.TakeDrop
import Mathlib.Tactic

/-!
# Rows of one width stored in a flat list

A list of rows, each of at most `width` entries, is laid out in one flat list by
filling every row up to `width` with a default entry.  The module says how the
flat list changes when rows are appended or filled entry by entry, and where an
entry is found in it.  `exists_first_cell` finds the first entry with a property, row
by row.
-/

namespace Brenlib
namespace PaddedRows

variable {T : Type}

/-- Growing a list with `takeD` appends default entries. -/
theorem takeD_length_add
    (l : List T) (n : Nat) (d : T) :
    l.takeD (l.length + n) d = l ++ List.replicate n d := by
  induction l with
  | nil =>
      simp
  | cons a l ih =>
      rw [List.length_cons, Nat.add_right_comm, List.takeD_succ]
      simp [ih]

/-- One row filled up to the width. -/
def pad (width : Nat) (d : T) (row : List T) : List T :=
  row.rightpad width d

@[simp] theorem pad_nil
    (width : Nat) (d : T) :
    pad width d [] = List.replicate width d := by
  simp [pad, List.rightpad]

theorem length_pad
    {width : Nat} {row : List T} (d : T)
    (h : row.length ≤ width) :
    (pad width d row).length = width := by
  rw [pad, List.length_rightpad, Nat.max_eq_left h]

theorem pad_full
    {width : Nat} {row : List T} (d : T)
    (h : row.length = width) :
    pad width d row = row := by
  simp [pad, List.rightpad, h]

/-- Writing the first unused entry of a row extends the row by that entry. -/
theorem set_pad
    {width : Nat} {row : List T} (d v : T)
    (h : row.length < width) :
    (pad width d row).set row.length v = pad width d (row ++ [v]) := by
  obtain ⟨n, hn⟩ : ∃ n, width - row.length = n + 1 :=
    ⟨width - row.length - 1, by omega⟩
  have hn' : width - (row ++ [v]).length = n := by
    simp
    omega
  simp only [pad, List.rightpad, hn, hn', List.replicate_succ]
  rw [List.set_append_right _ _ le_rfl, Nat.sub_self]
  simp

/-- The flat list of all rows. -/
def flat (width : Nat) (d : T) (rows : List (List T)) : List T :=
  rows.flatMap (pad width d)

@[simp] theorem flat_nil
    (width : Nat) (d : T) :
    flat width d [] = [] := rfl

@[simp] theorem flat_cons
    (width : Nat) (d : T) (row : List T) (rows : List (List T)) :
    flat width d (row :: rows) = pad width d row ++ flat width d rows := rfl

@[simp] theorem flat_append
    (width : Nat) (d : T) (rows rows' : List (List T)) :
    flat width d (rows ++ rows') = flat width d rows ++ flat width d rows' := by
  simp [flat]

theorem length_flat
    {width : Nat} {rows : List (List T)} (d : T)
    (h : ∀ row ∈ rows, row.length ≤ width) :
    (flat width d rows).length = width * rows.length := by
  induction rows with
  | nil =>
      simp
  | cons row rows ih =>
      have hrow := length_pad d (h row (by simp))
      have hrows := ih (fun r hr => h r (by simp [hr]))
      rw [flat_cons, List.length_append, hrow, hrows, List.length_cons]
      ring

/-- An entry of a row that is filled up. -/
theorem getElem?_pad
    {width c : Nat} (d : T) (row : List T)
    (hc : c < width) :
    (pad width d row)[c]? = some (row.getD c d) := by
  rw [pad, List.rightpad, List.getD_eq_getElem?_getD]
  by_cases hlt : c < row.length
  · rw [List.getElem?_append_left hlt, List.getElem?_eq_getElem hlt, Option.getD_some]
  · have hle := Nat.le_of_not_lt hlt
    rw [List.getElem?_append_right hle, List.getElem?_eq_none hle, Option.getD_none,
      List.getElem?_replicate, if_pos (by omega)]

/-- Entry `c` of row `r`, or the default behind the end of the row. -/
theorem getElem?_flat_padded
    {width : Nat} {rows : List (List T)} (d : T)
    (h : ∀ row ∈ rows, row.length ≤ width)
    {r c : Nat} (hc : c < width) :
    (flat width d rows)[width * r + c]? = rows[r]?.map (·.getD c d) := by
  induction rows generalizing r with
  | nil =>
      simp
  | cons row rows ih =>
      have hrow := length_pad d (h row (by simp))
      rw [flat_cons]
      cases r with
      | zero =>
          rw [List.getElem?_append_left (by omega), Nat.mul_zero, Nat.zero_add,
            getElem?_pad d row hc]
          rfl
      | succ r =>
          have hidx : width * (r + 1) + c - (pad width d row).length = width * r + c := by
            rw [hrow, Nat.mul_succ]
            omega
          have hge : (pad width d row).length ≤ width * (r + 1) + c := by
            rw [hrow, Nat.mul_succ]
            omega
          rw [List.getElem?_append_right hge, hidx,
            ih (fun q hq => h q (by simp [hq]))]
          simp

/-- Entry `c` of row `r`, when every row is full. -/
theorem getElem?_flat
    {width : Nat} {rows : List (List T)} (d : T)
    (h : ∀ row ∈ rows, row.length = width)
    {r c : Nat} (hc : c < width) :
    (flat width d rows)[width * r + c]? = rows[r]?.bind (·[c]?) := by
  rw [getElem?_flat_padded d (fun row hrow => le_of_eq (h row hrow)) hc]
  cases hrow : rows[r]? with
  | none =>
      rfl
  | some row =>
      have hlen : c < row.length := by
        rw [h row (List.mem_of_getElem? hrow)]
        exact hc
      simp [List.getD_eq_getElem?_getD, List.getElem?_eq_getElem hlen]

section First

theorem exists_first
    {P : T → Prop} {l : List T} (h : ∃ a ∈ l, P a) :
    ∃ before a after, l = before ++ a :: after ∧ (∀ b ∈ before, ¬ P b) ∧ P a := by
  induction l with
  | nil =>
      simp at h
  | cons a l ih =>
      by_cases ha : P a
      · exact ⟨[], a, l, rfl, by simp, ha⟩
      · have hrest : ∃ b ∈ l, P b := by simpa [ha] using h
        obtain ⟨before, b, after, rfl, hbefore, hb⟩ := ih hrest
        refine ⟨a :: before, b, after, rfl, ?_, hb⟩
        intro c hc
        rcases List.mem_cons.mp hc with rfl | hc
        · exact ha
        · exact hbefore c hc

/-- The first entry with a property, in the order of the flat list. -/
theorem exists_first_cell
    {P : T → Prop} {rows : List (List T)} (h : ∃ row ∈ rows, ∃ a ∈ row, P a) :
    ∃ before left a right after,
      rows = before ++ (left ++ a :: right) :: after ∧
      (∀ row ∈ before, ∀ b ∈ row, ¬ P b) ∧ (∀ b ∈ left, ¬ P b) ∧ P a := by
  obtain ⟨before, row, after, rfl, hbefore, hrow⟩ := exists_first h
  obtain ⟨left, a, right, rfl, hleft, ha⟩ := exists_first hrow
  exact ⟨before, left, a, right, after, rfl,
    fun row hrow b hb hP => hbefore row hrow ⟨b, hb, hP⟩, hleft, ha⟩

end First

end PaddedRows
end Brenlib
