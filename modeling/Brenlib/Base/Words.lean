import Mathlib.Data.List.TakeWhile
import Mathlib.Tactic

/-!
# The words of a text

A text is cut at its breaks, and the pieces that are not empty are its words.

* `words`: the words of a text, by `List.splitOnP`.
* `Cut`: a text cut into words with breaks around them; `cut_iff`: in one way.
* `exists_first_word` and `words_first`: how a scan from the left finds the first word.
* `IsGap.words_append`: a gap separates the words in front of it from those behind it.
-/

namespace Brenlib
namespace Words

universe u

variable {α : Type u} (isBreak : α → Prop) [DecidablePred isBreak]

/-- The pieces between the breaks, without the empty ones. -/
def words (text : List α) : List (List α) :=
  (text.splitOnP fun c => decide (isBreak c)).filter (· ≠ [])

/-- A word is not empty and has no break. -/
structure IsWord (word : List α) : Prop where
  ne_nil : word ≠ []
  no_break : ∀ c ∈ word, ¬ isBreak c

/-- Something that separates words: at least one break, and nothing else. -/
structure IsGap (gap : List α) : Prop where
  ne_nil : gap ≠ []
  breaks : ∀ c ∈ gap, isBreak c

/-- The text behind a word: nothing, or a break and what follows it. -/
def Behind (rest : List α) : Prop :=
  rest = [] ∨ ∃ c behind, rest = c :: behind ∧ isBreak c

/-- A text cut into words: breaks, a word, and the cut of the text behind the word. -/
inductive Cut : List α → List (List α) → Prop
  | breaks
      {gap : List α}
      (hgap : ∀ c ∈ gap, isBreak c) :
      Cut gap []
  | word
      {gap word rest : List α} {ws : List (List α)}
      (hgap : ∀ c ∈ gap, isBreak c)
      (hword : IsWord isBreak word)
      (hbehind : Behind isBreak rest)
      (hrest : Cut rest ws) :
      Cut (gap ++ (word ++ rest)) (word :: ws)

variable {isBreak} {c : α} {text rest word gap : List α}

@[simp] theorem words_nil :
    words isBreak [] = [] := rfl

theorem words_append_break
    (hc : isBreak c)
    (text rest : List α) :
    words isBreak (text ++ c :: rest) = words isBreak text ++ words isBreak rest := by
  unfold words
  rw [List.splitOnP_append_cons text rest (decide_eq_true hc), List.filter_append]

theorem words_cons_break
    (hc : isBreak c)
    (rest : List α) :
    words isBreak (c :: rest) = words isBreak rest :=
  words_append_break hc [] rest

/-- Breaks in front are skipped. -/
theorem words_skip
    (hgap : ∀ c ∈ gap, isBreak c)
    (rest : List α) :
    words isBreak (gap ++ rest) = words isBreak rest := by
  induction gap with
  | nil =>
      rfl
  | cons c gap ih =>
      rw [List.cons_append, words_cons_break (hgap c List.mem_cons_self)]
      exact ih fun c hc => hgap c (List.mem_cons_of_mem _ hc)

theorem words_of_breaks
    (hgap : ∀ c ∈ gap, isBreak c) :
    words isBreak gap = [] := by
  have hskip := words_skip hgap []
  rwa [List.append_nil] at hskip

theorem IsWord.words
    (h : IsWord isBreak word) :
    words isBreak word = [word] := by
  have hsingle : word.splitOnP (fun c => decide (isBreak c)) = [word] :=
    List.splitOnP_eq_singleton fun c hc => decide_eq_false (h.no_break c hc)
  rw [Words.words, hsingle]
  exact List.filter_cons_of_pos (decide_eq_true h.ne_nil)

variable (isBreak) in
/-- A text that is not made of breaks has a first word. -/
theorem exists_first_word
    (text : List α) :
    (∀ c ∈ text, isBreak c) ∨
      ∃ gap word rest,
        text = gap ++ (word ++ rest) ∧ (∀ c ∈ gap, isBreak c) ∧ IsWord isBreak word ∧
          Behind isBreak rest := by
  induction text with
  | nil =>
      exact .inl fun c hc => absurd hc List.not_mem_nil
  | cons c text ih =>
      by_cases hc : isBreak c
      · rcases ih with hall | ⟨gap, word, rest, rfl, hgap, hword, hbehind⟩
        · exact .inl (List.forall_mem_cons.mpr ⟨hc, hall⟩)
        · exact .inr ⟨c :: gap, word, rest, rfl, List.forall_mem_cons.mpr ⟨hc, hgap⟩, hword,
            hbehind⟩
      · -- the word goes on to the next break, if there is one
        refine .inr ⟨[], c :: text.takeWhile (¬ isBreak ·), text.dropWhile (¬ isBreak ·),
          by simp [List.takeWhile_append_dropWhile], by simp, ⟨by simp, ?_⟩, ?_⟩
        · refine List.forall_mem_cons.mpr ⟨hc, fun b hb => ?_⟩
          simpa using List.mem_takeWhile_imp hb
        · cases hdrop : text.dropWhile (¬ isBreak ·) with
          | nil =>
              exact .inl rfl
          | cons b behind =>
              have hhead := List.head_dropWhile_not (fun b => decide (¬ isBreak b)) (l := text)
              simp only [hdrop] at hhead
              have hb := hhead (List.cons_ne_nil b behind)
              exact .inr ⟨b, behind, rfl, not_not.mp (of_decide_eq_false hb)⟩

/-- The first word is followed by those of the text behind it. -/
theorem words_first
    (hgap : ∀ c ∈ gap, isBreak c)
    (hword : IsWord isBreak word)
    (hbehind : Behind isBreak rest) :
    words isBreak (gap ++ (word ++ rest)) = word :: words isBreak rest := by
  rw [words_skip hgap]
  rcases hbehind with rfl | ⟨c, behind, rfl, hc⟩
  · rw [List.append_nil, hword.words]
    rfl
  · rw [words_append_break hc, hword.words, words_cons_break hc]
    rfl

variable (isBreak) in
theorem cut_words
    (text : List α) :
    Cut isBreak text (words isBreak text) := by
  induction hn : text.length using Nat.strong_induction_on generalizing text with
  | _ n ih =>
      rcases exists_first_word isBreak text with
        hall | ⟨gap, word, rest, rfl, hgap, hword, hbehind⟩
      · rw [words_of_breaks hall]
        exact .breaks hall
      · rw [words_first hgap hword hbehind]
        have hpos := List.length_pos_of_ne_nil hword.ne_nil
        rw [List.length_append, List.length_append] at hn
        exact .word hgap hword hbehind (ih _ (by omega) rest rfl)

/-- A text is cut in one way. -/
theorem cut_iff
    {ws : List (List α)} :
    Cut isBreak text ws ↔ words isBreak text = ws := by
  constructor
  · intro h
    induction h with
    | breaks hgap =>
        exact words_of_breaks hgap
    | word hgap hword hbehind hrest ih =>
        rw [words_first hgap hword hbehind, ih]
  · rintro rfl
    exact cut_words isBreak text

theorem isWord_of_mem_words
    (h : word ∈ words isBreak text) :
    IsWord isBreak word := by
  have hcut := cut_words isBreak text
  generalize words isBreak text = ws at h hcut
  induction hcut with
  | breaks hgap =>
      cases h
  | word hgap hword hbehind hrest ih =>
      rcases List.mem_cons.mp h with rfl | hlater
      · exact hword
      · exact ih hlater

/-- A gap separates the words in front of it from those behind it. -/
theorem IsGap.words_append
    (h : IsGap isBreak gap)
    (text rest : List α) :
    words isBreak (text ++ (gap ++ rest)) = words isBreak text ++ words isBreak rest := by
  obtain ⟨c, gap, rfl⟩ := List.exists_cons_of_ne_nil h.ne_nil
  rw [List.cons_append, words_append_break (h.breaks c List.mem_cons_self)]
  rw [words_skip fun c hc => h.breaks c (List.mem_cons_of_mem _ hc)]

end Words
end Brenlib
