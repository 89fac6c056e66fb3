import Brenlib.Base.WhileLoop
import Brenlib.Base.Words
import Brenlib.Bren.Child

/-!
# `Tokenize` and `join`

The model follows `src/Tokenize.cpp` and the template `join` of `hdr/bren/functions.hpp`.
A position is `none` where the source has `std::string::npos`.  `substr` throws for a
start behind the end, so the loop of `Tokenize` works on variables or on an exception.

**Results.**
* `tokenize_iff_cut`: `Tokenize` never throws, and adds the words of the text.
* `tokenize_join`: what `join` has put together is taken apart by `Tokenize`.
-/

namespace Brenlib
namespace Bren

open Loops
open Words

namespace Tokenizer

/-- `std::string::find_first_of` and `std::string::find_first_not_of`: the first character
of a kind from a position on. -/
def findFirst (str : Bytes) (kind : Byte → Prop) [DecidablePred kind] : Option Nat → Option Nat
  | none => none
  | some pos => ((str.drop pos).findIdx? (kind ·)).map (pos + ·)

/-- `str.substr(lastPos, pos - lastPos)`.  With `pos` at `npos` more characters are asked
for than there are. -/
def token (str : Bytes) : Option Nat → Option Nat → Except StdException Bytes
  | none, _ => .error ⟨.outOfRange, substrText (2 ^ 64 - 1) str.length⟩
  | some lastPos, none => substr str lastPos
  | some lastPos, some pos => Child.substr str lastPos (sizeSub pos lastPos)

/-- The variables of the loop. -/
structure Variables where
  tokens : List Bytes
  lastPos : Option Nat
  pos : Option Nat
deriving DecidableEq, Repr

/-- Skip the delimiters, and find the next one behind them. -/
def enter (str delimiters : Bytes) (tokens : List Bytes) (pos : Option Nat) : Variables :=
  let lastPos := findFirst str (· ∉ delimiters) pos
  { tokens := tokens, lastPos := lastPos, pos := findFirst str (· ∈ delimiters) lastPos }

/-- One iteration of the loop. -/
def body (str delimiters : Bytes) :
    Except StdException Variables → Option (Except StdException Variables)
  | .error _ => none
  | .ok σ =>
      if σ.pos = none ∧ σ.lastPos = none then
        none
      else
        some do
          let found ← token str σ.lastPos σ.pos
          return enter str delimiters (σ.tokens ++ [found]) σ.pos

/-- What is left to do. -/
def pending (str : Bytes) : Except StdException Variables → Nat
  | .error _ => 0
  | .ok σ =>
      match σ.pos, σ.lastPos with
      | some pos, _ => str.length - pos + 2
      | none, some _ => 1
      | none, none => 0

section Positions

variable {str gap word rest : Bytes} {kind : Byte → Prop} [DecidablePred kind] {pos p : Nat}

theorem findFirst_none :
    findFirst str kind none = none := rfl

theorem findFirst_eq_some
    (h : findFirst str kind (some pos) = some p) :
    pos ≤ p ∧ ∃ hlt : p < str.length, kind str[p] := by
  obtain ⟨i, hi, rfl⟩ := Option.map_eq_some_iff.mp h
  obtain ⟨hlt, hkind, -⟩ := List.findIdx?_eq_some_iff_getElem.mp hi
  rw [List.length_drop] at hlt
  rw [List.getElem_drop] at hkind
  exact ⟨Nat.le_add_right pos i, by omega, of_decide_eq_true hkind⟩

/-- No character of the kind from a position on. -/
theorem findFirst_eq_none
    (h : ∀ c ∈ str.drop pos, ¬ kind c) :
    findFirst str kind (some pos) = none := by
  rw [findFirst, Option.map_eq_none_iff, List.findIdx?_eq_none_iff]
  exact fun c hc => decide_eq_false (h c hc)

/-- The first character of the kind behind some that are not. -/
theorem findFirst_append
    {c : Byte}
    (hsplit : str.drop pos = gap ++ c :: rest)
    (hgap : ∀ c ∈ gap, ¬ kind c)
    (hc : kind c) :
    findFirst str kind (some pos) = some (pos + gap.length) := by
  have hnone : gap.findIdx? (kind ·) = none := by
    rw [List.findIdx?_eq_none_iff]
    exact fun c hc => decide_eq_false (hgap c hc)
  rw [findFirst, hsplit, List.findIdx?_append, hnone, List.findIdx?_cons]
  simp [hc]

end Positions

section Loop

variable {str delimiters : Bytes}

/-- The delimiter that is found stands behind the one before it. -/
theorem pending_enter_lt
    (tokens : List Bytes) (p : Nat) :
    pending str (.ok (enter str delimiters tokens (some p))) < str.length - p + 2 := by
  cases hlast : findFirst str (· ∉ delimiters) (some p) with
  | none =>
      simp only [pending, enter, hlast, findFirst_none]
      omega
  | some l =>
      obtain ⟨hle, hlt, hnot⟩ := findFirst_eq_some hlast
      cases hnext : findFirst str (· ∈ delimiters) (some l) with
      | none =>
          simp only [pending, enter, hlast, hnext]
          omega
      | some p' =>
          obtain ⟨hle', hlt', hmem⟩ := findFirst_eq_some hnext
          have hne : l ≠ p' := by
            rintro rfl
            exact hnot hmem
          simp only [pending, enter, hlast, hnext]
          omega

/-- Behind an iteration less is left to do. -/
theorem pending_lt
    {s t : Except StdException Variables}
    (h : body str delimiters s = some t) :
    pending str t < pending str s := by
  cases s with
  | error e =>
      cases h
  | ok σ =>
      obtain ⟨tokens, lastPos, pos⟩ := σ
      obtain ⟨hgoes, ht⟩ := Option.ite_none_left_eq_some.mp h
      have hpos : 0 < pending str (.ok ⟨tokens, lastPos, pos⟩) := by
        cases pos with
        | some p =>
            exact Nat.succ_pos _
        | none =>
            cases lastPos with
            | some l =>
                exact Nat.one_pos
            | none =>
                exact absurd ⟨rfl, rfl⟩ hgoes
      cases hfound : token str lastPos pos with
      | error e =>
          rw [hfound] at ht
          obtain rfl := Option.some.inj ht
          exact hpos
      | ok found =>
          rw [hfound] at ht
          obtain rfl := Option.some.inj ht
          cases pos with
          | none =>
              exact hpos
          | some p =>
              exact pending_enter_lt _ p

/-- The loop. -/
def loop (str delimiters : Bytes) : WhileLoop (Except StdException Variables) where
  body := body str delimiters
  measure := pending str
  lowers := pending_lt

end Loop

end Tokenizer

open Tokenizer

/-- `Tokenize`: the tokens behind the call. -/
def Tokenize (str : Bytes) (tokens : List Bytes) (delimiters : Bytes) :
    Except StdException (List Bytes) :=
  ((loop str delimiters).run (.ok (enter str delimiters tokens (some 0)))).map (·.tokens)

section Words

variable {str delimiters : Bytes}

/-- An iteration that finds a token. -/
theorem run_token
    {tokens : List Bytes} {lastPos : Nat} {pos : Option Nat} {found : Bytes}
    (hfound : token str (some lastPos) pos = .ok found) :
    (loop str delimiters).run (.ok ⟨tokens, some lastPos, pos⟩) =
      (loop str delimiters).run (.ok (enter str delimiters (tokens ++ [found]) pos)) := by
  have hbody :
      body str delimiters (.ok ⟨tokens, some lastPos, pos⟩) =
        some (.ok (enter str delimiters (tokens ++ [found]) pos)) := by
    rw [body, if_neg (by simp)]
    simp only [hfound]
    rfl
  exact WhileLoop.run_next _ hbody

/-- The loop adds the words from its position on. -/
theorem run_enter
    (tokens : List Bytes) (pos : Nat) :
    (loop str delimiters).run (.ok (enter str delimiters tokens (some pos))) =
      .ok ⟨tokens ++ words (· ∈ delimiters) (str.drop pos), none, none⟩ := by
  induction hn : str.length - pos using Nat.strong_induction_on generalizing tokens pos with
  | _ n ih =>
      rcases exists_first_word (· ∈ delimiters) (str.drop pos) with
        hall | ⟨gap, word, rest, hsplit, hgap, hword, hbehind⟩
      · have henter : enter str delimiters tokens (some pos) = ⟨tokens, none, none⟩ := by
          have hnone : findFirst str (· ∉ delimiters) (some pos) = none :=
            findFirst_eq_none fun c hc hnot => hnot (hall c hc)
          simp only [enter, hnone, findFirst_none]
        rw [henter, words_of_breaks hall, List.append_nil]
        exact WhileLoop.run_left _ rfl
      · obtain ⟨c, word', hcons⟩ := List.exists_cons_of_ne_nil hword.ne_nil
        have hc : c ∉ delimiters := hword.no_break c (by rw [hcons]; exact List.mem_cons_self)
        have hlast : findFirst str (· ∉ delimiters) (some pos) = some (pos + gap.length) := by
          have hfirst : str.drop pos = gap ++ c :: (word' ++ rest) := by
            rw [hsplit, hcons, List.cons_append]
          exact findFirst_append hfirst (fun b hb => not_not.mpr (hgap b hb)) hc
        have hdrop : str.drop (pos + gap.length) = word ++ rest := by
          rw [← List.drop_drop, hsplit, List.drop_left]
        have hle : pos + gap.length ≤ str.length := by
          by_contra hgt
          rw [List.drop_eq_nil_of_le (by omega)] at hdrop
          exact hword.ne_nil (List.append_eq_nil_iff.mp hdrop.symm).1
        rw [hsplit, words_first hgap hword hbehind]
        rcases hbehind with rfl | ⟨c, behind, rfl, hc⟩
        · -- the last word: the delimiter is looked for in vain
          have hnext : findFirst str (· ∈ delimiters) (some (pos + gap.length)) = none := by
            refine findFirst_eq_none ?_
            rw [hdrop, List.append_nil]
            exact hword.no_break
          have hfound : token str (some (pos + gap.length)) none = .ok word := by
            rw [token, substr, if_neg (by omega), hdrop, List.append_nil]
          have henter : enter str delimiters (tokens ++ [word]) none =
              ⟨tokens ++ [word], none, none⟩ := rfl
          simp only [enter, hlast, hnext]
          rw [run_token hfound, henter, words_nil]
          exact WhileLoop.run_left _ rfl
        · have hnext : findFirst str (· ∈ delimiters) (some (pos + gap.length)) =
              some (pos + gap.length + word.length) :=
            findFirst_append hdrop hword.no_break hc
          have hfound : token str (some (pos + gap.length))
              (some (pos + gap.length + word.length)) = .ok word := by
            rw [token, Child.substr, substr, if_neg (by omega), ok_bind, hdrop, sizeSub,
              if_pos (by omega), Nat.add_sub_cancel_left]
            exact congrArg Except.ok List.take_left
          have hrest : str.drop (pos + gap.length + word.length) = c :: behind := by
            rw [← List.drop_drop, hdrop, List.drop_left]
          have hpos := List.length_pos_of_ne_nil hword.ne_nil
          have hlen := congrArg List.length hsplit
          simp only [List.length_drop, List.length_append, List.length_cons] at hlen
          simp only [enter, hlast, hnext]
          rw [run_token hfound, ih _ (by omega) _ _ rfl, hrest, List.append_assoc]
          rfl

end Words

theorem tokenize_run
    (str : Bytes) (tokens : List Bytes) (delimiters : Bytes) :
    Tokenize str tokens delimiters = .ok (tokens ++ words (· ∈ delimiters) str) := by
  rw [Tokenize, run_enter, List.drop_zero]
  rfl

/-- **`Tokenize` adds the words of the text.**  It comes to an end for every text, every
set of delimiters and every tokens there are before, and never throws. -/
theorem tokenize_iff_cut
    (str : Bytes) (tokens : List Bytes) (delimiters : Bytes) :
    (∃ result, Tokenize str tokens delimiters = .ok result) ∧
    ∀ result, Tokenize str tokens delimiters = .ok result ↔
      ∃ found, Cut (· ∈ delimiters) str found ∧ result = tokens ++ found := by
  refine ⟨⟨_, tokenize_run str tokens delimiters⟩, fun result => ?_⟩
  rw [tokenize_run, Except.ok.injEq]
  constructor
  · rintro rfl
    exact ⟨_, cut_words _ str, rfl⟩
  · rintro ⟨found, hcut, rfl⟩
    rw [cut_iff.mp hcut]

section Join

universe u

variable {Item : Type u}

/-- The loop of `join`, behind the first item. -/
def joinRest (separator_i : Bytes) (extrfunc_i : Item → Bytes) (lastsep_i : Bytes) :
    Bytes → List Item → Bytes
  | rv, [] => rv
  | rv, i :: rest =>
      let rv := rv ++ if rest = [] ∧ lastsep_i ≠ [] then lastsep_i else separator_i
      joinRest separator_i extrfunc_i lastsep_i (rv ++ extrfunc_i i) rest

def join (iterable_i : List Item) (separator_i : Bytes) (extrfunc_i : Item → Bytes)
    (lastsep_i : Bytes) : Bytes :=
  match iterable_i with
  | [] => []
  | i :: rest => joinRest separator_i extrfunc_i lastsep_i (extrfunc_i i) rest

variable {separator_i lastsep_i delimiters : Bytes} {extrfunc_i : Item → Bytes}

/-- Behind some words, a gap and a word add that word. -/
theorem words_joinRest
    (hsep : IsGap (· ∈ delimiters) separator_i)
    (hlast : lastsep_i ≠ [] → IsGap (· ∈ delimiters) lastsep_i)
    {items : List Item}
    (hitems : ∀ i ∈ items, IsWord (· ∈ delimiters) (extrfunc_i i))
    (rv : Bytes) :
    words (· ∈ delimiters) (joinRest separator_i extrfunc_i lastsep_i rv items) =
      words (· ∈ delimiters) rv ++ items.map extrfunc_i := by
  induction items generalizing rv with
  | nil =>
      exact (List.append_nil _).symm
  | cons i items ih =>
      have hgap :
          IsGap (· ∈ delimiters)
            (if items = [] ∧ lastsep_i ≠ [] then lastsep_i else separator_i) := by
        split_ifs with hend
        · exact hlast hend.2
        · exact hsep
      have hi := hitems i List.mem_cons_self
      rw [joinRest, ih fun j hj => hitems j (List.mem_cons_of_mem _ hj)]
      rw [List.append_assoc, hgap.words_append, hi.words, List.append_assoc]
      rfl

theorem tokenize_joined
    (hsep : IsGap (· ∈ delimiters) separator_i)
    (hlast : lastsep_i ≠ [] → IsGap (· ∈ delimiters) lastsep_i)
    (tokens : List Bytes)
    {items : List Item}
    (hitems : ∀ i ∈ items, IsWord (· ∈ delimiters) (extrfunc_i i)) :
    Tokenize (join items separator_i extrfunc_i lastsep_i) tokens delimiters =
      .ok (tokens ++ items.map extrfunc_i) := by
  rw [tokenize_run]
  cases items with
  | nil =>
      rfl
  | cons i items =>
      have hi := hitems i List.mem_cons_self
      rw [join, words_joinRest hsep hlast fun j hj => hitems j (List.mem_cons_of_mem _ hj)]
      rw [hi.words]
      rfl

/-- **`Tokenize` takes apart what `join` has put together**, for items that are not empty
and have no delimiter, if the separators consist of delimiters.  What it finds in any text
it finds again when it has been joined. -/
theorem tokenize_join
    (hsep : IsGap (· ∈ delimiters) separator_i)
    (hlast : lastsep_i ≠ [] → IsGap (· ∈ delimiters) lastsep_i)
    (tokens : List Bytes) :
    (∀ items : List Item, (∀ i ∈ items, IsWord (· ∈ delimiters) (extrfunc_i i)) →
      Tokenize (join items separator_i extrfunc_i lastsep_i) tokens delimiters =
        .ok (tokens ++ items.map extrfunc_i)) ∧
    ∀ str found, Tokenize str [] delimiters = .ok found →
      Tokenize (join found separator_i id lastsep_i) tokens delimiters =
        .ok (tokens ++ found) := by
  refine ⟨fun items hitems => ?_, fun str found hfound => ?_⟩
  · exact tokenize_joined hsep hlast tokens hitems
  · rw [tokenize_run] at hfound
    obtain rfl := Except.ok.inj hfound
    have hjoined := @tokenize_joined Bytes separator_i lastsep_i delimiters id hsep hlast tokens
      (words (· ∈ delimiters) str) fun word hword => isWord_of_mem_words hword
    rwa [List.map_id] at hjoined

/-- A list of names with a longer separator in front of the last one. -/
theorem tokenize_join_names :
    Tokenize (join [literal "X", literal "Y", literal "Z"] (literal ", ") id (literal " , "))
        [literal "W"] (literal ", ") =
      .ok [literal "W", literal "X", literal "Y", literal "Z"] := by
  have hsep : IsGap (· ∈ literal ", ") (literal ", ") := ⟨by decide, fun _ hc => hc⟩
  have hlast : IsGap (· ∈ literal ", ") (literal " , ") := by
    refine ⟨by decide, ?_⟩
    change ∀ c ∈ [32, 44, 32], c ∈ literal ", "
    simp only [List.forall_mem_cons, List.not_mem_nil, false_implies, implies_true, and_true]
    decide
  have hitems : ∀ i ∈ [literal "X", literal "Y", literal "Z"], IsWord (· ∈ literal ", ") i := by
    change ∀ i ∈ [[88], [89], [90]], _
    simp only [List.forall_mem_cons]
    refine ⟨⟨by decide, ?_⟩, ⟨by decide, ?_⟩, ⟨by decide, ?_⟩, by simp⟩ <;>
      simp only [List.forall_mem_cons, List.not_mem_nil, false_implies, implies_true,
        and_true] <;>
      decide
  exact (@tokenize_join Bytes (literal ", ") (literal " , ") (literal ", ") id hsep
    (fun _ => hlast) [literal "W"]).1 [literal "X", literal "Y", literal "Z"] hitems

end Join

end Bren
end Brenlib
