import Brenlib.Base.WhileLoop
import Brenlib.Bren.StdLibrary

/-!
# `htmlCharEntRefCodes2ascii`

The model follows `src/functions.cpp`.  `Unescape` holds the two variables of the function
that live from one iteration to the next, and `Unescape.body` is one iteration of its
loop, which works on the string in place.

**Results.**
* `pending_lt`: every iteration lowers the number of bytes from `amp` on.
* `run_append`: what the loop makes of the pending bytes does not depend on those it has
  passed.
* `replaces_of_body`: an iteration that changes the string replaces one reference;
  `Replaces.final` and `Replaces.pos_lt`: what it produces stays as it is.
* `unescape_once`: escaped text is unescaped exactly once.
-/

namespace Brenlib
namespace Bren

open Loops

namespace Byte

/-- The ampersand. -/
def ampersand : Byte := 0x26

/-- The semicolon. -/
def semicolon : Byte := 0x3B

end Byte

namespace Html

/-- `hcerc2asc`. -/
def hcerc2asc : UnorderedMap Bytes Byte :=
  List.toAList
    [⟨literal "amp", 0x26⟩,
     ⟨literal "gt", 0x3E⟩,
     ⟨literal "lt", 0x3C⟩,
     ⟨literal "nbsp", 0x20⟩,
     ⟨literal "plus", 0x2B⟩,
     ⟨literal "quest", 0x3F⟩]

/-- `maxlen`: the length of the longest name. -/
def maxlen : Nat :=
  (hcerc2asc.keys.map List.length).foldl max 0

/-- The variables of the loop. -/
structure Unescape where
  rv : Bytes
  amp : Nat
deriving DecidableEq, Repr

namespace Unescape

/-- The variables in front of the loop. -/
def init (str_i : Bytes) : Unescape where
  rv := str_i
  amp := 0

/-- One iteration of the loop.  Where the source breaks off at a missing semicolon the
position is not used any more. -/
def body (σ : Unescape) : Option Unescape := do
  let amp ← find σ.rv Byte.ampersand σ.amp
  let sc ← find σ.rv Byte.semicolon amp
  if maxlen < sc - amp - 1 then
    return { σ with amp := amp + 1 }
  let hcerc := (σ.rv.drop (amp + 1)).take (sc - amp - 1)
  match hcerc2asc.lookup hcerc with
  | none => return { σ with amp := sc + 1 }
  | some c =>
      return { rv := σ.rv.take amp ++ c :: σ.rv.drop (sc + 1), amp := amp + 1 }

end Unescape

/-- The name in a reference. -/
def reference (name : Bytes) : Bytes :=
  Byte.ampersand :: (name ++ [Byte.semicolon])

section Names

variable {name : Bytes} {c : Byte}

theorem mem_hcerc2asc
    (h : hcerc2asc.lookup name = some c) :
    name ∈ hcerc2asc := by
  rw [← AList.lookup_isSome, h]
  rfl

/-- The names consist of letters. -/
theorem name_spec
    (h : hcerc2asc.lookup name = some c) :
    Byte.ampersand ∉ name ∧ Byte.semicolon ∉ name ∧ name ≠ [] ∧ name.length ≤ maxlen := by
  have hall :
      ∀ name ∈ hcerc2asc.keys,
        Byte.ampersand ∉ name ∧ Byte.semicolon ∉ name ∧ name ≠ [] ∧
          name.length ≤ maxlen := by
    decide
  exact hall name (mem_hcerc2asc h)

theorem length_le_maxlen
    (h : name ∈ hcerc2asc) :
    name.length ≤ maxlen := by
  obtain ⟨c, hlookup⟩ := Option.isSome_iff_exists.mp (AList.lookup_isSome.mpr h)
  exact (name_spec hlookup).2.2.2

end Names

namespace Unescape

/-- The variables behind an iteration that has found an ampersand, with `before` in front
of it and `content` between it and the next semicolon. -/
def next (before content rest : Bytes) : Unescape :=
  if maxlen < content.length then
    { rv := before ++ Byte.ampersand :: (content ++ Byte.semicolon :: rest)
      amp := before.length + 1 }
  else
    match hcerc2asc.lookup content with
    | none =>
        { rv := before ++ Byte.ampersand :: (content ++ Byte.semicolon :: rest)
          amp := before.length + content.length + 2 }
    | some c => { rv := before ++ c :: rest, amp := before.length + 1 }

section Iteration

variable {before mid content rest s : Bytes} {σ τ : Unescape}

theorem body_no_ampersand
    (h : Byte.ampersand ∉ s)
    (before : Bytes) :
    body ⟨before ++ s, before.length⟩ = none := by
  simp only [body, find_append_eq_none h]
  rfl

theorem body_no_semicolon
    (hmid : Byte.ampersand ∉ mid)
    (h : Byte.semicolon ∉ s)
    (before : Bytes) :
    body ⟨before ++ (mid ++ Byte.ampersand :: s), before.length⟩ = none := by
  have hlen : before.length + mid.length = (before ++ mid).length := by
    rw [List.length_append]
  have hs : Byte.semicolon ∉ Byte.ampersand :: s := by
    rw [List.mem_cons, not_or]
    exact ⟨by decide, h⟩
  simp only [body, find_append hmid, Option.bind_eq_bind, Option.bind_some]
  rw [hlen, ← List.append_assoc, find_append_eq_none hs]
  rfl

theorem body_run
    (hmid : Byte.ampersand ∉ mid)
    (hcontent : Byte.semicolon ∉ content)
    (before rest : Bytes) :
    body ⟨before ++ (mid ++ Byte.ampersand :: (content ++ Byte.semicolon :: rest)),
        before.length⟩ =
      some (next (before ++ mid) content rest) := by
  have hlen : before.length + mid.length = (before ++ mid).length := by
    rw [List.length_append]
  have hs : Byte.semicolon ∉ Byte.ampersand :: content := by
    rw [List.mem_cons, not_or]
    exact ⟨by decide, hcontent⟩
  have hsc := find_append hs (before ++ mid) rest
  simp only [body, find_append hmid, Option.bind_eq_bind, Option.bind_some]
  rw [hlen, ← List.append_assoc]
  generalize before ++ mid = front at hsc ⊢
  rw [List.cons_append] at hsc
  have hwidth :
      front.length + (Byte.ampersand :: content).length - front.length - 1 =
        content.length := by
    rw [List.length_cons]
    omega
  have hname :
      ((front ++ Byte.ampersand :: (content ++ Byte.semicolon :: rest)).drop
          (front.length + 1)).take content.length = content := by
    rw [List.drop_length_add_append, List.drop_succ_cons, List.drop_zero, List.take_left]
  have hrest :
      (front ++ Byte.ampersand :: (content ++ Byte.semicolon :: rest)).drop
          (front.length + (Byte.ampersand :: content).length + 1) = rest := by
    rw [Nat.add_assoc, List.drop_length_add_append, ← List.cons_append,
      List.drop_length_add_append, List.drop_succ_cons, List.drop_zero]
  simp only [hsc, Option.bind_some]
  rw [hwidth, hname, hrest, List.take_left, next]
  split_ifs with hlong
  · rfl
  · cases hcerc2asc.lookup content with
    | none => rfl
    | some c => rfl

/-- What an iteration does: it has found an ampersand and the semicolon that follows. -/
theorem body_cases
    (h : body σ = some τ) :
    ∃ before content rest,
      σ.rv = before ++ Byte.ampersand :: (content ++ Byte.semicolon :: rest) ∧
      σ.amp ≤ before.length ∧ Byte.semicolon ∉ content ∧
      τ = next before content rest := by
  obtain ⟨rv, amp⟩ := σ
  cases hamp : find rv Byte.ampersand amp with
  | none =>
      rw [body, hamp] at h
      cases h
  | some p =>
      obtain ⟨before, mid, tail, rfl, rfl, hmid, rfl⟩ := exists_of_find_eq_some hamp
      by_cases hsc : Byte.semicolon ∈ tail
      · obtain ⟨content, rest, rfl, hcontent⟩ := List.eq_append_cons_of_mem hsc
        rw [body_run hmid hcontent, Option.some.injEq] at h
        refine ⟨before ++ mid, content, rest, ?_, ?_, hcontent, h.symm⟩
        · rw [List.append_assoc]
        · rw [List.length_append]
          exact Nat.le_add_right _ _
      · rw [body_no_semicolon hmid hsc] at h
        cases h

/-- The bytes from the position on. -/
def pending (σ : Unescape) : Nat :=
  σ.rv.length - σ.amp

theorem pending_lt
    (h : body σ = some τ) :
    τ.pending < σ.pending := by
  obtain ⟨before, content, rest, hrv, hamp, -, rfl⟩ := body_cases h
  unfold pending
  rw [hrv]
  unfold next
  split_ifs
  · simp only [List.length_append, List.length_cons]
    omega
  · cases hcerc2asc.lookup content with
    | none =>
        simp only [List.length_append, List.length_cons]
        omega
    | some c =>
        simp only [List.length_append, List.length_cons]
        omega

end Iteration

/-- The loop. -/
def loop : WhileLoop Unescape where
  body := body
  measure := pending
  lowers := pending_lt

end Unescape

def htmlCharEntRefCodes2ascii (str_i : Bytes) : Bytes :=
  (Unescape.loop.run (Unescape.init str_i)).rv

section Scanning

/-- What the loop makes of the bytes it has not passed yet. -/
inductive Scanned : Bytes → Bytes → Prop
  | nil :
      Scanned [] []
  | other
      {b : Byte} {s r : Bytes}
      (hne : b ≠ Byte.ampersand)
      (hrest : Scanned s r) :
      Scanned (b :: s) (b :: r)
  | unclosed
      {s : Bytes}
      (hsc : Byte.semicolon ∉ s) :
      Scanned (Byte.ampersand :: s) (Byte.ampersand :: s)
  | tooLong
      {content rest r : Bytes}
      (hcontent : Byte.semicolon ∉ content)
      (hlong : maxlen < content.length)
      (hrest : Scanned (content ++ Byte.semicolon :: rest) r) :
      Scanned (Byte.ampersand :: (content ++ Byte.semicolon :: rest))
        (Byte.ampersand :: r)
  | unknown
      {content rest r : Bytes}
      (hcontent : Byte.semicolon ∉ content)
      (hshort : content.length ≤ maxlen)
      (hlookup : hcerc2asc.lookup content = none)
      (hrest : Scanned rest r) :
      Scanned (Byte.ampersand :: (content ++ Byte.semicolon :: rest))
        (Byte.ampersand :: (content ++ Byte.semicolon :: r))
  | known
      {name rest r : Bytes} {c : Byte}
      (hlookup : hcerc2asc.lookup name = some c)
      (hrest : Scanned rest r) :
      Scanned (Byte.ampersand :: (name ++ Byte.semicolon :: rest)) (c :: r)

variable {s r : Bytes} {b : Byte}

theorem exists_scanned
    (s : Bytes) :
    ∃ r, Scanned s r := by
  induction hn : s.length using Nat.strong_induction_on generalizing s with
  | _ n ih =>
      cases s with
      | nil =>
          exact ⟨[], .nil⟩
      | cons b s =>
          rw [List.length_cons] at hn
          by_cases hb : b = Byte.ampersand
          · subst hb
            by_cases hsc : Byte.semicolon ∈ s
            · obtain ⟨content, rest, rfl, hcontent⟩ := List.eq_append_cons_of_mem hsc
              have hlen : rest.length < (content ++ Byte.semicolon :: rest).length := by
                rw [List.length_append, List.length_cons]
                omega
              obtain ⟨r, hr⟩ := ih rest.length (by omega) rest rfl
              by_cases hlong : maxlen < content.length
              · obtain ⟨r', hr'⟩ := ih _ (by omega) (content ++ Byte.semicolon :: rest) rfl
                exact ⟨_, .tooLong hcontent hlong hr'⟩
              · cases hlookup : hcerc2asc.lookup content with
                | none =>
                    exact ⟨_, .unknown hcontent (Nat.le_of_not_lt hlong) hlookup hr⟩
                | some c =>
                    exact ⟨_, .known hlookup hr⟩
            · exact ⟨_, .unclosed hsc⟩
          · obtain ⟨r, hr⟩ := ih s.length (by omega) s rfl
            exact ⟨_, .other hb hr⟩

namespace Unescape

/-- A byte that is no ampersand is passed without an iteration. -/
theorem run_other
    (hne : b ≠ Byte.ampersand)
    (before s : Bytes) :
    (loop.run ⟨before ++ b :: s, before.length⟩).rv =
      (loop.run ⟨(before ++ [b]) ++ s, (before ++ [b]).length⟩).rv := by
  have happend (t : Bytes) : before ++ b :: t = (before ++ [b]) ++ t := by
    rw [List.append_assoc, List.singleton_append]
  have hleft {t : Bytes}
      (h : body ⟨before ++ b :: t, before.length⟩ = none)
      (h' : body ⟨(before ++ [b]) ++ t, (before ++ [b]).length⟩ = none) :
      (loop.run ⟨before ++ b :: t, before.length⟩).rv =
        (loop.run ⟨(before ++ [b]) ++ t, (before ++ [b]).length⟩).rv := by
    rw [WhileLoop.run_left loop h, WhileLoop.run_left loop h', happend]
  have hmem {t : Bytes} (ht : Byte.ampersand ∉ t) : Byte.ampersand ∉ b :: t := by
    rw [List.mem_cons, not_or]
    exact ⟨Ne.symm hne, ht⟩
  by_cases hamp : Byte.ampersand ∈ s
  · obtain ⟨mid, tail, rfl, hmid⟩ := List.eq_append_cons_of_mem hamp
    by_cases hsc : Byte.semicolon ∈ tail
    · obtain ⟨content, rest, rfl, hcontent⟩ := List.eq_append_cons_of_mem hsc
      have hbody := body_run (hmem hmid) hcontent before rest
      have hbody' := body_run hmid hcontent (before ++ [b]) rest
      rw [happend mid, ← hbody', List.cons_append] at hbody
      exact congrArg rv (WhileLoop.run_congr loop hbody
        (by rw [show loop.body = body from rfl, hbody, hbody']; simp))
    · exact hleft (body_no_semicolon (hmem hmid) hsc before)
        (body_no_semicolon hmid hsc (before ++ [b]))
  · exact hleft (body_no_ampersand (hmem hamp) before)
      (body_no_ampersand hamp (before ++ [b]))

/-- An iteration that begins at an ampersand. -/
theorem run_ampersand
    {content : Bytes}
    (hcontent : Byte.semicolon ∉ content)
    (before rest : Bytes) :
    loop.run ⟨before ++ Byte.ampersand :: (content ++ Byte.semicolon :: rest),
        before.length⟩ =
      loop.run (next before content rest) := by
  have hbody := body_run (List.not_mem_nil : Byte.ampersand ∉ []) hcontent before rest
  rw [List.append_nil] at hbody
  exact WhileLoop.run_next loop hbody

/-- The loop is right about what is pending, whatever it has passed. -/
theorem run_append
    (h : Scanned s r)
    (before : Bytes) :
    (loop.run ⟨before ++ s, before.length⟩).rv = before ++ r := by
  induction h generalizing before with
  | nil =>
      rw [WhileLoop.run_left loop (body_no_ampersand List.not_mem_nil before)]
  | other hne hrest ih =>
      rw [run_other hne, ih, List.append_assoc, List.singleton_append]
  | unclosed hsc =>
      have hbody := body_no_semicolon (List.not_mem_nil : Byte.ampersand ∉ []) hsc before
      exact congrArg rv (WhileLoop.run_left loop hbody)
  | @tooLong content rest r hcontent hlong hrest ih =>
      have hlater := ih (before ++ [Byte.ampersand])
      rw [run_ampersand hcontent, next, if_pos hlong]
      simpa using hlater
  | @unknown content rest r hcontent hshort hlookup hrest ih =>
      have hlater := ih (before ++ Byte.ampersand :: (content ++ [Byte.semicolon]))
      rw [run_ampersand hcontent, next, if_neg (Nat.not_lt.mpr hshort), hlookup]
      simpa [Nat.add_assoc] using hlater
  | @known name rest r c hlookup hrest ih =>
      obtain ⟨-, hcontent, -, hshort⟩ := name_spec hlookup
      have hlater := ih (before ++ [c])
      rw [run_ampersand hcontent, next, if_neg (Nat.not_lt.mpr hshort), hlookup]
      simpa using hlater

end Unescape

theorem Scanned.eq
    (h : Scanned s r) :
    htmlCharEntRefCodes2ascii s = r :=
  Unescape.run_append h []

end Scanning

section Escape

/-- A byte as it is written in HTML. -/
def escapeByte (b : Byte) : Bytes :=
  if b = Byte.ampersand then reference (literal "amp")
  else if b = 0x3C then reference (literal "lt")
  else if b = 0x3E then reference (literal "gt")
  else [b]

def escape (s : Bytes) : Bytes :=
  s.flatMap escapeByte

theorem scanned_escape
    (s : Bytes) :
    Scanned (escape s) s := by
  induction s with
  | nil =>
      exact .nil
  | cons b s ih =>
      rw [escape, List.flatMap_cons, escapeByte]
      split_ifs with hamp hlt hgt
      · subst hamp
        exact @Scanned.known (literal "amp") _ _ _ (by decide) ih
      · subst hlt
        exact @Scanned.known (literal "lt") _ _ _ (by decide) ih
      · subst hgt
        exact @Scanned.known (literal "gt") _ _ _ (by decide) ih
      · exact .other hamp ih

theorem htmlCharEntRefCodes2ascii_escape
    (s : Bytes) :
    htmlCharEntRefCodes2ascii (escape s) = s :=
  (scanned_escape s).eq

namespace Unescape

/-- An iteration replaces the reference to `name` at a position by the character `c`. -/
structure Replaces (σ τ : Unescape) (pos : Nat) (name : Bytes) (c : Byte) : Prop where
  iteration : body σ = some τ
  known : hcerc2asc.lookup name = some c
  pending : σ.amp ≤ pos
  found :
    σ.rv = σ.rv.take pos ++ (reference name ++ σ.rv.drop (pos + name.length + 2))
  replaced : τ.rv = σ.rv.take pos ++ c :: σ.rv.drop (pos + name.length + 2)
  passed : τ.amp = pos + 1

variable {σ τ υ φ : Unescape} {pos : Nat} {name : Bytes} {c : Byte}

theorem Replaces.pos_le
    (h : Replaces σ τ pos name c) :
    pos ≤ σ.rv.length := by
  have hlength := congrArg List.length h.found
  simp only [List.length_append, List.length_take, List.length_drop, reference,
    List.length_cons] at hlength
  omega

/-- An iteration that changes the string replaces a reference. -/
theorem replaces_of_body
    (h : body σ = some τ) :
    σ.amp < τ.amp ∧ (τ.rv = σ.rv ∨ ∃ pos name c, Replaces σ τ pos name c) := by
  obtain ⟨before, content, rest, hrv, hamp, hcontent, hτ⟩ := body_cases h
  rw [next] at hτ
  split_ifs at hτ with hlong
  · rw [hτ, hrv]
    exact ⟨Nat.lt_succ_of_le hamp, .inl rfl⟩
  · cases hlookup : hcerc2asc.lookup content with
    | none =>
        rw [hlookup] at hτ
        have hpassed : τ.amp = before.length + content.length + 2 := by
          rw [hτ]
        exact ⟨by omega, .inl (by rw [hτ, hrv])⟩
    | some c =>
        rw [hlookup] at hτ
        have htake : σ.rv.take before.length = before := by
          rw [hrv, List.take_left]
        have hdrop : σ.rv.drop (before.length + content.length + 2) = rest := by
          rw [hrv, Nat.add_assoc, List.drop_length_add_append, List.drop_succ_cons,
            List.drop_length_add_append, List.drop_succ_cons, List.drop_zero]
        refine ⟨hτ ▸ Nat.lt_succ_of_le hamp,
          .inr ⟨before.length, content, c, h, hlookup, hamp, ?_, ?_, ?_⟩⟩
        · rw [htake, hdrop, hrv, reference, List.cons_append, List.append_assoc,
            List.singleton_append]
        · rw [htake, hdrop, hτ]
        · rw [hτ]

/-- What a state has passed is the same in a later one. -/
structure Passed (σ τ : Unescape) : Prop where
  amp_le : σ.amp ≤ τ.amp
  take_eq : τ.rv.take σ.amp = σ.rv.take σ.amp

theorem Passed.trans
    (h : Passed σ τ)
    (h' : Passed τ υ) :
    Passed σ υ where
  amp_le := h.amp_le.trans h'.amp_le
  take_eq := by
    have htake := congrArg (List.take σ.amp) h'.take_eq
    rw [List.take_take, List.take_take, Nat.min_eq_left h.amp_le] at htake
    rw [htake, h.take_eq]

theorem passed_of_body
    (h : body σ = some τ) :
    Passed σ τ := by
  obtain ⟨hlt, hsame | ⟨pos, name, c, hrep⟩⟩ := replaces_of_body h
  · exact ⟨le_of_lt hlt, by rw [hsame]⟩
  · refine ⟨le_of_lt hlt, ?_⟩
    rw [hrep.replaced, List.take_append_of_le_length, List.take_take,
      Nat.min_eq_left hrep.pending]
    rw [List.length_take, Nat.min_eq_left hrep.pos_le]
    exact hrep.pending

theorem passed_of_iterates
    {n : Nat}
    (h : Iterates body σ n τ) :
    Passed σ τ := by
  induction h with
  | zero σ =>
      exact ⟨le_rfl, rfl⟩
  | succ hbody hrest ih =>
      exact (passed_of_body hbody).trans ih

theorem Replaces.pos_lt
    {n pos' : Nat} {name' : Bytes} {c' : Byte}
    (h : Replaces σ τ pos name c)
    (hiter : Iterates body τ n υ)
    (hlater : Replaces υ φ pos' name' c') :
    pos < pos' := by
  have hamp := (passed_of_iterates hiter).amp_le
  rw [h.passed] at hamp
  exact hamp.trans hlater.pending

/-- The character that a replacement produces stays. -/
theorem Replaces.final
    {n : Nat}
    (h : Replaces σ τ pos name c)
    (hiter : Iterates body τ n υ) :
    υ.rv[pos]? = some c := by
  have htake := (passed_of_iterates hiter).take_eq
  have hpos : pos < τ.amp := by
    rw [h.passed]
    exact Nat.lt_succ_self pos
  have hlen : (σ.rv.take pos).length = pos := by
    rw [List.length_take, Nat.min_eq_left h.pos_le]
  have hget : (υ.rv.take τ.amp)[pos]? = (τ.rv.take τ.amp)[pos]? := by
    rw [htake]
  rw [List.getElem?_take_of_lt hpos, List.getElem?_take_of_lt hpos] at hget
  rw [hget, h.replaced, List.getElem?_append_right (le_of_eq hlen), hlen, Nat.sub_self]
  rfl

end Unescape

/-- **HTML text is unescaped in one pass.**  The loop terminates, and what a replacement
produces is never a part of another one. -/
theorem unescape_once :
    (∀ s, htmlCharEntRefCodes2ascii (escape s) = s) ∧
    (∀ s, htmlCharEntRefCodes2ascii (escape (escape s)) = escape s) ∧
    (∀ s, ∃ n σ, n ≤ s.length ∧
      Finishes Unescape.body (Unescape.init s) n σ ∧
      htmlCharEntRefCodes2ascii s = σ.rv) ∧
    (∀ σ τ, Unescape.body σ = some τ →
      τ.rv = σ.rv ∨ ∃ pos name c, σ.Replaces τ pos name c) ∧
    ∀ σ τ pos name c, Unescape.Replaces σ τ pos name c →
      ∀ n υ, Iterates Unescape.body τ n υ →
        υ.rv[pos]? = some c ∧
        ∀ φ pos' name' c', υ.Replaces φ pos' name' c' → pos < pos' := by
  refine ⟨htmlCharEntRefCodes2ascii_escape,
    fun s => htmlCharEntRefCodes2ascii_escape (escape s), ?_, ?_, ?_⟩
  · intro s
    obtain ⟨n, hn, hfinishes⟩ := Unescape.loop.finishes_run (Unescape.init s)
    exact ⟨n, _, hn, hfinishes, rfl⟩
  · intro σ τ h
    exact (Unescape.replaces_of_body h).2
  · intro σ τ pos name c h n υ hiter
    exact ⟨h.final hiter, fun φ pos' name' c' => h.pos_lt hiter⟩

end Escape

end Html

end Bren
end Brenlib
