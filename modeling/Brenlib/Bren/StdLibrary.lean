import Brenlib.Base.Frames
import Mathlib.Data.List.AList
import Mathlib.Data.List.TakeWhile
import Mathlib.Tactic

/-!
# The parts of the C++ standard library that the Bren sources rely on

Strings are lists of bytes, as `std::string` is a sequence of `char`.  On the
platforms the library targets `char` is a signed 8-bit type, so the macro `EOF`
(the int -1) stored in a `char` is the byte `0xFF`.

* `StdException`: an exception with its class and its `what()` text.
* `IStream`: an input stream over the bytes not yet read, with `eofbit` and
  `failbit`.  The streams of the library are read through `read(&c, 1)`,
  `peek()`, `good()` and `eof()` only.

A method that may throw is a computation in `EStateM StdException`: what it
changed in its object before the throw stays changed.

The macro `FCET` of the logger throws an exception that it constructs from the line
it has logged, so what is thrown depends on the logger.  `Raising` says what that
is; where nothing is said about the logger it is `Raising.declared`, the exception
that is declared, with the message, which is the last part of that line.
`Raising.ofLogger` is the instance of a logger, and `Logger.raised_kind_iff` says
under which set-ups the class is the one that is declared.
-/

namespace Brenlib
namespace Bren

/-- One `char`. -/
abbrev Byte := UInt8

/-- A `std::string`. -/
abbrev Bytes := List Byte

namespace Byte

/-- The line feed `'\n'`. -/
def lf : Byte := 0x0A

/-- The carriage return `'\r'`. -/
def cr : Byte := 0x0D

/-- The double quote `'"'`. -/
def quote : Byte := 0x22

/-- The backslash. -/
def backslash : Byte := 0x5C

/-- The equal sign. -/
def equalSign : Byte := 0x3D

/-- `EOF` converted to `char`. -/
def eof : Byte := 0xFF

/-- `c & 0x80` is not zero. -/
def isHigh (c : Byte) : Prop :=
  c &&& 0x80 ≠ 0

instance (c : Byte) : Decidable (isHigh c) :=
  inferInstanceAs (Decidable (c &&& 0x80 ≠ 0))

/-- The high bit is set exactly in the upper half of the byte range. -/
theorem isHigh_iff
    (c : Byte) :
    isHigh c ↔ 0x80 ≤ c := by
  have hall :
      ∀ n : Fin 256,
        (UInt8.ofFin n &&& 0x80 ≠ 0 ↔ 0x80 ≤ UInt8.ofFin n) := by
    decide +kernel
  exact hall c.toFin

end Byte

/-- Exception classes of `<stdexcept>`, `<system_error>` and `<filesystem>`; `unknown`
stands for every class that is not derived from `std::exception`, and `undefined` for
what is no exception, since the behaviour is undefined. -/
inductive ExceptionClass where
  | invalidArgument
  | logicError
  | outOfRange
  | overflowError
  | runtimeError
  | systemError
  | filesystemError
  | unknown
  | undefined
deriving DecidableEq, Repr

/-- An exception object: its class and the text of `what()`. -/
structure StdException where
  kind : ExceptionClass
  what : String
deriving DecidableEq, Repr

@[simp] theorem run_throw
    {σ α : Type} (e : StdException) (s : σ) :
    (throw e : EStateM StdException σ α).run s = .error e s := rfl

theorem run_bind_ok
    {σ α β : Type} {x : EStateM StdException σ α} {s s' : σ} {a : α}
    (h : x.run s = .ok a s') (f : α → EStateM StdException σ β) :
    (x >>= f).run s = (f a).run s' := by
  rw [EStateM.run_bind, h]

theorem run_bind_error
    {σ α β : Type} {x : EStateM StdException σ α} {s s' : σ} {e : StdException}
    (h : x.run s = .error e s') (f : α → EStateM StdException σ β) :
    (x >>= f).run s = .error e s' := by
  rw [EStateM.run_bind, h]

/-- A sequence of two parts that ends without an exception. -/
theorem run_bind_cases
    {σ α β : Type} {x : EStateM StdException σ α} {f : α → EStateM StdException σ β}
    {s t : σ} {b : β}
    (h : (x >>= f).run s = .ok b t) :
    ∃ a u, x.run s = .ok a u ∧ (f a).run u = .ok b t := by
  cases hx : x.run s with
  | ok a u => exact ⟨a, u, rfl, (run_bind_ok hx f).symm.trans h⟩
  | error e u => cases (run_bind_error hx f).symm.trans h

@[simp] theorem run_map_get
    {σ α : Type} (f : σ → α) (s : σ) :
    (f <$> (get : EStateM StdException σ σ)).run s = .ok (f s) s := rfl

@[simp] theorem run_getThe
    {σ : Type} (s : σ) :
    (getThe σ : EStateM StdException σ σ).run s = .ok s s := rfl

@[simp] theorem run_ofExcept
    {σ α : Type} (a : α) (s : σ) :
    (ofExcept (.ok a) : EStateM StdException σ α).run s = .ok a s := rfl

@[simp] theorem run_tryCatch
    {σ α : Type} (x : EStateM StdException σ α)
    (handler : StdException → EStateM StdException σ α) (s : σ) :
    (tryCatch x handler).run s =
      match x.run s with
      | .ok a s' => .ok a s'
      | .error e s' => (handler e).run s' := by
  rw [Frames.run_tryCatch]
  cases x.run s <;> rfl

@[simp] theorem run_discard
    {σ α : Type} (x : EStateM StdException σ α) (s : σ) :
    (discard x).run s =
      match x.run s with
      | .ok _ s' => .ok () s'
      | .error e s' => .error e s' := by
  change (EStateM.map _ x).run s = _
  simp only [EStateM.run, EStateM.map]
  split <;> simp_all

/-- What `FCET` throws for the exception that is declared and the message. -/
class Raising where
  raised : ExceptionClass → String → StdException

/-- The declared exception is thrown. -/
instance (priority := low) Raising.declared : Raising where
  raised exc message := ⟨exc, message⟩

@[simp] theorem raised_declared
    (exc : ExceptionClass) (message : String) :
    Raising.raised exc message = ⟨exc, message⟩ := rfl

/-- What is thrown for an exception has the declared class exactly under a condition. -/
def Raising.DeclaresIf [Raising] (exc : ExceptionClass) (setUp : Prop) : Prop :=
  ∀ message, (Raising.raised exc message).kind = exc ↔ setUp

theorem Raising.DeclaresIf.iff
    [Raising] {exc : ExceptionClass} {setUp : Prop}
    (h : Raising.DeclaresIf exc setUp) (message : String) :
    (∃ what, Raising.raised exc message = ⟨exc, what⟩) ↔ setUp := by
  rw [← h message]
  constructor
  · rintro ⟨what, heq⟩
    rw [heq]
  · intro hkind
    exact ⟨_, congrArg (StdException.mk · (Raising.raised exc message).what) hkind⟩

/-- The macro `FCET`: throw unless the condition holds. -/
def fcet
    [Raising] {σ : Type} (cond : Prop) [Decidable cond]
    (exc : ExceptionClass) (message : String) : EStateM StdException σ Unit :=
  if cond then pure () else throw (Raising.raised exc message)

@[simp] theorem fcet_run
    [Raising] {σ : Type} {cond : Prop} [Decidable cond] (h : cond)
    (exc : ExceptionClass) (message : String) (s : σ) :
    (fcet cond exc message).run s = .ok () s := by
  rw [fcet, if_pos h]
  rfl

theorem fcet_run_raises
    [Raising] {σ : Type} {cond : Prop} [Decidable cond] (h : ¬ cond)
    (exc : ExceptionClass) (message : String) (s : σ) :
    (fcet cond exc message).run s = .error (Raising.raised exc message) s := by
  rw [fcet, if_neg h]
  rfl

@[simp] theorem fcet_run_throws
    {σ : Type} {cond : Prop} [Decidable cond] (h : ¬ cond)
    (exc : ExceptionClass) (message : String) (s : σ) :
    (fcet cond exc message).run s = .error ⟨exc, message⟩ s :=
  fcet_run_raises h exc message s

theorem fcet_run_ok
    [Raising] {σ : Type} {cond : Prop} [Decidable cond] {exc : ExceptionClass}
    {message : String} {a : Unit} {s t : σ}
    (h : (fcet cond exc message).run s = .ok a t) :
    cond ∧ t = s := by
  by_cases hcond : cond
  · rw [fcet_run hcond] at h
    cases h
    exact ⟨hcond, rfl⟩
  · rw [fcet_run_raises hcond] at h
    cases h

/-- The logger matters only for what is thrown. -/
theorem fcet_alike
    (r r' : Raising) {σ : Type} (cond : Prop) [Decidable cond]
    (exc : ExceptionClass) (message : String) :
    Frames.Alike (@fcet r σ cond _ exc message) (@fcet r' σ cond _ exc message) :=
  .ite (Frames.alike_refl _) (Frames.alike_throw _ _)

/-- Result of a method as seen by a caller that drops the object on a throw. -/
def outcome
    {σ α : Type} :
    EStateM.Result StdException σ α → Except StdException σ
  | .ok _ s => .ok s
  | .error e _ => .error e

/-- The object behind a method, whether the method returns or throws. -/
def stateOf
    {σ α : Type} :
    EStateM.Result StdException σ α → σ
  | .ok _ s => s
  | .error _ s => s

@[simp] theorem stateOf_ok
    {σ α : Type} (a : α) (s : σ) :
    stateOf (.ok a s : EStateM.Result StdException σ α) = s := rfl

@[simp] theorem stateOf_error
    {σ α : Type} (e : StdException) (s : σ) :
    stateOf (.error e s : EStateM.Result StdException σ α) = s := rfl

/-- A method that keeps a part of its object. -/
theorem part_stateOf
    {σ α γ : Type} {part : σ → γ} {x : EStateM StdException σ α}
    (hkeeps : Frames.Keeps part x) (s : σ) :
    part (stateOf (x.run s)) = part s := by
  have hs := hkeeps s
  generalize x.run s = r at hs
  cases r <;> exact hs

/-- What a caller learns from a method: the value returned, or the class of the
exception. -/
def answerOf
    {σ α : Type} :
    EStateM.Result StdException σ α → Except ExceptionClass α
  | .ok a _ => .ok a
  | .error e _ => .error e.kind

@[simp] theorem answerOf_ok
    {σ α : Type} (a : α) (s : σ) :
    answerOf (.ok a s : EStateM.Result StdException σ α) = .ok a := rfl

@[simp] theorem answerOf_error
    {σ α : Type} (e : StdException) (s : σ) :
    answerOf (.error e s : EStateM.Result StdException σ α) = .error e.kind := rfl

@[simp] theorem ok_bind
    {ε α β : Type} (a : α) (f : α → Except ε β) :
    (Except.ok a >>= f) = f a := rfl

@[simp] theorem error_bind
    {ε α β : Type} (e : ε) (f : α → Except ε β) :
    (Except.error e >>= f) = .error e := rfl

/-- A computation that continues another one returns normally exactly when both
parts do. -/
theorem bind_eq_ok
    {α β : Type} {x : Except StdException α}
    {f : α → Except StdException β} {b : β} :
    (x >>= f) = .ok b ↔ ∃ a, x = .ok a ∧ f a = .ok b := by
  cases x <;> simp [bind, Except.bind]

/-- `std::string::find` of a character, from a position on. -/
def find (s : Bytes) (c : Byte) (pos : Nat) : Option Nat :=
  ((s.drop pos).findIdx? (· = c)).map (pos + ·)

/-- `std::string::rfind` of a character: its last position. -/
def rfind (s : Bytes) (c : Byte) : Option Nat :=
  (s.reverse.findIdx? (· = c)).map (s.length - 1 - ·)

/-- `std::string::find_first_of`. -/
def findFirstOf (s : Bytes) (bad : Bytes) : Option Nat :=
  s.findIdx? (· ∈ bad)

/-- The bytes of a string in a message, one character for each. -/
def Bytes.text (s : Bytes) : String :=
  String.ofList (s.map fun b => Char.ofNat b.toNat)

/-- The characters of a string literal, all of which are ASCII. -/
def literal (text : String) : Bytes :=
  text.toList.map fun c => UInt8.ofNat c.toNat

/-- `index`: the position of the first `c` in a C string, whose terminating null counts. -/
def index (s : Bytes) (c : Byte) : Option Nat :=
  (s ++ [0x00]).findIdx? (· = c)

/-- The C string at the start of some bytes, which ends at the first null byte. -/
def cString (s : Bytes) : Bytes :=
  s.takeWhile (· ≠ 0x00)

theorem cString_eq_self_iff
    {s : Bytes} :
    cString s = s ↔ 0x00 ∉ s := by
  rw [cString, List.takeWhile_eq_self_iff]
  constructor
  · intro h hmem
    exact absurd (h 0x00 hmem) (by decide)
  · intro h c hc
    exact decide_eq_true fun heq => h (heq ▸ hc)

/-- A number formatted with `{:d}`. -/
def decimal (n : Int) : Bytes :=
  (toString n).toList.map fun c => UInt8.ofNat c.toNat

/-- A natural number formatted with `{:d}` has its digits. -/
theorem decimal_natCast
    (n : Nat) :
    decimal n = (Nat.toDigits 10 n).map fun c => UInt8.ofNat c.toNat :=
  congrArg (List.map _) String.toList_ofList

theorem toNat_of_mem_toDigits
    {n : Nat} {c : Char}
    (h : c ∈ Nat.toDigits 10 n) :
    48 ≤ c.toNat ∧ c.toNat ≤ 57 := by
  have hisDigit := Nat.isDigit_of_mem_toDigits (by decide) (by decide) h
  simp only [Char.isDigit, Bool.and_eq_true, decide_eq_true_eq] at hisDigit
  exact hisDigit

theorem decimal_injective :
    Function.Injective fun n : Nat => decimal n := by
  intro a b h
  have hchars (n : Nat) :
      (decimal n).map (fun b => Char.ofNat b.toNat) = Nat.toDigits 10 n := by
    have hdigit : ∀ c ∈ Nat.toDigits 10 n, Char.ofNat (UInt8.ofNat c.toNat).toNat = c := by
      intro c hc
      have hle := (toNat_of_mem_toDigits hc).2
      rw [UInt8.toNat_ofNat_of_lt' (show c.toNat < 256 by omega), Char.ofNat_toNat]
    rw [decimal_natCast, List.map_map]
    exact (List.map_congr_left hdigit).trans (List.map_id _)
  have hdigits := congrArg (List.map fun b => Char.ofNat b.toNat) h
  simp only [hchars] at hdigits
  rw [← Nat.ofDigitChars_ten_toDigits (n := a), hdigits, Nat.ofDigitChars_ten_toDigits]

/-- A number formatted with `{:0wd}` for the width `w`. -/
def zeroPadded (width n : Nat) : Bytes :=
  List.replicate (width - (decimal n).length) 0x30 ++ decimal n

/-- The characters that `isspace` accepts in the C locale. -/
def isSpace (c : Byte) : Prop :=
  c = 0x20 ∨ (0x09 ≤ c ∧ c ≤ 0x0D)

instance (c : Byte) : Decidable (isSpace c) :=
  inferInstanceAs (Decidable (_ ∨ _))

def isDigit (c : Byte) : Prop :=
  0x30 ≤ c ∧ c ≤ 0x39

instance (c : Byte) : Decidable (isDigit c) :=
  inferInstanceAs (Decidable (_ ∧ _))

/-- The number that decimal digits denote. -/
def digitsValue (digits : Bytes) : Nat :=
  digits.foldl (fun n c => 10 * n + (c.toNat - 0x30)) 0

/-- An optional sign, and what follows it. -/
def takeSign : Bytes → Bool × Bytes
  | [] => (false, [])
  | c :: rest =>
      if c = 0x2D then (true, rest)
      else if c = 0x2B then (false, rest)
      else (false, c :: rest)

/-- `std::stoi`. -/
def stoi (s : Bytes) : Except StdException Int := do
  let (negative, rest) := takeSign (s.dropWhile (isSpace ·))
  let digits := rest.takeWhile (isDigit ·)
  if digits = [] then
    throw ⟨.invalidArgument, "stoi"⟩
  let magnitude := (digitsValue digits : Int)
  let value := if negative then -magnitude else magnitude
  if value < -2 ^ 31 ∨ 2 ^ 31 ≤ value then
    throw ⟨.outOfRange, "stoi"⟩
  return value

/-- A text of digits is read as its value. -/
theorem stoi_run
    {s : Bytes}
    (hne : s ≠ [])
    (hdigits : ∀ c ∈ s, isDigit c)
    (hsmall : digitsValue s < 2 ^ 31) :
    stoi s = .ok (digitsValue s) := by
  obtain ⟨c, rest, rfl⟩ := List.exists_cons_of_ne_nil hne
  obtain ⟨hlow, hhigh⟩ := hdigits c List.mem_cons_self
  rw [UInt8.le_iff_toNat_le] at hlow hhigh
  change 48 ≤ c.toNat at hlow
  change c.toNat ≤ 57 at hhigh
  have hspace : ¬ isSpace c := by
    rintro (rfl | ⟨-, h⟩)
    · exact absurd hlow (by decide)
    · rw [UInt8.le_iff_toNat_le] at h
      change c.toNat ≤ 13 at h
      omega
  have hminus : c ≠ 0x2D := by
    rintro rfl
    exact absurd hlow (by decide)
  have hplus : c ≠ 0x2B := by
    rintro rfl
    exact absurd hlow (by decide)
  have htake : (c :: rest).takeWhile (fun x => decide (isDigit x)) = c :: rest :=
    List.takeWhile_eq_self_iff.mpr fun x hx => decide_eq_true (hdigits x hx)
  unfold stoi
  rw [List.dropWhile_cons_of_neg (by simpa using hspace)]
  simp only [takeSign, if_neg hminus, if_neg hplus, htake, if_neg hne]
  rw [if_neg (by simp only [Bool.false_eq_true, if_false]; omega)]
  rfl

/-- A `std::unordered_map`.  Its entries stand in some order. -/
abbrev UnorderedMap (K V : Type) :=
  AList fun _ : K => V

/-- `std::unordered_map::insert`: an entry that has the key already is kept. -/
def insertNew
    {K V : Type} [DecidableEq K] (m : UnorderedMap K V) (key : K) (value : V) :
    UnorderedMap K V :=
  if key ∈ m then m else m.insert key value

theorem lookup_insertNew
    {K V : Type} [DecidableEq K] (m : UnorderedMap K V) (key : K) (value : V) (k : K) :
    (insertNew m key value).lookup k =
      if k = key ∧ m.lookup key = none then some value else m.lookup k := by
  unfold insertNew
  by_cases hmem : key ∈ m
  · have hsome : ¬ m.lookup key = none := by
      rw [AList.lookup_eq_none, not_not]
      exact hmem
    rw [if_pos hmem, if_neg fun h => hsome h.2]
  · rw [if_neg hmem]
    by_cases hk : k = key
    · subst hk
      rw [AList.lookup_insert, if_pos ⟨rfl, AList.lookup_eq_none.mpr hmem⟩]
    · rw [AList.lookup_insert_ne hk, if_neg fun h => hk h.1]

theorem find_eq_some
    {s : Bytes} {c : Byte} {pos p : Nat}
    (h : find s c pos = some p) :
    pos ≤ p ∧ p < s.length ∧ s[p]? = some c ∧
      ∀ b ∈ (s.drop pos).take (p - pos), b ≠ c := by
  obtain ⟨i, hi, rfl⟩ := Option.map_eq_some_iff.mp h
  obtain ⟨hlt, hmem, hbefore⟩ := List.findIdx?_eq_some_iff_getElem.mp hi
  rw [List.length_drop] at hlt
  refine ⟨by omega, by omega, ?_, ?_⟩
  · rw [List.getElem_drop] at hmem
    rw [List.getElem?_eq_getElem (by omega)]
    simpa using hmem
  · intro b hb
    rw [Nat.add_sub_cancel_left] at hb
    obtain ⟨j, hj, rfl⟩ := List.mem_take_iff_getElem.mp hb
    have hj' : j < i := by omega
    simpa using hbefore j hj'

/-- A string is split in one way at the first occurrence of a character. -/
theorem append_cons_inj
    {c : Byte} {before before' rest rest' : Bytes}
    (hbefore : c ∉ before)
    (hbefore' : c ∉ before')
    (h : before ++ c :: rest = before' ++ c :: rest') :
    before = before' ∧ rest = rest' := by
  induction before generalizing before' with
  | nil =>
      cases before' with
      | nil =>
          exact ⟨rfl, List.tail_eq_of_cons_eq h⟩
      | cons b before' =>
          obtain rfl := List.head_eq_of_cons_eq h
          exact absurd List.mem_cons_self hbefore'
  | cons a before ih =>
      rw [List.mem_cons, not_or] at hbefore
      cases before' with
      | nil =>
          exact absurd (List.head_eq_of_cons_eq h).symm hbefore.1
      | cons b before' =>
          rw [List.mem_cons, not_or] at hbefore'
          obtain rfl := List.head_eq_of_cons_eq h
          obtain ⟨rfl, hrest⟩ := ih hbefore.2 hbefore'.2 (List.tail_eq_of_cons_eq h)
          exact ⟨rfl, hrest⟩

/-- The first occurrence behind a given part of the string. -/
theorem find_append
    {c : Byte} {mid : Bytes}
    (hmid : c ∉ mid)
    (before rest : Bytes) :
    find (before ++ (mid ++ c :: rest)) c before.length =
      some (before.length + mid.length) := by
  have hnone : mid.findIdx? (· = c) = none := by
    rw [List.findIdx?_eq_none_iff]
    intro b hb
    have hne : b ≠ c := fun h => hmid (h ▸ hb)
    simpa using hne
  rw [find, List.drop_left, List.findIdx?_append, hnone]
  simp [List.findIdx?_cons]

theorem find_append_eq_none
    {c : Byte} {s : Bytes}
    (hs : c ∉ s)
    (before : Bytes) :
    find (before ++ s) c before.length = none := by
  rw [find, List.drop_left, Option.map_eq_none_iff, List.findIdx?_eq_none_iff]
  intro b hb
  have hne : b ≠ c := fun h => hs (h ▸ hb)
  simpa using hne

/-- A string is split at the occurrence that is found. -/
theorem exists_of_find_eq_some
    {s : Bytes} {c : Byte} {pos p : Nat}
    (h : find s c pos = some p) :
    ∃ before mid rest,
      s = before ++ (mid ++ c :: rest) ∧ before.length = pos ∧ c ∉ mid ∧
        p = pos + mid.length := by
  obtain ⟨hle, hlt, hc, hbefore⟩ := find_eq_some h
  obtain ⟨_, hget⟩ := List.getElem?_eq_some_iff.mp hc
  refine ⟨s.take pos, (s.drop pos).take (p - pos), s.drop (p + 1), ?_, ?_, ?_, ?_⟩
  · have hdrop : (s.drop pos).drop (p - pos) = c :: s.drop (p + 1) := by
      rw [List.drop_drop, Nat.add_sub_cancel' hle, ← hget]
      exact List.drop_eq_getElem_cons hlt
    rw [← hdrop, List.take_append_drop, List.take_append_drop]
  · rw [List.length_take]
    omega
  · intro hmem
    exact hbefore c hmem rfl
  · rw [List.length_take, List.length_drop]
    omega

theorem findFirstOf_isSome_iff
    {s bad : Bytes} :
    (findFirstOf s bad).isSome = true ↔ ∃ b ∈ s, b ∈ bad := by
  simp [findFirstOf, List.findIdx?_isSome]

/-- An input stream: the bytes not yet read and the two state bits that
reading can set. -/
structure IStream where
  data : Bytes
  eofbit : Bool
  failbit : Bool
deriving DecidableEq, Repr

namespace IStream

/-- A fresh stream over the given bytes. -/
def ofBytes (data : Bytes) : IStream :=
  { data := data, eofbit := false, failbit := false }

/-- `std::istream::good`. -/
def good (s : IStream) : Bool :=
  !s.eofbit && !s.failbit

/-- `std::istream::eof`. -/
def eof (s : IStream) : Bool :=
  s.eofbit

/-- `std::istream::read(&c, 1)`: the new value of `c` and the new stream.  At
the end of the data `c` keeps its value and both bits are set. -/
def read (c : Byte) (s : IStream) : Byte × IStream :=
  if s.good then
    match s.data with
    | [] => (c, { s with eofbit := true, failbit := true })
    | b :: rest => (b, { s with data := rest })
  else
    (c, { s with failbit := true })

/-- `std::istream::peek`: the next byte, or `none` for `EOF`.  Peeking at the
end of the data sets `eofbit`. -/
def peek (s : IStream) : Option Byte × IStream :=
  if s.good then
    match s.data with
    | [] => (none, { s with eofbit := true })
    | b :: _ => (some b, s)
  else
    (none, { s with failbit := true })

@[simp] theorem good_ofBytes
    (data : Bytes) :
    (ofBytes data).good = true := rfl

@[simp] theorem eof_ofBytes
    (data : Bytes) :
    (ofBytes data).eof = false := rfl

@[simp] theorem data_ofBytes
    (data : Bytes) :
    (ofBytes data).data = data := rfl

theorem good_of_eq
    {s : IStream} {data : Bytes}
    (h : s = ofBytes data) :
    s.good = true := by
  rw [h]
  rfl

/-- A good stream is determined by the bytes not yet read. -/
theorem eq_ofBytes
    {s : IStream}
    (h : s.good = true) :
    s = ofBytes s.data := by
  obtain ⟨data, eofbit, failbit⟩ := s
  cases eofbit <;> cases failbit <;> simp_all [good, ofBytes]

@[simp] theorem read_ofBytes_nil
    (c : Byte) :
    (ofBytes []).read c =
      (c, { data := [], eofbit := true, failbit := true }) := rfl

@[simp] theorem read_ofBytes_cons
    (c b : Byte) (rest : Bytes) :
    (ofBytes (b :: rest)).read c = (b, ofBytes rest) := rfl

@[simp] theorem peek_ofBytes_nil :
    (ofBytes []).peek =
      (none, { data := [], eofbit := true, failbit := false }) := rfl

@[simp] theorem peek_ofBytes_cons
    (b : Byte) (rest : Bytes) :
    (ofBytes (b :: rest)).peek = (some b, ofBytes (b :: rest)) := rfl

theorem read_of_not_good
    {s : IStream} (c : Byte)
    (h : s.good = false) :
    s.read c = (c, { s with failbit := true }) := by
  rw [read, h]
  rfl

theorem peek_of_not_good
    {s : IStream}
    (h : s.good = false) :
    s.peek = (none, { s with failbit := true }) := by
  rw [peek, h]
  rfl

/-- Steps left before the stream stops being good. -/
def remaining (s : IStream) : Nat :=
  if s.good then s.data.length + 1 else 0

/-- Reading from a good stream makes progress. -/
theorem remaining_read_lt
    (c : Byte) {s : IStream}
    (h : s.good = true) :
    (s.read c).2.remaining < s.remaining := by
  rw [eq_ofBytes h]
  cases s.data with
  | nil =>
      rw [read_ofBytes_nil]
      exact Nat.zero_lt_one
  | cons b rest =>
      simp [remaining]

theorem remaining_read_le
    (c : Byte) (s : IStream) :
    (s.read c).2.remaining ≤ s.remaining := by
  cases h : s.good with
  | false =>
      simp [read_of_not_good c h, remaining, good]
  | true =>
      exact le_of_lt (remaining_read_lt c h)

theorem remaining_peek_le
    (s : IStream) :
    s.peek.2.remaining ≤ s.remaining := by
  cases h : s.good with
  | false =>
      simp [peek_of_not_good h, remaining, good]
  | true =>
      rw [eq_ofBytes h]
      cases s.data with
      | nil =>
          decide
      | cons b rest =>
          simp

end IStream

end Bren
end Brenlib
