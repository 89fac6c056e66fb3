import Brenlib.Base.TransitionSystem
import Brenlib.Bren.StdLibrary

/-!
# `Logger` and the macro `FCET`

The model follows `hdr/bren/Logger.hpp` and `src/Logger.cpp`.  The time, the thread and
the place that `log` prints are inputs.  They are C strings, which hold no null
character.  A stream is written to without an exception, as streams are by default.

`FCET` throws an exception that it constructs from `log(...)->c_str()`.  So it
dereferences a null pointer where `log` returns none, and an exception that `log` throws
takes the place of the one that is declared.

**Results.**
* `log_null`, `log_strip`, `log_line`: the ways in which `log` ends.
* `levels_configured`, `hasDestination_configured`: what any calls that set up the logger
  leave as it is, and which of them give it a destination.
* `FCET_iff`: the set-ups under which the declared exception is thrown.
* `raised_kind_iff`: the set-ups under which what is thrown has the declared class, for the
  methods of the library that use the macro.
-/

namespace Brenlib
namespace Bren

open TransitionSystem

/-- A C string. -/
structure CString where
  bytes : Bytes
  noNul : 0x00 ∉ bytes

/-- `c_str()` where a C string is expected. -/
def cStr (s : Bytes) : Bytes :=
  s.takeWhile (· ≠ 0x00)

/-- Text of the exception that `std::string::substr` throws. -/
def substrText (pos size : Nat) : String :=
  s!"basic_string::substr: __pos (which is {pos}) > this->size() (which is {size})"

/-- `std::string::substr`, to the end. -/
def substr (s : Bytes) (pos : Nat) : Except StdException Bytes :=
  if s.length < pos then .error ⟨.outOfRange, substrText pos s.length⟩
  else .ok (s.drop pos)

/-- `loglevel_t`. -/
inductive LogLevel where
  | none
  | error
  | warning
  | notice
  | info
  | debug
deriving DecidableEq, Repr

/-- The priorities of syslog. -/
def LogLevel.value : LogLevel → UInt8
  | .none => 2
  | .error => 3
  | .warning => 4
  | .notice => 5
  | .info => 6
  | .debug => 7

/-- The number of a stream. -/
abbrev Stream := Nat

structure Logger where
  ident_ : Bytes
  levels_ : UnorderedMap LogLevel Bytes
  maxlevel_ : LogLevel
  stream_ : Option Stream
  strip_ : Nat
  syslog_ : Bool

/-- A place in the sources, as `__FILE__` and `__LINE__` name it. -/
structure Site where
  file : CString
  line : Nat

/-- What `log` reads from the system. -/
structure Now where
  time : CString
  usec : Nat
  thread : CString

namespace Logger

/-- `std::cerr`. -/
def cerr : Stream := 0

/-- `Logger()`. -/
def init : Logger where
  ident_ := []
  levels_ :=
    ((((AList.singleton .error (literal "ERROR")).insert .warning (literal "WARNING")).insert
      .notice (literal "NOTICE")).insert .info (literal "INFO")).insert .debug (literal "DEBUG")
  maxlevel_ := .debug
  stream_ := none
  strip_ := 0
  syslog_ := false

section Configuration

/-- `stream(stream_i, strip_i)`. -/
def stream (stream_i : Option Stream) (strip_i : Nat) : EStateM StdException Logger Unit := do
  if stream_i = none then
    throw ⟨.invalidArgument, "Unable to write log output to NULL stream pointer"⟩
  modify fun l => { l with syslog_ := false }
  modify fun l => { l with strip_ := strip_i }
  modify fun l => { l with stream_ := stream_i }

/-- `stderror(strip_i)`. -/
def stderror (strip_i : Nat) : EStateM StdException Logger Unit :=
  stream (some cerr) strip_i

/-- `syslog(ident_i, facility_i, strip_i)`. -/
def syslog (ident_i : Bytes) (_facility_i : Int) (strip_i : Nat) :
    EStateM StdException Logger Bool := do
  let l ← get
  if l.syslog_ then
    return false
  set { l with ident_ := ident_i, strip_ := strip_i, stream_ := none, syslog_ := true }
  return true

/-- `maxlevel(level_i)`. -/
def setMaxlevel (level_i : LogLevel) : EStateM StdException Logger Unit :=
  modify fun l => { l with maxlevel_ := level_i }

/-- A call that sets up the logger. -/
inductive ConfigCall where
  | stream (stream_i : Option Stream) (strip_i : Nat)
  | stderror (strip_i : Nat)
  | syslog (ident_i : Bytes) (facility_i : Int) (strip_i : Nat)
  | maxlevel (level_i : LogLevel)

/-- The logger behind a call, whether the call returns or throws. -/
def configure (l : Logger) : ConfigCall → Logger
  | .stream stream_i strip_i => stateOf ((stream stream_i strip_i).run l)
  | .stderror strip_i => stateOf ((stderror strip_i).run l)
  | .syslog ident_i facility_i strip_i => stateOf ((syslog ident_i facility_i strip_i).run l)
  | .maxlevel level_i => stateOf ((setMaxlevel level_i).run l)

/-- The logger behind a sequence of calls. -/
def configured (calls : List ConfigCall) : Logger :=
  calls.foldl configure init

/-- The call gives the logger a destination. -/
def ConfigCall.GivesDestination : ConfigCall → Prop
  | .stream stream_i _ => stream_i ≠ none
  | .stderror _ => True
  | .syslog _ _ _ => True
  | .maxlevel _ => False

theorem configure_stream
    (l : Logger) (s : Stream) (strip_i : Nat) :
    l.configure (.stream (some s) strip_i) =
      { l with syslog_ := false, strip_ := strip_i, stream_ := some s } := rfl

/-- A null pointer is refused. -/
theorem configure_stream_null
    (l : Logger) (strip_i : Nat) :
    l.configure (.stream none strip_i) = l := rfl

theorem configure_syslog
    (l : Logger) (ident_i : Bytes) (facility_i : Int) (strip_i : Nat) :
    l.configure (.syslog ident_i facility_i strip_i) =
      if l.syslog_ then l
      else { l with ident_ := ident_i, strip_ := strip_i, stream_ := none, syslog_ := true } := by
  obtain ⟨ident, levels, maxlevel, stream, strip, syslog⟩ := l
  cases syslog with
  | true =>
      rfl
  | false =>
      rfl

/-- The calls leave the names of the levels alone. -/
theorem levels_configure
    (l : Logger) (c : ConfigCall) :
    (l.configure c).levels_ = l.levels_ := by
  cases c with
  | stream stream_i strip_i =>
      cases stream_i <;> rfl
  | stderror strip_i =>
      rfl
  | syslog ident_i facility_i strip_i =>
      rw [configure_syslog]
      split <;> rfl
  | maxlevel level_i =>
      rfl

theorem levels_configured
    (calls : List ConfigCall) :
    (configured calls).levels_ = init.levels_ := by
  refine (run_foldl configure init calls).invariant (fun l => l.levels_ = init.levels_) ?_ rfl
  rintro l c m hl rfl
  rw [levels_configure, hl]

/-- There is somewhere to write to. -/
def HasDestination (l : Logger) : Prop :=
  l.syslog_ = true ∨ l.stream_ ≠ none

theorem hasDestination_configure
    (l : Logger) (c : ConfigCall) :
    (l.configure c).HasDestination ↔ l.HasDestination ∨ c.GivesDestination := by
  cases c with
  | stream stream_i strip_i =>
      cases stream_i with
      | none =>
          rw [configure_stream_null]
          simp [ConfigCall.GivesDestination]
      | some s =>
          rw [configure_stream]
          simp [HasDestination, ConfigCall.GivesDestination]
  | stderror strip_i =>
      change (l.configure (.stream (some cerr) strip_i)).HasDestination ↔ _
      rw [configure_stream]
      simp [HasDestination, ConfigCall.GivesDestination]
  | syslog ident_i facility_i strip_i =>
      rw [configure_syslog]
      cases hsyslog : l.syslog_ with
      | true =>
          simp [HasDestination, ConfigCall.GivesDestination, hsyslog]
      | false =>
          simp [HasDestination, ConfigCall.GivesDestination]
  | maxlevel level_i =>
      exact (or_iff_left id).symm

/-- The logger has a destination as soon as one of the calls gave it one. -/
theorem hasDestination_configured
    (calls : List ConfigCall) :
    (configured calls).HasDestination ↔ ∃ c ∈ calls, c.GivesDestination := by
  induction calls using List.reverseRecOn with
  | nil =>
      simp [configured, HasDestination, init]
  | append_singleton calls c ih =>
      rw [configured, List.foldl_append]
      change ((configured calls).configure c).HasDestination ↔ _
      rw [hasDestination_configure, ih]
      simp [or_and_right, exists_or]

end Configuration

section Log

/-- `levels_[priority_i]`, which inserts an empty text where there is none. -/
def levelName (priority_i : LogLevel) : EStateM StdException Logger Bytes := do
  modify fun l => { l with levels_ := insertNew l.levels_ priority_i [] }
  let l ← get
  return (l.levels_.lookup priority_i).getD []

/-- `log(file_i, line_i, priority_i, msg_i)`: the line, or none for a null pointer. -/
def log (now : Now) (file_i : Bytes) (line_i : Nat) (priority_i : LogLevel) (msg_i : Bytes) :
    EStateM StdException Logger (Option Bytes) := do
  let l ← get
  if l.maxlevel_.value < priority_i.value then
    return none
  let file ← ofExcept (substr file_i l.strip_)
  let le := now.time.bytes ++ literal "." ++ zeroPadded 6 now.usec ++ literal " [" ++
    now.thread.bytes ++ literal "] " ++ file ++ literal ":" ++ decimal line_i ++ literal " "
  let le ←
    if l.syslog_ then pure le
    else do
      let level ← levelName priority_i
      pure (le ++ level ++ literal " ")
  let le := le ++ msg_i
  if l.syslog_ = false ∧ l.stream_ = none then
    throw ⟨.logicError, "Asked to log to stream, but stream is NULL"⟩
  return some le

/-- What stands before the message in a line at the level of errors. -/
def lineHead (l : Logger) (now : Now) (here : Site) : Bytes :=
  now.time.bytes ++ literal "." ++ zeroPadded 6 now.usec ++ literal " [" ++
    now.thread.bytes ++ literal "] " ++ here.file.bytes.drop l.strip_ ++ literal ":" ++
    decimal here.line ++ literal " " ++ if l.syslog_ then [] else literal "ERROR" ++ literal " "

variable {l : Logger} (now : Now) (here : Site) (message : Bytes)

/-- Errors are above the level that is logged. -/
theorem log_null
    (hlevel : l.maxlevel_.value < LogLevel.error.value) :
    (log now here.file.bytes here.line .error message).run l = .ok none l := by
  unfold log
  rw [run_bind_ok (EStateM.run_get l), if_pos hlevel]
  rfl

/-- More is to be stripped than the name of the file has. -/
theorem log_strip
    (hlevel : ¬ l.maxlevel_.value < LogLevel.error.value)
    (hstrip : here.file.bytes.length < l.strip_) :
    (log now here.file.bytes here.line .error message).run l =
      .error ⟨.outOfRange, substrText l.strip_ here.file.bytes.length⟩ l := by
  unfold log
  rw [run_bind_ok (EStateM.run_get l), if_neg hlevel, substr, if_pos hstrip]
  rfl

/-- A level that has a name keeps it. -/
theorem levelName_run
    {name : Bytes}
    (hname : l.levels_.lookup .error = some name) :
    (levelName .error).run l = .ok name l := by
  have hmem : LogLevel.error ∈ l.levels_ := by
    rw [← AList.lookup_isSome, hname]
    rfl
  have hsame : insertNew l.levels_ .error [] = l.levels_ := if_pos hmem
  unfold levelName
  rw [run_bind_ok (EStateM.run_modify _ l), hsame]
  change EStateM.Result.ok ((l.levels_.lookup .error).getD []) l = _
  rw [hname]
  rfl

/-- A line that is to be logged is written where there is a destination. -/
theorem log_line
    (hlevel : ¬ l.maxlevel_.value < LogLevel.error.value)
    (hstrip : l.strip_ ≤ here.file.bytes.length)
    (hlevels : l.levels_.lookup .error = some (literal "ERROR")) :
    (log now here.file.bytes here.line .error message).run l =
      if l.syslog_ = false ∧ l.stream_ = none then
        .error ⟨.logicError, "Asked to log to stream, but stream is NULL"⟩ l
      else .ok (some (l.lineHead now here ++ message)) l := by
  unfold log
  rw [run_bind_ok (EStateM.run_get l), if_neg hlevel, substr,
    if_neg (Nat.not_lt.mpr hstrip)]
  simp only [pure_bind]
  rw [run_bind_ok (run_ofExcept _ l)]
  cases hsyslog : l.syslog_ with
  | true =>
      simp [lineHead, hsyslog]
  | false =>
      simp only [Bool.false_eq_true, if_false]
      rw [run_bind_ok (levelName_run hlevels)]
      split_ifs with hnowhere
      · rfl
      · simp [lineHead, hsyslog]

end Log

section Line

theorem text_toList
    (s : Bytes) :
    s.text.toList = s.map fun b => Char.ofNat b.toNat :=
  String.toList_ofList

/-- A C string carries a text exactly when the text has no null character. -/
theorem text_cStr_iff
    (s : Bytes) :
    (cStr s).text = s.text ↔ 0x00 ∉ s := by
  constructor
  · intro h hmem
    have hlength := congrArg (fun t => t.toList.length) h
    simp only [text_toList, List.length_map] at hlength
    have hself : cStr s = s := (List.takeWhile_prefix _).eq_of_length hlength
    have hne := List.takeWhile_eq_self_iff.mp hself 0x00 hmem
    simp at hne
  · intro h
    have hself : cStr s = s := by
      refine List.takeWhile_eq_self_iff.mpr ?_
      intro c hc
      rw [decide_eq_true_eq]
      rintro rfl
      exact h hc
    rw [hself]

/-- Digits are no null characters. -/
theorem noNul_decimal
    (n : Nat) :
    0x00 ∉ decimal n := by
  rw [decimal_natCast]
  intro h
  obtain ⟨c, hc, heq⟩ := List.mem_map.mp h
  have hbounds := toNat_of_mem_toDigits hc
  have hnat := congrArg UInt8.toNat heq
  rw [UInt8.toNat_ofNat_of_lt' (show c.toNat < 256 by omega)] at hnat
  change c.toNat = 0 at hnat
  omega

theorem noNul_zeroPadded
    (width n : Nat) :
    0x00 ∉ zeroPadded width n := by
  intro h
  rw [zeroPadded, List.mem_append] at h
  rcases h with hzero | hdigit
  · exact absurd (List.eq_of_mem_replicate hzero) (by decide)
  · exact noNul_decimal n hdigit

theorem noNul_lineHead
    (l : Logger) (now : Now) (here : Site) :
    0x00 ∉ l.lineHead now here := by
  have hfile : 0x00 ∉ here.file.bytes.drop l.strip_ := fun h =>
    here.file.noNul (List.mem_of_mem_drop h)
  have hlevel : 0x00 ∉ (if l.syslog_ then [] else literal "ERROR" ++ literal " ") := by
    split <;> decide
  have hdot : 0x00 ∉ literal "." := by decide
  have hopen : 0x00 ∉ literal " [" := by decide
  have hclose : 0x00 ∉ literal "] " := by decide
  have hcolon : 0x00 ∉ literal ":" := by decide
  have hblank : 0x00 ∉ literal " " := by decide
  simp only [lineHead, List.mem_append, not_or]
  exact ⟨⟨⟨⟨⟨⟨⟨⟨⟨⟨now.time.noNul, hdot⟩, noNul_zeroPadded _ _⟩, hopen⟩, now.thread.noNul⟩,
    hclose⟩, hfile⟩, hcolon⟩, noNul_decimal _⟩, hblank⟩, hlevel⟩

/-- Every line has a bracket in front of the thread. -/
theorem bracket_mem_line
    (l : Logger) (now : Now) (here : Site) (message : Bytes) :
    '[' ∈ (l.lineHead now here ++ message).text.toList := by
  have hopen : 0x5B ∈ literal " [" := by decide
  rw [text_toList]
  refine List.mem_map.mpr ⟨0x5B, ?_, rfl⟩
  simp only [lineHead, List.mem_append, hopen, true_or, or_true]

theorem bracket_not_mem_substrText
    (pos size : Nat) :
    '[' ∉ (substrText pos size).toList := by
  have hdigits (n : Nat) : '[' ∉ (toString n).toList := by
    intro h
    have hmem : '[' ∈ Nat.toDigits 10 n := (String.toList_ofList (l := Nat.toDigits 10 n)) ▸ h
    exact absurd (toNat_of_mem_toDigits hmem).2 (by decide)
  have hfront : '[' ∉ "basic_string::substr: __pos (which is ".toList := by decide
  have hmiddle : '[' ∉ ") > this->size() (which is ".toList := by decide
  have hback : '[' ∉ ")".toList := by decide
  have htext : substrText pos size =
      "basic_string::substr: __pos (which is " ++ toString pos ++ ") > this->size() (which is " ++
        toString size ++ ")" := rfl
  rw [htext]
  intro h
  rw [String.toList_append, String.toList_append, String.toList_append, String.toList_append,
    List.mem_append, List.mem_append, List.mem_append, List.mem_append] at h
  rcases h with (((h | h) | h) | h) | h
  · exact hfront h
  · exact hdigits pos h
  · exact hmiddle h
  · exact hdigits size h
  · exact hback h

end Line

/-- What comes of a macro: it goes on, it throws, or it dereferences a null pointer. -/
inductive Outcome (Exc : Type) where
  | goesOn
  | throws (kind : Exc) (what : String)
  | nullDereference

section Macro

variable {Exc : Type}

/-- `FCET(cond, exc, ...)` with the formatted message.  The exception types of the
standard library are among the types that can be thrown. -/
def FCET (std : ExceptionClass → Exc) (cond : Bool) (exc : Exc) (now : Now) (here : Site)
    (message : Bytes) (l : Logger) : Outcome Exc :=
  if cond then .goesOn
  else
    match (log now here.file.bytes here.line .error message).run l with
    | .ok (some line) _ => .throws exc (cStr line).text
    | .ok none _ => .nullDereference
    | .error e _ => .throws (std e.kind) e.what

/-- The declared exception, with the line that ends in the message. -/
def declared (exc : Exc) (now : Now) (here : Site) (message : Bytes) (l : Logger) : Outcome Exc :=
  .throws exc (l.lineHead now here ++ message).text

/-- **The declared exception is thrown** exactly when errors are logged, the name of the
file is as long as what is stripped from it, a call gave the logger a destination, and
the message has no null character. -/
theorem FCET_iff
    (calls : List ConfigCall) (std : ExceptionClass → Exc) (exc : Exc)
    (now : Now) (here : Site) (message : Bytes) :
    FCET std false exc now here message (configured calls) =
        declared exc now here message (configured calls) ↔
      LogLevel.error.value ≤ (configured calls).maxlevel_.value ∧
        (configured calls).strip_ ≤ here.file.bytes.length ∧
        (∃ c ∈ calls, c.GivesDestination) ∧
        0x00 ∉ message := by
  generalize hl : configured calls = l
  have hlevels : l.levels_.lookup .error = some (literal "ERROR") := by
    rw [← hl, levels_configured]
    rfl
  have hdest : l.HasDestination ↔ ∃ c ∈ calls, c.GivesDestination := by
    rw [← hl]
    exact hasDestination_configured calls
  have hother {kind : Exc} {what : String} (hwhat : '[' ∉ what.toList) :
      (.throws kind what : Outcome Exc) ≠ declared exc now here message l := by
    intro h
    obtain ⟨-, rfl⟩ := Outcome.throws.inj h
    exact hwhat (bracket_mem_line l now here message)
  unfold FCET
  rw [if_neg Bool.false_ne_true]
  by_cases hlevel : l.maxlevel_.value < LogLevel.error.value
  · rw [log_null now here message hlevel]
    refine iff_of_false (fun h => by cases h) ?_
    rintro ⟨hhigh, -⟩
    exact absurd hlevel (UInt8.not_lt.mpr hhigh)
  · by_cases hstrip : here.file.bytes.length < l.strip_
    · rw [log_strip now here message hlevel hstrip]
      refine iff_of_false (hother (bracket_not_mem_substrText _ _)) ?_
      rintro ⟨-, hlow, -⟩
      exact absurd hstrip (Nat.not_lt.mpr hlow)
    · rw [log_line now here message hlevel (Nat.not_lt.mp hstrip) hlevels]
      split_ifs with hnowhere
      · refine iff_of_false (hother (by decide)) ?_
        rintro ⟨-, -, hgiven, -⟩
        rcases hdest.mpr hgiven with hsyslog | hstream
        · exact Bool.false_ne_true (hnowhere.1.symm.trans hsyslog)
        · exact hstream hnowhere.2
      · have hgiven : ∃ c ∈ calls, c.GivesDestination := by
          refine hdest.mp ?_
          by_contra hnone
          exact hnowhere (by simpa [HasDestination] using hnone)
        have hnul := text_cStr_iff (l.lineHead now here ++ message)
        rw [List.mem_append, not_or, and_iff_right (noNul_lineHead l now here)] at hnul
        simp only [declared, Outcome.throws.injEq, true_and, hnul]
        exact ⟨fun h => ⟨UInt8.not_lt.mp hlevel, Nat.not_lt.mp hstrip, hgiven, h⟩,
          fun h => h.2.2.2⟩

/-- A site and a moment. -/
def checkSite : Site where
  file := ⟨literal "src/readCSV.cpp", by decide⟩
  line := 31

def checkNow : Now where
  time := ⟨literal "12:00:00", by decide⟩
  usec := 17
  thread := ⟨literal "140", by decide⟩

/-- In a fresh logger another exception is thrown than the declared one, and where the
level excludes errors a null pointer is dereferenced. -/
theorem FCET_fresh :
    FCET id false .invalidArgument checkNow checkSite (literal "no columns") (configured []) =
        .throws .logicError "Asked to log to stream, but stream is NULL" ∧
      FCET id false .invalidArgument checkNow checkSite (literal "no columns")
        (configured [.stderror 0, .maxlevel .none]) = .nullDereference ∧
      FCET id false .invalidArgument checkNow checkSite (literal "no columns")
        (configured [.stderror 20]) = .throws .outOfRange (substrText 20 15) := by
  have hnowhere := log_line checkNow checkSite (literal "no columns")
    (l := configured []) (by decide) (by decide) rfl
  have hnull := log_null checkNow checkSite (literal "no columns")
    (l := configured [.stderror 0, .maxlevel .none]) (by decide)
  have hstrip := log_strip checkNow checkSite (literal "no columns")
    (l := configured [.stderror 20]) (by decide) (by decide)
  rw [if_pos ⟨rfl, rfl⟩] at hnowhere
  refine ⟨?_, ?_, ?_⟩
  · rw [FCET, hnowhere]
    rfl
  · rw [FCET, hnull]
    rfl
  · rw [FCET, hstrip]
    rfl

end Macro

end Logger

/-- What `FCET` throws at a place with this logger.  A null pointer that is dereferenced is no
exception. -/
abbrev Raising.ofLogger (l : Logger) (now : Now) (here : Site) : Raising where
  raised exc message :=
    match Logger.FCET id false exc now here (literal message) l with
    | .throws kind what => ⟨kind, what⟩
    | _ => ⟨.undefined, "null pointer"⟩

namespace Logger

section Classes

/-- Errors are logged, the name of the file is as long as what is stripped from it, and there
is somewhere to write to. -/
structure SetUp (l : Logger) (here : Site) : Prop where
  level : LogLevel.error.value ≤ l.maxlevel_.value
  strip : l.strip_ ≤ here.file.bytes.length
  destination : l.HasDestination

variable {calls : List ConfigCall} {now : Now} {here : Site} {exc : ExceptionClass}

/-- What is thrown, by the outcome of `log`. -/
theorem raised_eq
    (l : Logger) (now : Now) (here : Site) (exc : ExceptionClass) (message : String) :
    (Raising.ofLogger l now here).raised exc message =
      match (log now here.file.bytes here.line .error (literal message)).run l with
      | .ok (some line) _ => ⟨exc, (cStr line).text⟩
      | .ok none _ => ⟨.undefined, "null pointer"⟩
      | .error e _ => ⟨e.kind, e.what⟩ := by
  change (match FCET id false exc now here (literal message) l with
    | .throws kind what => (⟨kind, what⟩ : StdException)
    | _ => ⟨.undefined, "null pointer"⟩) = _
  rw [FCET, if_neg Bool.false_ne_true]
  cases (log now here.file.bytes here.line .error (literal message)).run l with
  | ok line _ => cases line <;> rfl
  | error e _ => rfl

/-- What is thrown has the declared class, or one of those of `log`. -/
theorem raised_cases
    (calls : List ConfigCall) (now : Now) (here : Site) (exc : ExceptionClass)
    (message : String) :
    ((configured calls).SetUp here ∧
      ((Raising.ofLogger (configured calls) now here).raised exc message).kind = exc) ∨
    (¬ (configured calls).SetUp here ∧
      (((Raising.ofLogger (configured calls) now here).raised exc message).kind = .undefined ∨
        ((Raising.ofLogger (configured calls) now here).raised exc message).kind = .outOfRange ∨
        ((Raising.ofLogger (configured calls) now here).raised exc message).kind =
          .logicError)) := by
  have hlevels : (configured calls).levels_.lookup .error = some (literal "ERROR") := by
    rw [levels_configured]
    rfl
  generalize configured calls = l at hlevels ⊢
  rw [raised_eq]
  by_cases hlevel : l.maxlevel_.value < LogLevel.error.value
  · rw [log_null now here _ hlevel]
    exact .inr ⟨fun h => absurd hlevel (UInt8.not_lt.mpr h.level), .inl rfl⟩
  · by_cases hstrip : here.file.bytes.length < l.strip_
    · rw [log_strip now here _ hlevel hstrip]
      exact .inr ⟨fun h => absurd hstrip (Nat.not_lt.mpr h.strip), .inr (.inl rfl)⟩
    · rw [log_line now here _ hlevel (Nat.not_lt.mp hstrip) hlevels]
      split_ifs with hnowhere
      · refine .inr ⟨fun h => ?_, .inr (.inr rfl)⟩
        rcases h.destination with hsyslog | hstream
        · exact Bool.false_ne_true (hnowhere.1.symm.trans hsyslog)
        · exact hstream hnowhere.2
      · refine .inl ⟨⟨UInt8.not_lt.mp hlevel, Nat.not_lt.mp hstrip, ?_⟩, rfl⟩
        rw [not_and_or] at hnowhere
        exact hnowhere.imp (fun h => Bool.not_eq_false _ ▸ h) id

/-- A logger that is set up leaves the declared class. -/
theorem raised_kind
    (hsetUp : (configured calls).SetUp here)
    (exc : ExceptionClass) (message : String) :
    ((Raising.ofLogger (configured calls) now here).raised exc message).kind = exc := by
  rcases raised_cases calls now here exc message with ⟨-, h⟩ | ⟨hnot, -⟩
  · exact h
  · exact absurd hsetUp hnot

/-- **What `FCET` throws has the declared class** exactly if the logger is set up, unless the
class is one that `log` itself throws. -/
theorem raised_kind_iff
    (hexc : exc ≠ .logicError ∧ exc ≠ .outOfRange ∧ exc ≠ .undefined) :
    (Raising.ofLogger (configured calls) now here).DeclaresIf exc
      ((configured calls).SetUp here) := by
  obtain ⟨hlogic, hrange, hundefined⟩ := hexc
  intro message
  rcases raised_cases calls now here exc message with ⟨hsetUp, h⟩ | ⟨hnot, h⟩
  · exact iff_of_true h hsetUp
  · refine iff_of_false ?_ hnot
    rcases h with h | h | h <;> rw [h] <;> exact Ne.symm ‹_›

/-- With a new logger every `FCET` throws what `log` throws. -/
theorem raised_init
    (now : Now) (here : Site) (exc : ExceptionClass) (message : String) :
    (Raising.ofLogger (configured []) now here).raised exc message =
      ⟨.logicError, "Asked to log to stream, but stream is NULL"⟩ := by
  have hline := log_line now here (literal message) (l := configured []) (by decide)
    (Nat.zero_le _) rfl
  rw [if_pos ⟨rfl, rfl⟩] at hline
  rw [raised_eq, hline]

end Classes

end Logger
end Bren
end Brenlib
