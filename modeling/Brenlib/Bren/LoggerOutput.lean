import Brenlib.Bren.Logger

/-!
# What a `Logger` writes

`stream()` and `syslog()` give the logger a destination, and `log` writes to it.  `openlog`
does not copy the identification, it keeps the pointer to `ident_`, so a message to syslog
carries what `ident_` holds at that time.

* `Logging`: the logger together with the streams and the messages to syslog.
* `Journal`: what the logger is for: a destination, and the lines in the order in which they
  have been delivered, each with its destination.

**Results.**  Behind any calls, thrown exceptions included, every destination has received
the lines that the journal has for it, and each line that a call of `log` has returned is
there once (`lines_delivered`).
-/

namespace Brenlib
namespace Bren

open TransitionSystem Logger

/-- A message in the hands of syslog. -/
structure Message where
  ident : Bytes
  facility : Option Int
  priority : LogLevel
  text : Bytes
deriving DecidableEq, Repr

/-- The logger and what is outside of it: the facility of the connection to syslog, the
messages sent there, and the contents of the streams. -/
structure Logging where
  logger : Logger
  facility : Option Int
  messages : List Message
  written : Stream → Bytes

/-- What is to be logged, and where and when `log` is called. -/
structure Entry where
  now : Now
  here : Site
  priority_i : LogLevel
  msg_i : Bytes

namespace Logging

section Methods

/-- A fresh logger. -/
def init : Logging where
  logger := Logger.init
  facility := none
  messages := []
  written := fun _ => []

/-- A method of the logger on its members. -/
def onLogger {α : Type} (x : EStateM StdException Logger α) : EStateM StdException Logging α :=
  fun s =>
    match x.run s.logger with
    | .ok a l => .ok a { s with logger := l }
    | .error e l => .error e { s with logger := l }

/-- `stream(stream_i, strip_i)`, which closes the connection to syslog. -/
def stream (stream_i : Option Stream) (strip_i : Nat) : EStateM StdException Logging Unit := do
  let s ← get
  onLogger (Logger.stream stream_i strip_i)
  if s.logger.syslog_ then
    modify fun s => { s with facility := none }

/-- `syslog(ident_i, facility_i, strip_i)`, which opens a connection unless there is one. -/
def syslog (ident_i : Bytes) (facility_i : Int) (strip_i : Nat) :
    EStateM StdException Logging Bool := do
  let opened ← onLogger (Logger.syslog ident_i facility_i strip_i)
  if opened then
    modify fun s => { s with facility := some facility_i }
  return opened

/-- The output of a line: `::syslog` or `*stream_ << le << std::endl`. -/
def write (priority_i : LogLevel) (le : Bytes) (s : Logging) : Logging :=
  if s.logger.syslog_ then
    { s with messages := s.messages ++ [⟨s.logger.ident_, s.facility, priority_i, cStr le⟩] }
  else
    match s.logger.stream_ with
    | some f =>
        { s with written := Function.update s.written f (s.written f ++ (le ++ literal "\n")) }
    | none => s

/-- `log`, with the output of the line that it returns. -/
def log (e : Entry) : EStateM StdException Logging (Option Bytes) := do
  match ← onLogger (Logger.log e.now e.here.file.bytes e.here.line e.priority_i e.msg_i) with
  | none => return none
  | some le =>
      modify (write e.priority_i le)
      return some le

/-- A call on the logger. -/
inductive Call where
  | config (c : ConfigCall)
  | log (e : Entry)

/-- How a call ends. -/
inductive Answer where
  | done
  | opened (b : Bool)
  | line (le : Option Bytes)
  | throws (kind : ExceptionClass)
deriving DecidableEq, Repr

/-- The method of a call. -/
def Call.method : Call → EStateM StdException Logging Answer
  | .config (.stream stream_i strip_i) => do
      stream stream_i strip_i
      return .done
  | .config (.stderror strip_i) => do
      stream (some cerr) strip_i
      return .done
  | .config (.syslog ident_i facility_i strip_i) => do
      return .opened (← syslog ident_i facility_i strip_i)
  | .config (.maxlevel level_i) => do
      onLogger (setMaxlevel level_i)
      return .done
  | .log e => do
      return .line (← Logging.log e)

/-- A call as a step, with its answer. -/
def Calls (s : Logging) (l : Call × Answer) (t : Logging) : Prop :=
  match l.1.method.run s with
  | .ok answer s' => l.2 = answer ∧ t = s'
  | .error e s' => l.2 = .throws e.kind ∧ t = s'

end Methods

end Logging

/-- Where lines are delivered. -/
inductive Destination where
  | stream (f : Stream)
  | syslog (ident : Bytes) (facility : Int)
deriving DecidableEq, Repr

/-- A line that has been delivered. -/
structure Delivery where
  destination : Destination
  priority : LogLevel
  line : Bytes
deriving DecidableEq, Repr

/-- The message that a delivery is to syslog. -/
def Delivery.message (d : Delivery) : Option Message :=
  match d.destination with
  | .stream _ => none
  | .syslog ident facility => some ⟨ident, some facility, d.priority, cStr d.line⟩

/-- What a delivery writes to a stream. -/
def Delivery.writtenTo (f : Stream) (d : Delivery) : Bytes :=
  match d.destination with
  | .stream g => if g = f then d.line ++ literal "\n" else []
  | .syslog _ _ => []

/-- The settings and the deliveries so far. -/
structure Journal where
  destination : Option Destination
  strip : Nat
  maxlevel : LogLevel
  deliveries : List Delivery

/-- The name of a level in a line. -/
def LogLevel.name : LogLevel → Bytes
  | .none => []
  | .error => literal "ERROR"
  | .warning => literal "WARNING"
  | .notice => literal "NOTICE"
  | .info => literal "INFO"
  | .debug => literal "DEBUG"

namespace Entry

/-- What a line begins with: the time, the thread and the place. -/
def head (e : Entry) (strip : Nat) : Bytes :=
  e.now.time.bytes ++ literal "." ++ zeroPadded 6 e.now.usec ++ literal " [" ++
    e.now.thread.bytes ++ literal "] " ++ e.here.file.bytes.drop strip ++ literal ":" ++
    decimal e.here.line ++ literal " "

/-- The line for a destination. -/
def line (e : Entry) (strip : Nat) : Destination → Bytes
  | .stream _ => e.head strip ++ e.priority_i.name ++ literal " " ++ e.msg_i
  | .syslog _ _ => e.head strip ++ e.msg_i

end Entry

namespace Journal

open Logging (Call Answer)

def empty : Journal where
  destination := none
  strip := 0
  maxlevel := .debug
  deliveries := []

/-- Lines go to a stream from now on. -/
def toStream (j : Journal) (f : Stream) (strip_i : Nat) : Journal :=
  { j with destination := some (.stream f), strip := strip_i }

/-- The entry is to be logged, and the name of its file is long enough. -/
structure Takes (j : Journal) (e : Entry) : Prop where
  level : e.priority_i.value ≤ j.maxlevel.value
  strip : j.strip ≤ e.here.file.bytes.length

/-- What a call does to the journal. -/
inductive Step : Journal → Call × Answer → Journal → Prop
  | stream
      (j : Journal) (f : Stream) (strip_i : Nat) :
      Step j (.config (.stream (some f) strip_i), .done) (j.toStream f strip_i)
  | streamNull
      (j : Journal) (strip_i : Nat) :
      Step j (.config (.stream none strip_i), .throws .invalidArgument) j
  | stderror
      (j : Journal) (strip_i : Nat) :
      Step j (.config (.stderror strip_i), .done) (j.toStream cerr strip_i)
  | syslog
      (j : Journal) (ident_i : Bytes) (facility_i : Int) (strip_i : Nat)
      (h : ∀ ident facility, j.destination ≠ some (.syslog ident facility)) :
      Step j (.config (.syslog ident_i facility_i strip_i), .opened true)
        { j with destination := some (.syslog ident_i facility_i), strip := strip_i }
  | syslogAgain
      {j : Journal} {ident : Bytes} {facility : Int}
      (ident_i : Bytes) (facility_i : Int) (strip_i : Nat)
      (h : j.destination = some (.syslog ident facility)) :
      Step j (.config (.syslog ident_i facility_i strip_i), .opened false) j
  | maxlevel
      (j : Journal) (level_i : LogLevel) :
      Step j (.config (.maxlevel level_i), .done) { j with maxlevel := level_i }
  | delivered
      {j : Journal} {e : Entry} {d : Destination}
      (h : j.Takes e)
      (hd : j.destination = some d) :
      Step j (.log e, .line (some (e.line j.strip d)))
        { j with deliveries := j.deliveries ++ [⟨d, e.priority_i, e.line j.strip d⟩] }
  | filtered
      {j : Journal} {e : Entry}
      (h : j.maxlevel.value < e.priority_i.value) :
      Step j (.log e, .line none) j
  | stripped
      {j : Journal} {e : Entry}
      (hlevel : e.priority_i.value ≤ j.maxlevel.value)
      (hstrip : e.here.file.bytes.length < j.strip) :
      Step j (.log e, .throws .outOfRange) j
  | nowhere
      {j : Journal} {e : Entry}
      (h : j.Takes e)
      (hd : j.destination = none) :
      Step j (.log e, .throws .logicError) j

end Journal

namespace Logging

/-- How the members of the logger say where lines go. -/
def Points (s : Logging) : Option Destination → Prop
  | none => s.logger.syslog_ = false ∧ s.logger.stream_ = none ∧ s.facility = none
  | some (.stream f) => s.logger.syslog_ = false ∧ s.logger.stream_ = some f ∧ s.facility = none
  | some (.syslog ident facility) =>
      s.logger.syslog_ = true ∧ s.logger.ident_ = ident ∧ s.facility = some facility

/-- What holds between two calls: the destinations have received what the journal says. -/
structure Represents (s : Logging) (j : Journal) : Prop where
  points : s.Points j.destination
  strip : s.logger.strip_ = j.strip
  maxlevel : s.logger.maxlevel_ = j.maxlevel
  names : ∀ p : LogLevel, (s.logger.levels_.lookup p).getD [] = p.name
  messages : s.messages = j.deliveries.filterMap Delivery.message
  written : ∀ f, s.written f = j.deliveries.flatMap (Delivery.writtenTo f)

theorem represents_init :
    Represents init Journal.empty where
  points := ⟨rfl, rfl, rfl⟩
  strip := rfl
  maxlevel := rfl
  names p := by cases p <;> rfl
  messages := rfl
  written _ := rfl

section Line

variable {l : Logger} (e : Entry)

theorem log_filtered
    (hlevel : l.maxlevel_.value < e.priority_i.value) :
    (Logger.log e.now e.here.file.bytes e.here.line e.priority_i e.msg_i).run l = .ok none l := by
  unfold Logger.log
  rw [run_bind_ok (EStateM.run_get l), if_pos hlevel]
  rfl

theorem log_stripped
    (hlevel : ¬ l.maxlevel_.value < e.priority_i.value)
    (hstrip : e.here.file.bytes.length < l.strip_) :
    (Logger.log e.now e.here.file.bytes e.here.line e.priority_i e.msg_i).run l =
      .error ⟨.outOfRange, substrText l.strip_ e.here.file.bytes.length⟩ l := by
  unfold Logger.log
  rw [run_bind_ok (EStateM.run_get l), if_neg hlevel, substr, if_pos hstrip]
  rfl

theorem log_syslog
    (hlevel : ¬ l.maxlevel_.value < e.priority_i.value)
    (hstrip : ¬ e.here.file.bytes.length < l.strip_)
    (hsyslog : l.syslog_ = true) :
    (Logger.log e.now e.here.file.bytes e.here.line e.priority_i e.msg_i).run l =
      .ok (some (e.head l.strip_ ++ e.msg_i)) l := by
  unfold Logger.log
  rw [run_bind_ok (EStateM.run_get l), if_neg hlevel, substr, if_neg hstrip,
    run_bind_ok (run_ofExcept _ l)]
  simp [hsyslog, Entry.head]

/-- The look-up of a name leaves an empty one where there is none. -/
theorem levelName_eq
    (p : LogLevel) (l : Logger) :
    (levelName p).run l =
      .ok ((l.levels_.lookup p).getD []) { l with levels_ := insertNew l.levels_ p [] } := by
  unfold levelName
  rw [run_bind_ok (EStateM.run_modify _ l)]
  change EStateM.Result.ok (((insertNew l.levels_ p []).lookup p).getD []) _ = _
  rw [lookup_insertNew]
  cases l.levels_.lookup p <;> simp

theorem log_stream
    (hlevel : ¬ l.maxlevel_.value < e.priority_i.value)
    (hstrip : ¬ e.here.file.bytes.length < l.strip_)
    (hsyslog : l.syslog_ = false) :
    (Logger.log e.now e.here.file.bytes e.here.line e.priority_i e.msg_i).run l =
      if l.stream_ = none then
        .error ⟨.logicError, "Asked to log to stream, but stream is NULL"⟩
          { l with levels_ := insertNew l.levels_ e.priority_i [] }
      else
        .ok (some (e.head l.strip_ ++ (l.levels_.lookup e.priority_i).getD [] ++ literal " " ++
          e.msg_i)) { l with levels_ := insertNew l.levels_ e.priority_i [] } := by
  obtain ⟨ident, levels, maxlevel, stream, strip, syslog⟩ := l
  obtain rfl : syslog = false := hsyslog
  unfold Logger.log
  rw [run_bind_ok (EStateM.run_get _), if_neg hlevel, substr, if_neg hstrip,
    run_bind_ok (run_ofExcept _ _)]
  simp only [Bool.false_eq_true, if_false, true_and]
  rw [run_bind_ok (levelName_eq e.priority_i _)]
  split_ifs with hnowhere
  · rfl
  · simp [Entry.head]

end Line

section Refinement

variable {s t : Logging} {j : Journal}

theorem onLogger_ok
    {α : Type} {x : EStateM StdException Logger α} {a : α} {l : Logger}
    (h : x.run s.logger = .ok a l) :
    (onLogger x).run s = .ok a { s with logger := l } := by
  change onLogger x s = _
  rw [onLogger, h]

theorem onLogger_error
    {α : Type} {x : EStateM StdException Logger α} {e : StdException} {l : Logger}
    (h : x.run s.logger = .error e l) :
    (onLogger x).run s = .error e { s with logger := l } := by
  change onLogger x s = _
  rw [onLogger, h]

/-- What a call makes of the logger is what it makes of the journal. -/
def Refined (j : Journal) (call : Call) : EStateM.Result StdException Logging Answer → Prop
  | .ok answer t => ∃ k, Journal.Step j (call, answer) k ∧ Represents t k
  | .error e t => ∃ k, Journal.Step j (call, .throws e.kind) k ∧ Represents t k

/-- A stream is the destination from now on, whatever it was before. -/
theorem Represents.toStream
    (hrep : Represents s j) (f : Stream) (strip_i : Nat) :
    ∃ t, (stream (some f) strip_i).run s = .ok () t ∧ Represents t (j.toStream f strip_i) := by
  have hget : (get : EStateM StdException Logging Logging).run s = .ok s s := rfl
  have hstream : (Logger.stream (some f) strip_i).run s.logger = .ok ()
      { s.logger with syslog_ := false, strip_ := strip_i, stream_ := some f } := rfl
  unfold stream
  rw [run_bind_ok hget, run_bind_ok (onLogger_ok hstream)]
  cases hsyslog : s.logger.syslog_ with
  | true =>
      exact ⟨_, rfl, ⟨rfl, rfl, rfl⟩, rfl, hrep.maxlevel, hrep.names, hrep.messages, hrep.written⟩
  | false =>
      have hclosed : s.facility = none := by
        have hpoints := hrep.points
        cases hd : j.destination with
        | none =>
            rw [hd] at hpoints
            exact hpoints.2.2
        | some d =>
            rw [hd] at hpoints
            cases d with
            | stream => exact hpoints.2.2
            | syslog => exact absurd (hsyslog.symm.trans hpoints.1) (by decide)
      exact ⟨_, rfl, ⟨rfl, rfl, hclosed⟩, rfl, hrep.maxlevel, hrep.names, hrep.messages,
        hrep.written⟩

/-- A connection to syslog is opened unless there is one. -/
theorem syslog_refined
    (hrep : Represents s j) (ident_i : Bytes) (facility_i : Int) (strip_i : Nat) :
    Refined j (.config (.syslog ident_i facility_i strip_i))
      ((Call.config (.syslog ident_i facility_i strip_i)).method.run s) := by
  have hpoints := hrep.points
  by_cases hopen : ∃ ident facility, j.destination = some (.syslog ident facility)
  · obtain ⟨ident, facility, hd⟩ := hopen
    rw [hd] at hpoints
    have hagain : (Logger.syslog ident_i facility_i strip_i).run s.logger =
        .ok false s.logger := by
      change (if s.logger.syslog_ then _ else _ :
        EStateM StdException Logger Bool).run _ = _
      rw [if_pos hpoints.1]
      rfl
    change Refined j _ ((onLogger _ >>= _ >>= _).run s)
    rw [bind_assoc, run_bind_ok (onLogger_ok hagain)]
    exact ⟨j, .syslogAgain ident_i facility_i strip_i hd, hrep⟩
  · push Not at hopen
    have hclosed : ¬ s.logger.syslog_ = true := by
      cases hd : j.destination with
      | none =>
          rw [hd] at hpoints
          rw [hpoints.1]
          decide
      | some d =>
          rw [hd] at hpoints
          cases d with
          | stream f =>
              rw [hpoints.1]
              decide
          | syslog ident facility => exact absurd hd (hopen ident facility)
    have hopens : (Logger.syslog ident_i facility_i strip_i).run s.logger = .ok true
        { s.logger with ident_ := ident_i, strip_ := strip_i, stream_ := none, syslog_ := true } := by
      change (if s.logger.syslog_ then _ else _ :
        EStateM StdException Logger Bool).run _ = _
      rw [if_neg hclosed]
      rfl
    change Refined j _ ((onLogger _ >>= _ >>= _).run s)
    rw [bind_assoc, run_bind_ok (onLogger_ok hopens)]
    exact ⟨_, .syslog j ident_i facility_i strip_i hopen, ⟨rfl, rfl, rfl⟩, rfl, hrep.maxlevel,
      hrep.names, hrep.messages, hrep.written⟩

theorem config_refined
    (hrep : Represents s j) (c : ConfigCall) :
    Refined j (.config c) ((Call.config c).method.run s) := by
  cases c with
  | stream stream_i strip_i =>
      cases stream_i with
      | none =>
          exact ⟨j, .streamNull j strip_i, hrep⟩
      | some f =>
          obtain ⟨t, hrun, hafter⟩ := hrep.toStream f strip_i
          rw [Call.method, run_bind_ok hrun]
          exact ⟨_, .stream j f strip_i, hafter⟩
  | stderror strip_i =>
      obtain ⟨t, hrun, hafter⟩ := hrep.toStream cerr strip_i
      rw [Call.method, run_bind_ok hrun]
      exact ⟨_, .stderror j strip_i, hafter⟩
  | syslog ident_i facility_i strip_i => exact syslog_refined hrep ident_i facility_i strip_i
  | maxlevel level_i =>
      exact ⟨_, .maxlevel j level_i, hrep.points, hrep.strip, rfl, hrep.names, hrep.messages,
        hrep.written⟩

/-- The look-up of a name leaves all names as they are. -/
theorem Represents.names_insertNew
    (hrep : Represents s j) (p q : LogLevel) :
    ((insertNew s.logger.levels_ p []).lookup q).getD [] = q.name := by
  rw [lookup_insertNew, ← hrep.names q]
  split_ifs with h
  · rw [h.1, h.2]
    rfl
  · rfl

theorem Represents.deliver_stream
    {f : Stream} {p : LogLevel} {line : Bytes}
    (hrep : Represents s j)
    (hd : j.destination = some (.stream f)) :
    Represents
      (write p line { s with logger :=
        { s.logger with levels_ := insertNew s.logger.levels_ p [] } })
      { j with deliveries := j.deliveries ++ [⟨.stream f, p, line⟩] } := by
  have hpoints := hrep.points
  rw [hd] at hpoints
  obtain ⟨hsyslog, hstream, hclosed⟩ := hpoints
  have hwrite : write p line { s with logger :=
        { s.logger with levels_ := insertNew s.logger.levels_ p [] } } =
      { s with
        logger := { s.logger with levels_ := insertNew s.logger.levels_ p [] }
        written := Function.update s.written f (s.written f ++ (line ++ literal "\n")) } := by
    simp only [write, hsyslog, hstream, Bool.false_eq_true, if_false]
  rw [hwrite]
  refine ⟨?_, hrep.strip, hrep.maxlevel, hrep.names_insertNew p, ?_, fun g => ?_⟩
  · rw [hd]
    exact ⟨hsyslog, hstream, hclosed⟩
  · rw [List.filterMap_append, ← hrep.messages]
    exact (List.append_nil _).symm
  · rw [List.flatMap_append, ← hrep.written, List.flatMap_singleton]
    by_cases hg : f = g
    · subst hg
      simp only [Function.update_self, Delivery.writtenTo, if_true]
    · simp only [Function.update_of_ne (Ne.symm hg), Delivery.writtenTo, if_neg hg,
        List.append_nil]

theorem Represents.deliver_syslog
    {ident : Bytes} {facility : Int} {p : LogLevel} {line : Bytes}
    (hrep : Represents s j)
    (hd : j.destination = some (.syslog ident facility)) :
    Represents (write p line s)
      { j with deliveries := j.deliveries ++ [⟨.syslog ident facility, p, line⟩] } := by
  have hpoints := hrep.points
  rw [hd] at hpoints
  obtain ⟨hsyslog, hident, hopen⟩ := hpoints
  have hwrite : write p line s =
      { s with messages := s.messages ++ [⟨ident, some facility, p, cStr line⟩] } := by
    simp only [write, hsyslog, hident, hopen, if_true]
  rw [hwrite]
  refine ⟨?_, hrep.strip, hrep.maxlevel, hrep.names, ?_, fun g => ?_⟩
  · rw [hd]
    exact ⟨hsyslog, hident, hopen⟩
  · rw [List.filterMap_append, ← hrep.messages]
    rfl
  · rw [List.flatMap_append, ← hrep.written]
    exact (List.append_nil _).symm

/-- A line goes to the destination, or there is none. -/
theorem log_refined
    (hrep : Represents s j) (e : Entry) :
    Refined j (.log e) ((Call.log e).method.run s) := by
  have hlog : (Call.log e).method = log e >>= fun le => pure (.line le) := rfl
  rw [hlog, log, bind_assoc]
  by_cases hlevel : s.logger.maxlevel_.value < e.priority_i.value
  · rw [run_bind_ok (onLogger_ok (log_filtered e hlevel))]
    exact ⟨j, .filtered (hrep.maxlevel ▸ hlevel), hrep⟩
  · have htakes : e.priority_i.value ≤ j.maxlevel.value := by
      rw [← hrep.maxlevel]
      exact UInt8.not_lt.mp hlevel
    by_cases hstrip : e.here.file.bytes.length < s.logger.strip_
    · rw [run_bind_error (onLogger_error (log_stripped e hlevel hstrip))]
      exact ⟨j, .stripped htakes (hrep.strip ▸ hstrip), hrep⟩
    · have htakes : j.Takes e := ⟨htakes, by rw [← hrep.strip]; exact Nat.not_lt.mp hstrip⟩
      have hpoints := hrep.points
      cases hd : j.destination with
      | none =>
          rw [hd] at hpoints
          have hrun := log_stream e hlevel hstrip hpoints.1
          rw [if_pos hpoints.2.1] at hrun
          rw [run_bind_error (onLogger_error hrun)]
          refine ⟨j, .nowhere htakes hd, ?_, hrep.strip, hrep.maxlevel,
            hrep.names_insertNew e.priority_i, hrep.messages, hrep.written⟩
          rw [hd]
          exact hpoints
      | some d =>
          rw [hd] at hpoints
          cases d with
          | stream f =>
              have hrun := log_stream e hlevel hstrip hpoints.1
              have hline : e.head s.logger.strip_ ++ e.priority_i.name ++ literal " " ++ e.msg_i =
                  e.line j.strip (.stream f) := by
                rw [hrep.strip]
                rfl
              rw [if_neg (by rw [hpoints.2.1]; exact Option.some_ne_none f), hrep.names,
                hline] at hrun
              rw [run_bind_ok (onLogger_ok hrun)]
              exact ⟨_, .delivered htakes hd, hrep.deliver_stream hd⟩
          | syslog ident facility =>
              have hrun := log_syslog e hlevel hstrip hpoints.1
              have hline : e.head s.logger.strip_ ++ e.msg_i =
                  e.line j.strip (.syslog ident facility) := by
                rw [hrep.strip]
                rfl
              rw [hline] at hrun
              rw [run_bind_ok (onLogger_ok hrun)]
              exact ⟨_, .delivered htakes hd, hrep.deliver_syslog hd⟩

theorem calls_refined
    {l : Call × Answer}
    (hrep : Represents s j)
    (hstep : Calls s l t) :
    ∃ k, Journal.Step j l k ∧ Represents t k := by
  have hrefined : Refined j l.1 (l.1.method.run s) := by
    obtain ⟨call, answer⟩ := l
    cases call with
    | config c => exact config_refined hrep c
    | log e => exact log_refined hrep e
  obtain ⟨call, answer⟩ := l
  unfold Calls at hstep
  split at hstep
  · rename_i s' hrun
    obtain ⟨rfl, rfl⟩ := hstep
    rw [hrun] at hrefined
    exact hrefined
  · rename_i e s' hrun
    obtain ⟨rfl, rfl⟩ := hstep
    rw [hrun] at hrefined
    exact hrefined

end Refinement

section Theorem

/-- The line that a call has returned. -/
def returned (l : Call × Answer) : Option Bytes :=
  match l.2 with
  | .line le => le
  | _ => none

/-- The journal has a line for each one that has been returned, in the same order. -/
theorem lines_of_run
    {j : Journal} {labels : List (Call × Answer)}
    (hrun : Run Journal.Step Journal.empty labels j) :
    j.deliveries.map Delivery.line = labels.filterMap returned := by
  generalize hempty : Journal.empty = j₀ at hrun
  induction hrun with
  | nil =>
      rw [← hempty]
      rfl
  | snoc hrun hstep ih =>
      rw [List.filterMap_append, ← ih]
      cases hstep with
      | delivered h hd => rw [List.map_append]; rfl
      | _ => exact (List.append_nil _).symm

variable {s : Logging} {labels : List (Call × Answer)}

/-- **Lines are delivered.** -/
theorem lines_delivered
    (hrun : Run Calls init labels s) :
    ∃ j, Run Journal.Step Journal.empty labels j ∧ s.Points j.destination ∧
      j.deliveries.map Delivery.line = labels.filterMap returned ∧
      s.messages = j.deliveries.filterMap Delivery.message ∧
      ∀ f, s.written f = j.deliveries.flatMap (Delivery.writtenTo f) := by
  obtain ⟨j, hjournal, hrep⟩ := hrun.simulates Represents
    (fun hrep hstep => calls_refined hrep hstep) represents_init
  exact ⟨j, hjournal, hrep.points, lines_of_run hjournal, hrep.messages, hrep.written⟩

/-- A line at the level of errors. -/
def checkEntry : Entry where
  now := checkNow
  here := checkSite
  priority_i := .error
  msg_i := literal "no columns"

/-- One line goes to the standard error stream. -/
theorem lines_delivered_error :
    ∃ s, Run Calls init [(.config (.stderror 4), .done),
        (.log checkEntry, .line (some (checkEntry.line 4 (.stream cerr))))] s ∧
      s.written cerr = checkEntry.line 4 (.stream cerr) ++ literal "\n" := by
  obtain ⟨t, hstderror, hrep⟩ := represents_init.toStream cerr 4
  have hfirst : Calls init (.config (.stderror 4), .done) t := by
    rw [Calls, Call.method, run_bind_ok hstderror]
    exact ⟨rfl, rfl⟩
  have hsecond : ∃ s, Calls t
      (.log checkEntry, .line (some (checkEntry.line 4 (.stream cerr)))) s := by
    have hrefined := log_refined hrep checkEntry
    cases hrun : (Call.log checkEntry).method.run t with
    | ok answer s =>
        rw [hrun] at hrefined
        obtain ⟨k, hstep, -⟩ := hrefined
        cases hstep with
        | delivered h hd =>
            obtain rfl := Option.some.inj hd
            refine ⟨s, ?_⟩
            rw [Calls, hrun]
            exact ⟨rfl, rfl⟩
        | filtered h => exact absurd h (by decide)
        | stripped hlevel hstrip => exact absurd hstrip (by decide)
        | nowhere h hd => cases hd
    | error e s =>
        rw [hrun] at hrefined
        obtain ⟨k, hstep, -⟩ := hrefined
        generalize e.kind = kind at hstep
        cases hstep with
        | stripped hlevel hstrip => exact absurd hstrip (by decide)
        | nowhere h hd => cases hd
  obtain ⟨s, hsecond⟩ := hsecond
  have hrun := Run.cons hfirst (.single hsecond)
  obtain ⟨j, hjournal, -, -, -, hwritten⟩ := lines_delivered hrun
  obtain ⟨i, hbegin, hend⟩ := (show Run _ _ ([_] ++ [_]) _ from hjournal).last
  obtain ⟨k, hnil, hstart⟩ := (show Run _ _ ([] ++ [_]) _ from hbegin).last
  obtain rfl := hnil.eq_of_nil
  refine ⟨s, hrun, ?_⟩
  rw [hwritten]
  cases hstart
  generalize hanswer : checkEntry.line 4 (.stream cerr) = line at hend
  cases hend with
  | delivered h hd =>
      obtain rfl := Option.some.inj hd
      simp [Journal.toStream, Journal.empty, Delivery.writtenTo, hanswer]

end Theorem

end Logging

end Bren
end Brenlib
