import Brenlib.Bren.Logger

/-!
# `Child`: run a command with an environment, and capture its output

The model follows `src/Child.cpp`, as seen from the parent.

* What the system answers is an input: the file status in `command`, the content of
  `/etc/profile.env` in `readEnv_`, and the answers to `pipe`, `fork`, `read` and `waitpid`
  in `run`.
* The loop over the lines of the profile is a recursion over the lines, and the loop that
  captures the output is a recursion over the results of `read`.
-/

namespace Brenlib
namespace Bren

section Strings

/-- A difference of two `size_t`, which wraps around. -/
def sizeSub (a b : Nat) : Nat :=
  if b ≤ a then a - b else 2 ^ 64 - (b - a)

/-- The lines that `std::getline` reads from a text, one after the other. -/
def getlines : Bytes → List Bytes
  | [] => []
  | c :: rest =>
      if c = Byte.lf then
        [] :: getlines rest
      else
        match getlines rest with
        | [] => [[c]]
        | line :: lines => (c :: line) :: lines

/-- `std::vector<char>::resize`. -/
def resize (data : Bytes) (count : Nat) : Bytes :=
  data.take count ++ List.replicate (count - data.length) 0x00

/-- Bytes are stored from a position on. -/
def storeAt (data : Bytes) (pos : Nat) (bytes : Bytes) : Bytes :=
  data.take pos ++ bytes ++ data.drop (pos + bytes.length)

end Strings

/-- `'#'`, which starts a comment line. -/
def Byte.hash : Byte := 0x23

/-- The number of bytes that one `read` asks for. -/
def BATCH : Nat := 64

/-- What `fs::status` says about a path, or the text of the exception that it throws where
it cannot tell. -/
inductive FileStatus where
  | notFound
  | regular
  | other
  | failed (what : String)
deriving DecidableEq, Repr

/-- `fs::status`. -/
def FileStatus.check (stat : FileStatus) : Except StdException FileStatus :=
  match stat with
  | .failed what => .error ⟨.filesystemError, what⟩
  | _ => .ok stat

/-- What one `read` gives: an error, or at most as many bytes as it asks for. -/
inductive ReadResult where
  | failed
  | bytes (data : Bytes) (length_le : data.length ≤ BATCH)

/-- The exit status that `waitpid` stores. -/
inductive WaitStatus where
  | exited (code : UInt8)
  | terminated
deriving DecidableEq, Repr

/-- What the system answers to the calls of `run` in the parent.  `pipe` has the text of
`strerror` if it fails.  Behind the results of `read` the pipe is at its end. -/
structure Answers where
  pipe : Option String
  fork : Int
  reads : List ReadResult
  waitpid : Int
  status : WaitStatus

structure Child where
  args_ : List Bytes := []
  capStderr_ : Bool := false
  capStdout_ : Bool := false
  cmd_ : Bytes := []
  env_ : UnorderedMap Bytes Bytes := ∅
  triedEnv_ : Bool := false
  output : Bytes := []

namespace Child

/-- `std::string::substr`, with a number of bytes. -/
def substr (s : Bytes) (pos n : Nat) : Except StdException Bytes := do
  let rest ← Bren.substr s pos
  return rest.take n

/-- A method of `Child`. -/
abbrev Method (α : Type) :=
  EStateM StdException Child α

/-- Add an environment variable; true if an existing one was overwritten. -/
def addEnv (name value : Bytes) : Method Bool := do
  let ret := decide (name ∈ (← get).env_)
  modify fun child => { child with env_ := child.env_.insert name value }
  return ret

def capture (capout caperr : Bool) : Method Unit :=
  modify fun child => { child with capStderr_ := caperr, capStdout_ := capout }

def command
    (executable : Bytes) (arguments : List Bytes) (stat : FileStatus) : Method Unit := do
  fcet (executable ≠ []) .invalidArgument "Executable path can't be empty"
  let stat ← ofExcept stat.check
  fcet (stat ≠ .notFound) .invalidArgument
    s!"Executable {executable.text} does not exist"
  fcet (stat = .regular) .invalidArgument
    s!"Executable {executable.text} is not (a symbolic link to) a regular file"
  modify fun child => { child with cmd_ := executable, args_ := arguments }

/-- The rest of an iteration in `readEnv_`, when the equal sign has been found. -/
def readVariable (line : Bytes) (pos : Nat) : Method Unit := do
  let envvar ← ofExcept (substr line 7 (sizeSub pos 7))
  let val ← ofExcept (substr line (pos + 2) (sizeSub (sizeSub line.length pos) 3))
  modify fun child =>
    if envvar ∈ child.env_ then child
    else { child with env_ := child.env_.insert envvar val }

/-- One iteration of the loop in `readEnv_`. -/
def readLine (line : Bytes) : Method Unit := do
  if line = [] then
    pure ()
  else if line.head? = some Byte.hash then
    pure () -- Comment
  else if line.length < 10 then
    pure () -- Can't contain useful export command
  else if (← ofExcept (substr line 0 7)) ≠ literal "export " then
    pure () -- Not an export command, skip
  else
    match find line Byte.equalSign 7 with
    | none => pure () -- No equal sign found
    | some pos => readVariable line pos

/-- The loop in `readEnv_`. -/
def readLines : List Bytes → Method Unit
  | [] => pure ()
  | line :: lines => do
      readLine line
      readLines lines

/-- Read the environment from `/etc/profile.env`; `none` stands for a file that cannot be
opened. -/
def readEnv_ (profenv : Option Bytes) : Method Unit := do
  if (← get).triedEnv_ then
    pure ()
  else
    modify fun child => { child with triedEnv_ := true }
    match profenv with
    | none => pure ()
    | some content => readLines (getlines content)

/-- The loop that captures the output: `data` and `pos` behind it. -/
def captureLoop : List ReadResult → Bytes → Nat → Bytes × Nat
  | [], data, pos => (resize data (pos + BATCH), pos)
  | .failed :: _, data, pos => (resize data (pos + BATCH), pos)
  | .bytes chunk _ :: reads, data, pos =>
      let read := storeAt (resize data (pos + BATCH)) pos chunk
      if 0 < chunk.length then
        captureLoop reads read (pos + chunk.length)
      else
        (read, pos)

/-- What becomes the output. -/
def captured (reads : List ReadResult) : Bytes :=
  let (data, pos) := captureLoop reads [] 0
  cString (storeAt (resize data (pos + 1)) pos [0x00])

/-- The end of `run`: wait for the child. -/
def waitForChild (answers : Answers) : Method UInt8 := do
  fcet (answers.waitpid = answers.fork) .runtimeError
    "Waiting for child did not return child PID?"
  match answers.status with
  | .exited code => return code
  | .terminated => throw ⟨.runtimeError, "Child got terminated somehow?"⟩

/-- `run`, as the parent executes it. -/
def run (profenv : Option Bytes) (answers : Answers) : Method UInt8 := do
  fcet ((← get).cmd_ ≠ []) .logicError "No executable command set yet"
  readEnv_ profenv
  let child ← get
  if child.capStdout_ || child.capStderr_ then
    fcet (answers.pipe = none) .runtimeError
      ("Failed to create pipe: " ++ answers.pipe.getD "")
    -- in the parent
    modify fun child => { child with output := [] }
    modify fun child => { child with output := captured answers.reads }
    waitForChild answers
  else
    waitForChild answers

end Child

end Bren
end Brenlib
