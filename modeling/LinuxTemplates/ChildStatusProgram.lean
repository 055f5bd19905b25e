import LinuxTemplates.DecimalStrings
import LinuxTemplates.PipeTransfer
import LinuxTemplates.PrintWaitStatus
import LinuxTemplates.StdioStreams

/-!
# `child_status.cpp`: the parent reports what happens to its child

The child exits with the number that it is given, or pauses for ever. Signals may stop it,
continue it and kill it at any time, and the parent waits until it is no more.
-/

namespace LinuxTemplates.ChildStatus
open TransitionSystems StdioStreams WaitStatuses WaitStatusPrinter
open DecimalStrings (atoi)
open PipeTransfer (help)

inductive Party | parent | child
  deriving DecidableEq, Repr

/-- What a run is given; `args` are the arguments behind the program name. -/
structure Env where
  argv0 : String
  args : List (List UInt8)
  strsignal : Int32 → String
  parentPid : ℕ
  childPid : ℕ
  buffering : Buffering
  capacity : ℕ

def Env.stdout (env : Env) : Settings Char := ⟨env.buffering, env.capacity, (· = '\n')⟩

def Env.usage (env : Env) : String := "Usgae: " ++ env.argv0 ++ " [exit-status]\n"

def Env.started (env : Env) : String := "Child_" ++ decimal env.childPid ++ " started...\n"

def Env.pid (env : Env) : String := "Parent pid = " ++ decimal env.parentPid ++ "\n"

/-- The line about the result of `waitpid`. -/
def Env.header (env : Env) (status : Int32) : String :=
  "waitpid() return: PID=" ++ decimal env.childPid ++ ", status=0x" ++ hexadecimal4 (word status) ++
    "(" ++ decimal (status >>> 8).toInt ++ "," ++ decimal (status &&& 0xFF).toInt ++ ")\n"

inductive ParentPc
  | usage | fork | printErr (line : String) | printPid | waitpid | printHeader (status : Int32)
  | printStatus (status : Int32) | test (status : Int32) | leave (ret : ℤ) | exited (ret : ℤ)

inductive ChildPc | absent | print | exit | pause | ended | reaped
  deriving DecidableEq, Repr

/-- The child has been forked and is no zombie yet. -/
def ChildPc.alive : ChildPc → Bool
  | .print | .exit | .pause => true
  | _ => false

structure State where
  parent : ParentPc
  child : ChildPc
  childStopped : Bool
  reports : Reports ChildEvent
  io : Stdio Party Char

def State.say (s : State) (env : Env) (p : Party) (text : String) : State :=
  { s with io := s.io.print env.stdout p text.toList }

def State.happen (s : State) (e : ChildEvent) : State := { s with reports := s.reports.happen e }

/-- `waitpid(-1, &status, WUNTRACED | WCONTINUED)`; `none` while it blocks. -/
def waitpid (s : State) : Option State :=
  if s.child = .absent ∨ s.child = .reaped then
    some { s with parent := .printErr "waitpid() err\n" }
  else s.reports.take.map (fun (e, reports) => { s with
    reports := reports
    child := if e.ends then .reaped else s.child
    parent := .printHeader (waitStatus e) })

/-- One step of the parent. -/
def parent (env : Env) (s : State) : Option State :=
  match s.parent with
  | .usage => some
      { (if env.args.head? = some help then s.say env .parent env.usage else s) with parent := .fork }
  | .fork => some { s with parent := .printPid, child := .print, io := s.io.fork .parent .child }
  | .printErr line => some { s.say env .parent line with parent := .leave (-1) }
  | .printPid => some { s.say env .parent env.pid with parent := .waitpid }
  | .waitpid => waitpid s
  | .printHeader status =>
    some { s.say env .parent (env.header status) with parent := .printStatus status }
  | .printStatus status => some
      { s.say env .parent (printWaitStatus env.strsignal none status) with parent := .test status }
  | .test status =>
    some { s with parent := if wIfExited status || wIfSignaled status then .leave 0 else .waitpid }
  | .leave ret => some { s with parent := .exited ret, io := s.io.exit .parent }
  | .exited _ => none

def forkFails (s : State) : Option State :=
  match s.parent with
  | .fork => some { s with parent := .printErr "fork() err\n" }
  | _ => none

/-- One step of the child; the status of `exit` is cut to a byte. -/
def child (env : Env) (s : State) : Option State :=
  if s.childStopped then none
  else match s.child with
    | .print => some
        { s.say env .child env.started with child := if env.args = [] then .pause else .exit }
    | .exit => env.args.head?.map (fun arg => { s.happen (.exited (atoi arg).toInt8.toUInt8) with
        child := .ended
        io := s.io.exit .child })
    | _ => none

def stop (s : State) (sig : Signal) : Option State :=
  if s.child.alive = true ∧ s.childStopped = false then
    some { s.happen (.stopped sig) with childStopped := true }
  else none

def cont (s : State) : Option State :=
  if s.child.alive = true ∧ s.childStopped = true then
    some { s.happen .continued with childStopped := false }
  else none

/-- A child that is killed does not write out its buffer. -/
def kill (s : State) (sig : Signal) (coreDump : Bool) : Option State :=
  if s.child.alive = true then
    some { s.happen (.killed sig coreDump) with child := .ended, io := s.io.abort .child }
  else none

inductive Action
  | parent | forkFails | child | stop (sig : Signal) | cont | kill (sig : Signal) (coreDump : Bool)
  deriving DecidableEq, Repr

def step (env : Env) (s : State) : Action → Option State
  | .parent => parent env s
  | .forkFails => forkFails s
  | .child => child env s
  | .stop sig => stop s sig
  | .cont => cont s
  | .kill sig coreDump => kill s sig coreDump

def start : State := ⟨.usage, .absent, false, .none, .start⟩

def program (env : Env) : System State Action where
  init s := s = start
  step := step env

end LinuxTemplates.ChildStatus
