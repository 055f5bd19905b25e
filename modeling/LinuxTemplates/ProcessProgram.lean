import LinuxTemplates.StdioStreams
import LinuxTemplates.TransitionSystems

/-!
# `process.cpp`: a child signals its parent, and the exit functions

The parent blocks SIGUSR1, forks and waits in `sigsuspend` for the signal that the child sends
when it has done its work. Both register exit functions, but the child leaves with `_exit`.
A signal from outside may kill the child at any time.
-/

namespace LinuxTemplates.ProcessProgram
open TransitionSystems StdioStreams

def EINTR : ℤ := 4

inductive Party | parent | child
  deriving DecidableEq, Repr

/-- `OnExitFunc` with its argument, `AtExitFunc1` and `AtExitFunc2`. -/
inductive ExitFunc | onExit (arg : ℤ) | atExit1 | atExit2
  deriving DecidableEq, Repr

/-- The calls of `RegisterExitFunc`, in order. -/
def registerExitFunc : List ExitFunc := [.onExit 10, .atExit1, .atExit2, .onExit 20]

/-- What the processes print. `now` is the text that `GetCurrentTime("%T")` returns. -/
inductive Line
  | forkErr | started (now : String) | about (now : String) | killErr | waiting (now : String)
  | suspendErr | got (now : String) | registerErr (f : ExitFunc)
  | called (f : ExitFunc) (status : ℤ)
  deriving DecidableEq, Repr

/-- What a run is given. -/
structure Env where
  parentPid : ℕ
  childPid : ℕ
  buffering : Buffering
  capacity : ℕ

def Env.stdout (env : Env) : Settings Char := ⟨env.buffering, env.capacity, (· = '\n')⟩

def ExitFunc.text (status : ℤ) : ExitFunc → String
  | .onExit arg => "on_exit function called: status=" ++ decimal status ++ ", arg=" ++
      decimal arg ++ "\n"
  | .atExit1 => "atexit function_1 called\n"
  | .atExit2 => "atexit function_2 called\n"

def ExitFunc.err : ExitFunc → String
  | .onExit _ => "on_exit() err\n"
  | .atExit1 | .atExit2 => "atexit() err\n"

/-- `[%s]:%ld` and the rest of a line. -/
def stamped (now : String) (pid : ℕ) (rest : String) : String :=
  "[" ++ now ++ "]:" ++ decimal pid ++ rest

def Env.text (env : Env) : Line → String
  | .forkErr => "fork() err\n"
  | .started now => stamped now env.childPid " Child started - doing something\n"
  | .about now => stamped now env.childPid " Child about to signal parent\n"
  | .killErr => "kill() err\n"
  | .waiting now => stamped now env.parentPid " Parent wait for a signal...\n"
  | .suspendErr => "sigsuspend() err\n"
  | .got now => stamped now env.parentPid " Parent get a signal...\n"
  | .registerErr f => f.err
  | .called f status => f.text status

/-- Program points of the parent. `handler` lies inside `sigsuspend`, `print` is followed by
`return ret`, `exit` runs the exit functions, and `killed` is the end by an unhandled SIGUSR1. -/
inductive ParentPc
  | block | install | fork | waiting | register (rest : List ExitFunc) | sigsuspend | suspended
  | handler | resumed (errno : ℤ) | got | unmask | print (line : Line) (ret : ℤ) | exit (ret : ℤ)
  | exited (ret : ℤ) | killed
  deriving DecidableEq, Repr

inductive ChildPc
  | absent | started | register (rest : List ExitFunc) | sleep | about | kill | killErr
  | exit (ret : ℤ) | ended (ret : ℤ) | killed
  deriving DecidableEq, Repr

def ParentPc.gone : ParentPc → Bool
  | .exited _ | .killed => true
  | _ => false

def ChildPc.alive : ChildPc → Bool
  | .absent | .ended _ | .killed => false
  | _ => true

/-- `pending` and `blocked` are about SIGUSR1 in the parent, `suspendMask` is what `sigsuspend`
puts back; `exitFuncs` has the function registered last in front. `sent` and `said` log the
child's signal and the lines printed. -/
structure State where
  parent : ParentPc
  child : ChildPc
  pending : Bool
  blocked : Bool
  installed : Bool
  originMask : Bool
  suspendMask : Bool
  exitFuncs : Party → List ExitFunc
  sent : Bool
  said : List (Party × Line)
  io : Stdio Party Char

def State.say (s : State) (env : Env) (p : Party) (line : Line) : State :=
  { s with said := s.said ++ [(p, line)]
           io := s.io.print env.stdout p (env.text line).toList }

def State.atexit (s : State) (p : Party) (f : ExitFunc) : State :=
  { s with exitFuncs := Function.update s.exitFuncs p (f :: s.exitFuncs p) }

/-- One step of the parent. -/
def parent (env : Env) (s : State) (now : String) : Option State :=
  match s.parent with
  | .block => some { s with parent := .install, originMask := s.blocked, blocked := true }
  | .install => some { s with parent := .fork, installed := true }
  | .fork => some { s with
      parent := .waiting, child := .started, io := s.io.fork .parent .child
      exitFuncs := Function.update s.exitFuncs .child (s.exitFuncs .parent) }
  | .waiting => some { s.say env .parent (.waiting now) with parent := .register registerExitFunc }
  | .register (f :: rest) => some { s.atexit .parent f with parent := .register rest }
  | .register [] => some { s with parent := .sigsuspend }
  | .sigsuspend => some { s with parent := .suspended, suspendMask := s.blocked, blocked := false }
  | .suspended => none
  -- the handler is empty: `sigsuspend` puts the mask back and fails
  | .handler => some { s with parent := .resumed EINTR, blocked := s.suspendMask }
  | .resumed errno => if errno ≠ EINTR then some { s with parent := .print .suspendErr (-1) }
    else some { s with parent := .got }
  | .got => some { s.say env .parent (.got now) with parent := .unmask }
  | .unmask => some { s with parent := .exit 0, blocked := s.originMask }
  | .print line ret => some { s.say env .parent line with parent := .exit ret }
  | .exit ret => match s.exitFuncs .parent with
    | f :: rest => some { s.say env .parent (.called f ret) with
        parent := .exit ret
        exitFuncs := Function.update s.exitFuncs .parent rest }
    | [] => some { s with parent := .exited ret, io := s.io.exit .parent }
  | .exited _ | .killed => none

/-- SIGUSR1 reaches the parent: outside of `sigsuspend` the handler changes nothing, and without
a handler the signal kills. -/
def deliver (s : State) : Option State :=
  if s.pending = true ∧ s.blocked = false ∧ s.parent.gone = false then
    if s.installed = false then
      some { s with pending := false, parent := .killed, io := s.io.abort .parent }
    else if s.parent = .suspended then
      some { s with pending := false, parent := .handler, blocked := true }
    else some { s with pending := false }
  else none

/-- One step of the child; a parent that is gone has left it to `init`, which it may not signal. -/
def child (env : Env) (s : State) (now : String) : Option State :=
  match s.child with
  | .started => some { s.say env .child (.started now) with child := .register registerExitFunc }
  | .register (f :: rest) => some { s.atexit .child f with child := .register rest }
  | .register [] => some { s with child := .sleep }
  | .sleep => some { s with child := .about }
  | .about => some { s.say env .child (.about now) with child := .kill }
  | .kill => if s.parent.gone then some { s with child := .killErr }
    else some { s with child := .exit 0, pending := true, sent := true }
  | .killErr => some { s.say env .child .killErr with child := .exit (-1) }
  | .exit ret => some { s with child := .ended ret, io := s.io.abort .child }
  | .absent | .ended _ | .killed => none

def forkFails (s : State) : Option State :=
  if s.parent = .fork then some { s with parent := .print .forkErr (-1) } else none

/-- `on_exit` or `atexit` fails, and `RegisterExitFunc` returns. -/
def registerFails (env : Env) (s : State) : Party → Option State
  | .parent => match s.parent with
    | .register (f :: _) => some { s.say env .parent (.registerErr f) with parent := .sigsuspend }
    | _ => none
  | .child => match s.child with
    | .register (f :: _) => some { s.say env .child (.registerErr f) with child := .sleep }
    | _ => none

def killChild (s : State) : Option State :=
  if s.child.alive then some { s with child := .killed, io := s.io.abort .child } else none

inductive Action
  | parent (now : String) | child (now : String) | deliver | forkFails | registerFails (p : Party)
  | killChild

def step (env : Env) (s : State) : Action → Option State
  | .parent now => parent env s now
  | .child now => child env s now
  | .deliver => deliver s
  | .forkFails => forkFails s
  | .registerFails p => registerFails env s p
  | .killChild => killChild s

/-- The inherited signal mask may or may not block SIGUSR1. -/
def start (blocked : Bool) : State :=
  ⟨.block, .absent, false, blocked, false, false, false, fun _ => [], false, [], .start⟩

def program (env : Env) : System State Action where
  init s := ∃ blocked, s = start blocked
  step := step env

end LinuxTemplates.ProcessProgram
