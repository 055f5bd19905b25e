import LinuxTemplates.DecimalStrings
import LinuxTemplates.PipeTransfer
import LinuxTemplates.StdioStreams
import LinuxTemplates.TaskLedgers
import LinuxTemplates.TransitionSystems

/-!
# `wait.cpp`: the parent counts its dead children

`main` forks one child per argument, each of which sleeps for that many seconds, and waits
for one after the other until there are none left. A signal may kill a child before it has
said anything.
-/

namespace LinuxTemplates.WaitProgram
open TransitionSystems TaskLedgers
open DecimalStrings (atoi)
open PipeTransfer (help)
open StdioStreams (decimal)

def ECHILD : ℤ := 10

inductive ChildState | absent | started | sleeping | zombie | reaped
  deriving DecidableEq, Repr

def ChildState.alive : ChildState → Bool
  | .started | .sleeping => true
  | _ => false

/-- What the processes print. `now` is the text that `GetCurrentTime("%T")` returns. -/
inductive Line (N : ℕ)
  | usage | forkErr | ready (now : String) (i : Fin N)
  | dead (now : String) (i : Fin N) (numDead : ℕ) | noMore | waitErr
  deriving DecidableEq, Repr

/-- What a run is given; `args` are the arguments behind the program name. -/
structure Env where
  argv0 : String
  args : List (List UInt8)
  pid : Fin args.length → ℕ

def Env.text (env : Env) : Line env.args.length → String
  | .usage => "Usgae: " ++ env.argv0 ++ " sleep-time ...\n"
  | .forkErr => "fork() err\n"
  | .ready now i => "[" ++ now ++ "]:" ++ decimal (env.pid i) ++ " Child ready to sleep " ++
      decimal (atoi (env.args.get i)).toInt ++ "s\n"
  | .dead now i numDead => "[" ++ now ++ "]: Child process_" ++ decimal (env.pid i) ++
      " dead(num_dead=" ++ decimal numDead ++ ")\n"
  | .noMore => "No more children...\n"
  | .waitErr => "wait() err\n"

/-- Program points of `main`; `print` is followed by `return ret`. -/
inductive MainPc (N : ℕ)
  | usage | fork (idx : ℕ) | wait | failed (errno : ℤ) | count (i : Fin N)
  | print (line : Line N) (ret : ℤ) | exited (ret : ℤ)
  deriving DecidableEq, Repr

/-- `argc - 1 = N` children; `reaps` logs those that `wait` has returned. -/
structure State (N : ℕ) where
  main : MainPc N
  children : Fin N → ChildState
  numDead : ℕ
  out : List (Line N)
  reaps : List (Fin N)

variable {N : ℕ}

def State.setChild (s : State N) (i : Fin N) (c : ChildState) : State N :=
  { s with children := Function.update s.children i c }

def State.say (s : State N) (line : Line N) : State N := { s with out := s.out ++ [line] }

/-- One step of `main` other than a `wait` that returns a child. -/
def main (env : Env) (s : State env.args.length) (now : String) : Option (State env.args.length) :=
  match s.main with
  | .usage => some { (if env.args = [] ∨ env.args.head? = some help then s.say .usage else s) with
      main := .fork 0 }
  | .fork idx => if h : idx < env.args.length then
      some { s.setChild ⟨idx, h⟩ .started with main := .fork (idx + 1) }
    else some { s with main := .wait, numDead := 0 }
  -- it blocks while there are children and none has died
  | .wait => if ∃ i, (s.children i).alive = true ∨ s.children i = .zombie then none
    else some { s with main := .failed ECHILD }
  | .failed errno => if errno = ECHILD then some { s with main := .print .noMore 0 }
    else some { s with main := .print .waitErr (-1) }
  | .count i => some { s.say (.dead now i (s.numDead + 1)) with
      main := .wait, numDead := s.numDead + 1 }
  | .print line ret => some { s.say line with main := .exited ret }
  | .exited _ => none

/-- `wait(NULL)` returns the zombie `i`. -/
def reap (s : State N) (i : Fin N) : Option (State N) :=
  if s.main = .wait ∧ s.children i = .zombie then
    some { s.setChild i .reaped with main := .count i, reaps := s.reaps ++ [i] }
  else none

def forkFails (s : State N) : Option (State N) :=
  match s.main with
  | .fork idx => if idx < N then some { s with main := .print .forkErr (-1) } else none
  | _ => none

/-- One step of child `i`. -/
def child (s : State N) (i : Fin N) (now : String) : Option (State N) :=
  match s.children i with
  | .started => some ((s.say (.ready now i)).setChild i .sleeping)
  | .sleeping => some (s.setChild i .zombie)
  | _ => none

/-- A signal kills child `i`. -/
def kill (s : State N) (i : Fin N) : Option (State N) :=
  if (s.children i).alive then some (s.setChild i .zombie) else none

inductive Action (N : ℕ)
  | main (now : String) | reap (i : Fin N) | forkFails | child (i : Fin N) (now : String)
  | kill (i : Fin N)

def step (env : Env) (s : State env.args.length) :
    Action env.args.length → Option (State env.args.length)
  | .main now => main env s now
  | .reap i => reap s i
  | .forkFails => forkFails s
  | .child i now => child s i now
  | .kill i => kill s i

def start (N : ℕ) : State N := ⟨.usage, fun _ => .absent, 0, [], []⟩

def program (env : Env) : System (State env.args.length) (Action env.args.length) where
  init s := s = start env.args.length
  step := step env

/-- What the terminal shows; `setbuf(stdout, NULL)` has turned the buffers off. -/
def State.terminal {env : Env} (s : State env.args.length) : String :=
  String.join (s.out.map env.text)

end LinuxTemplates.WaitProgram
