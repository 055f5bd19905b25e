import LinuxTemplates.CStrings
import LinuxTemplates.DelimitedStreams
import LinuxTemplates.FifoChannels
import LinuxTemplates.PipeTransfer
import LinuxTemplates.TransitionSystems

/-!
# `popen.cpp`

The command that `popen` starts writes a file into a pipe of bounded capacity. The parent
takes one line out of it with `fgets`, prints it and calls `pclose`, which closes the pipe and
then waits for the command. A command that writes into a closed pipe dies of SIGPIPE.
-/

namespace LinuxTemplates.PopenProgram
open TransitionSystems FifoChannels CStrings DelimitedStreams
open PipeTransfer (newline)

def BUFFER_SIZE : ℕ := 50

/-- How much a stream reads at once. -/
def BUFSIZ : ℕ := 4096

/-- `fgets` has stored some bytes so far; `close` and `wait` make up `pclose`. -/
inductive MainPc
  | popen | fgets (got : List UInt8) | printf | close | wait | returned (ret : ℤ) | crashed
  deriving DecidableEq, Repr

/-- The command still has some bytes to write. -/
inductive ChildPc | absent | writing (rest : List UInt8) | zombie | reaped
  deriving DecidableEq, Repr

def ChildPc.writes : ChildPc → Bool
  | .writing _ => true
  | _ => false

/-- The file, the room in the pipe and what the array holds at first. -/
structure Env where
  passwd : List UInt8
  capacity : ℕ
  buffer : List UInt8
  capacity_pos : 0 < capacity
  length_buffer : buffer.length = BUFFER_SIZE

/-- `stream` has been read from the pipe and not yet been taken by `fgets`; `readEnd` is the
parent's end of the pipe and `killed` records that the command did not end of itself. -/
structure State where
  main : MainPc
  child : ChildPc
  pipe : Channel UInt8
  readEnd : Bool
  stream : List UInt8
  buffer : List UInt8
  out : List UInt8
  killed : Bool

/-- `fgets` has a whole line, or no room for another byte. -/
def Full (got : List UInt8) : Prop := got.length = BUFFER_SIZE - 1 ∨ got.getLast? = some newline

instance (got : List UInt8) : Decidable (Full got) := inferInstanceAs (Decidable (_ ∨ _))

/-- The array once `fgets` has returned; without a single byte it is left alone. -/
def stored (buffer got : List UInt8) : List UInt8 :=
  if got = [] then buffer else got ++ 0 :: buffer.drop (got.length + 1)

/-- One step of the parent but for the reads of its stream. -/
def main (env : Env) (s : State) : Option State :=
  match s.main with
  | .popen => some { s with main := .fgets [], child := .writing env.passwd, readEnd := true }
  | .fgets got =>
    if Full got then some { s with main := .printf, buffer := stored s.buffer got } else
    match s.stream with
    | c :: rest => some { s with main := .fgets (got ++ [c]), stream := rest }
    | [] =>
      if s.pipe.queue = [] ∧ s.child.writes = false then
        some { s with main := .printf, buffer := stored s.buffer got }
      else none
  | .printf => match cString s.buffer with
    | none => some { s with main := .crashed }
    | some str => some { s with main := .close, out := s.out ++ (str ++ [newline]) }
  | .close => some { s with main := .wait, readEnd := false }
  | .wait => match s.child with
    | .zombie => some { s with main := .returned 0, child := .reaped }
    | _ => none
  | .returned _ | .crashed => none

/-- `popen` fails, and `fgets` reads through NULL. -/
def popenFails (s : State) : Option State :=
  match s.main with
  | .popen => some { s with main := .crashed }
  | _ => none

/-- The stream of `fgets` is empty and a read returns `k` bytes. -/
def fetch (s : State) (k : ℕ) : Option State :=
  match s.main with
  | .fgets got =>
    if ¬ Full got ∧ s.stream = [] ∧ 0 < k ∧ k ≤ BUFSIZ ∧ k ≤ s.pipe.queue.length then
      some { s with stream := s.pipe.queue.take k, pipe := s.pipe.receive k }
    else none
  | _ => none

/-- The pipe takes up the next `k` bytes of the command. -/
def write (env : Env) (s : State) (k : ℕ) : Option State :=
  match s.child with
  | .writing rest =>
    if s.readEnd = true ∧ 0 < k ∧ k ≤ rest.length ∧ s.pipe.queue.length + k ≤ env.capacity then
      some { s with child := .writing (rest.drop k), pipe := s.pipe.send (rest.take k) }
    else none
  | _ => none

/-- The command has written everything, or it writes and nobody can read. -/
def child (s : State) : Option State :=
  match s.child with
  | .writing rest => if rest = [] ∨ s.readEnd = false then some { s with child := .zombie } else none
  | _ => none

/-- The command fails, or is killed, before its end. -/
def kill (s : State) : Option State :=
  match s.child with
  | .writing _ => some { s with child := .zombie, killed := true }
  | _ => none

inductive Action | main | popenFails | fetch (k : ℕ) | write (k : ℕ) | child | kill
  deriving DecidableEq, Repr

def step (env : Env) (s : State) : Action → Option State
  | .main => main env s
  | .popenFails => popenFails s
  | .fetch k => fetch s k
  | .write k => write env s k
  | .child => child s
  | .kill => kill s

def start (env : Env) : State :=
  ⟨.popen, .absent, .empty, false, [], env.buffer, [], false⟩

def program (env : Env) : System State Action where
  init s := s = start env
  step := step env

def MainPc.over : MainPc → Bool
  | .returned _ | .crashed => true
  | _ => false

/-- What `fgets` is after: the first line as far as it fits into the array. -/
def firstLine (bytes : List UInt8) : List UInt8 :=
  firstCut (fun b => decide (b = newline)) (BUFFER_SIZE - 1) bytes

end LinuxTemplates.PopenProgram
