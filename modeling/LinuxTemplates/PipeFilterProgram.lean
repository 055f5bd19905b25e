import LinuxTemplates.DescriptorTables
import LinuxTemplates.FifoChannels
import LinuxTemplates.TransitionSystems

/-!
# `pipe_filter.cpp`: `ls` writes into a pipe that `wc -l` reads

The two descriptors of the pipe may be any two that were free, the standard ones among
them. Each of the three processes works on its own descriptor table. `ls` writes some
output to descriptor 1 in pieces of any size, `wc` reads descriptor 0 until end of file.
-/

namespace LinuxTemplates.PipeFilter
open TransitionSystems FifoChannels DescriptorTables

universe u

def STDIN_FILENO : ℕ := 0
def STDOUT_FILENO : ℕ := 1

/-- An end of the pipe, or a file that was open before. -/
inductive File (F : Type u)
  | readEnd | writeEnd | other (f : F)
  deriving DecidableEq

/-- The descriptors at the start, those that `pipe` returns, and the output of `ls`. -/
structure Setup (F : Type u) where
  table : Table (File F)
  fd0 : ℕ
  fd1 : ℕ
  output : List UInt8
  cap : ℕ
  noReadEnd : ¬ table.Holds .readEnd
  noWriteEnd : ¬ table.Holds .writeEnd
  free0 : fd0 ∉ table
  free1 : fd1 ∉ table
  ne : fd0 ≠ fd1
  cap_pos : 0 < cap

/-! ## Redirection -/

/-- The calls that a child makes before its `exec`. -/
inductive Stage
  | closeOther | dup2 | closeOwn | exec
  deriving DecidableEq, Repr

/-- Closes the end `other`, and moves the end `own` to the standard descriptor `std` if it
is not there already; `none` when the call fails. -/
def redirect {File : Type u} (own other std : ℕ) (t : Table File) :
    Stage → Option (Stage × Table File)
  | .closeOther => (t.close other).map (fun t => (if own ≠ std then .dup2 else .exec, t))
  | .dup2 => (t.dup2 own std).map (fun t => (.closeOwn, t))
  | .closeOwn => (t.close own).map (fun t => (.exec, t))
  | .exec => none

/-! ## Processes -/

inductive ParentPc
  | pipe | fork1 | fork2 | close0 | close1 | wait1 | wait2 | exited (ret : ℤ)
  deriving DecidableEq, Repr

inductive Child1Pc
  | absent | setup (stage : Stage) | ls (rest : List UInt8) | exited (ret : ℤ) | sigpipe
  deriving DecidableEq, Repr

inductive Child2Pc
  | absent | setup (stage : Stage) | wc | exited (ret : ℤ)
  deriving DecidableEq, Repr

def Child1Pc.terminated : Child1Pc → Bool
  | .exited _ | .sigpipe => true
  | _ => false

def Child2Pc.terminated : Child2Pc → Bool
  | .exited _ => true
  | _ => false

/-- The tables of the parent and of its children; `input` is what `wc` has read. -/
structure State (F : Type u) where
  table : Table (File F)
  table1 : Table (File F)
  table2 : Table (File F)
  parent : ParentPc
  child1 : Child1Pc
  child2 : Child2Pc
  reaped : ℕ
  pipe : Channel UInt8
  input : List UInt8

variable {F : Type u} [DecidableEq F]

namespace State

/-- Some process has a descriptor on the file. -/
def Holds (s : State F) (file : File F) : Prop :=
  s.table.Holds file ∨ s.table1.Holds file ∨ s.table2.Holds file

instance (s : State F) (file : File F) : Decidable (s.Holds file) :=
  inferInstanceAs (Decidable (_ ∨ _ ∨ _))

def forked (s : State F) : ℕ :=
  (if s.child1 = .absent then 0 else 1) + (if s.child2 = .absent then 0 else 1)

def terminated (s : State F) : ℕ := s.child1.terminated.toNat + s.child2.terminated.toNat

/-- The kernel closes what a process had open. -/
def exitParent (s : State F) (ret : ℤ) : State F := { s with table := ∅, parent := .exited ret }
def exitChild1 (s : State F) (ret : ℤ) : State F := { s with table1 := ∅, child1 := .exited ret }
def exitChild2 (s : State F) (ret : ℤ) : State F := { s with table2 := ∅, child2 := .exited ret }

/-- `wait(NULL)` takes up one child that has terminated, and fails without children. -/
def wait (s : State F) (next : State F → State F) : Option (State F) :=
  if s.reaped < s.terminated then some (next { s with reaped := s.reaped + 1 })
  else if s.reaped = s.forked then some (s.exitParent (-1))
  else none

end State

def parent (σ : Setup F) (s : State F) : Option (State F) :=
  match s.parent with
  | .pipe => some { s with
      table := (s.table.insert σ.fd0 .readEnd).insert σ.fd1 .writeEnd, parent := .fork1 }
  | .fork1 => some { s with
      table1 := s.table, child1 := .setup .closeOther, parent := .fork2 }
  | .fork2 => some { s with
      table2 := s.table, child2 := .setup .closeOther, parent := .close0 }
  | .close0 => match s.table.close σ.fd0 with
    | none => some (s.exitParent (-1))
    | some t => some { s with table := t, parent := .close1 }
  | .close1 => match s.table.close σ.fd1 with
    | none => some (s.exitParent (-1))
    | some t => some { s with table := t, parent := .wait1 }
  | .wait1 => s.wait (fun s => { s with parent := .wait2 })
  | .wait2 => s.wait (fun s => s.exitParent 0)
  | .exited _ => none

/-- A step of the first child other than a write into the pipe. -/
def child1 (σ : Setup F) (s : State F) : Option (State F) :=
  match s.child1 with
  | .absent | .exited _ | .sigpipe => none
  | .setup .exec => some { s with child1 := .ls σ.output }
  | .setup stage => match redirect σ.fd1 σ.fd0 STDOUT_FILENO s.table1 stage with
    | none => some (s.exitChild1 (-1))
    | some (next, t) => some { s with table1 := t, child1 := .setup next }
  | .ls [] => some (s.exitChild1 0)
  | .ls (_ :: _) => match s.table1.lookup STDOUT_FILENO with
    | none => some (s.exitChild1 2)
    | some .writeEnd =>
      if s.Holds .readEnd then none else some { s with table1 := ∅, child1 := .sigpipe }
    | some _ => some { s with child1 := .ls [] }

/-- The pipe takes up the next `k` bytes of `ls`. -/
def write (σ : Setup F) (s : State F) (k : ℕ) : Option (State F) :=
  match s.child1 with
  | .ls rest =>
    if s.table1.lookup STDOUT_FILENO = some .writeEnd ∧ s.Holds .readEnd ∧ 0 < k ∧
        k ≤ rest.length ∧ s.pipe.queue.length + k ≤ σ.cap then
      some { s with child1 := .ls (rest.drop k), pipe := s.pipe.send (rest.take k) }
    else none
  | _ => none

/-- A step of the second child other than a read that returns data. -/
def child2 (σ : Setup F) (s : State F) : Option (State F) :=
  match s.child2 with
  | .absent | .exited _ => none
  | .setup .exec => some { s with child2 := .wc }
  | .setup stage => match redirect σ.fd0 σ.fd1 STDIN_FILENO s.table2 stage with
    | none => some (s.exitChild2 (-1))
    | some (next, t) => some { s with table2 := t, child2 := .setup next }
  | .wc =>
    if s.table2.lookup STDIN_FILENO = some .readEnd then
      if s.pipe.queue = [] ∧ ¬ s.Holds .writeEnd then some (s.exitChild2 0) else none
    else some (s.exitChild2 1)

/-- A read of `wc` returns `k` bytes. -/
def read (s : State F) (k : ℕ) : Option (State F) :=
  match s.child2 with
  | .wc =>
    if s.table2.lookup STDIN_FILENO = some .readEnd ∧ 0 < k ∧ k ≤ s.pipe.queue.length then
      some { s with pipe := s.pipe.receive k, input := s.input ++ s.pipe.queue.take k }
    else none
  | _ => none

inductive Action | parent | child1 | write (k : ℕ) | child2 | read (k : ℕ)
  deriving DecidableEq, Repr

def step (σ : Setup F) (s : State F) : Action → Option (State F)
  | .parent => parent σ s
  | .child1 => child1 σ s
  | .write k => write σ s k
  | .child2 => child2 σ s
  | .read k => read s k

def start (σ : Setup F) : State F := ⟨σ.table, ∅, ∅, .pipe, .absent, .absent, 0, .empty, []⟩

def program (σ : Setup F) : System (State F) Action where
  init s := s = start σ
  step := step σ

end LinuxTemplates.PipeFilter
