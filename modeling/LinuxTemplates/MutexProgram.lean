import LinuxTemplates.TransitionSystems
import LinuxTemplates.MutexOwnership
import Mathlib.Algebra.Ring.Int.Defs
import Mathlib.Logic.Function.Basic

/-!
# The two incrementing threads of `mutex.cpp`

`main` initialises an error-checking mutex, starts two threads that each run
`ThreadWrite`, joins both and prints `num`. The read and the write of `num++` are
separate steps. Signed overflow is undefined in the source language; here it sends
the thread to a stuck program point of its own.
-/

namespace LinuxTemplates.MutexIncrements
open TransitionSystems MutexOwnership

inductive Tid | t1 | t2
  deriving DecidableEq, Repr

/-- Program points of `ThreadWrite`; `absent` before `pthread_create`. -/
inductive WritePc
  | absent | start | test | lock | lockErr | load | store | unlock | unlockErr | incr
  | overflow | returned
  deriving DecidableEq, Repr

/-- The locals of `ThreadWrite`; `tmp` is the value that `num++` has read. -/
structure Frame where
  pc : WritePc
  loop : ℤ
  i : ℤ
  tmp : ℤ
  deriving DecidableEq, Repr

/-- Program points of `main`; `returned` carries the exit value. -/
inductive MainPc
  | attrInit | attrSettype | mutexInit | readLoop | create1 | create2 | join1 | join2
  | attrDestroy | mutexDestroy | destroyErr | print | returned (ret : ℤ)
  deriving DecidableEq, Repr

/-- `increments` counts the writes that `num++` has made; it is history, nothing reads it. -/
structure State where
  loop : ℤ
  num : ℤ
  mtx : Mutex Tid
  threads : Tid → Frame
  main : MainPc
  printed : Option ℤ
  increments : ℕ

def INT_MAX : ℤ := 2 ^ 31 - 1
def LLONG_MAX : ℤ := 2 ^ 63 - 1

def State.setFrame (s : State) (t : Tid) (f : Frame) : State :=
  { s with threads := Function.update s.threads t f }

/-- One step of `ThreadWrite` in thread `t`. -/
def threadWrite (s : State) (t : Tid) : Option State :=
  let f := s.threads t
  match f.pc with
  | .absent => none
  | .start => some (s.setFrame t { f with pc := .test, loop := s.loop, i := 0 })
  | .test => some (s.setFrame t { f with pc := if f.i < f.loop then .lock else .returned })
  | .lock => match lockErrorcheck s.mtx t with
    | .returns m => some ({ s with mtx := m }.setFrame t { f with pc := .load })
    | .fails => some (s.setFrame t { f with pc := .lockErr })
    | .blocks => none
  | .lockErr => some (s.setFrame t { f with pc := .returned })
  | .load => some (s.setFrame t { f with pc := .store, tmp := s.num })
  | .store => if f.tmp + 1 ≤ LLONG_MAX then
      some ({ s with num := f.tmp + 1, increments := s.increments + 1 }.setFrame t
        { f with pc := .unlock })
    else some (s.setFrame t { f with pc := .overflow })
  | .unlock => match unlockErrorcheck s.mtx t with
    | .returns m => some ({ s with mtx := m }.setFrame t { f with pc := .incr })
    | .fails => some (s.setFrame t { f with pc := .unlockErr })
    | .blocks => none
  | .unlockErr => some (s.setFrame t { f with pc := .returned })
  | .incr => if f.i + 1 ≤ INT_MAX then
      some (s.setFrame t { f with pc := .test, i := f.i + 1 })
    else some (s.setFrame t { f with pc := .overflow })
  | .overflow => none
  | .returned => none

/-- `pthread_create`, which hands `&loop` to the new thread. -/
def State.create (s : State) (t : Tid) : State :=
  s.setFrame t { s.threads t with pc := .start }

/-- One step of `main`; `s.loop` is what `atoi(argv[1])` yields. -/
def main (s : State) : Option State :=
  match s.main with
  | .attrInit => some { s with main := .attrSettype }
  | .attrSettype => some { s with main := .mutexInit }
  | .mutexInit => some { s with main := .readLoop, mtx := none }
  | .readLoop => some { s with main := if s.loop ≤ 0 then .returned (-1) else .create1 }
  | .create1 => some { s.create .t1 with main := .create2 }
  | .create2 => some { s.create .t2 with main := .join1 }
  | .join1 => if (s.threads .t1).pc = .returned then some { s with main := .join2 } else none
  | .join2 => if (s.threads .t2).pc = .returned then some { s with main := .attrDestroy }
    else none
  | .attrDestroy => some { s with main := .mutexDestroy }
  | .mutexDestroy => some { s with main := if s.mtx = none then .print else .destroyErr }
  | .destroyErr => some { s with main := .returned (-1) }
  | .print => some { s with main := .returned 0, printed := some s.num }
  | .returned _ => none

inductive Action | main | thread (t : Tid)
  deriving DecidableEq, Repr

def step (s : State) : Action → Option State
  | .main => main s
  | .thread t => threadWrite s t

def absentFrame : Frame := ⟨.absent, 0, 0, 0⟩

def start (loop : ℤ) : State :=
  ⟨loop, 0, none, fun _ => absentFrame, .attrInit, none, 0⟩

/-- All runs of the program, for every value of the C `int` `loop`. -/
def program : System State Action where
  init s := ∃ loop, -(2 ^ 31) ≤ loop ∧ loop ≤ INT_MAX ∧ s = start loop
  step := step

/-! ## What holds in every interleaving -/

/-- Between the lock and the unlock. -/
def Frame.Inside (f : Frame) : Prop := f.pc = .load ∨ f.pc = .store ∨ f.pc = .unlock

instance (f : Frame) : Decidable f.Inside := inferInstanceAs (Decidable (_ ∨ _ ∨ _))

/-- The increments that a thread has completed, read off its program point. -/
def Frame.completed (f : Frame) : ℤ :=
  match f.pc with
  | .absent | .start => 0
  | .unlock | .incr => f.i + 1
  | _ => f.i

/-- The loop bounds at each program point, and the freshness of the value read. -/
def Frame.Ok (loop num : ℤ) (f : Frame) : Prop :=
  match f.pc with
  | .absent | .start => True
  | .test => f.loop = loop ∧ 0 ≤ f.i ∧ f.i ≤ loop
  | .lock | .load | .unlock | .incr => f.loop = loop ∧ 0 ≤ f.i ∧ f.i < loop
  | .store => f.loop = loop ∧ 0 ≤ f.i ∧ f.i < loop ∧ f.tmp = num
  | .returned => f.i = loop
  | .lockErr | .unlockErr | .overflow => False

/-- What `main` has done to the threads by each of its program points. -/
def MainOk (s : State) : Prop :=
  let p1 := (s.threads .t1).pc
  let p2 := (s.threads .t2).pc
  match s.main with
  | .attrInit | .attrSettype | .mutexInit | .readLoop => p1 = .absent ∧ p2 = .absent
  | .create1 => 0 < s.loop ∧ p1 = .absent ∧ p2 = .absent
  | .create2 => 0 < s.loop ∧ p1 ≠ .absent ∧ p2 = .absent
  | .join1 => 0 < s.loop ∧ p1 ≠ .absent ∧ p2 ≠ .absent
  | .join2 => 0 < s.loop ∧ p1 = .returned ∧ p2 ≠ .absent
  | .attrDestroy | .mutexDestroy | .print =>
    0 < s.loop ∧ p1 = .returned ∧ p2 = .returned
  | .destroyErr => False
  | .returned ret => (ret = -1 ∧ s.loop ≤ 0 ∧ p1 = .absent ∧ p2 = .absent) ∨
    (ret = 0 ∧ 0 < s.loop ∧ p1 = .returned ∧ p2 = .returned ∧ s.printed = some (2 * s.loop))

structure Inv (s : State) : Prop where
  frames : ∀ t, (s.threads t).Ok s.loop s.num
  guards : Guards s.mtx (fun t => (s.threads t).Inside)
  num_eq : s.num = (s.threads .t1).completed + (s.threads .t2).completed
  increments_eq : (s.increments : ℤ) = s.num
  loop_le : s.loop ≤ INT_MAX
  main : MainOk s

end LinuxTemplates.MutexIncrements
