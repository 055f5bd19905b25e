import LinuxTemplates.TransitionSystems
import LinuxTemplates.TaskLedgers
import LinuxTemplates.MutexOwnership

/-!
# The reaping program of `condition.cpp`

`main` starts one thread per argument and joins those that report their end under a
mutex, sleeping on a condition variable while there is nothing to join. Statements
that read or write the shared counters and states are steps of their own. A signal
wakes the waiting `main` and is otherwise lost; a wait may also wake spuriously.
-/

namespace LinuxTemplates.ConditionProgram
open TransitionSystems MutexOwnership TaskLedgers

/-- The field `state` of a `thread_t`. -/
inductive ThreadState | tsAlive | tsTerminated | tsJoined
  deriving DecidableEq, Repr

/-- Program points of `ThreadFunc`; `absent` before `pthread_create`. -/
inductive WorkerPc
  | absent | sleep | lock | incrUnjoined | setTerminated | unlock | signal | ret | finished
  deriving DecidableEq, Repr

/-- Program points of `main`; `waiting` and `reacquire` lie inside `pthread_cond_wait`. -/
inductive MainPc (N : ℕ)
  | calloc | forCreate (idx : ℕ) | create (idx : Fin N) | setTotal | setLive | whileLive
  | lock | whileUnjoined | condWait | waiting | reacquire
  | forReap (idx : ℕ) | join (idx : Fin N) | setJoined (idx : Fin N) | decLive (idx : Fin N)
  | decUnjoined (idx : Fin N) | unlock | free | returned (ret : ℤ)
  deriving DecidableEq, Repr

inductive Agent (N : ℕ) | main | worker (i : Fin N)
  deriving DecidableEq, Repr

/-- `argc - 1 = N` threads; `joins` logs the returns of `pthread_join`. -/
structure State (N : ℕ) where
  totalThreads : ℤ
  numLive : ℤ
  numUnjoined : ℤ
  mutex : Mutex (Agent N)
  state : Fin N → ThreadState
  worker : Fin N → WorkerPc
  main : MainPc N
  joins : List (Fin N)

variable {N : ℕ}

def State.setWorker (s : State N) (i : Fin N) (pc : WorkerPc) : State N :=
  { s with worker := Function.update s.worker i pc }

def State.setState (s : State N) (i : Fin N) (ts : ThreadState) : State N :=
  { s with state := Function.update s.state i ts }

/-- `pthread_cond_signal`: only `main` ever waits. -/
def MainPc.signalled : MainPc N → MainPc N
  | .waiting => .reacquire
  | pc => pc

/-- One step of `ThreadFunc` in thread `i`. -/
def threadFunc (s : State N) (i : Fin N) : Option (State N) :=
  match s.worker i with
  | .absent => none
  | .sleep => some (s.setWorker i .lock)
  | .lock => if s.mutex = none then
      some ({ s with mutex := some (.worker i) }.setWorker i .incrUnjoined) else none
  | .incrUnjoined =>
    some ({ s with numUnjoined := s.numUnjoined + 1 }.setWorker i .setTerminated)
  | .setTerminated => some ((s.setState i .tsTerminated).setWorker i .unlock)
  | .unlock => some ({ s with mutex := none }.setWorker i .signal)
  | .signal => some ({ s with main := s.main.signalled }.setWorker i .ret)
  | .ret => some (s.setWorker i .finished)
  | .finished => none

/-- One step of `main`. -/
def main (s : State N) : Option (State N) :=
  match s.main with
  | .calloc => some { s with main := .forCreate 0 }
  | .forCreate idx => if h : idx < N then
      some { s.setState ⟨idx, h⟩ .tsAlive with main := .create ⟨idx, h⟩ }
    else some { s with main := .setTotal }
  | .create idx => some { s.setWorker idx .sleep with main := .forCreate (idx + 1) }
  | .setTotal => some { s with main := .setLive, totalThreads := N }
  | .setLive => some { s with main := .whileLive, numLive := s.totalThreads }
  | .whileLive => some { s with main := if s.numLive > 0 then .lock else .free }
  | .lock => if s.mutex = none then
      some { s with main := .whileUnjoined, mutex := some .main } else none
  | .whileUnjoined =>
    some { s with main := if s.numUnjoined = 0 then .condWait else .forReap 0 }
  | .condWait => some { s with main := .waiting, mutex := none }
  | .waiting => none
  | .reacquire => if s.mutex = none then
      some { s with main := .whileUnjoined, mutex := some .main } else none
  | .forReap idx => if h : idx < N then
      some { s with main := if s.state ⟨idx, h⟩ = .tsTerminated then .join ⟨idx, h⟩
                            else .forReap (idx + 1) }
    else some { s with main := .unlock }
  | .join idx => if s.worker idx = .finished then
      some { s with main := .setJoined idx, joins := s.joins ++ [idx] } else none
  | .setJoined idx => some { s.setState idx .tsJoined with main := .decLive idx }
  | .decLive idx => some { s with main := .decUnjoined idx, numLive := s.numLive - 1 }
  | .decUnjoined idx =>
    some { s with main := .forReap (idx + 1), numUnjoined := s.numUnjoined - 1 }
  | .unlock => some { s with main := .whileLive, mutex := none }
  | .free => some { s with main := .returned 0 }
  | .returned _ => none

/-- `calloc` or `pthread_create` reports an error and `main` returns. -/
def callFails (s : State N) : Option (State N) :=
  match s.main with
  | .calloc | .create _ => some { s with main := .returned (-1) }
  | _ => none

/-- The wait of `main` wakes without a signal. -/
def spuriousWake (s : State N) : Option (State N) :=
  match s.main with
  | .waiting => some { s with main := .reacquire }
  | _ => none

inductive Action (N : ℕ) | main | worker (i : Fin N) | callFails | spuriousWake
  deriving DecidableEq, Repr

/-- The return of `main` ends the process and with it every thread. -/
def step (s : State N) : Action N → Option (State N)
  | .main => main s
  | .worker i => match s.main with
    | .returned _ => none
    | _ => threadFunc s i
  | .callFails => callFails s
  | .spuriousWake => spuriousWake s

def start (N : ℕ) : State N :=
  ⟨0, 0, 0, none, fun _ => .tsAlive, fun _ => .absent, .calloc, []⟩

/-- All runs with `N` threads. -/
def program (N : ℕ) : System (State N) (Action N) where
  init s := s = start N
  step := step

/-! ## What holds in every interleaving -/

/-- Program points at which `main` owns the mutex. -/
def MainPc.holds : MainPc N → Bool
  | .whileUnjoined | .condWait | .forReap _ | .join _ | .setJoined _ | .decLive _
  | .decUnjoined _ | .unlock => true
  | _ => false

def WorkerPc.holds : WorkerPc → Bool
  | .incrUnjoined | .setTerminated | .unlock => true
  | _ => false

def State.Holds (s : State N) : Agent N → Prop
  | .main => s.main.holds = true
  | .worker i => (s.worker i).holds = true

/-- One is still to be subtracted from `num_unjoined` for a thread already joined. -/
def MainPc.owesUnjoined : MainPc N → ℤ
  | .decLive _ | .decUnjoined _ => 1
  | _ => 0

/-- What the field `state` can be at each program point of a worker. -/
def WorkerOk (pc : WorkerPc) (ts : ThreadState) : Prop :=
  match pc with
  | .absent | .sleep | .lock | .incrUnjoined | .setTerminated => ts = .tsAlive
  | .unlock | .signal | .ret => ts = .tsTerminated
  | .finished => ts ≠ .tsAlive

/-- The program point lies before the return of `pthread_cond_signal`. -/
def WorkerPc.Unsignalled (pc : WorkerPc) : Prop :=
  pc ≠ .ret ∧ pc ≠ .finished

def State.Created (s : State N) : Prop := ∀ i, s.worker i ≠ .absent

def State.LiveCounted (s : State N) : Prop :=
  s.numLive = tally s.state (· ≠ .tsJoined)

/-- What `main` relies on at each of its program points. -/
def MainOk (s : State N) : Prop :=
  match s.main with
  | .calloc => (∀ i, s.worker i = .absent) ∧ ∀ i, s.state i ≠ .tsJoined
  | .forCreate idx =>
    (∀ i, s.worker i ≠ .absent ↔ i.val < idx) ∧ ∀ i, s.state i ≠ .tsJoined
  | .create idx =>
    (∀ i, s.worker i ≠ .absent ↔ i.val < idx.val) ∧ ∀ i, s.state i ≠ .tsJoined
  | .setTotal => s.Created ∧ ∀ i, s.state i ≠ .tsJoined
  | .setLive => s.Created ∧ (∀ i, s.state i ≠ .tsJoined) ∧ s.totalThreads = N
  | .whileLive | .unlock | .forReap _ => s.Created ∧ s.LiveCounted
  | .lock | .whileUnjoined | .reacquire => s.Created ∧ s.LiveCounted ∧ 0 < s.numLive
  | .condWait => s.Created ∧ s.LiveCounted ∧ 0 < s.numLive ∧ s.numUnjoined = 0
  | .waiting =>
    s.Created ∧ s.LiveCounted ∧ 0 < s.numLive ∧ ∃ i, (s.worker i).Unsignalled
  | .join idx => s.Created ∧ s.LiveCounted ∧ s.state idx = .tsTerminated
  | .setJoined idx =>
    s.Created ∧ s.LiveCounted ∧ s.state idx = .tsTerminated ∧ s.worker idx = .finished
  | .decLive idx => s.Created ∧ s.state idx = .tsJoined ∧
    s.numLive = tally s.state (· ≠ .tsJoined) + 1
  | .decUnjoined idx => s.Created ∧ s.LiveCounted ∧ s.state idx = .tsJoined
  | .free => s.Created ∧ s.LiveCounted ∧ s.numLive ≤ 0
  | .returned ret => ret = -1 ∨ (ret = 0 ∧ s.Created ∧ s.LiveCounted ∧ s.numLive ≤ 0)

structure Inv (s : State N) : Prop where
  guards : Guards s.mutex s.Holds
  workers : ∀ i, WorkerOk (s.worker i) (s.state i)
  unjoined : s.numUnjoined = tally s.state (· = .tsTerminated) +
    tally s.worker (· = .setTerminated) + s.main.owesUnjoined
  main : MainOk s

end LinuxTemplates.ConditionProgram
