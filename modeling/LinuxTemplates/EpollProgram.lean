import LinuxTemplates.TransitionSystems
import LinuxTemplates.TaskLedgers
import LinuxTemplates.FifoChannels
import LinuxTemplates.CStrings

/-!
# The event loop of `epoll.cpp`

`main` opens one FIFO per argument, registers it for EPOLLIN and prints what arrives
until every FIFO has hung up. Events are snapshots taken by `epoll_wait`; the writers
keep running between the snapshot and the handling of an event. Two arguments may name
the same file: `file` says which one a descriptor is open on.
-/

namespace LinuxTemplates.EpollProgram
open TransitionSystems TaskLedgers FifoChannels CStrings

def MAX_BUF : ℕ := 1000
def MAX_EVENTS : ℕ := 5

/-- The bytes written to a FIFO and read from it, and whether it has lost its writers. -/
structure Fifo where
  bytes : Channel UInt8
  hup : Bool
  opened : Bool

/-- One entry of `evlist`; descriptors are numbered by their arguments. -/
structure EpollEvent (N : ℕ) where
  fd : Fin N
  epollin : Bool
  epollhup : Bool
  epollerr : Bool
  deriving DecidableEq, Repr

inductive MainPc (N : ℕ)
  | epollCreate | openLoop (idx : ℕ) | setOpenFds | whileTest | epollWait
  | handle (events : List (EpollEvent N)) | readErr | closeErr | closeEpfd | returned (ret : ℤ)
  deriving DecidableEq, Repr

/-- The files of the descriptors; `N` arguments name at most `N` of them. -/
abbrev Files (N : ℕ) := Fin N → Fin N

/-- `fifo` and `printed` are about files; `closes` logs the descriptors that the loop has closed. -/
structure State (N : ℕ) where
  fifo : Fin N → Fifo
  printed : Fin N → List UInt8
  closes : List (Fin N)
  numOpenFds : ℤ
  main : MainPc N

variable {N : ℕ}

def State.unread (s : State N) (i : Fin N) : List UInt8 := (s.fifo i).bytes.queue

def State.setFifo (s : State N) (i : Fin N) (f : Fifo) : State N :=
  { s with fifo := Function.update s.fifo i f }

/-- What `printf("%.*s", ret, buf)` prints: up to `ret` bytes, none from a NUL on. -/
def printfBytes (ret : ℕ) (buf : List UInt8) : List UInt8 := upToNul (buf.take ret)

/-- Level-triggered readiness of a registered descriptor. -/
def State.Ready (file : Files N) (s : State N) (i : Fin N) : Prop :=
  (s.fifo (file i)).opened = true ∧ i ∉ s.closes ∧
    (s.unread (file i) ≠ [] ∨ (s.fifo (file i)).hup = true)

instance (file : Files N) (s : State N) (i : Fin N) : Decidable (s.Ready file i) :=
  inferInstanceAs (Decidable (_ ∧ _ ∧ (_ ∨ _)))

/-- A FIFO reports EPOLLIN when it holds bytes, EPOLLHUP when it has no writer. -/
def State.event (file : Files N) (s : State N) (i : Fin N) : EpollEvent N :=
  ⟨i, decide (s.unread (file i) ≠ []), (s.fifo (file i)).hup, false⟩

/-- One step of `main` other than an `epoll_wait` or a read that returns data. -/
def main (file : Files N) (s : State N) : Option (State N) :=
  match s.main with
  | .epollCreate => some { s with main := if N = 0 then .returned (-1) else .openLoop 0 }
  | .openLoop idx => if h : idx < N then
      -- `open` of a FIFO for reading blocks until it has a writer.
      if (s.fifo (file ⟨idx, h⟩)).hup then none
      else some { s.setFifo (file ⟨idx, h⟩) { s.fifo (file ⟨idx, h⟩) with opened := true } with
        main := .openLoop (idx + 1) }
    else some { s with main := .setOpenFds }
  | .setOpenFds => some { s with main := .whileTest, numOpenFds := N }
  | .whileTest => some { s with main := if s.numOpenFds > 0 then .epollWait else .closeEpfd }
  | .epollWait => none
  | .handle [] => some { s with main := .whileTest }
  | .handle (e :: rest) =>
    if e.epollin then
      if e.fd ∈ s.closes then some { s with main := .readErr }
      else if s.unread (file e.fd) = [] ∧ (s.fifo (file e.fd)).hup then
        some { s with main := .handle rest }
      else none
    else if e.epollhup ∨ e.epollerr then
      if e.fd ∈ s.closes then some { s with main := .closeErr }
      else some { s with main := .handle rest, closes := s.closes ++ [e.fd],
                         numOpenFds := s.numOpenFds - 1 }
    else some { s with main := .handle rest }
  | .readErr | .closeErr => some { s with main := .returned (-1) }
  | .closeEpfd => some { s with main := .returned 0 }
  | .returned _ => none

/-- `epoll_wait` returns a batch of ready descriptors. -/
def wait (file : Files N) (s : State N) (batch : List (Fin N)) : Option (State N) :=
  if s.main = .epollWait ∧ batch ≠ [] ∧ batch.length ≤ MAX_EVENTS ∧ batch.Nodup ∧
      ∀ i ∈ batch, s.Ready file i then
    some { s with main := .handle (batch.map (s.event file)) }
  else none

/-- `epoll_wait` fails with EINTR and the loop continues. -/
def interrupt (s : State N) : Option (State N) :=
  if s.main = .epollWait then some { s with main := .whileTest } else none

/-- The read for an EPOLLIN event returns `k` bytes, which are printed. -/
def read (file : Files N) (s : State N) (k : ℕ) : Option (State N) :=
  match s.main with
  | .handle (e :: rest) =>
    let i := file e.fd
    if e.epollin ∧ e.fd ∉ s.closes ∧ 0 < k ∧ k ≤ MAX_BUF ∧ k ≤ (s.unread i).length then
      some { s.setFifo i { s.fifo i with bytes := (s.fifo i).bytes.receive k } with
        main := .handle rest
        printed := Function.update s.printed i (s.printed i ++ printfBytes k (s.unread i)) }
    else none
  | _ => none

/-- A writer of FIFO `i` writes NUL-free bytes. -/
def write (s : State N) (i : Fin N) (bs : List UInt8) : Option (State N) :=
  if (s.fifo i).hup = false ∧ 0 ∉ bs then
    some (s.setFifo i { s.fifo i with bytes := (s.fifo i).bytes.send bs })
  else none

/-- The last writer of FIFO `i` closes it; the writers do not reopen. -/
def hangup (s : State N) (i : Fin N) : Option (State N) :=
  if (s.fifo i).opened = true ∧ (s.fifo i).hup = false then
    some (s.setFifo i { s.fifo i with hup := true })
  else none

inductive Action (N : ℕ)
  | main | wait (batch : List (Fin N)) | interrupt | read (k : ℕ)
  | write (i : Fin N) (bs : List UInt8) | hangup (i : Fin N)
  deriving DecidableEq, Repr

def step (file : Files N) (s : State N) : Action N → Option (State N)
  | .main => main file s
  | .wait batch => wait file s batch
  | .interrupt => interrupt s
  | .read k => read file s k
  | .write i bs => write s i bs
  | .hangup i => hangup s i

def start (N : ℕ) : State N :=
  ⟨fun _ => ⟨.empty, false, false⟩, fun _ => [], [], 0, .epollCreate⟩

/-- All runs over `N` distinct FIFOs. -/
def program (N : ℕ) : System (State N) (Action N) where
  init s := s = start N
  step := step fun i => i

/-! ## The ledger of FIFOs -/

def Fifo.drained (f : Fifo) : Prop := f.hup = true ∧ f.bytes.queue = []

instance (f : Fifo) : Decidable f.drained := inferInstanceAs (Decidable (_ ∧ _))

instance State.decidableNotClosed (s : State N) (e : EpollEvent N) : Decidable (e.fd ∉ s.closes) :=
  inferInstanceAs (Decidable ¬ (e.fd ∈ s.closes))

def State.phase (s : State N) (i : Fin N) : Phase :=
  if i ∈ s.closes then .collected else if (s.fifo i).drained then .finished else .running

def State.ledger (s : State N) : Ledger (Fin N) := ⟨s.phase, s.closes⟩

/-- The descriptors that the loop has not closed. -/
def State.openFds (s : State N) : Finset (Fin N) := Finset.univ.filter (· ∉ s.closes)

/-! ## What holds in every schedule -/

/-- An event of the current batch is still true of its FIFO when it is handled. -/
structure Current (s : State N) (e : EpollEvent N) : Prop where
  notClosed : e.fd ∉ s.closes
  data : e.epollin = true → s.unread e.fd ≠ []
  hangup : e.epollin = false →
    e.epollhup = true ∧ (s.fifo e.fd).hup = true ∧ s.unread e.fd = []

def MainOk (s : State N) : Prop :=
  match s.main with
  | .epollCreate => (∀ i, (s.fifo i).opened = false) ∧ s.closes = []
  | .openLoop idx => (∀ i, (s.fifo i).opened = true ↔ i.val < idx) ∧ s.closes = []
  | .setOpenFds => (∀ i, (s.fifo i).opened = true) ∧ s.closes = []
  | .whileTest => s.numOpenFds + s.closes.length = N
  | .epollWait => s.numOpenFds + s.closes.length = N ∧ 0 < s.numOpenFds
  | .handle events => s.numOpenFds + s.closes.length = N ∧ (events.map (·.fd)).Nodup ∧
    ∀ e ∈ events, Current s e
  | .readErr | .closeErr => False
  | .closeEpfd => s.numOpenFds + s.closes.length = N ∧ s.numOpenFds ≤ 0
  | .returned ret => (ret = -1 ∧ N = 0) ∨
    (ret = 0 ∧ s.numOpenFds + s.closes.length = N ∧ s.numOpenFds ≤ 0)

structure Inv (s : State N) : Prop where
  mainOk : MainOk s
  printed : ∀ i, s.printed i = (s.fifo i).bytes.received
  nulFree : ∀ i, 0 ∉ s.unread i
  unopened : ∀ i, (s.fifo i).opened = false → (s.fifo i).hup = false
  drained : ∀ i ∈ s.closes, (s.fifo i).hup = true ∧ s.unread i = []

end LinuxTemplates.EpollProgram
