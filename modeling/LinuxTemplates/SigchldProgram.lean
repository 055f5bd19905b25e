import LinuxTemplates.TransitionSystems
import LinuxTemplates.TaskLedgers

/-!
# The reaping signal handler of `sigchld.cpp`

`main` blocks SIGCHLD, forks one child per argument and sleeps in `sigsuspend` until
the handler has reaped them all. A child that exits becomes a zombie and makes SIGCHLD
pending; pending signals coalesce into one flag. A pending signal that is not blocked
is delivered at any point of the process; while its handler runs it is blocked.
-/

namespace LinuxTemplates.SigchldProgram
open TransitionSystems TaskLedgers

def ECHILD : ℤ := 10

inductive ChildState | absent | running | zombie | reaped
  deriving DecidableEq, Repr

/-- Program points of `SigchldHanlder`; `afterLoop` carries `child_pid` and `errno`. -/
inductive HandlerPc
  | enter | waitpid | decLive | afterLoop (childPid errno : ℤ) | sleep | ret
  deriving DecidableEq, Repr

/-- Program points of `main`; `suspended` lies inside `sigsuspend`. -/
inductive MainPc
  | setLive | sigaction | sigprocmask | forFork (idx : ℕ) | whileTest | sigsuspend | suspended
  | afterSuspend | printf | returned
  deriving DecidableEq, Repr

/-- `argc - 1 = N` children. `blocked` is the bit of SIGCHLD in the signal mask,
`suspendMask` and `resumeMask` the bits that `sigsuspend` and the running handler put
back; `reaps` logs the children that `waitpid` has returned. -/
structure State (N : ℕ) where
  numLiveChildren : ℤ
  children : Fin N → ChildState
  pending : Bool
  blocked : Bool
  installed : Bool
  main : MainPc
  suspendMask : Bool
  handler : Option HandlerPc
  resumeMask : Bool
  sigCnt : ℤ
  reaps : List (Fin N)

variable {N : ℕ}

def State.setChild (s : State N) (i : Fin N) (c : ChildState) : State N :=
  { s with children := Function.update s.children i c }

/-- One step of `main`, which stands still while the handler runs on its stack. -/
def main (s : State N) : Option (State N) :=
  if s.handler ≠ none then none else
  match s.main with
  | .setLive => some { s with main := .sigaction, numLiveChildren := N }
  | .sigaction => some { s with main := .sigprocmask, installed := true }
  | .sigprocmask => some { s with main := .forFork 0, blocked := true }
  | .forFork idx => if h : idx < N then
      some { s.setChild ⟨idx, h⟩ .running with main := .forFork (idx + 1) }
    else some { s with main := .whileTest, sigCnt := 0 }
  | .whileTest => some { s with main := if s.numLiveChildren > 0 then .sigsuspend else .printf }
  | .sigsuspend => some { s with main := .suspended, suspendMask := s.blocked, blocked := false }
  | .suspended => none
  | .afterSuspend => some { s with main := .whileTest, sigCnt := s.sigCnt + 1 }
  | .printf => some { s with main := .returned }
  | .returned => none

/-- The handler returns: the mask is put back and `sigsuspend` fails with EINTR. -/
def State.resume (s : State N) : State N :=
  { s with handler := none, blocked := s.resumeMask,
           main := if s.main = .suspended then .afterSuspend else s.main }

/-- One step of `SigchldHanlder` other than a `waitpid` that reaps. -/
def sigchldHanlder (s : State N) : Option (State N) :=
  match s.handler with
  | none => none
  | some .enter => some { s with handler := some .waitpid }
  | some .waitpid =>
    if ∃ i, s.children i = .zombie then none
    else if ∃ i, s.children i = .running then some { s with handler := some (.afterLoop 0 0) }
    else some { s with handler := some (.afterLoop (-1) ECHILD) }
  | some .decLive =>
    some { s with handler := some .waitpid, numLiveChildren := s.numLiveChildren - 1 }
  | some (.afterLoop childPid errno) =>
    if childPid = -1 ∧ errno ≠ ECHILD then some s.resume
    else some { s with handler := some .sleep }
  | some .sleep => some { s with handler := some .ret }
  | some .ret => some s.resume

/-- `waitpid(-1, &status, WNOHANG)` returns the zombie `i`. -/
def reap (s : State N) (i : Fin N) : Option (State N) :=
  if s.handler = some .waitpid ∧ s.children i = .zombie then
    some { s.setChild i .reaped with handler := some .decLive, reaps := s.reaps ++ [i] }
  else none

/-- A pending signal that is not blocked is delivered; without a handler it is ignored. -/
def deliver (s : State N) : Option (State N) :=
  if s.pending ∧ ¬ s.blocked then
    if s.installed then
      some { s with pending := false, handler := some .enter, blocked := true,
                    resumeMask := if s.main = .suspended then s.suspendMask else s.blocked }
    else some { s with pending := false }
  else none

/-- Child `i` exits. -/
def childExit (s : State N) (i : Fin N) : Option (State N) :=
  if s.children i = .running then some { s.setChild i .zombie with pending := true } else none

inductive Action (N : ℕ) | main | handler | reap (i : Fin N) | deliver | exit (i : Fin N)
  deriving DecidableEq, Repr

def step (s : State N) : Action N → Option (State N)
  | .main => main s
  | .handler => sigchldHanlder s
  | .reap i => reap s i
  | .deliver => deliver s
  | .exit i => childExit s i

/-- No children yet; the inherited signal mask may or may not block SIGCHLD. -/
def start (N : ℕ) (blocked : Bool) : State N :=
  ⟨0, fun _ => .absent, false, blocked, false, .setLive, false, none, false, 0, []⟩

/-- All runs with `N` children. -/
def program (N : ℕ) : System (State N) (Action N) where
  init s := ∃ blocked, s = start N blocked
  step := step

/-! ## What holds in every interleaving -/

/-- The `waitpid` loop has not yet found nothing left. -/
def HandlerPc.scanning : HandlerPc → Bool
  | .enter | .waitpid | .decLive => true
  | _ => false

def State.Scanning (s : State N) : Prop := ∃ h, s.handler = some h ∧ h.scanning = true

def ChildState.exited : ChildState → Bool
  | .zombie | .reaped => true
  | _ => false

@[simp] theorem exited_absent : ChildState.absent.exited = false := rfl
@[simp] theorem exited_running : ChildState.running.exited = false := rfl
@[simp] theorem exited_zombie : ChildState.zombie.exited = true := rfl
@[simp] theorem exited_reaped : ChildState.reaped.exited = true := rfl

/-- Deliveries that `sig_cnt` does not count yet. -/
def State.uncounted (s : State N) : ℤ :=
  if s.handler ≠ none ∨ s.main = .afterSuspend then 1 else 0

/-- No child has been forked. -/
structure Fresh (s : State N) : Prop where
  children : ∀ i, s.children i = .absent
  pending : s.pending = false
  handler : s.handler = none
  reaps : s.reaps = []
  sigCnt : s.sigCnt = 0

/-- SIGCHLD has its handler and is blocked outside of `sigsuspend`. -/
structure Masked (s : State N) : Prop where
  installed : s.installed = true
  handler : s.handler = none
  blocked : s.blocked = true

def State.AllForked (s : State N) : Prop := ∀ i, s.children i ≠ .absent

def MainOk (s : State N) : Prop :=
  match s.main with
  | .setLive | .sigaction => Fresh s
  | .sigprocmask => Fresh s ∧ s.installed = true
  | .forFork idx => Masked s ∧ s.sigCnt = 0 ∧ ∀ i, s.children i ≠ .absent ↔ i.val < idx
  | .whileTest | .afterSuspend => Masked s ∧ s.AllForked
  | .sigsuspend => Masked s ∧ s.AllForked ∧ 0 < s.numLiveChildren
  | .suspended => s.AllForked ∧ s.installed = true ∧
    ((s.handler = none ∧ s.blocked = false ∧ s.suspendMask = true ∧ 0 < s.numLiveChildren) ∨
      (s.handler ≠ none ∧ s.blocked = true ∧ s.resumeMask = true))
  | .printf | .returned => Masked s ∧ s.AllForked ∧ s.numLiveChildren ≤ 0

structure Inv (s : State N) : Prop where
  mainOk : MainOk s
  counted : s.main ≠ .setLive →
    s.numLiveChildren + s.reaps.length = N + if s.handler = some .decLive then 1 else 0
  zombies : ∀ i, s.children i = .zombie → s.pending = true ∨ s.Scanning
  deliveries : s.sigCnt + s.uncounted + (if s.pending then 1 else 0) ≤
    tally s.children (fun c => c.exited = true)
  handled : s.reaps ≠ [] → 1 ≤ s.sigCnt + s.uncounted
  sigCnt_nonneg : 0 ≤ s.sigCnt

end LinuxTemplates.SigchldProgram
