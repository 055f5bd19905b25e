import LinuxTemplates.SigchldProgram

/-!
# `errno` in the handler of `sigchld.cpp`

A handler interrupts code that may be about to look at `errno`. This one saves it at the
start and puts it back at its end, but not where it returns early.
-/

namespace LinuxTemplates.SigchldErrno
open SigchldProgram (ECHILD)

inductive LibCall
  | getCurrentTime | printf | waitpid | printWaitStatus | sleep
  deriving DecidableEq, Repr

/-- What a call leaves in `errno`: it may depend on the call, on how many came before it and
on what was there. -/
abbrev Leaves := ℕ → LibCall → ℤ → ℤ

/-- The last result of `waitpid`: 0, or -1 with an `errno`. -/
inductive LoopExit
  | zero | error (errno : ℤ)
  deriving DecidableEq, Repr

/-- `calls` counts the library calls that were made. -/
structure HandlerState where
  errno : ℤ
  numLiveChildren : ℤ
  calls : ℕ
  deriving DecidableEq, Repr

def HandlerState.call (leaves : Leaves) (c : LibCall) (s : HandlerState) : HandlerState :=
  { s with errno := leaves s.calls c s.errno, calls := s.calls + 1 }

/-- `printf("[%s]: …", GetCurrentTime("%T"), …)` -/
def HandlerState.report (leaves : Leaves) (s : HandlerState) : HandlerState :=
  (s.call leaves .getCurrentTime).call leaves .printf

/-- One turn of the loop, in which `waitpid` returns a child. -/
def HandlerState.reap (leaves : Leaves) (s : HandlerState) : HandlerState :=
  let s := ((s.call leaves .waitpid).report leaves).call leaves .printWaitStatus
  { s with numLiveChildren := s.numLiveChildren - 1 }

def waitpidLoop (leaves : Leaves) : ℕ → HandlerState → HandlerState
  | 0, s => s
  | children + 1, s => waitpidLoop leaves children (s.reap leaves)

/-- The handler, when `waitpid` returns so many children before its last result. -/
def sigchldHanlder (leaves : Leaves) (children : ℕ) (exit : LoopExit) (s : HandlerState) :
    HandlerState :=
  let savedErrno := s.errno
  let s := waitpidLoop leaves children (s.report leaves)
  match exit with
  | .error errno =>
    let s := { s with errno := errno, calls := s.calls + 1 }
    if errno ≠ ECHILD then s.call leaves .printf
    else { (s.call leaves .sleep).report leaves with errno := savedErrno }
  | .zero =>
    let s := s.call leaves .waitpid
    { (s.call leaves .sleep).report leaves with errno := savedErrno }

variable (leaves : Leaves) (children : ℕ) (s : HandlerState)

theorem waitpidLoop_calls :
    (waitpidLoop leaves children s).calls = s.calls + 4 * children := by
  induction children generalizing s with
  | zero => rfl
  | succ children ih =>
    have hreap : (s.reap leaves).calls = s.calls + 4 := rfl
    rw [waitpidLoop, ih, hreap]
    omega

theorem sigchldHanlder_restores {exit : LoopExit}
    (h : exit = .zero ∨ exit = .error ECHILD) :
    (sigchldHanlder leaves children exit s).errno = s.errno := by
  rcases h with rfl | rfl
  · rfl
  · rfl

/-- On the early return `errno` is what the last `printf` leaves of the failure. -/
theorem sigchldHanlder_early {errno : ℤ} (h : errno ≠ ECHILD) :
    (sigchldHanlder leaves children (.error errno) s).errno =
      leaves (s.calls + 4 * children + 3) .printf errno := by
  have hcalls : (waitpidLoop leaves children (s.report leaves)).calls + 1 =
      s.calls + 4 * children + 3 := by
    rw [waitpidLoop_calls]
    have hreport : (s.report leaves).calls = s.calls + 2 := rfl
    rw [hreport]
    omega
  unfold sigchldHanlder
  dsimp only
  rw [if_pos h, HandlerState.call, hcalls]

/-- The exits that restore `errno` and the one that does not. -/
theorem errno_survives_iff (exit : LoopExit) :
    (sigchldHanlder leaves children exit s).errno = s.errno ↔
      ∀ errno, exit = .error errno → errno ≠ ECHILD →
        leaves (s.calls + 4 * children + 3) .printf errno = s.errno := by
  cases exit with
  | zero =>
    refine iff_of_true (sigchldHanlder_restores leaves children s (.inl rfl)) ?_
    intro errno hexit
    cases hexit
  | error errno =>
    by_cases hech : errno = ECHILD
    · rw [hech]
      refine iff_of_true (sigchldHanlder_restores leaves children s (.inr rfl)) ?_
      intro errno' hexit hne
      exact absurd (LoopExit.error.inj hexit).symm hne
    · rw [sigchldHanlder_early leaves children s hech]
      constructor
      · rintro h errno' hexit -
        rwa [← LoopExit.error.inj hexit]
      · intro h
        exact h errno rfl hech

/-- `errno` survives the handler just when `waitpid` does not fail unexpectedly, or when the
message about that failure happens to leave the old value. Whatever the calls may leave, it
survives just when the loop ends as it should. -/
theorem errno_transparent_iff (exit : LoopExit) :
    ((sigchldHanlder leaves children exit s).errno = s.errno ↔
      ∀ errno, exit = .error errno → errno ≠ ECHILD →
        leaves (s.calls + 4 * children + 3) .printf errno = s.errno) ∧
    ((∀ leaves : Leaves, (sigchldHanlder leaves children exit s).errno = s.errno) ↔
      exit = .zero ∨ exit = .error ECHILD) := by
  constructor
  · exact errno_survives_iff leaves children s exit
  · constructor
    · intro h
      cases exit with
      | zero => exact .inl rfl
      | error errno =>
        right
        by_contra hne
        have hech : errno ≠ ECHILD := fun heq => hne (congrArg LoopExit.error heq)
        have hother := h (fun _ _ _ => s.errno + 1)
        rw [sigchldHanlder_early _ _ _ hech] at hother
        omega
    · exact fun h leaves => sigchldHanlder_restores leaves children s h

/-- The handler interrupts code that has just seen `EAGAIN`, reaps a child and may then not
wait any more (`EPERM`); no other call touches `errno`. -/
theorem not_errno_transparent :
    (sigchldHanlder (fun _ _ errno => errno) 1 (.error 1) ⟨11, 3, 0⟩) = ⟨1, 2, 8⟩ ∧
      (sigchldHanlder (fun _ _ errno => errno) 1 (.error 1) ⟨11, 3, 0⟩).errno ≠ 11 := by
  decide

end LinuxTemplates.SigchldErrno
