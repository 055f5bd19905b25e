import LinuxTemplates.SigchldAccounting
import LinuxTemplates.RunLengths

/-!
# Every run of `sigchld.cpp` ends

The exit of a child pays for the one delivery of SIGCHLD that it can cause: the handler, its
return into `main` and another turn of the loop around `sigsuspend`.
-/

namespace LinuxTemplates.SigchldProgram
open TransitionSystems TaskLedgers

variable {N : ℕ} {s s' : State N}

def ChildState.weight : ChildState → ℕ
  | .absent => 13
  | .running => 12
  | .zombie => 2
  | .reaped => 0

/-- A turn of the `waitpid` loop is paid for by the child that it reaps. -/
def HandlerPc.weight : HandlerPc → ℕ
  | .enter | .decLive => 8
  | .waitpid => 7
  | .afterLoop _ _ => 6
  | .sleep => 5
  | .ret => 4

def MainPc.weight : MainPc → ℕ
  | .setLive => 7
  | .sigaction => 6
  | .sigprocmask => 5
  | .forFork _ | .afterSuspend => 4
  | .whileTest => 3
  | .sigsuspend => 2
  | .suspended | .printf => 1
  | .returned => 0

def State.handlerWeight (s : State N) : ℕ :=
  match s.handler with
  | none => 0
  | some pc => pc.weight

def State.weight (s : State N) : ℕ :=
  load s.children ChildState.weight + 9 * s.pending.toNat + s.handlerWeight +
    s.main.weight

theorem weight_start (blocked : Bool) : (start N blocked).weight = 13 * N + 7 := by
  simp only [State.weight, State.handlerWeight, start, load_const, Fintype.card_fin,
    ChildState.weight, MainPc.weight, Bool.toNat_false]
  omega

theorem main_weight (hi : Inv s) (h : main s = some s') : s'.weight < s.weight := by
  have hm := hi.mainOk
  simp only [main, Option.ite_none_left_eq_some, not_not] at h
  obtain ⟨hh, h⟩ := h
  cases hpc : s.main with
  | suspended | returned => simp [hpc] at h
  | setLive | sigaction | sigprocmask | sigsuspend | afterSuspend | printf =>
    simp only [hpc, Option.some.injEq] at h
    subst h
    simp only [State.weight, State.handlerWeight, hh, hpc, MainPc.weight]
    omega
  | whileTest =>
    simp only [hpc, Option.some.injEq] at h
    subst h
    by_cases hl : s.numLiveChildren > 0 <;>
      simp only [State.weight, State.handlerWeight, hh, hpc, hl, if_true, if_false,
        MainPc.weight] <;> omega
  | forFork idx =>
    by_cases hidx : idx < N
    · simp only [hpc, hidx, dif_pos, Option.some.injEq] at h
      simp only [MainOk, hpc] at hm
      subst h
      have habsent : s.children ⟨idx, hidx⟩ = .absent := by
        by_contra hne
        exact absurd ((hm.2.2 _).mp hne) (Nat.lt_irrefl _)
      have hload := load_update s.children ChildState.weight ⟨idx, hidx⟩ .running
      simp only [habsent, ChildState.weight] at hload
      simp only [State.weight, State.handlerWeight, State.setChild, hh, hpc, MainPc.weight]
      omega
    · simp only [hpc, hidx, dif_neg, not_false_eq_true, Option.some.injEq] at h
      subst h
      simp only [State.weight, State.handlerWeight, hh, hpc, MainPc.weight]
      omega

/-- The return from the handler sends `main` through its loop once more at most. -/
theorem resume_weight {pc : HandlerPc} (hh : s.handler = some pc) (hpc : 4 ≤ pc.weight) :
    s.resume.weight < s.weight := by
  simp only [State.weight, State.handlerWeight, State.resume, hh]
  by_cases hm : s.main = .suspended
  · simp only [hm, if_true, MainPc.weight]
    omega
  · simp only [hm, if_false]
    omega

theorem handler_weight (h : sigchldHanlder s = some s') : s'.weight < s.weight := by
  cases hh : s.handler with
  | none => simp [sigchldHanlder, hh] at h
  | some pc =>
    cases pc with
    | enter | decLive | sleep =>
      simp only [sigchldHanlder, hh, Option.some.injEq] at h
      subst h
      simp only [State.weight, State.handlerWeight, hh, HandlerPc.weight]
      omega
    | waitpid =>
      simp only [sigchldHanlder, hh, Option.ite_none_left_eq_some] at h
      obtain ⟨-, h⟩ := h
      split at h
      all_goals
        simp only [Option.some.injEq] at h
        subst h
        simp only [State.weight, State.handlerWeight, hh, HandlerPc.weight]
        omega
    | afterLoop childPid errno =>
      simp only [sigchldHanlder, hh] at h
      split at h <;> simp only [Option.some.injEq] at h <;> subst h
      · exact resume_weight hh (by simp [HandlerPc.weight])
      · simp only [State.weight, State.handlerWeight, hh, HandlerPc.weight]
        omega
    | ret =>
      simp only [sigchldHanlder, hh, Option.some.injEq] at h
      exact h ▸ resume_weight hh (Nat.le_refl _)

theorem reap_weight {i : Fin N} (h : reap s i = some s') : s'.weight < s.weight := by
  simp only [reap, Option.ite_none_right_eq_some, Option.some.injEq] at h
  obtain ⟨⟨hh, hz⟩, rfl⟩ := h
  have hload := load_update s.children ChildState.weight i .reaped
  simp only [hz, ChildState.weight] at hload
  simp only [State.weight, State.handlerWeight, State.setChild, hh, HandlerPc.weight]
  omega

/-- Where a signal is delivered no handler runs. -/
theorem deliver_weight (hi : Inv s) (h : deliver s = some s') : s'.weight < s.weight := by
  simp only [deliver, Option.ite_none_right_eq_some] at h
  obtain ⟨⟨hp, hb⟩, h⟩ := h
  obtain ⟨hpc, -, hins, hh, -⟩ := hi.suspended_of_deliverable hp (by simpa using hb)
  simp only [hins, if_true, Option.some.injEq] at h
  subst h
  simp only [State.weight, State.handlerWeight, hp, hh, HandlerPc.weight, Bool.toNat_true,
    Bool.toNat_false]
  omega

/-- Signals that are already pending swallow the one of the child. -/
theorem exit_weight {i : Fin N} (h : childExit s i = some s') : s'.weight < s.weight := by
  simp only [childExit, Option.ite_none_right_eq_some, Option.some.injEq] at h
  obtain ⟨hrun, rfl⟩ := h
  have hload := load_update s.children ChildState.weight i .zombie
  simp only [hrun, ChildState.weight] at hload
  simp only [State.weight, State.handlerWeight, State.setChild, Bool.toNat_true]
  omega

theorem step_weight {a : Action N} (hi : Inv s) (h : (program N).step s a = some s') :
    s'.weight < s.weight := by
  cases a with
  | main => exact main_weight hi h
  | handler => exact handler_weight h
  | reap i => exact reap_weight h
  | deliver => exact deliver_weight hi h
  | exit i => exact exit_weight h

/-! ## The end of a run -/

theorem main_enabled_of_absent (hi : Inv s) {i : Fin N} (ha : s.children i = .absent) :
    (program N).Enabled s .main := by
  have hm := hi.mainOk
  cases hpc : s.main with
  | setLive | sigaction =>
    simp only [MainOk, hpc] at hm
    simp [System.Enabled, program, step, main, hpc, hm.handler]
  | sigprocmask =>
    simp only [MainOk, hpc] at hm
    simp [System.Enabled, program, step, main, hpc, hm.1.handler]
  | forFork idx =>
    simp only [MainOk, hpc] at hm
    by_cases hidx : idx < N <;>
      simp [System.Enabled, program, step, main, hpc, hm.1.handler, hidx]
  | suspended =>
    simp only [MainOk, hpc] at hm
    exact absurd ha (hm.1 i)
  | whileTest | afterSuspend =>
    simp only [MainOk, hpc] at hm
    exact absurd ha (hm.2 i)
  | sigsuspend | printf | returned =>
    simp only [MainOk, hpc] at hm
    exact absurd ha (hm.2.1 i)

theorem progress (hi : Inv s) (hb : Balanced s.ledger) (hret : s.main ≠ .returned) :
    ∃ a, (program N).Enabled s a := by
  cases hl : s.main.leftLoop with
  | true =>
    obtain ⟨hmask, -⟩ := hi.left_loop hl
    cases hpc : s.main <;> simp only [hpc, MainPc.leftLoop, Bool.false_eq_true] at hl
    case printf => exact ⟨.main, by simp [System.Enabled, program, step, main, hpc, hmask.handler]⟩
    case returned => exact absurd hpc hret
  | false =>
    by_cases hex : ∀ i, s.children i = .zombie ∨ s.children i = .reaped
    · rcases enabled_of_exited hi hb hl hex with h | h | h | ⟨i, h⟩ <;> exact ⟨_, h⟩
    · simp only [not_forall, not_or] at hex
      obtain ⟨i, hz, hr⟩ := hex
      cases hc : s.children i with
      | absent => exact ⟨.main, main_enabled_of_absent hi hc⟩
      | running => exact ⟨.exit i, by simp [System.Enabled, program, step, childExit, hc]⟩
      | zombie => exact absurd hc hz
      | reaped => exact absurd hc hr

theorem all_reaped (hi : Inv s) (hb : Balanced s.ledger) (hl : s.main.leftLoop = true) :
    (∀ i, s.children i = .reaped) ∧ s.numLiveChildren = 0 := by
  obtain ⟨hmask, -, hle⟩ := hi.left_loop hl
  have hc := hi.counted (by intro hpc; simp [hpc, MainPc.leftLoop] at hl)
  simp only [hmask.handler, reduceCtorEq, if_false] at hc
  have ho := hb.outstanding_add_length
  rw [Fintype.card_fin] at ho
  have hr : s.ledger.log.length = s.reaps.length := rfl
  have hz : tally s.ledger.phase (· ≠ .collected) = 0 := by omega
  refine ⟨fun i => ?_, by omega⟩
  have hphase : (s.children i).phase = .collected := not_not.mp (tally_eq_zero_iff.mp hz i)
  cases hci : s.children i <;> simp_all [ChildState.phase]

theorem halted_iff (hi : Inv s) (hb : Balanced s.ledger) :
    (program N).Halted s ↔ s.main = .returned := by
  constructor
  · intro hhalted
    by_contra hret
    obtain ⟨a, henabled⟩ := progress hi hb hret
    exact hhalted.not_enabled a henabled
  · intro hpc a
    have hl : s.main.leftLoop = true := by simp [hpc, MainPc.leftLoop]
    obtain ⟨hmask, -⟩ := hi.left_loop hl
    cases a with
    | main => simp [program, step, main, hpc]
    | handler => simp [program, step, sigchldHanlder, hmask.handler]
    | reap i => simp [program, step, reap, hmask.handler]
    | deliver => simp [program, step, deliver, hmask.blocked]
    | exit i => simp [program, step, childExit, (all_reaped hi hb hl).1 i]

/-- A run of the program has at most so many steps, and nothing more is possible just when `main`
has returned; all children have been reaped then, and the counter of the living ones is zero. A
signal that is still pending is never delivered. -/
theorem sigchld_ends {blocked : Bool} {as : List (Action N)}
    (hrun : (program N).run (start N blocked) as = some s) :
    as.length ≤ 13 * N + 7 ∧
    ((program N).Halted s ↔ s.main = .returned) ∧
    ((program N).Halted s → (∀ i, s.children i = .reaped) ∧ s.numLiveChildren = 0) := by
  have hreach := (System.Reachable.init (M := program N) ⟨blocked, rfl⟩).run hrun
  have hi := inv_of_reachable hreach
  have hb := balanced_of_program hreach
  refine ⟨?_, halted_iff hi hb, fun hhalted => ?_⟩
  · have hle := System.length_run_le (inv_invariant (N := N)).step
      (fun _ _ _ h hs => step_weight h hs) (inv_start blocked) hrun
    rwa [weight_start] at hle
  · have hpc := (halted_iff hi hb).mp hhalted
    exact all_reaped hi hb (by simp [hpc, MainPc.leftLoop])

theorem coalesced_isSome :
    ((program 2).run (start 2 false) (coalescedSchedule 0 1)).isSome = true := by decide

theorem sigchld_ends_coalesced :
    (coalescedSchedule (0 : Fin 2) 1).length ≤ 13 * 2 + 7 ∧
      ∃ s, (program 2).run (start 2 false) (coalescedSchedule 0 1) = some s ∧
        (program 2).Halted s ∧ (∀ i, s.children i = .reaped) ∧ s.numLiveChildren = 0 := by
  have hrun := System.run_after _ coalesced_isSome
  obtain ⟨hlength, hiff, hend⟩ := sigchld_ends hrun
  have hhalted := hiff.mpr (by decide)
  exact ⟨hlength, _, hrun, hhalted, hend hhalted⟩

end LinuxTemplates.SigchldProgram
