import LinuxTemplates.SigchldProgram

/-!
# The invariant of `sigchld.cpp`

Every step of the process, of a child and of the kernel keeps it. The two ideas in it
are that a zombie implies a pending signal or a running scan, and that each delivery
uses up the exit that made the signal pending.
-/

namespace LinuxTemplates.SigchldProgram
open TransitionSystems TaskLedgers

variable {N : ℕ} {s s' : State N}

/-! ## The invariant -/

theorem inv_start (blocked : Bool) : Inv (start N blocked) where
  mainOk := ⟨fun _ => rfl, rfl, rfl, rfl, rfl⟩
  counted h := absurd rfl h
  zombies i h := by simp [start] at h
  deliveries := by simp [start, State.uncounted]
  handled h := absurd rfl h
  sigCnt_nonneg := le_refl _

/-- A running handler has interrupted `sigsuspend`. -/
theorem Inv.suspended_of_handler (hi : Inv s) (hh : s.handler ≠ none) :
    s.main = .suspended ∧ s.AllForked ∧ s.installed = true ∧ s.blocked = true ∧
      s.resumeMask = true := by
  have hm := hi.mainOk
  cases hpc : s.main <;> simp only [MainOk, hpc] at hm
  case suspended =>
    obtain ⟨hf, hins, hc⟩ := hm
    rcases hc with hc | hc
    · exact absurd hc.1 hh
    · exact ⟨rfl, hf, hins, hc.2⟩
  case setLive | sigaction => exact absurd hm.handler hh
  all_goals exact absurd hm.1.handler hh

/-- SIGCHLD is pending and not blocked only in `sigsuspend`. -/
theorem Inv.suspended_of_deliverable (hi : Inv s) (hp : s.pending = true)
    (hb : s.blocked = false) : s.main = .suspended ∧ s.AllForked ∧ s.installed = true ∧
      s.handler = none ∧ s.suspendMask = true ∧ 0 < s.numLiveChildren := by
  have hm := hi.mainOk
  cases hpc : s.main <;> simp only [MainOk, hpc] at hm
  case suspended =>
    obtain ⟨hf, hins, hc⟩ := hm
    rcases hc with hc | hc
    · exact ⟨rfl, hf, hins, hc.1, hc.2.2⟩
    · simp [hc.2.1] at hb
  case setLive | sigaction => simp [hm.pending] at hp
  case sigprocmask => simp [hm.1.pending] at hp
  all_goals simp [hm.1.blocked] at hb

theorem Masked.congr (hm : Masked s) (hi : s'.installed = s.installed)
    (hh : s'.handler = s.handler) (hb : s'.blocked = s.blocked) : Masked s' :=
  ⟨hi ▸ hm.installed, hh ▸ hm.handler, hb ▸ hm.blocked⟩

theorem exit_mainOk {i : Fin N} (hi : Inv s) (hrun : s.children i = .running) :
    MainOk { s.setChild i .zombie with pending := true } := by
  have hm := hi.mainOk
  have habs : ∀ j, (s.setChild i .zombie).children j ≠ .absent ↔ s.children j ≠ .absent := by
    intro j
    by_cases hj : j = i
    · subst hj
      simp [State.setChild, hrun]
    · simp [State.setChild, hj]
  have hall : s.AllForked → ∀ j, (s.setChild i .zombie).children j ≠ .absent :=
    fun hf j => (habs j).mpr (hf j)
  cases hpc : s.main <;> simp only [MainOk, hpc] at hm
  case setLive | sigaction => simp [hm.children i] at hrun
  case sigprocmask => simp [hm.1.children i] at hrun
  case forFork idx =>
    simp only [MainOk, State.setChild, hpc]
    exact ⟨hm.1.congr rfl rfl rfl, hm.2.1, fun j => (habs j).trans (hm.2.2 j)⟩
  case whileTest | afterSuspend =>
    simp only [MainOk, State.setChild, hpc]
    exact ⟨hm.1.congr rfl rfl rfl, hall hm.2⟩
  case sigsuspend | printf | returned =>
    simp only [MainOk, State.setChild, hpc]
    exact ⟨hm.1.congr rfl rfl rfl, hall hm.2.1, hm.2.2⟩
  case suspended =>
    simp only [MainOk, State.setChild, hpc]
    exact ⟨hall hm.1, hm.2⟩

theorem exit_inv {i : Fin N} (hi : Inv s) (h : childExit s i = some s') : Inv s' := by
  simp only [childExit, Option.ite_none_right_eq_some, Option.some.injEq] at h
  obtain ⟨hrun, rfl⟩ := h
  refine ⟨exit_mainOk hi hrun, hi.counted, fun _ _ => .inl rfl, ?_, hi.handled,
    hi.sigCnt_nonneg⟩
  have ht := tally_update s.children (fun c => c.exited = true) i .zombie
  simp only [hrun, exited_running, exited_zombie, Bool.false_eq_true, if_false, if_true] at ht
  have hd := hi.deliveries
  have hp : (if s.pending then 1 else 0 : ℤ) ≥ 0 := by split <;> simp
  change s.sigCnt + s.uncounted + 1 ≤
    (tally (Function.update s.children i .zombie) (fun c => c.exited = true) : ℤ)
  omega

theorem reap_inv {i : Fin N} (hi : Inv s) (h : reap s i = some s') : Inv s' := by
  simp only [reap, Option.ite_none_right_eq_some, Option.some.injEq] at h
  obtain ⟨⟨hh, hz⟩, rfl⟩ := h
  obtain ⟨hpc, hf, hins, hb, hr⟩ := hi.suspended_of_handler (by simp [hh])
  have hun : s.uncounted = 1 := by simp [State.uncounted, hh]
  have ht := tally_update s.children (fun c => c.exited = true) i .reaped
  simp only [hz, exited_zombie, exited_reaped, if_true] at ht
  refine ⟨?_, ?_, fun j _ => .inr ⟨_, rfl, rfl⟩, ?_, ?_, hi.sigCnt_nonneg⟩
  · simp only [MainOk, State.setChild, hpc]
    refine ⟨fun j => ?_, hins, .inr ⟨by simp, hb, hr⟩⟩
    by_cases hj : j = i
    · subst hj
      simp
    · simpa [hj] using hf j
  · intro hne
    have hc := hi.counted (by simp [hpc])
    simp only [hh, Option.some.injEq, reduceCtorEq, if_false] at hc
    simp only [State.setChild, List.length_append, List.length_singleton, if_true]
    omega
  · have hd := hi.deliveries
    change s.sigCnt + 1 + (if s.pending then 1 else 0) ≤
      (tally (Function.update s.children i .reaped) (fun c => c.exited = true) : ℤ)
    omega
  · intro _
    have hs := hi.sigCnt_nonneg
    simp only [State.uncounted, State.setChild, ne_eq, reduceCtorEq, not_false_eq_true, true_or,
      if_true]
    omega

theorem deliver_inv (hi : Inv s) (h : deliver s = some s') : Inv s' := by
  simp only [deliver, Option.ite_none_right_eq_some] at h
  obtain ⟨⟨hp, hb⟩, h⟩ := h
  obtain ⟨hpc, hf, hins, hh, hsm, hpos⟩ := hi.suspended_of_deliverable hp (by simpa using hb)
  simp only [hins, if_true, hpc, Option.some.injEq] at h
  subst h
  have hun : s.uncounted = 0 := by simp [State.uncounted, hh, hpc]
  refine ⟨?_, ?_, fun j _ => .inr ⟨_, rfl, rfl⟩, ?_, ?_, hi.sigCnt_nonneg⟩
  · exact ⟨hf, rfl, .inr ⟨by simp, rfl, hsm⟩⟩
  · intro hne
    have hc := hi.counted (by simp [hpc])
    simpa [hh] using hc
  · have hd := hi.deliveries
    simp only [hun, hp, if_true] at hd
    simp only [State.uncounted, ne_eq, reduceCtorEq, not_false_eq_true, true_or, if_true,
      Bool.false_eq_true, if_false]
    omega
  · intro _
    have hs := hi.sigCnt_nonneg
    simp only [State.uncounted, ne_eq, reduceCtorEq, not_false_eq_true, true_or, if_true]
    omega

/-- The handler moves on without touching the children or the counters. -/
theorem inv_setHandler (hi : Inv s) {h h' : HandlerPc} (hh : s.handler = some h)
    (hd : h ≠ .decLive) (hd' : h' ≠ .decLive)
    (hz : h'.scanning = true ∨ h.scanning = false ∨ ∀ i, s.children i ≠ .zombie) :
    Inv { s with handler := some h' } := by
  obtain ⟨hpc, hf, hins, hb, hr⟩ := hi.suspended_of_handler (by simp [hh])
  have hun : ({ s with handler := some h' } : State N).uncounted = s.uncounted := by
    simp [State.uncounted, hh]
  refine ⟨?_, ?_, ?_, ?_, ?_, hi.sigCnt_nonneg⟩
  · simp only [MainOk, hpc]
    exact ⟨hf, hins, .inr ⟨by simp, hb, hr⟩⟩
  · intro hne
    have hc := hi.counted hne
    simpa [hh, hd, hd'] using hc
  · intro i hzi
    rcases hz with hz | hz | hz
    · exact .inr ⟨h', rfl, hz⟩
    · refine (hi.zombies i hzi).imp_right ?_
      rintro ⟨g, hg, hsc⟩
      rw [hh, Option.some.injEq] at hg
      simp [← hg, hz] at hsc
    · exact absurd hzi (hz i)
  · rw [hun]
    exact hi.deliveries
  · rw [hun]
    exact hi.handled

theorem inv_resume (hi : Inv s) {h : HandlerPc} (hh : s.handler = some h)
    (hd : h ≠ .decLive) (hsc : h.scanning = false) : Inv s.resume := by
  obtain ⟨hpc, hf, hins, hb, hr⟩ := hi.suspended_of_handler (by simp [hh])
  have hun : s.resume.uncounted = s.uncounted := by
    simp [State.uncounted, State.resume, hh, hpc]
  refine ⟨?_, ?_, ?_, ?_, ?_, hi.sigCnt_nonneg⟩
  · simp only [MainOk, State.resume, hpc, if_true]
    exact ⟨⟨hins, rfl, hr⟩, hf⟩
  · intro _
    have hc := hi.counted (by simp [hpc])
    simpa [State.resume, hh, hd] using hc
  · intro i hzi
    refine .inl ((hi.zombies i hzi).resolve_right ?_)
    rintro ⟨g, hg, hg'⟩
    rw [hh, Option.some.injEq] at hg
    simp [← hg, hsc] at hg'
  · rw [hun]
    exact hi.deliveries
  · rw [hun]
    exact hi.handled

theorem inv_decLive (hi : Inv s) (hh : s.handler = some .decLive) :
    Inv { s with handler := some .waitpid, numLiveChildren := s.numLiveChildren - 1 } := by
  obtain ⟨hpc, hf, hins, hb, hr⟩ := hi.suspended_of_handler (by simp [hh])
  have hun : ({ s with handler := some .waitpid, numLiveChildren := s.numLiveChildren - 1 } :
      State N).uncounted = s.uncounted := by
    simp [State.uncounted, hh]
  refine ⟨?_, ?_, fun _ _ => .inr ⟨_, rfl, rfl⟩, ?_, ?_, hi.sigCnt_nonneg⟩
  · simp only [MainOk, hpc]
    exact ⟨hf, hins, .inr ⟨by simp, hb, hr⟩⟩
  · intro hne
    have hc := hi.counted hne
    simp only [hh, if_true, Option.some.injEq, reduceCtorEq, if_false] at hc ⊢
    omega
  · rw [hun]
    exact hi.deliveries
  · rw [hun]
    exact hi.handled

theorem handler_inv (hi : Inv s) (h : sigchldHanlder s = some s') : Inv s' := by
  cases hh : s.handler with
  | none => simp [sigchldHanlder, hh] at h
  | some pc =>
    cases pc with
    | enter =>
      simp only [sigchldHanlder, hh, Option.some.injEq] at h
      exact h ▸ inv_setHandler hi hh (by simp) (by simp) (.inl rfl)
    | waitpid =>
      by_cases hz : ∃ i, s.children i = .zombie
      · simp [sigchldHanlder, hh, hz] at h
      · have hnone : ∀ i, s.children i ≠ .zombie := fun i hi => hz ⟨i, hi⟩
        by_cases hr : ∃ i, s.children i = .running
        · simp only [sigchldHanlder, hh, hz, hr, if_true, if_false, Option.some.injEq] at h
          exact h ▸ inv_setHandler hi hh (by simp) (by simp) (.inr (.inr hnone))
        · simp only [sigchldHanlder, hh, hz, hr, if_false, Option.some.injEq] at h
          exact h ▸ inv_setHandler hi hh (by simp) (by simp) (.inr (.inr hnone))
    | decLive =>
      simp only [sigchldHanlder, hh, Option.some.injEq] at h
      exact h ▸ inv_decLive hi hh
    | afterLoop childPid errno =>
      by_cases herr : childPid = -1 ∧ errno ≠ ECHILD
      · simp only [sigchldHanlder, hh, herr, ne_eq, not_false_eq_true, and_self, if_true,
          Option.some.injEq] at h
        exact h ▸ inv_resume hi hh (by simp) rfl
      · simp only [sigchldHanlder, hh, herr, if_false, Option.some.injEq] at h
        exact h ▸ inv_setHandler hi hh (by simp) (by simp) (.inr (.inl rfl))
    | sleep =>
      simp only [sigchldHanlder, hh, Option.some.injEq] at h
      exact h ▸ inv_setHandler hi hh (by simp) (by simp) (.inr (.inl rfl))
    | ret =>
      simp only [sigchldHanlder, hh, Option.some.injEq] at h
      exact h ▸ inv_resume hi hh (by simp) rfl

/-- `main` has set its counter and owes no `sig_cnt++`. -/
def MainPc.quiet : MainPc → Bool
  | .setLive | .afterSuspend => false
  | _ => true

/-- Steps of `main` that leave the children, the flags and `sig_cnt` as they are. -/
theorem inv_goto (hi : Inv s) (hh : s.handler = none) {pc m : MainPc} (hpc : s.main = pc)
    (hq : pc.quiet = true) (hq' : m.quiet = true) {bl sm ins : Bool}
    (hok : MainOk { s with main := m, blocked := bl, suspendMask := sm, installed := ins }) :
    Inv { s with main := m, blocked := bl, suspendMask := sm, installed := ins } := by
  have hset : s.main ≠ .setLive := by
    rintro heq
    rw [← hpc, heq] at hq
    cases hq
  have hs : s.main ≠ .afterSuspend := by
    rintro heq
    rw [← hpc, heq] at hq
    cases hq
  have hm : m ≠ .afterSuspend := by
    rintro rfl
    cases hq'
  have hun : ({ s with main := m, blocked := bl, suspendMask := sm, installed := ins } :
      State N).uncounted = s.uncounted := by
    simp [State.uncounted, hh, hm, hs]
  refine ⟨hok, fun _ => hi.counted hset, hi.zombies, ?_, ?_, hi.sigCnt_nonneg⟩
  · rw [hun]
    exact hi.deliveries
  · rw [hun]
    exact hi.handled

theorem inv_setLive (hi : Inv s) (hf : Fresh s) (hpc : s.main = .setLive) :
    Inv { s with main := .sigaction, numLiveChildren := N } := by
  refine ⟨⟨hf.1, hf.2, hf.3, hf.4, hf.5⟩, ?_, hi.zombies, ?_, ?_, hi.sigCnt_nonneg⟩
  · intro _
    simp [hf.reaps, hf.handler]
  · simpa [State.uncounted, hpc] using hi.deliveries
  · simpa [State.uncounted, hpc] using hi.handled

theorem inv_fork (hi : Inv s) {idx : ℕ} (hpc : s.main = .forFork idx) (hidx : idx < N) :
    Inv { s.setChild ⟨idx, hidx⟩ .running with main := .forFork (idx + 1) } := by
  have hm := hi.mainOk
  simp only [MainOk, hpc] at hm
  have habs : s.children ⟨idx, hidx⟩ = .absent := by
    by_contra hne
    exact absurd ((hm.2.2 _).mp hne) (lt_irrefl _)
  have ht := tally_update s.children (fun c => c.exited = true) ⟨idx, hidx⟩ .running
  simp only [habs, exited_absent, exited_running, Bool.false_eq_true, if_false, Nat.add_zero] at ht
  have hun : ({ s.setChild ⟨idx, hidx⟩ .running with main := .forFork (idx + 1) } :
      State N).uncounted = s.uncounted := by
    simp [State.uncounted, State.setChild, hpc]
  refine ⟨⟨hm.1.congr rfl rfl rfl, hm.2.1, fun j => ?_⟩, ?_, fun j hz => ?_, ?_, ?_,
    hi.sigCnt_nonneg⟩
  · by_cases hj : j = ⟨idx, hidx⟩
    · simp [State.setChild, hj]
    · have hv : j.val ≠ idx := fun hv => hj (Fin.ext hv)
      simp only [State.setChild, Function.update_of_ne hj, hm.2.2 j]
      omega
  · intro _
    exact hi.counted (by simp [hpc])
  · by_cases hj : j = ⟨idx, hidx⟩
    · simp [State.setChild, hj] at hz
    · exact hi.zombies j (by simpa [State.setChild, hj] using hz)
  · rw [hun]
    simp only [State.setChild, ht]
    exact hi.deliveries
  · rw [hun]
    exact hi.handled

/-- `sig_cnt++` after the return of `sigsuspend`. -/
theorem inv_count (hi : Inv s) (hpc : s.main = .afterSuspend) :
    Inv { s with main := .whileTest, sigCnt := s.sigCnt + 1 } := by
  have hm := hi.mainOk
  simp only [MainOk, hpc] at hm
  have hone : s.uncounted = 1 := by simp [State.uncounted, hpc]
  have hzero : ({ s with main := .whileTest, sigCnt := s.sigCnt + 1 } : State N).uncounted = 0 := by
    simp [State.uncounted, hm.1.handler]
  refine ⟨⟨hm.1.congr rfl rfl rfl, hm.2⟩, fun _ => hi.counted (by simp [hpc]), hi.zombies, ?_, ?_,
    ?_⟩
  · have hd := hi.deliveries
    rw [hone] at hd
    rw [hzero, add_zero]
    exact hd
  · have hh := hi.handled
    rw [hone] at hh
    rw [hzero, add_zero]
    exact hh
  · have hs := hi.sigCnt_nonneg
    simp only
    omega

theorem main_inv (hi : Inv s) (h : main s = some s') : Inv s' := by
  have hm := hi.mainOk
  simp only [main, Option.ite_none_left_eq_some, not_not] at h
  obtain ⟨hh, h⟩ := h
  cases hpc : s.main with
  | setLive =>
    simp only [hpc, Option.some.injEq] at h
    simp only [MainOk, hpc] at hm
    subst h
    exact inv_setLive hi hm hpc
  | sigaction =>
    simp only [hpc, Option.some.injEq] at h
    simp only [MainOk, hpc] at hm
    subst h
    exact inv_goto hi hh hpc rfl rfl ⟨⟨hm.1, hm.2, hm.3, hm.4, hm.5⟩, rfl⟩
  | sigprocmask =>
    simp only [hpc, Option.some.injEq] at h
    simp only [MainOk, hpc] at hm
    subst h
    exact inv_goto hi hh hpc rfl rfl
      ⟨⟨hm.2, hh, rfl⟩, hm.1.sigCnt, fun i => by simp [hm.1.children i]⟩
  | forFork idx =>
    by_cases hidx : idx < N
    · simp only [hpc, hidx, dif_pos, Option.some.injEq] at h
      exact h ▸ inv_fork hi hpc hidx
    · simp only [hpc, hidx, dif_neg, not_false_eq_true, Option.some.injEq] at h
      simp only [MainOk, hpc] at hm
      rw [← hm.2.1] at h
      subst h
      exact inv_goto hi hh hpc rfl rfl
        ⟨hm.1.congr rfl rfl rfl, fun i => (hm.2.2 i).mpr (by omega)⟩
  | whileTest =>
    simp only [hpc, Option.some.injEq] at h
    simp only [MainOk, hpc] at hm
    by_cases hl : s.numLiveChildren > 0
    · rw [if_pos hl] at h
      subst h
      exact inv_goto hi hh hpc rfl rfl
        ⟨hm.1.congr rfl rfl rfl, hm.2, hl⟩
    · rw [if_neg hl] at h
      subst h
      exact inv_goto hi hh hpc rfl rfl
        ⟨hm.1.congr rfl rfl rfl, hm.2, not_lt.mp hl⟩
  | sigsuspend =>
    simp only [hpc, Option.some.injEq] at h
    simp only [MainOk, hpc] at hm
    subst h
    exact inv_goto hi hh hpc rfl rfl
      ⟨hm.2.1, hm.1.installed, .inl ⟨hh, rfl, hm.1.blocked, hm.2.2⟩⟩
  | suspended => simp [hpc] at h
  | afterSuspend =>
    simp only [hpc, Option.some.injEq] at h
    exact h ▸ inv_count hi hpc
  | printf =>
    simp only [hpc, Option.some.injEq] at h
    simp only [MainOk, hpc] at hm
    subst h
    exact inv_goto hi hh hpc rfl rfl
      ⟨hm.1.congr rfl rfl rfl, hm.2.1, hm.2.2⟩
  | returned => simp [hpc] at h

theorem inv_invariant : (program N).Invariant Inv where
  init s := by
    rintro ⟨blocked, rfl⟩
    exact inv_start blocked
  step s a s' hi h := by
    cases a with
    | main => exact main_inv hi h
    | handler => exact handler_inv hi h
    | reap i => exact reap_inv hi h
    | deliver => exact deliver_inv hi h
    | exit i => exact exit_inv hi h

theorem inv_of_reachable (h : (program N).Reachable s) : Inv s :=
  inv_invariant.reachable h

end LinuxTemplates.SigchldProgram
