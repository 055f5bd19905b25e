import LinuxTemplates.SigchldInvariant

/-!
# Child accounting and no lost child in `sigchld.cpp`

The program refines the ledger of tasks: an exit finishes a child and a `waitpid`
collects it. The balance of the ledger gives what `num_live_children` counts.
-/

namespace LinuxTemplates.SigchldProgram
open TransitionSystems TaskLedgers

variable {N : ℕ} {s s' : State N}

/-! ## The ledger of children -/

def ChildState.phase : ChildState → Phase
  | .absent | .running => .running
  | .zombie => .finished
  | .reaped => .collected

def State.ledger (s : State N) : Ledger (Fin N) := ⟨fun i => (s.children i).phase, s.reaps⟩

theorem ledger_setChild (i : Fin N) (c : ChildState) :
    (fun j => ((s.setChild i c).children j).phase) =
      Function.update (fun j => (s.children j).phase) i c.phase := by
  funext j
  by_cases hj : j = i
  · subst hj
    simp [State.setChild]
  · simp [State.setChild, hj]

theorem main_ledger (hi : Inv s) (h : main s = some s') : s'.ledger = s.ledger := by
  have hm := hi.mainOk
  simp only [main, Option.ite_none_left_eq_some, not_not] at h
  obtain ⟨hh, h⟩ := h
  cases hpc : s.main <;> simp only [hpc, Option.some.injEq, reduceCtorEq] at h
  case forFork idx =>
    by_cases hidx : idx < N
    · simp only [hidx, dif_pos, Option.some.injEq] at h
      simp only [MainOk, hpc] at hm
      have habs : s.children ⟨idx, hidx⟩ = .absent := by
        by_contra hne
        exact absurd ((hm.2.2 _).mp hne) (lt_irrefl _)
      subst h
      ext1
      · exact (ledger_setChild ⟨idx, hidx⟩ .running).trans
          (Function.update_eq_self_iff.mpr (by simp [habs, ChildState.phase]))
      · rfl
    · simp only [hidx, dif_neg, not_false_eq_true, Option.some.injEq] at h
      exact h ▸ rfl
  all_goals exact h ▸ rfl

theorem handler_ledger (h : sigchldHanlder s = some s') : s'.ledger = s.ledger := by
  simp only [sigchldHanlder] at h
  split at h
  case h_3 =>
    split at h
    · cases h
    · split at h <;> exact (Option.some.inj h) ▸ rfl
  case h_5 => split at h <;> exact (Option.some.inj h) ▸ rfl
  case h_1 => cases h
  all_goals exact (Option.some.inj h) ▸ rfl

theorem deliver_ledger (h : deliver s = some s') : s'.ledger = s.ledger := by
  simp only [deliver, Option.ite_none_right_eq_some] at h
  obtain ⟨-, h⟩ := h
  split at h <;> exact (Option.some.inj h) ▸ rfl

theorem refines_ledger : Refines (program N) (ledgers (Fin N)) State.ledger where
  init s := by
    rintro ⟨blocked, rfl⟩
    exact ⟨fun _ => rfl, rfl⟩
  step s a s' hr h := by
    have hi := inv_of_reachable hr
    cases a with
    | main => exact .inl (main_ledger hi h)
    | handler => exact .inl (handler_ledger h)
    | deliver => exact .inl (deliver_ledger h)
    | reap i =>
      simp only [program, step, reap, Option.ite_none_right_eq_some, Option.some.injEq] at h
      obtain ⟨⟨-, hz⟩, rfl⟩ := h
      have hphase : s.ledger.phase i = .finished := by simp [State.ledger, hz, ChildState.phase]
      refine .inr ⟨.collect i, ?_⟩
      simp only [ledgers, post, hphase, if_true, Option.some.injEq]
      ext1
      · exact (ledger_setChild i .reaped).symm
      · rfl
    | exit i =>
      simp only [program, step, childExit, Option.ite_none_right_eq_some, Option.some.injEq] at h
      obtain ⟨hrun, rfl⟩ := h
      have hphase : s.ledger.phase i = .running := by simp [State.ledger, hrun, ChildState.phase]
      refine .inr ⟨.finish i, ?_⟩
      simp only [ledgers, post, hphase, if_true, Option.some.injEq]
      ext1
      · exact (ledger_setChild i .zombie).symm
      · rfl

theorem balanced_of_program (h : (program N).Reachable s) : Balanced s.ledger :=
  balanced_of_reachable (refines_ledger.reachable h)

/-! ## Accounting -/

/-- `main` has left its loop. -/
def MainPc.leftLoop : MainPc → Bool
  | .printf | .returned => true
  | _ => false

theorem Inv.left_loop (hi : Inv s) (hl : s.main.leftLoop = true) :
    Masked s ∧ s.AllForked ∧ s.numLiveChildren ≤ 0 := by
  have hm := hi.mainOk
  cases hpc : s.main <;> simp only [hpc, MainPc.leftLoop, Bool.false_eq_true] at hl
  all_goals
    simp only [MainOk, hpc] at hm
    exact hm

theorem Inv.sigCnt_le (hi : Inv s) : s.sigCnt ≤ N := by
  have hd := hi.deliveries
  have ht := tally_le_card (f := s.children) (P := fun c => c.exited = true)
  have hu : 0 ≤ s.uncounted := by
    simp only [State.uncounted]
    split <;> simp
  have hp : (0 : ℤ) ≤ if s.pending then 1 else 0 := by split <;> simp
  rw [Fintype.card_fin] at ht
  omega

/-- Children are counted down as `waitpid` returns them, each once; at the end of the
loop all are reaped and the signals caught are at most as many as the children. -/
theorem child_accounting (h : (program N).Reachable s) :
    (∀ s', (program N).step s .deliver = some s' → s.main = .suspended) ∧
    (s.handler ≠ none → s.main = .suspended) ∧
    (s.main ≠ .setLive → s.numLiveChildren =
      N - s.reaps.length + if s.handler = some .decLive then 1 else 0) ∧
    s.reaps.Nodup ∧
    (s.main.leftLoop = true → (∀ i, s.reaps.count i = 1) ∧ s.sigCnt ≤ N ∧
      (0 < N → 1 ≤ s.sigCnt)) := by
  have hi := inv_of_reachable h
  have hb := balanced_of_program h
  refine ⟨?_, fun hh => (hi.suspended_of_handler hh).1, ?_, hb.nodup, ?_⟩
  · intro s' hs
    simp only [program, step, deliver, Option.ite_none_right_eq_some] at hs
    exact (hi.suspended_of_deliverable hs.1.1 (by simpa using hs.1.2)).1
  · intro hne
    have hc := hi.counted hne
    omega
  · intro hl
    obtain ⟨hmask, -, hle⟩ := hi.left_loop hl
    have hlen : (N : ℤ) ≤ s.reaps.length := by
      have hc := hi.counted (by intro hpc; simp [hpc, MainPc.leftLoop] at hl)
      simp only [hmask.handler, reduceCtorEq, if_false] at hc
      omega
    refine ⟨hb.count_eq_one ?_, hi.sigCnt_le, fun hN => ?_⟩
    · have ho := hb.outstanding_add_length
      rw [Fintype.card_fin] at ho
      have hr : s.ledger.log.length = s.reaps.length := rfl
      omega
    · have hne : s.reaps ≠ [] := by
        intro hnil
        simp only [hnil, List.length_nil] at hlen
        omega
      have hd := hi.handled hne
      have hu : s.uncounted = 0 := by
        cases hpc : s.main <;>
          simp_all [State.uncounted, MainPc.leftLoop, hmask.handler]
      omega

/-- The second child exits while the handler still scans and leaves a signal pending. -/
def coalescedSchedule (i j : Fin N) : List (Action N) :=
  List.replicate 4 .main ++ [.exit i] ++ List.replicate 4 .main ++ [.deliver, .handler, .reap i,
    .handler, .exit j, .reap j] ++ List.replicate 5 .handler ++ List.replicate 3 .main

theorem child_accounting_coalesced :
    (∀ i, ((program 2).after (start 2 false) (coalescedSchedule 0 1) (by decide)).reaps.count i = 1) ∧
      ((program 2).after (start 2 false) (coalescedSchedule 0 1) (by decide)).sigCnt ≤ 2 ∧
      (0 < 2 → 1 ≤ ((program 2).after (start 2 false) (coalescedSchedule 0 1) (by decide)).sigCnt) :=
  (child_accounting ((program 2).reachable_after ⟨false, rfl⟩ (coalescedSchedule 0 1)
    (by decide))).2.2.2.2 (by decide)

/-! ## No lost child -/

/-- While a child is still to be reaped and none is running, one is a zombie. -/
theorem exists_zombie (hi : Inv s) (hb : Balanced s.ledger) (hf : s.AllForked)
    (hpos : 0 < s.numLiveChildren) (hne : s.main ≠ .setLive) (hh : s.handler = none)
    (hrun : ∀ i, s.children i ≠ .running) : ∃ i, s.children i = .zombie := by
  have hc := hi.counted hne
  simp only [hh, reduceCtorEq, if_false] at hc
  have ho := hb.outstanding_add_length
  rw [Fintype.card_fin] at ho
  have hr : s.ledger.log.length = s.reaps.length := rfl
  have hout : 0 < tally s.ledger.phase (· ≠ .collected) := by omega
  obtain ⟨i, hi'⟩ := tally_pos_iff.mp hout
  refine ⟨i, ?_⟩
  have h1 := hf i
  have h2 := hrun i
  cases hci : s.children i <;> simp_all [State.ledger, ChildState.phase]

theorem running_of_quiet (hi : Inv s) (hb : Balanced s.ledger) (hpc : s.main = .suspended)
    (hh : s.handler = none) (hpos : 0 < s.numLiveChildren) (hp : s.pending = false) :
    ∃ i, s.children i = .running := by
  have hm := hi.mainOk
  simp only [MainOk, hpc] at hm
  by_contra hnone
  obtain ⟨i, hz⟩ := exists_zombie hi hb hm.1 hpos (by simp [hpc]) hh (fun i hr => hnone ⟨i, hr⟩)
  rcases hi.zombies i hz with hpend | ⟨g, hg, -⟩
  · simp [hp] at hpend
  · simp [hh] at hg

theorem handler_enabled {pc : HandlerPc} (hh : s.handler = some pc) :
    (program N).Enabled s .handler ∨ ∃ i, (program N).Enabled s (.reap i) := by
  cases pc with
  | waitpid =>
    by_cases hz : ∃ i, s.children i = .zombie
    · obtain ⟨i, hi⟩ := hz
      exact .inr ⟨i, by simp [System.Enabled, program, step, reap, hh, hi]⟩
    · by_cases hr : ∃ i, s.children i = .running <;>
        exact .inl (by simp [System.Enabled, program, step, sigchldHanlder, hh, hz, hr])
  | afterLoop childPid errno =>
    by_cases herr : childPid = -1 ∧ errno ≠ ECHILD <;>
      exact .inl (by simp [System.Enabled, program, step, sigchldHanlder, hh, herr])
  | enter | decLive | sleep | ret =>
    exact .inl (by simp [System.Enabled, program, step, sigchldHanlder, hh])

/-- The process can move unless it waits for a child that is still running. -/
theorem enabled_of_exited (hi : Inv s) (hb : Balanced s.ledger) (hl : s.main.leftLoop = false)
    (hex : ∀ i, s.children i = .zombie ∨ s.children i = .reaped) :
    (program N).Enabled s .main ∨ (program N).Enabled s .handler ∨
      (program N).Enabled s .deliver ∨ ∃ i, (program N).Enabled s (.reap i) := by
  have hm := hi.mainOk
  cases hh : s.handler with
  | some pc =>
    rcases handler_enabled hh with h | h
    · exact .inr (.inl h)
    · exact .inr (.inr (.inr h))
  | none =>
    cases hpc : s.main with
    | printf | returned => simp [hpc, MainPc.leftLoop] at hl
    | forFork idx =>
      by_cases hidx : idx < N <;>
        exact .inl (by simp [System.Enabled, program, step, main, hh, hpc, hidx])
    | setLive | sigaction | sigprocmask | whileTest | sigsuspend | afterSuspend =>
      exact .inl (by simp [System.Enabled, program, step, main, hh, hpc])
    | suspended =>
      simp only [MainOk, hpc] at hm
      obtain ⟨hf, hins, hc⟩ := hm
      rcases hc with ⟨-, hbl, -, hpos⟩ | ⟨hne, -⟩
      · have hrun : ∀ i, s.children i ≠ .running := by
          intro i hr
          rcases hex i with h | h <;> simp [h] at hr
        have hp : s.pending = true := by
          by_contra hnp
          obtain ⟨i, hr⟩ := running_of_quiet hi hb hpc hh hpos (by simpa using hnp)
          exact hrun i hr
        exact .inr (.inr (.inl (by simp [System.Enabled, program, step, deliver, hp, hbl, hins])))
      · exact absurd hh hne

/-- A `main` that sleeps in `sigsuspend` with no SIGCHLD pending still has a running
child; once all have exited the process never gets stuck before the end of its loop. -/
theorem no_lost_child (h : (program N).Reachable s) :
    (s.main = .suspended → s.handler = none → 0 < s.numLiveChildren → s.pending = false →
      ∃ i, s.children i = .running) ∧
    (s.main.leftLoop = false → (∀ i, s.children i = .zombie ∨ s.children i = .reaped) →
      (program N).Enabled s .main ∨ (program N).Enabled s .handler ∨
        (program N).Enabled s .deliver ∨ ∃ i, (program N).Enabled s (.reap i)) := by
  have hi := inv_of_reachable h
  have hb := balanced_of_program h
  exact ⟨running_of_quiet hi hb, enabled_of_exited hi hb⟩

/-- The first child is reaped and `main` is suspended again. -/
def suspendedSchedule (i : Fin N) : List (Action N) :=
  List.replicate 8 .main ++ [.exit i, .deliver, .handler, .reap i] ++
    List.replicate 5 .handler ++ List.replicate 3 .main

theorem no_lost_child_suspended :
    ∃ i, ((program 2).after (start 2 true) (suspendedSchedule 0) (by decide)).children i = .running :=
  (no_lost_child ((program 2).reachable_after ⟨true, rfl⟩ (suspendedSchedule 0) (by decide))).1
    (by decide) (by decide) (by decide) (by decide)

end LinuxTemplates.SigchldProgram
