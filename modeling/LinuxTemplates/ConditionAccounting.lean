import LinuxTemplates.ConditionInvariant

/-!
# Thread accounting of `condition.cpp`

The program refines the ledger of tasks, which is where each thread is joined once.
What the counters say while the mutex is free is read off the invariant.
-/

namespace LinuxTemplates.ConditionProgram
open TransitionSystems MutexOwnership TaskLedgers

variable {N : ℕ}

/-! ## The ledger of joins -/

/-- A thread is collected by the return of `pthread_join`, a statement before its
field `state` says so. -/
def State.phase (s : State N) (i : Fin N) : Phase :=
  match s.state i with
  | .tsAlive => .running
  | .tsTerminated => if s.main = .setJoined i then .collected else .finished
  | .tsJoined => .collected

def State.ledger (s : State N) : Ledger (Fin N) := ⟨s.phase, s.joins⟩

theorem ledger_congr {s s' : State N} (hs : s'.state = s.state) (hj : s'.joins = s.joins)
    (hm : ∀ i, s'.main = .setJoined i ↔ s.main = .setJoined i) : s'.ledger = s.ledger := by
  ext1
  · funext i
    simp only [State.ledger, State.phase, hs, hm]
  · exact hj

theorem main_ledger {s s' : State N} (hi : Inv s) (h : main s = some s') :
    s'.ledger = s.ledger ∨ ∃ e, post s.ledger e = some s'.ledger := by
  have hm := hi.main
  cases hpc : s.main with
  | waiting | returned => simp [main, hpc] at h
  | calloc | create | setTotal | setLive | condWait | decLive | decUnjoined | unlock | free =>
    simp only [main, hpc, Option.some.injEq] at h
    exact .inl (h ▸ ledger_congr rfl rfl (by simp [hpc]))
  | whileLive | whileUnjoined =>
    simp only [main, hpc, Option.some.injEq] at h
    exact .inl (h ▸ ledger_congr rfl rfl (by intro i; simp only [hpc]; split <;> simp))
  | lock | reacquire =>
    simp only [main, hpc, Option.ite_none_right_eq_some, Option.some.injEq] at h
    exact .inl (h.2 ▸ ledger_congr rfl rfl (by simp [hpc]))
  | forCreate idx =>
    by_cases hidx : idx < N
    · simp only [main, hpc, hidx, dif_pos, Option.some.injEq, hi.setState_alive hpc] at h
      exact .inl (h ▸ ledger_congr rfl rfl (by simp [hpc]))
    · simp only [main, hpc, hidx, dif_neg, not_false_eq_true, Option.some.injEq] at h
      exact .inl (h ▸ ledger_congr rfl rfl (by simp [hpc]))
  | forReap idx =>
    by_cases hidx : idx < N
    · simp only [main, hpc, hidx, dif_pos, Option.some.injEq] at h
      exact .inl (h ▸ ledger_congr rfl rfl (by intro i; simp only [hpc]; split <;> simp))
    · simp only [main, hpc, hidx, dif_neg, not_false_eq_true, Option.some.injEq] at h
      exact .inl (h ▸ ledger_congr rfl rfl (by simp [hpc]))
  | join idx =>
    simp only [main, hpc, Option.ite_none_right_eq_some, Option.some.injEq] at h
    simp only [MainOk, hpc] at hm
    have hphase : s.ledger.phase idx = .finished := by
      simp [State.ledger, State.phase, hm.2.2, hpc]
    refine .inr ⟨.collect idx, ?_⟩
    simp only [post, hphase, if_true, ← h.2, Option.some.injEq]
    ext1
    · funext j
      by_cases hj : j = idx
      · subst hj
        simp [State.ledger, State.phase, hm.2.2]
      · have hji : idx ≠ j := Ne.symm hj
        simp [State.ledger, State.phase, hj, hji, hpc]
    · rfl
  | setJoined idx =>
    simp only [main, hpc, Option.some.injEq] at h
    simp only [MainOk, hpc] at hm
    refine .inl (h ▸ ?_)
    ext1
    · funext j
      by_cases hj : j = idx
      · subst hj
        simp [State.ledger, State.phase, State.setState, hm.2.2.1, hpc]
      · have hji : idx ≠ j := Ne.symm hj
        simp [State.ledger, State.phase, State.setState, hj, hji, hpc]
    · rfl

theorem worker_ledger {s s' : State N} {i : Fin N} {pc : WorkerPc} {ts : ThreadState}
    (hi : Inv s) (h : Moves s s' i pc ts) :
    s'.ledger = s.ledger ∨ ∃ e, post s.ledger e = some s'.ledger := by
  have hmain : ∀ j, s'.main = .setJoined j ↔ s.main = .setJoined j := by
    intro j
    rcases h.wakes with ⟨hm, -⟩ | ⟨hm, hm'⟩ <;> simp [*]
  rcases h.states with hts | ⟨ha, hts⟩
  · left
    exact ledger_congr (by simp [h.state, hts]) h.same.2.2 hmain
  · right
    refine ⟨.finish i, ?_⟩
    have hrun : s.ledger.phase i = .running := by simp [State.ledger, State.phase, ha]
    have hnot : s.main ≠ .setJoined i := by
      intro hpc
      have hm := hi.main
      simp [MainOk, hpc, ha] at hm
    simp only [post, hrun, if_true, Option.some.injEq]
    ext1
    · funext j
      by_cases hj : j = i
      · subst hj
        simp [State.ledger, State.phase, h.state, hts, hmain, hnot]
      · simp [State.ledger, State.phase, h.state, hj, hmain]
    · simp [State.ledger, h.same.2.2]

theorem refines_ledger : Refines (program N) (ledgers (Fin N)) State.ledger where
  init s hs := by
    subst hs
    exact ⟨fun _ => rfl, rfl⟩
  step s a s' hr h := by
    have hi := inv_of_reachable hr
    cases a with
    | main => exact main_ledger hi h
    | worker i =>
      obtain ⟨pc, ts, hm⟩ := threadFunc_moves hi (step_worker h)
      exact worker_ledger hi hm
    | callFails =>
      simp only [program, step, callFails] at h
      split at h <;> simp only [Option.some.injEq, reduceCtorEq] at h
      all_goals exact .inl (h ▸ ledger_congr rfl rfl (by simp [*]))
    | spuriousWake =>
      simp only [program, step, spuriousWake] at h
      split at h <;> simp only [Option.some.injEq, reduceCtorEq] at h
      exact .inl (h ▸ ledger_congr rfl rfl (by simp [*]))

theorem balanced_of_program {s : State N} (h : (program N).Reachable s) : Balanced s.ledger :=
  balanced_of_reachable (refines_ledger.reachable h)

/-! ## Accounting -/

/-- `main` has executed `num_live = total_threads`. -/
def MainPc.liveSet : MainPc N → Bool
  | .calloc | .forCreate _ | .create _ | .setTotal | .setLive => false
  | .returned ret => ret = 0
  | _ => true

theorem Inv.numUnjoined_of_free {s : State N} (hi : Inv s) (hfree : s.mutex = none) :
    s.numUnjoined = tally s.state (· = .tsTerminated) := by
  have hout : ∀ a, ¬ s.Holds a := (hfree ▸ hi.guards).outside_of_free
  have hw : tally s.worker (· = .setTerminated) = 0 :=
    tally_eq_zero_iff.mpr (fun i hp => hout (.worker i) (by simp [State.Holds, hp, WorkerPc.holds]))
  have ho : s.main.owesUnjoined = 0 := by
    have hmain := hout .main
    cases hpc : s.main <;> simp_all [State.Holds, MainPc.holds, MainPc.owesUnjoined]
  rw [hi.unjoined, hw, ho]
  simp

theorem Inv.numLive_of_free {s : State N} (hi : Inv s) (hfree : s.mutex = none)
    (hset : s.main.liveSet = true) : s.numLive = tally s.state (· ≠ .tsJoined) := by
  have hout : ¬ s.Holds .main := (hfree ▸ hi.guards).outside_of_free .main
  have hm := hi.main
  cases hpc : s.main <;>
    simp_all [State.Holds, MainPc.holds, MainPc.liveSet, MainOk, State.LiveCounted]

theorem main_state {s s' : State N} (hi : Inv s) (h : main s = some s') :
    s'.state = s.state ∨ ∃ i, s.state i = .tsTerminated ∧
      s'.state = Function.update s.state i .tsJoined := by
  have hm := hi.main
  cases hpc : s.main with
  | waiting | returned => simp [main, hpc] at h
  | calloc | create | setTotal | setLive | condWait | decLive | decUnjoined | unlock | free
  | whileLive | whileUnjoined =>
    simp only [main, hpc, Option.some.injEq] at h
    exact .inl (h ▸ rfl)
  | lock | reacquire | join =>
    simp only [main, hpc, Option.ite_none_right_eq_some, Option.some.injEq] at h
    exact .inl (h.2 ▸ rfl)
  | forCreate idx =>
    by_cases hidx : idx < N
    · simp only [main, hpc, hidx, dif_pos, Option.some.injEq, hi.setState_alive hpc] at h
      exact .inl (h ▸ rfl)
    · simp only [main, hpc, hidx, dif_neg, not_false_eq_true, Option.some.injEq] at h
      exact .inl (h ▸ rfl)
  | forReap idx =>
    by_cases hidx : idx < N <;> simp only [main, hpc, hidx, dif_pos, dif_neg,
      not_false_eq_true, Option.some.injEq] at h <;> exact .inl (h ▸ rfl)
  | setJoined idx =>
    simp only [main, hpc, Option.some.injEq] at h
    simp only [MainOk, hpc] at hm
    exact .inr ⟨idx, hm.2.2.1, h ▸ rfl⟩

/-- A state of `thread_t` only moves from alive over terminated to joined. -/
theorem state_moves {s s' : State N} {a : Action N} (hr : (program N).Reachable s)
    (h : (program N).step s a = some s') (i : Fin N) :
    s'.state i = s.state i ∨ (s.state i = .tsAlive ∧ s'.state i = .tsTerminated) ∨
      (s.state i = .tsTerminated ∧ s'.state i = .tsJoined) := by
  have hi := inv_of_reachable hr
  cases a with
  | main =>
    rcases main_state hi h with he | ⟨j, hj, he⟩
    · exact .inl (congrFun he i)
    · by_cases hij : i = j
      · subst hij
        exact .inr (.inr ⟨hj, by simp [he]⟩)
      · exact .inl (by simp [he, hij])
  | worker j =>
    obtain ⟨pc, ts, hm⟩ := threadFunc_moves hi (step_worker h)
    rw [hm.state]
    by_cases hij : i = j
    · subst hij
      simpa using hm.states.imp_right .inl
    · exact .inl (by simp [hij])
  | callFails | spuriousWake =>
    simp only [program, step, callFails, spuriousWake] at h
    split at h <;> simp only [Option.some.injEq, reduceCtorEq] at h
    all_goals exact .inl (h ▸ rfl)

/-- When `main` gets to `free`, and after it. -/
theorem Inv.all_joined {s : State N} (hi : Inv s)
    (hend : s.main = .free ∨ s.main = .returned 0) :
    (∀ i, s.state i = .tsJoined) ∧ s.numLive = 0 ∧ s.numUnjoined = 0 ∧
      ∀ i, s.worker i = .finished := by
  have hm := hi.main
  have hlive : s.LiveCounted ∧ s.numLive ≤ 0 ∧ s.main.owesUnjoined = 0 := by
    rcases hend with hpc | hpc
    · simp only [MainOk, hpc] at hm
      exact ⟨hm.2.1, hm.2.2, by simp [hpc, MainPc.owesUnjoined]⟩
    · simp only [MainOk, hpc] at hm
      have hz := hm.resolve_left (by decide)
      exact ⟨hz.2.2.1, hz.2.2.2, by simp [hpc, MainPc.owesUnjoined]⟩
  obtain ⟨hcount, hle, howes⟩ := hlive
  simp only [State.LiveCounted] at hcount
  have hz : tally s.state (· ≠ .tsJoined) = 0 := by omega
  have hjoined : ∀ i, s.state i = .tsJoined := fun i => not_not.mp (tally_eq_zero_iff.mp hz i)
  have hfin : ∀ i, s.worker i = .finished := by
    intro i
    have hw := hi.workers i
    rw [hjoined i] at hw
    cases hpc : s.worker i <;> simp_all [WorkerOk]
  have ht : tally s.state (· = .tsTerminated) = 0 :=
    tally_eq_zero_iff.mpr (fun i => by simp [hjoined i])
  have hw : tally s.worker (· = .setTerminated) = 0 :=
    tally_eq_zero_iff.mpr (fun i => by simp [hfin i])
  refine ⟨hjoined, by omega, ?_, hfin⟩
  rw [hi.unjoined, ht, hw, howes]
  simp

/-- Both counters mean what they say whenever the mutex is free, states move one way,
no thread is joined twice, and at `free` all are joined and none will run again. -/
theorem thread_accounting {s : State N} (h : (program N).Reachable s) :
    (s.mutex = none → s.numUnjoined = tally s.state (· = .tsTerminated)) ∧
    (s.mutex = none → s.main.liveSet = true → s.numLive = tally s.state (· ≠ .tsJoined)) ∧
    (∀ a s', (program N).step s a = some s' → ∀ i,
      s'.state i = s.state i ∨ (s.state i = .tsAlive ∧ s'.state i = .tsTerminated) ∨
        (s.state i = .tsTerminated ∧ s'.state i = .tsJoined)) ∧
    s.joins.Nodup ∧
    (s.main = .free ∨ s.main = .returned 0 →
      (∀ i, s.joins.count i = 1) ∧ s.numLive = 0 ∧ s.numUnjoined = 0 ∧
        ∀ i, ¬ (program N).Enabled s (.worker i)) := by
  have hi := inv_of_reachable h
  have hb := balanced_of_program h
  refine ⟨hi.numUnjoined_of_free, hi.numLive_of_free, fun _ _ hs => state_moves h hs, hb.nodup, ?_⟩
  intro hend
  obtain ⟨hjoined, hlive, hunj, hfin⟩ := hi.all_joined hend
  have hz : tally s.ledger.phase (· ≠ .collected) = 0 :=
    tally_eq_zero_iff.mpr (fun i => by simp [State.ledger, State.phase, hjoined i])
  refine ⟨hb.count_eq_one hz, hlive, hunj, fun i hen => ?_⟩
  obtain ⟨s', hs'⟩ := Option.isSome_iff_exists.mp hen
  have ht := step_worker hs'
  simp [threadFunc, hfin i] at ht

/-- The first thread terminates before `main` sets `num_live`, the second wakes it. -/
def earlySchedule {N : ℕ} (i j : Fin N) : List (Action N) :=
  List.replicate 7 .main ++ List.replicate 7 (.worker i) ++ List.replicate 16 .main ++
    List.replicate 7 (.worker j) ++ List.replicate 12 .main

theorem thread_accounting_early :
    ((program 2).after (start 2) (earlySchedule 0 1) (by decide)).joins.count 1 = 1 :=
  (((thread_accounting ((program 2).reachable_after rfl (earlySchedule 0 1) (by decide))).2.2.2.2
    (.inr (by decide))).1) 1

end LinuxTemplates.ConditionProgram
