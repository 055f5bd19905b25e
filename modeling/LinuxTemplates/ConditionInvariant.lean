import LinuxTemplates.ConditionWorkers

/-!
# The invariant of `condition.cpp`

One assertion for each program point of `main` and of the workers, with the exact
value of both counters, holds in every interleaving of any number of threads.
-/

namespace LinuxTemplates.ConditionProgram
open TransitionSystems MutexOwnership TaskLedgers

variable {N : ℕ}

/-! ## Steps of `main` -/

section MainStep
variable {s s' : State N}

theorem holds_worker_iff (a : Agent N) (ha : a ≠ .main) (hw : s'.worker = s.worker) :
    s'.Holds a ↔ s.Holds a := by
  cases a with
  | main => exact absurd rfl ha
  | worker i => simp [State.Holds, hw]

theorem inv_setMain (hi : Inv s) {m : MainPc N} {js : List (Fin N)}
    (hh : m.holds = s.main.holds) (ho : m.owesUnjoined = s.main.owesUnjoined)
    (hm : MainOk { s with main := m, joins := js }) :
    Inv { s with main := m, joins := js } where
  guards := hi.guards.frame (t := .main) (by simp [State.Holds, hh])
    (fun a ha => holds_worker_iff a ha rfl)
  workers := hi.workers
  unjoined := by simpa [ho] using hi.unjoined
  main := hm

/-- A jump between points at which `main` holds and owes the same. -/
theorem inv_goto (hi : Inv s) {pc m : MainPc N} {js : List (Fin N)} (hpc : s.main = pc)
    (hh : m.holds = pc.holds) (ho : m.owesUnjoined = pc.owesUnjoined)
    (hm : MainOk { s with main := m, joins := js }) : Inv { s with main := m, joins := js } :=
  inv_setMain hi (hpc ▸ hh) (hpc ▸ ho) hm

theorem inv_acquire (hi : Inv s) (hfree : s.mutex = none) {m : MainPc N}
    (hh : m.holds = true) (ho : m.owesUnjoined = s.main.owesUnjoined)
    (hm : MainOk { s with main := m, mutex := some .main }) :
    Inv { s with main := m, mutex := some .main } where
  guards := (hfree ▸ hi.guards).acquire (by simpa [State.Holds] using hh)
    (fun a ha => holds_worker_iff a ha rfl)
  workers := hi.workers
  unjoined := by simpa [ho] using hi.unjoined
  main := hm

theorem inv_release (hi : Inv s) (hold : s.main.holds = true) {m : MainPc N}
    (hh : m.holds = false) (ho : m.owesUnjoined = s.main.owesUnjoined)
    (hm : MainOk { s with main := m, mutex := none }) :
    Inv { s with main := m, mutex := none } where
  guards := by
    have hown : s.mutex = some .main := (hi.guards .main).mp hold
    exact (hown ▸ hi.guards).release (by simp [State.Holds, hh])
      (fun a ha => holds_worker_iff a ha rfl)
  workers := hi.workers
  unjoined := by simpa [ho] using hi.unjoined
  main := hm

/-- The counts that `main` changes while it reaps one thread. -/
theorem inv_reap (hi : Inv s) {m : MainPc N} {live unjoined : ℤ}
    (hh : m.holds = s.main.holds)
    (hu : unjoined - m.owesUnjoined = s.numUnjoined - s.main.owesUnjoined)
    (hm : MainOk { s with main := m, numLive := live, numUnjoined := unjoined }) :
    Inv { s with main := m, numLive := live, numUnjoined := unjoined } where
  guards := hi.guards.frame (t := .main) (by simp [State.Holds, hh])
    (fun a ha => holds_worker_iff a ha rfl)
  workers := hi.workers
  unjoined := by
    have hun := hi.unjoined
    simp only
    omega
  main := hm

theorem setState_eq_self {i : Fin N} {ts : ThreadState} (h : s.state i = ts) :
    s.setState i ts = s := by
  subst h
  simp [State.setState]

/-- The state that `main` initialises is the one `calloc` left there. -/
theorem Inv.setState_alive (hi : Inv s) {idx : ℕ} (hpc : s.main = .forCreate idx)
    (hidx : idx < N) : s.setState ⟨idx, hidx⟩ .tsAlive = s := by
  have hm := hi.main
  simp only [MainOk, hpc] at hm
  have habs : s.worker ⟨idx, hidx⟩ = .absent := by
    by_contra hne
    exact absurd ((hm.1 _).mp hne) (lt_irrefl _)
  have halive := hi.workers ⟨idx, hidx⟩
  simp only [WorkerOk, habs] at halive
  exact setState_eq_self halive

theorem inv_create (hi : Inv s) {idx : Fin N} (hc : s.main = .create idx) :
    Inv { s.setWorker idx .sleep with main := .forCreate (idx + 1) } := by
  have hm := hi.main
  simp only [MainOk, hc] at hm
  have habs : s.worker idx = .absent := by
    by_contra hne
    exact absurd ((hm.1 idx).mp hne) (lt_irrefl _)
  have halive := hi.workers idx
  simp only [WorkerOk, habs] at halive
  refine ⟨?_, ?_, ?_, ?_⟩
  · apply hi.guards.frame (t := .worker idx)
    · simp [State.Holds, State.setWorker, habs, WorkerPc.holds]
    · intro a ha
      cases a with
      | main => simp [State.Holds, hc, MainPc.holds]
      | worker j =>
        have hne : j ≠ idx := fun hj => ha (hj ▸ rfl)
        simp [State.Holds, State.setWorker, hne]
  · intro j
    by_cases hj : j = idx
    · subst hj
      simp [State.setWorker, WorkerOk, halive]
    · simpa [State.setWorker, hj] using hi.workers j
  · have hun := hi.unjoined
    have hw := tally_update s.worker (· = .setTerminated) idx .sleep
    simp only [habs, reduceCtorEq, if_false, Nat.add_zero] at hw
    simpa [State.setWorker, hw, hc, MainPc.owesUnjoined] using hun
  · refine ⟨fun j => ?_, hm.2⟩
    by_cases hj : j = idx
    · subst hj
      simp [State.setWorker]
    · have hjv : j.val ≠ idx.val := fun h => hj (Fin.ext h)
      simp only [State.setWorker, Function.update_of_ne hj, hm.1 j]
      omega

theorem inv_setJoined (hi : Inv s) {idx : Fin N} (hc : s.main = .setJoined idx) :
    Inv { s.setState idx .tsJoined with main := .decLive idx } := by
  have hm := hi.main
  simp only [MainOk, hc] at hm
  obtain ⟨hcr, hlive, hterm, hfin⟩ := hm
  have hs := tally_update s.state (· = .tsTerminated) idx .tsJoined
  have hl := tally_update s.state (· ≠ .tsJoined) idx .tsJoined
  simp only [hterm, reduceCtorEq, ne_eq, not_true_eq_false, not_false_eq_true, if_true,
    if_false] at hs hl
  refine ⟨?_, ?_, ?_, ?_⟩
  · exact hi.guards.frame (t := .main) (by simp [State.Holds, hc, MainPc.holds])
      (fun a ha => holds_worker_iff a ha rfl)
  · intro j
    by_cases hj : j = idx
    · subst hj
      simp [State.setState, WorkerOk, hfin]
    · simpa [State.setState, hj] using hi.workers j
  · have hun := hi.unjoined
    simp only [hc, MainPc.owesUnjoined, State.setState] at hun ⊢
    omega
  · refine ⟨hcr, by simp [State.setState], ?_⟩
    simp only [State.LiveCounted, State.setState, ne_eq] at hlive hl ⊢
    omega

theorem inv_setTotal (hi : Inv s) (hc : s.main = .setTotal) :
    Inv { s with main := .setLive, totalThreads := N } := by
  have hm := hi.main
  simp only [MainOk, hc] at hm
  refine ⟨?_, hi.workers, by simpa [hc, MainPc.owesUnjoined] using hi.unjoined, hm.1, hm.2, rfl⟩
  exact hi.guards.frame (t := .main) (by simp [State.Holds, hc, MainPc.holds])
    (fun a ha => holds_worker_iff a ha rfl)

/-- With nothing to join and somebody not joined, somebody has yet to signal. -/
theorem Inv.exists_unsignalled (hi : Inv s) (hl : s.LiveCounted) (hpos : 0 < s.numLive)
    (hu : s.numUnjoined = 0) (ho : 0 ≤ s.main.owesUnjoined) :
    ∃ i, (s.worker i).Unsignalled := by
  have hun := hi.unjoined
  simp only [State.LiveCounted] at hl
  have hnone : tally s.state (· = .tsTerminated) = 0 := by omega
  have hsome : 0 < tally s.state (· ≠ .tsJoined) := by omega
  obtain ⟨i, hij⟩ := tally_pos_iff.mp hsome
  have hit := tally_eq_zero_iff.mp hnone i
  refine ⟨i, ?_⟩
  have hw := hi.workers i
  cases hpc : s.worker i <;> cases hst : s.state i <;>
    simp_all [WorkerOk, WorkerPc.Unsignalled]

theorem main_inv (hi : Inv s) (h : main s = some s') : Inv s' := by
  have hm := hi.main
  cases hpc : s.main with
  | calloc =>
    simp only [main, hpc, Option.some.injEq] at h
    simp only [MainOk, hpc] at hm
    subst h
    refine inv_goto hi hpc rfl rfl ⟨fun i => ?_, hm.2⟩
    simp [hm.1 i]
  | forCreate idx =>
    simp only [MainOk, hpc] at hm
    by_cases hidx : idx < N
    · simp only [main, hpc, hidx, dif_pos, Option.some.injEq, hi.setState_alive hpc] at h
      subst h
      exact inv_goto hi hpc rfl rfl hm
    · simp only [main, hpc, hidx, dif_neg, not_false_eq_true, Option.some.injEq] at h
      subst h
      exact inv_goto hi hpc rfl rfl ⟨fun i => (hm.1 i).mpr (by omega), hm.2⟩
  | create idx =>
    simp only [main, hpc, Option.some.injEq] at h
    subst h
    exact inv_create hi hpc
  | setTotal =>
    simp only [main, hpc, Option.some.injEq] at h
    simp only [MainOk, hpc] at hm
    subst h
    exact inv_setTotal hi hpc
  | setLive =>
    simp only [main, hpc, Option.some.injEq] at h
    simp only [MainOk, hpc] at hm
    subst h
    apply inv_reap hi (by simp [hpc, MainPc.holds]) (by simp [hpc, MainPc.owesUnjoined])
    refine ⟨hm.1, ?_⟩
    have hall : tally s.state (· ≠ .tsJoined) = Fintype.card (Fin N) :=
      tally_eq_card_of_forall hm.2.1
    rw [State.LiveCounted, hall, Fintype.card_fin]
    exact hm.2.2
  | whileLive =>
    simp only [main, hpc, Option.some.injEq] at h
    simp only [MainOk, hpc] at hm
    by_cases hl : s.numLive > 0
    · rw [if_pos hl] at h
      subst h
      exact inv_goto hi hpc rfl rfl ⟨hm.1, hm.2, hl⟩
    · rw [if_neg hl] at h
      subst h
      exact inv_goto hi hpc rfl rfl ⟨hm.1, hm.2, not_lt.mp hl⟩
  | lock | reacquire =>
    simp only [MainOk, hpc] at hm
    by_cases hfree : s.mutex = none
    · simp only [main, hpc, hfree, if_true, Option.some.injEq] at h
      subst h
      exact inv_acquire hi hfree rfl (by simp [hpc, MainPc.owesUnjoined]) hm
    · simp [main, hpc, hfree] at h
  | whileUnjoined =>
    simp only [main, hpc, Option.some.injEq] at h
    simp only [MainOk, hpc] at hm
    by_cases hu : s.numUnjoined = 0
    · rw [if_pos hu] at h
      subst h
      exact inv_goto hi hpc rfl rfl ⟨hm.1, hm.2.1, hm.2.2, hu⟩
    · rw [if_neg hu] at h
      subst h
      exact inv_goto hi hpc rfl rfl ⟨hm.1, hm.2.1⟩
  | condWait =>
    simp only [main, hpc, Option.some.injEq] at h
    simp only [MainOk, hpc] at hm
    have hun := hi.exists_unsignalled hm.2.1 hm.2.2.1 hm.2.2.2 (by simp [hpc, MainPc.owesUnjoined])
    subst h
    exact inv_release hi (by simp [hpc, MainPc.holds]) rfl (by simp [hpc, MainPc.owesUnjoined])
      ⟨hm.1, hm.2.1, hm.2.2.1, hun⟩
  | waiting => simp [main, hpc] at h
  | forReap idx =>
    simp only [MainOk, hpc] at hm
    by_cases hidx : idx < N
    · simp only [main, hpc, hidx, dif_pos, Option.some.injEq] at h
      by_cases ht : s.state ⟨idx, hidx⟩ = .tsTerminated
      · rw [if_pos ht] at h
        subst h
        exact inv_goto hi hpc rfl rfl ⟨hm.1, hm.2, ht⟩
      · rw [if_neg ht] at h
        subst h
        exact inv_goto hi hpc rfl rfl hm
    · simp only [main, hpc, hidx, dif_neg, not_false_eq_true, Option.some.injEq] at h
      subst h
      exact inv_goto hi hpc rfl rfl hm
  | join idx =>
    simp only [MainOk, hpc] at hm
    by_cases hf : s.worker idx = .finished
    · simp only [main, hpc, hf, if_true, Option.some.injEq] at h
      subst h
      exact inv_goto hi hpc rfl rfl ⟨hm.1, hm.2.1, hm.2.2, hf⟩
    · simp [main, hpc, hf] at h
  | setJoined idx =>
    simp only [main, hpc, Option.some.injEq] at h
    subst h
    exact inv_setJoined hi hpc
  | decLive idx =>
    simp only [main, hpc, Option.some.injEq] at h
    simp only [MainOk, hpc] at hm
    subst h
    apply inv_reap hi (by simp [hpc, MainPc.holds]) (by simp [hpc, MainPc.owesUnjoined])
    refine ⟨hm.1, ?_, hm.2.1⟩
    simp only [State.LiveCounted]
    omega
  | decUnjoined idx =>
    simp only [main, hpc, Option.some.injEq] at h
    simp only [MainOk, hpc] at hm
    subst h
    exact inv_reap hi (by simp [hpc, MainPc.holds]) (by simp [hpc, MainPc.owesUnjoined])
      ⟨hm.1, hm.2.1⟩
  | unlock =>
    simp only [main, hpc, Option.some.injEq] at h
    simp only [MainOk, hpc] at hm
    subst h
    exact inv_release hi (by simp [hpc, MainPc.holds]) rfl (by simp [hpc, MainPc.owesUnjoined])
      hm
  | free =>
    simp only [main, hpc, Option.some.injEq] at h
    simp only [MainOk, hpc] at hm
    subst h
    exact inv_goto hi hpc rfl rfl (.inr ⟨rfl, hm⟩)
  | returned ret => simp [main, hpc] at h

theorem callFails_inv (hi : Inv s) (h : callFails s = some s') : Inv s' := by
  cases hpc : s.main <;> simp only [callFails, hpc, reduceCtorEq, Option.some.injEq] at h
  all_goals
    subst h
    exact inv_goto hi hpc rfl rfl (.inl rfl)

theorem spuriousWake_inv (hi : Inv s) (h : spuriousWake s = some s') : Inv s' := by
  have hm := hi.main
  cases hpc : s.main <;> simp only [spuriousWake, hpc, reduceCtorEq, Option.some.injEq] at h
  simp only [MainOk, hpc] at hm
  subst h
  exact inv_goto hi hpc rfl rfl ⟨hm.1, hm.2.1, hm.2.2.1⟩

end MainStep

theorem inv_start : Inv (start N) where
  guards a := by cases a <;> simp [State.Holds, start, MainPc.holds, WorkerPc.holds]
  workers i := rfl
  unjoined := by simp [start, tally, MainPc.owesUnjoined]
  main := ⟨fun _ => rfl, fun _ => by simp [start]⟩

theorem step_worker {s s' : State N} {i : Fin N} (h : step s (.worker i) = some s') :
    threadFunc s i = some s' := by
  cases hpc : s.main <;> simp_all [step]

theorem inv_invariant : (program N).Invariant Inv where
  init s hs := hs ▸ inv_start
  step s a s' hi h := by
    cases a with
    | main => exact main_inv hi h
    | worker i =>
      obtain ⟨pc, ts, hm⟩ := threadFunc_moves hi (step_worker h)
      exact hm.inv hi
    | callFails => exact callFails_inv hi h
    | spuriousWake => exact spuriousWake_inv hi h

theorem inv_of_reachable {s : State N} (h : (program N).Reachable s) : Inv s :=
  inv_invariant.reachable h

end LinuxTemplates.ConditionProgram
