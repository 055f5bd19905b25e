import LinuxTemplates.ConditionInvariant

/-!
# No lost wake-up and no deadlock in `condition.cpp`

`main` sleeps only while some worker has its signal still ahead of it, and joins only
threads that are done with the mutex. Spurious wake-ups and failing calls are never
needed for progress.
-/

namespace LinuxTemplates.ConditionProgram
open TransitionSystems MutexOwnership TaskLedgers

variable {N : ℕ}

/-- The worker has released the mutex and will not ask for it again. -/
def WorkerPc.pastMutex : WorkerPc → Bool
  | .signal | .ret | .finished => true
  | _ => false

/-- `main` changes a worker only by creating it. -/
theorem main_worker {s s' : State N} (hi : Inv s) (h : main s = some s') :
    s'.worker = s.worker ∨ ∃ idx, s.worker idx = .absent ∧
      s'.worker = Function.update s.worker idx .sleep := by
  have hm := hi.main
  cases hpc : s.main with
  | waiting | returned => simp [main, hpc] at h
  | create idx =>
    simp only [main, hpc, Option.some.injEq] at h
    simp only [MainOk, hpc] at hm
    refine .inr ⟨idx, ?_, h ▸ rfl⟩
    by_contra hne
    exact absurd ((hm.1 idx).mp hne) (lt_irrefl _)
  | calloc | setTotal | setLive | condWait | setJoined | decLive | decUnjoined | unlock | free
  | whileLive | whileUnjoined =>
    simp only [main, hpc, Option.some.injEq] at h
    exact .inl (h ▸ rfl)
  | lock | reacquire | join =>
    simp only [main, hpc, Option.ite_none_right_eq_some, Option.some.injEq] at h
    exact .inl (h.2 ▸ rfl)
  | forCreate idx | forReap idx =>
    by_cases hidx : idx < N <;> simp only [main, hpc, hidx, dif_pos, dif_neg,
      not_false_eq_true, Option.some.injEq] at h <;> exact .inl (h ▸ rfl)

theorem pastMutex_step {s s' : State N} {a : Action N} (hi : Inv s)
    (h : (program N).step s a = some s') {i : Fin N} (hp : (s.worker i).pastMutex = true) :
    (s'.worker i).pastMutex = true := by
  cases a with
  | main =>
    rcases main_worker hi h with he | ⟨idx, habs, he⟩
    · exact he ▸ hp
    · have hne : i ≠ idx := by
        rintro rfl
        simp [habs, WorkerPc.pastMutex] at hp
      simpa [he, hne] using hp
  | worker j =>
    have ht := step_worker h
    by_cases hij : i = j
    · subst hij
      cases hpc : s.worker i <;> simp only [hpc, WorkerPc.pastMutex, Bool.false_eq_true] at hp
      all_goals simp only [threadFunc, hpc, Option.some.injEq, reduceCtorEq] at ht
      all_goals simp [← ht, State.setWorker, WorkerPc.pastMutex]
    · obtain ⟨pc, ts, hm⟩ := threadFunc_moves hi ht
      simpa [hm.worker, hij] using hp
  | callFails | spuriousWake =>
    simp only [program, step, callFails, spuriousWake] at h
    split at h <;> simp only [Option.some.injEq, reduceCtorEq] at h
    all_goals exact h ▸ hp

theorem pastMutex_run {s s' : State N} {as : List (Action N)} (hr : (program N).Reachable s)
    (h : (program N).run s as = some s') {i : Fin N} (hp : (s.worker i).pastMutex = true) :
    (s'.worker i).pastMutex = true := by
  induction as generalizing s with
  | nil => exact (Option.some.inj h) ▸ hp
  | cons a as ih =>
    obtain ⟨t, ht, hrun⟩ := ((program N).run_cons).mp h
    exact ih (hr.step ht) hrun (pastMutex_step (inv_of_reachable hr) ht hp)

theorem worker_enabled {s : State N} {i : Fin N} (hm : ∀ ret, s.main ≠ .returned ret)
    (ha : s.worker i ≠ .absent) (hf : s.worker i ≠ .finished)
    (hl : s.worker i = .lock → s.mutex = none) : (program N).Enabled s (.worker i) := by
  have hstep : step s (.worker i) = threadFunc s i := by
    cases hpc : s.main <;> simp_all [step]
  simp only [System.Enabled, program, hstep]
  cases hpc : s.worker i <;> simp_all [threadFunc]

theorem owner_enabled {s : State N} (hi : Inv s) (hm : ∀ ret, s.main ≠ .returned ret)
    {j : Fin N} (ho : s.mutex = some (.worker j)) : (program N).Enabled s (.worker j) := by
  have hold : (s.worker j).holds = true := (hi.guards (.worker j)).mpr ho
  refine worker_enabled hm ?_ ?_ ?_ <;>
    · intro hpc
      simp [hpc, WorkerPc.holds] at hold

/-- While `main` is not holding the mutex, an unfinished worker or the owner moves. -/
theorem exists_worker_enabled {s : State N} (hi : Inv s) (hm : ∀ ret, s.main ≠ .returned ret)
    (hh : s.main.holds = false) {i : Fin N} (ha : s.worker i ≠ .absent)
    (hf : s.worker i ≠ .finished) : ∃ j, (program N).Enabled s (.worker j) := by
  cases ho : s.mutex with
  | none => exact ⟨i, worker_enabled hm ha hf (fun _ => ho)⟩
  | some o =>
    cases o with
    | main =>
      have hold : s.main.holds = true := (hi.guards .main).mpr ho
      simp [hh] at hold
    | worker j => exact ⟨j, owner_enabled hi hm ho⟩

/-- A thread that `main` is joining needs nothing that `main` holds. -/
theorem Inv.joining_pastMutex {s : State N} (hi : Inv s) {idx : Fin N}
    (hpc : s.main = .join idx) : (s.worker idx).pastMutex = true := by
  have hm := hi.main
  simp only [MainOk, hpc] at hm
  have hown : s.mutex = some .main := (hi.guards .main).mp (by simp [State.Holds, hpc, MainPc.holds])
  have hout : ¬ s.Holds (.worker idx) := by simp [hi.guards (.worker idx), hown]
  have hw := hi.workers idx
  rw [hm.2.2] at hw
  cases hwpc : s.worker idx <;> simp_all [WorkerOk, State.Holds, WorkerPc.holds, WorkerPc.pastMutex]

theorem progress {s : State N} (hi : Inv s) (hret : ∀ ret, s.main ≠ .returned ret) :
    (program N).Enabled s .main ∨ ∃ i, (program N).Enabled s (.worker i) := by
  have hm := hi.main
  have hstep : (main s).isSome = true → (program N).Enabled s .main := id
  cases hpc : s.main with
  | returned ret => exact absurd hpc (hret ret)
  | calloc | create | setTotal | setLive | whileLive | whileUnjoined | condWait | setJoined
  | decLive | decUnjoined | unlock | free =>
    exact .inl (hstep (by simp [main, hpc]))
  | forCreate idx | forReap idx =>
    by_cases hidx : idx < N <;> exact .inl (hstep (by simp [main, hpc, hidx]))
  | lock | reacquire =>
    cases ho : s.mutex with
    | none => exact .inl (hstep (by simp [main, hpc, ho]))
    | some o =>
      cases o with
      | main =>
        have hold : s.main.holds = true := (hi.guards .main).mpr ho
        simp [hpc, MainPc.holds] at hold
      | worker j => exact .inr ⟨j, owner_enabled hi hret ho⟩
  | waiting =>
    simp only [MainOk, hpc] at hm
    obtain ⟨i, hun⟩ := hm.2.2.2
    exact .inr (exists_worker_enabled hi hret (by simp [hpc, MainPc.holds]) (hm.1 i) hun.2)
  | join idx =>
    simp only [MainOk, hpc] at hm
    have hpast := hi.joining_pastMutex hpc
    by_cases hf : s.worker idx = .finished
    · exact .inl (hstep (by simp [main, hpc, hf]))
    · refine .inr ⟨idx, worker_enabled hret (hm.1 idx) hf (fun hl => ?_)⟩
      simp [hl, WorkerPc.pastMutex] at hpast

/-- Every reachable state before the return of `main` has a step of `main` or of a
worker; a waiting `main` has a signal ahead of it; a joined thread is past the mutex. -/
theorem no_lost_wakeup {s : State N} (h : (program N).Reachable s) :
    ((∀ ret, s.main ≠ .returned ret) →
      (program N).Enabled s .main ∨ ∃ i, (program N).Enabled s (.worker i)) ∧
    (s.main = .waiting → ∃ i, s.worker i ≠ .absent ∧ (s.worker i).Unsignalled) ∧
    (∀ idx, s.main = .join idx → s.mutex = some .main ∧
      ∀ as s', (program N).run s as = some s' → (s'.worker idx).pastMutex = true) := by
  have hi := inv_of_reachable h
  have hm := hi.main
  refine ⟨progress hi, ?_, ?_⟩
  · intro hpc
    simp only [MainOk, hpc] at hm
    obtain ⟨i, hun⟩ := hm.2.2.2
    exact ⟨i, hm.1 i, hun⟩
  · intro idx hpc
    refine ⟨(hi.guards .main).mp (by simp [State.Holds, hpc, MainPc.holds]), ?_⟩
    intro as s' hrun
    exact pastMutex_run h hrun (hi.joining_pastMutex hpc)

/-- The signal of the first thread is lost and `main` waits for the second. -/
def waitingSchedule {N : ℕ} (i : Fin N) : List (Action N) :=
  List.replicate 7 .main ++ List.replicate 7 (.worker i) ++ List.replicate 16 .main

theorem no_lost_wakeup_waiting :
    ∃ i, ((program 2).after (start 2) (waitingSchedule 0) (by decide)).worker i ≠ .absent ∧
      (((program 2).after (start 2) (waitingSchedule 0) (by decide)).worker i).Unsignalled :=
  (no_lost_wakeup ((program 2).reachable_after rfl (waitingSchedule 0) (by decide))).2.1 (by decide)

end LinuxTemplates.ConditionProgram
