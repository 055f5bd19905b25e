import LinuxTemplates.MutexInvariant

/-!
# No lost increment in `mutex.cpp`

The owner of the mutex can always move, so nothing is stuck before `main` returns, and
the value printed after both joins counts every round of both threads.
-/

namespace LinuxTemplates.MutexIncrements
open TransitionSystems MutexOwnership

theorem threadWrite_enabled_of_inside {s : State} (hi : Inv s) {t : Tid}
    (ht : (s.threads t).Inside) : program.Enabled s (.thread t) := by
  have hu := hi.guards.unlock_of_inside ht
  rcases ht with hpc | hpc | hpc
  · simp [System.Enabled, program, step, threadWrite, hpc]
  · by_cases hroom : (s.threads t).tmp + 1 ≤ LLONG_MAX <;>
      simp [System.Enabled, program, step, threadWrite, hpc, hroom]
  · simp [System.Enabled, program, step, threadWrite, hpc, hu]

/-- A thread that has not returned can move, or the owner it waits for can. -/
theorem thread_enabled {s : State} (hi : Inv s) {t : Tid} (ha : (s.threads t).pc ≠ .absent)
    (hr : (s.threads t).pc ≠ .returned) : ∃ u, program.Enabled s (.thread u) := by
  have hf := hi.frames t
  cases hpc : (s.threads t).pc with
  | absent => exact absurd hpc ha
  | returned => exact absurd hpc hr
  | lockErr | unlockErr | overflow => simp [Frame.Ok, hpc] at hf
  | start | test => exact ⟨t, by simp [System.Enabled, program, step, threadWrite, hpc]⟩
  | incr =>
    by_cases hroom : (s.threads t).i + 1 ≤ INT_MAX <;>
      exact ⟨t, by simp [System.Enabled, program, step, threadWrite, hpc, hroom]⟩
  | load | store | unlock =>
    exact ⟨t, threadWrite_enabled_of_inside hi (by simp [Frame.Inside, hpc])⟩
  | lock =>
    have hout : ¬ (s.threads t).Inside := by simp [Frame.Inside, hpc]
    rcases hi.guards.lock_of_outside hout with ⟨-, hl⟩ | ⟨o, -, hm, -⟩
    · exact ⟨t, by simp [System.Enabled, program, step, threadWrite, hpc, hl]⟩
    · exact ⟨o, threadWrite_enabled_of_inside hi ((hi.guards o).mpr hm)⟩

theorem not_stuck {s : State} (hi : Inv s) (hr : ∀ ret, s.main ≠ .returned ret) :
    ∃ a, program.Enabled s a := by
  have hm := hi.main
  cases hpc : s.main with
  | attrInit | attrSettype | mutexInit | readLoop | create1 | create2 | attrDestroy
  | mutexDestroy | destroyErr | print =>
    exact ⟨.main, by simp [System.Enabled, program, step, main, hpc]⟩
  | returned ret => exact absurd hpc (hr ret)
  | join1 =>
    simp only [MainOk, hpc] at hm
    by_cases hj : (s.threads .t1).pc = .returned
    · exact ⟨.main, by simp [System.Enabled, program, step, main, hpc, hj]⟩
    · exact (thread_enabled hi hm.2.1 hj).imp' Action.thread (fun _ h => h)
  | join2 =>
    simp only [MainOk, hpc] at hm
    by_cases hj : (s.threads .t2).pc = .returned
    · exact ⟨.main, by simp [System.Enabled, program, step, main, hpc, hj]⟩
    · exact (thread_enabled hi hm.2.2 hj).imp' Action.thread (fun _ h => h)

theorem Inv.num_bounds {s : State} (hi : Inv s) : 0 ≤ s.num ∧ s.num ≤ LLONG_MAX := by
  have he := hi.increments_eq
  have hmax := hi.loop_le
  refine ⟨by omega, ?_⟩
  simp only [INT_MAX, LLONG_MAX] at hmax ⊢
  by_cases hl : 0 ≤ s.loop
  · have hn := hi.num_le hl
    omega
  · have hz : ∀ t, (s.threads t).completed = 0 := by
      intro t
      by_cases ht : (s.threads t).pc = .absent
      · simp [Frame.completed, ht]
      · exact absurd (hi.loop_pos ht) (by omega)
    rw [hi.num_eq, hz, hz]
    omega

/-- In every interleaving of the two threads: no error branch of `pthread_mutex_lock`
or `pthread_mutex_unlock` and no overflow, mutual exclusion, no increment lost, the
printed value, and no deadlock before `main` returns. -/
theorem no_lost_increment {s : State} (h : program.Reachable s) :
    (∀ t, (s.threads t).pc ≠ .lockErr ∧ (s.threads t).pc ≠ .unlockErr ∧
      (s.threads t).pc ≠ .overflow) ∧
    (∀ t u, (s.threads t).Inside → (s.threads u).Inside → t = u) ∧
    (s.mtx = none → s.num = s.increments) ∧
    (0 ≤ s.num ∧ s.num ≤ LLONG_MAX) ∧
    (s.main = .print → s.num = 2 * s.loop) ∧
    (0 < s.loop → ∀ ret, s.main = .returned ret → ret = 0 ∧ s.printed = some (2 * s.loop)) ∧
    ((∀ ret, s.main ≠ .returned ret) → ∃ a, program.Enabled s a) := by
  have hi := inv_of_reachable h
  have hm := hi.main
  refine ⟨?_, ?_, fun _ => hi.increments_eq.symm, hi.num_bounds, ?_, ?_, not_stuck hi⟩
  · intro t
    have hf := hi.frames t
    refine ⟨?_, ?_, ?_⟩ <;> intro hpc <;> simp [Frame.Ok, hpc] at hf
  · intro t u ht hu
    exact hi.guards.unique ht hu
  · intro hpc
    simp only [MainOk, hpc] at hm
    exact hi.num_of_returned hm.2.1 hm.2.2
  · intro hl ret hpc
    simp only [MainOk, hpc] at hm
    rcases hm with ⟨-, hneg, -⟩ | ⟨hret, -, -, -, hp⟩
    · omega
    · exact ⟨hret, hp⟩

/-- One round each; `t2` runs into the lock while `t1` is between its read and write. -/
def contendedSchedule : List Action :=
  List.replicate 6 .main ++ List.replicate 4 (.thread .t1) ++ List.replicate 2 (.thread .t2) ++
    List.replicate 4 (.thread .t1) ++ List.replicate 6 (.thread .t2) ++ List.replicate 5 .main

theorem no_lost_increment_contended :
    (program.after (start 1) contendedSchedule (by decide)).printed = some (2 * 1) :=
  ((no_lost_increment (program.reachable_after ⟨1, by decide, by decide, rfl⟩ contendedSchedule
    (by decide))).2.2.2.2.2.1 (by decide) 0 (by decide)).2

end LinuxTemplates.MutexIncrements
