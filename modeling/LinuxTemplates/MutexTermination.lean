import LinuxTemplates.MutexIncrements
import LinuxTemplates.RunLengths

/-!
# Every run of `mutex.cpp` ends alike

Each step of `main` and of a thread brings the run nearer to its end by exactly one, however the
three of them are interleaved. So all runs that go on as long as they can have one length.
-/

namespace LinuxTemplates.MutexIncrements
open TransitionSystems MutexOwnership

/-- The steps that a thread still has to take. -/
def Frame.ahead (loop : ℤ) (f : Frame) : ℤ :=
  match f.pc with
  | .absent | .start => 6 * loop + 2
  | .test => 6 * (loop - f.i) + 1
  | .lock => 6 * (loop - f.i)
  | .load => 6 * (loop - f.i) - 1
  | .store => 6 * (loop - f.i) - 2
  | .unlock => 6 * (loop - f.i) - 3
  | .incr => 6 * (loop - f.i) - 4
  | .lockErr | .unlockErr | .overflow | .returned => 0

/-- The steps that `main` still has to take. -/
def MainPc.ahead (loop : ℤ) : MainPc → ℤ
  | .attrInit => if 0 < loop then 11 else 4
  | .attrSettype => if 0 < loop then 10 else 3
  | .mutexInit => if 0 < loop then 9 else 2
  | .readLoop => if 0 < loop then 8 else 1
  | .create1 => 7
  | .create2 => 6
  | .join1 => 5
  | .join2 => 4
  | .attrDestroy => 3
  | .mutexDestroy => 2
  | .destroyErr | .print => 1
  | .returned _ => 0

def State.ahead (s : State) : ℤ :=
  s.main.ahead s.loop +
    if 0 < s.loop then (s.threads .t1).ahead s.loop + (s.threads .t2).ahead s.loop else 0

theorem threadWrite_ahead {s s' : State} {t : Tid} (hi : Inv s) (h : threadWrite s t = some s') :
    (s'.threads t).ahead s.loop + 1 = (s.threads t).ahead s.loop := by
  have hf := hi.frames t
  obtain ⟨f', hmoves⟩ := threadWrite_moves hi h
  have hok : (s'.threads t).Ok s.loop s'.num := by
    rw [hmoves.threads, Function.update_self]
    exact hmoves.ok
  cases hpc : (s.threads t).pc with
  | absent | overflow | returned => simp [threadWrite, hpc] at h
  | lockErr | unlockErr => simp [Frame.Ok, hpc] at hf
  | start | load =>
    simp only [threadWrite, hpc, Option.some.injEq] at h
    subst h
    simp only [State.setFrame, Function.update_self, Frame.ahead, hpc]
    omega
  | test =>
    simp only [threadWrite, hpc, Option.some.injEq] at h
    simp only [Frame.Ok, hpc] at hf
    subst h
    by_cases hlt : (s.threads t).i < s.loop
    · simp only [State.setFrame, Function.update_self, Frame.ahead, hpc, hf.1, hlt, if_true]
    · simp only [State.setFrame, Function.update_self, Frame.ahead, hpc, hf.1, hlt, if_false]
      omega
  | lock | unlock =>
    simp only [threadWrite, hpc] at h
    split at h <;> simp only [Option.some.injEq, reduceCtorEq] at h <;> subst h <;>
      simp only [State.setFrame, Function.update_self, Frame.ahead, Frame.Ok, hpc] at hok ⊢
    omega
  | store | incr =>
    simp only [threadWrite, hpc] at h
    split at h <;> simp only [Option.some.injEq] at h <;> subst h <;>
      simp only [State.setFrame, Function.update_self, Frame.ahead, Frame.Ok, hpc] at hok ⊢
    omega

/-- The frames of the threads that move and of the one that does not. -/
theorem threads_ahead {s s' : State} {t : Tid} (hi : Inv s) (h : threadWrite s t = some s') :
    (s'.threads .t1).ahead s.loop + (s'.threads .t2).ahead s.loop + 1 =
      (s.threads .t1).ahead s.loop + (s.threads .t2).ahead s.loop := by
  have hahead := threadWrite_ahead hi h
  obtain ⟨f', hmoves⟩ := threadWrite_moves hi h
  cases t with
  | t1 =>
    have hother : s'.threads .t2 = s.threads .t2 := by simp [hmoves.threads]
    rw [hother]
    omega
  | t2 =>
    have hother : s'.threads .t1 = s.threads .t1 := by simp [hmoves.threads]
    rw [hother]
    omega

/-- A thread is created where it had all its steps ahead. -/
theorem create_ahead {s : State} {t : Tid} (ht : (s.threads t).pc = .absent) (u : Tid) :
    ((s.create t).threads u).ahead s.loop = (s.threads u).ahead s.loop := by
  by_cases hu : u = t
  · subst hu
    simp [State.create, State.setFrame, Frame.ahead, ht]
  · simp [State.create, State.setFrame, hu]

theorem create_loop (s : State) (t : Tid) : (s.create t).loop = s.loop := rfl

theorem step_ahead {s s' : State} {a : Action} (hi : Inv s) (h : program.step s a = some s') :
    s'.ahead + 1 = s.ahead := by
  have hm := hi.main
  cases a with
  | thread t =>
    obtain ⟨f', hmoves⟩ := threadWrite_moves hi h
    have hthreads := threads_ahead hi h
    have hl := hi.loop_pos hmoves.alive.1
    simp only [State.ahead, hmoves.same.1, hmoves.same.2.1, hl, if_true]
    omega
  | main =>
    simp only [program, step] at h
    cases hpc : s.main with
    | returned => simp [main, hpc] at h
    | destroyErr => simp [MainOk, hpc] at hm
    | create1 =>
      simp only [main, hpc, Option.some.injEq] at h
      simp only [MainOk, hpc] at hm
      subst h
      simp only [State.ahead, MainPc.ahead, hpc, create_loop, create_ahead hm.2.1]
      omega
    | create2 =>
      simp only [main, hpc, Option.some.injEq] at h
      simp only [MainOk, hpc] at hm
      subst h
      simp only [State.ahead, MainPc.ahead, hpc, create_loop, create_ahead hm.2.2]
      omega
    | join1 | join2 =>
      simp only [main, hpc, Option.ite_none_right_eq_some, Option.some.injEq] at h
      obtain ⟨-, rfl⟩ := h
      simp only [State.ahead, MainPc.ahead, hpc]
      omega
    | attrInit | attrSettype | mutexInit | attrDestroy | print =>
      simp only [main, hpc, Option.some.injEq] at h
      subst h
      simp only [State.ahead, MainPc.ahead, hpc]
      split <;> omega
    | readLoop =>
      simp only [main, hpc, Option.some.injEq] at h
      subst h
      by_cases hl : s.loop ≤ 0 <;> simp only [State.ahead, MainPc.ahead, hpc, hl, if_true, if_false]
      · omega
      · omega
    | mutexDestroy =>
      simp only [main, hpc, Option.some.injEq] at h
      simp only [MainOk, hpc] at hm
      have hfree := hi.free_of_outside (by simp [Frame.Inside, hm]) (by simp [Frame.Inside, hm])
      subst h
      simp only [State.ahead, MainPc.ahead, hpc, hfree, if_true]
      omega

theorem Frame.Ok.ahead_nonneg {loop num : ℤ} {f : Frame} (h : f.Ok loop num) (hl : 0 < loop) :
    0 ≤ f.ahead loop := by
  cases hpc : f.pc <;> simp only [Frame.Ok, Frame.ahead, hpc] at h ⊢ <;> omega

theorem Inv.threads_nonneg {s : State} (hi : Inv s) :
    0 ≤ if 0 < s.loop then (s.threads .t1).ahead s.loop + (s.threads .t2).ahead s.loop else 0 := by
  split
  · rename_i hl
    have h1 := (hi.frames .t1).ahead_nonneg hl
    have h2 := (hi.frames .t2).ahead_nonneg hl
    omega
  · exact Int.le_refl 0

theorem Inv.ahead_returned {s : State} (hi : Inv s) {ret : ℤ} (hpc : s.main = .returned ret) :
    s.ahead = 0 := by
  have hm := hi.main
  simp only [MainOk, hpc] at hm
  rcases hm with ⟨-, hneg, -⟩ | ⟨-, hpos, h1, h2, -⟩
  · rw [State.ahead, hpc, MainPc.ahead, if_neg (Int.not_lt.mpr hneg)]
    rfl
  · rw [State.ahead, hpc, MainPc.ahead, if_pos hpos, Frame.ahead, Frame.ahead, h1, h2]
    rfl

theorem MainPc.ahead_pos {loop : ℤ} {pc : MainPc} (h : ∀ ret, pc ≠ .returned ret) :
    0 < pc.ahead loop := by
  cases pc with
  | returned ret => exact absurd rfl (h ret)
  | attrInit | attrSettype | mutexInit | readLoop =>
    rw [MainPc.ahead]
    split <;> omega
  | create1 | create2 | join1 | join2 | attrDestroy | mutexDestroy | destroyErr | print =>
    rw [MainPc.ahead]
    omega

theorem MainPc.ahead_nonneg (loop : ℤ) (pc : MainPc) : 0 ≤ pc.ahead loop := by
  by_cases hret : ∃ ret, pc = .returned ret
  · obtain ⟨ret, rfl⟩ := hret
    exact Int.le_refl 0
  · exact Int.le_of_lt (MainPc.ahead_pos (not_exists.mp hret))

/-- Once `main` has returned both threads have, or there never were any. -/
theorem Inv.halted_iff {s : State} (hi : Inv s) :
    program.Halted s ↔ ∃ ret, s.main = .returned ret := by
  constructor
  · intro hhalted
    by_contra hret
    obtain ⟨a, henabled⟩ := not_stuck hi (not_exists.mp hret)
    exact hhalted.not_enabled a henabled
  · rintro ⟨ret, hpc⟩ a
    have hm := hi.main
    simp only [MainOk, hpc] at hm
    cases a with
    | main => simp [program, step, MutexIncrements.main, hpc]
    | thread t => cases t <;> rcases hm with hm | hm <;> simp [program, step, threadWrite, hm]

theorem step_loop {s s' : State} {a : Action} (hi : Inv s) (h : program.step s a = some s') :
    s'.loop = s.loop := by
  cases a with
  | thread t =>
    obtain ⟨f', hmoves⟩ := threadWrite_moves hi h
    exact hmoves.same.1
  | main =>
    simp only [program, step, main] at h
    split at h
    case h_7 | h_8 =>
      simp only [Option.ite_none_right_eq_some, Option.some.injEq] at h
      exact h.2 ▸ rfl
    case h_13 => cases h
    all_goals exact (Option.some.inj h) ▸ rfl

/-- The steps of a whole run. -/
def runLength (loop : ℤ) : ℤ := if 0 < loop then 12 * loop + 15 else 4

theorem ahead_start (loop : ℤ) : (start loop).ahead = runLength loop := by
  simp only [State.ahead, start, MainPc.ahead, Frame.ahead, absentFrame, runLength]
  split <;> omega

/-- Every run of the program has at most so many steps, and it has them all exactly when nothing
can go on, which is when `main` has returned. The counter, the mutex and the line printed do not
depend on the interleaving then. -/
theorem runs_end {loop : ℤ} {as : List Action} {s : State} (hmax : loop ≤ INT_MAX)
    (hrun : program.run (start loop) as = some s) :
    as.length ≤ runLength loop ∧
    (program.Halted s ↔ as.length = runLength loop) ∧
    (program.Halted s ↔ ∃ ret, s.main = .returned ret) ∧
    (program.Halted s → 0 < loop → s.main = .returned 0 ∧ s.printed = some (2 * loop) ∧
      s.num = 2 * loop ∧ s.increments = 2 * loop ∧ s.mtx = none) := by
  have hpreserve : ∀ s a s', (Inv s ∧ s.loop = loop) → program.step s a = some s' →
      Inv s' ∧ s'.loop = loop := fun _ _ _ h hs =>
    ⟨inv_invariant.step _ _ _ h.1 hs, (step_loop h.1 hs).trans h.2⟩
  have hstart : Inv (start loop) ∧ (start loop).loop = loop := ⟨inv_start loop hmax, rfl⟩
  obtain ⟨hi, hl⟩ := System.run_preserves hpreserve hstart hrun
  have hlength := System.length_run_eq hpreserve (fun _ _ _ h hs => step_ahead h.1 hs) hstart hrun
  rw [ahead_start] at hlength
  have hthreads := hi.threads_nonneg
  have hzero : s.ahead = 0 ↔ ∃ ret, s.main = .returned ret := by
    refine ⟨fun hz => ?_, fun ⟨ret, hpc⟩ => hi.ahead_returned hpc⟩
    by_contra hret
    have hpos : 0 < s.main.ahead s.loop := MainPc.ahead_pos (not_exists.mp hret)
    rw [State.ahead] at hz
    omega
  refine ⟨?_, ?_, hi.halted_iff, fun hhalted hpos => ?_⟩
  · have hmain := MainPc.ahead_nonneg s.loop s.main
    rw [State.ahead] at hlength
    omega
  · rw [hi.halted_iff, ← hzero]
    omega
  · obtain ⟨ret, hpc⟩ := hi.halted_iff.mp hhalted
    have hm := hi.main
    simp only [MainOk, hpc] at hm
    rcases hm with ⟨-, hneg, -⟩ | ⟨rfl, -, h1, h2, hprinted⟩
    · omega
    · have hnum := hi.num_of_returned h1 h2
      rw [hl] at hnum hprinted
      exact ⟨hpc, hprinted, hnum, hi.increments_eq.trans hnum,
        hi.free_of_outside (by simp [Frame.Inside, h1]) (by simp [Frame.Inside, h2])⟩

theorem runs_end_contended :
    (program.after (start 1) contendedSchedule (by decide)).num = 2 * 1 := by
  have hmax : (1 : ℤ) ≤ INT_MAX := by decide
  have hrun : program.run (start 1) contendedSchedule =
      some (program.after (start 1) contendedSchedule (by decide)) := program.run_after _
  obtain ⟨-, hlength, -, hend⟩ := runs_end hmax hrun
  obtain ⟨-, -, hnum, -⟩ := hend (hlength.mpr rfl) Int.one_pos
  exact hnum

end LinuxTemplates.MutexIncrements
