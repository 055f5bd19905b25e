import LinuxTemplates.MutexProgram

/-!
# The invariant of `mutex.cpp`

What one step of `ThreadWrite` can do where the invariant holds, and that every step of
the threads and of `main` keeps it.
-/

namespace LinuxTemplates.MutexIncrements
open TransitionSystems MutexOwnership

theorem Frame.Ok.completed_le {loop num : ℤ} {f : Frame} (h : f.Ok loop num) (hl : 0 ≤ loop) :
    f.completed ≤ loop := by
  cases hpc : f.pc <;> simp only [Frame.Ok, Frame.completed, hpc] at h ⊢ <;> omega

theorem Frame.Ok.of_outside {loop num num' : ℤ} {f : Frame} (h : f.Ok loop num)
    (ho : ¬ f.Inside) : f.Ok loop num' := by
  cases hpc : f.pc <;> simp_all [Frame.Ok, Frame.Inside]

/-- A created thread shows that `loop` was accepted. -/
theorem Inv.loop_pos {s : State} (h : Inv s) {t : Tid} (ht : (s.threads t).pc ≠ .absent) :
    0 < s.loop := by
  have hm := h.main
  cases hpc : s.main <;> cases t <;> simp only [MainOk, hpc] at hm <;> tauto

theorem Inv.num_le {s : State} (h : Inv s) (hl : 0 ≤ s.loop) : s.num ≤ 2 * s.loop := by
  have h1 := (h.frames .t1).completed_le hl
  have h2 := (h.frames .t2).completed_le hl
  rw [h.num_eq]
  omega

/-- Everything one step of `ThreadWrite` can do where the invariant holds: no error
branch, one more increment at a write, one owner change at a lock or an unlock. -/
structure Moves (s s' : State) (t : Tid) (f' : Frame) : Prop where
  threads : s'.threads = Function.update s.threads t f'
  same : s'.loop = s.loop ∧ s'.main = s.main ∧ s'.printed = s.printed
  alive : (s.threads t).pc ≠ .absent ∧ (s.threads t).pc ≠ .returned ∧ f'.pc ≠ .absent
  ok : f'.Ok s.loop s'.num
  counts : s'.num - s.num = f'.completed - (s.threads t).completed
  history : (s'.increments : ℤ) - s.increments = s'.num - s.num
  writes : s'.num = s.num ∨ (s.threads t).Inside
  owner : (s'.mtx = s.mtx ∧ (f'.Inside ↔ (s.threads t).Inside)) ∨
    (s.mtx = none ∧ s'.mtx = some t ∧ f'.Inside) ∨
    (s.mtx = some t ∧ s'.mtx = none ∧ ¬ f'.Inside)

section MutexMoves
variable {s : State} {t : Tid} {f' : Frame} (ha : (s.threads t).pc ≠ .absent)
  (hr : (s.threads t).pc ≠ .returned) (hne : f'.pc ≠ .absent) (hok : f'.Ok s.loop s.num)
  (hcount : f'.completed = (s.threads t).completed)
include ha hr hne hok hcount

/-- A step within a thread touches neither the counter nor the mutex. -/
theorem moves_setFrame (hin : f'.Inside ↔ (s.threads t).Inside) :
    Moves s (s.setFrame t f') t f' where
  threads := rfl
  same := ⟨rfl, rfl, rfl⟩
  alive := ⟨ha, hr, hne⟩
  ok := hok
  counts := by simp [State.setFrame, hcount]
  history := by simp [State.setFrame]
  writes := .inl rfl
  owner := .inl ⟨rfl, hin⟩

/-- A step that takes or gives back the mutex. -/
theorem moves_setMutex {m : Mutex Tid} (howner : (s.mtx = none ∧ m = some t ∧ f'.Inside) ∨
    (s.mtx = some t ∧ m = none ∧ ¬ f'.Inside)) :
    Moves s (State.setFrame { s with mtx := m } t f') t f' where
  threads := rfl
  same := ⟨rfl, rfl, rfl⟩
  alive := ⟨ha, hr, hne⟩
  ok := hok
  counts := by simp [State.setFrame, hcount]
  history := by simp [State.setFrame]
  writes := .inl rfl
  owner := .inr howner

end MutexMoves

theorem threadWrite_moves {s s' : State} {t : Tid} (hi : Inv s)
    (h : threadWrite s t = some s') : ∃ f', Moves s s' t f' := by
  have hf := hi.frames t
  cases hpc : (s.threads t).pc with
  | absent | overflow | returned => simp [threadWrite, hpc] at h
  | lockErr | unlockErr => simp [Frame.Ok, hpc] at hf
  | start =>
    have hl := hi.loop_pos (t := t) (by simp [hpc])
    simp only [threadWrite, hpc, Option.some.injEq] at h
    subst h
    refine ⟨_, moves_setFrame (by simp [hpc]) (by simp [hpc]) (by simp) ?_ ?_ ?_⟩
    · simp [Frame.Ok]; omega
    · simp [Frame.completed, hpc]
    · simp [Frame.Inside, hpc]
  | test =>
    simp only [threadWrite, hpc, Option.some.injEq] at h
    simp only [Frame.Ok, hpc] at hf
    subst h
    refine ⟨_, moves_setFrame (by simp [hpc]) (by simp [hpc]) ?_ ?_ ?_ ?_⟩
    · simp only; split <;> simp
    · split <;> simp [Frame.Ok] <;> omega
    · split <;> simp [Frame.completed, hpc]
    · split <;> simp [Frame.Inside, hpc]
  | lock =>
    have hout : ¬ (s.threads t).Inside := by simp [Frame.Inside, hpc]
    rcases hi.guards.lock_of_outside hout with ⟨hm, hl⟩ | ⟨o, -, -, hl⟩
    · simp only [threadWrite, hpc, hl, Option.some.injEq] at h
      subst h
      refine ⟨_, moves_setMutex (by simp [hpc]) (by simp [hpc]) (by simp) ?_ ?_
        (.inl ⟨hm, rfl, by simp [Frame.Inside]⟩)⟩
      · simpa [Frame.Ok, hpc] using hf
      · simp [Frame.completed, hpc]
    · simp [threadWrite, hpc, hl] at h
  | load =>
    simp only [threadWrite, hpc, Option.some.injEq] at h
    subst h
    refine ⟨_, moves_setFrame (by simp [hpc]) (by simp [hpc]) (by simp) ?_ ?_ ?_⟩
    · simpa [Frame.Ok, hpc] using hf
    · simp [Frame.completed, hpc]
    · simp [Frame.Inside, hpc]
  | store =>
    have hl := hi.loop_pos (t := t) (by simp [hpc])
    have hn := hi.num_le (Int.le_of_lt hl)
    have hmax := hi.loop_le
    simp only [Frame.Ok, hpc] at hf
    have hroom : (s.threads t).tmp + 1 ≤ LLONG_MAX := by
      simp only [INT_MAX, LLONG_MAX] at hmax ⊢
      omega
    simp only [threadWrite, hpc, hroom, if_true, Option.some.injEq] at h
    subst h
    refine ⟨_, rfl, ⟨rfl, rfl, rfl⟩, by simp [hpc], ?_, ?_, ?_, .inr (by simp [Frame.Inside, hpc]),
      .inl ⟨rfl, ?_⟩⟩
    · simpa [Frame.Ok] using ⟨hf.1, hf.2.1, hf.2.2.1⟩
    · simp [Frame.completed, hpc, State.setFrame, hf.2.2.2]
    · simp [State.setFrame, hf.2.2.2]
    · simp [Frame.Inside, hpc]
  | unlock =>
    have hin : (s.threads t).Inside := by simp [Frame.Inside, hpc]
    have hu := hi.guards.unlock_of_inside hin
    simp only [threadWrite, hpc, hu, Option.some.injEq] at h
    subst h
    refine ⟨_, moves_setMutex (by simp [hpc]) (by simp [hpc]) (by simp) ?_ ?_
      (.inr ⟨(hi.guards t).mp hin, rfl, by simp [Frame.Inside]⟩)⟩
    · simpa [Frame.Ok, hpc] using hf
    · simp [Frame.completed, hpc]
  | incr =>
    have hmax := hi.loop_le
    simp only [Frame.Ok, hpc] at hf
    have hroom : (s.threads t).i + 1 ≤ INT_MAX := by omega
    simp only [threadWrite, hpc, hroom, if_true, Option.some.injEq] at h
    subst h
    refine ⟨_, moves_setFrame (by simp [hpc]) (by simp [hpc]) (by simp) ?_ ?_ ?_⟩
    · simp [Frame.Ok]; omega
    · simp [Frame.completed, hpc]
    · simp [Frame.Inside, hpc]

theorem Moves.frames {s s' : State} {t : Tid} {f' : Frame} (h : Moves s s' t f') (hi : Inv s)
    (u : Tid) : (s'.threads u).Ok s'.loop s'.num := by
  rw [h.threads, h.same.1]
  by_cases hu : u = t
  · subst hu
    simpa using h.ok
  · simp only [Function.update_of_ne hu]
    rcases h.writes with hn | hin
    · rw [hn]
      exact hi.frames u
    · exact (hi.frames u).of_outside (fun hu' => hu (hi.guards.unique hu' hin))

theorem Moves.guards {s s' : State} {t : Tid} {f' : Frame} (h : Moves s s' t f') (hi : Inv s) :
    Guards s'.mtx (fun u => (s'.threads u).Inside) := by
  have hframe : ∀ u, u ≠ t → ((s'.threads u).Inside ↔ (s.threads u).Inside) := by
    intro u hu
    simp [h.threads, hu]
  have hself : s'.threads t = f' := by simp [h.threads]
  have hg := hi.guards
  rcases h.owner with ⟨hm, hin⟩ | ⟨hm, hm', hin⟩ | ⟨hm, hm', hin⟩
  · exact hm ▸ hg.frame (by simpa only [hself] using hin) hframe
  · rw [hm] at hg
    exact hm' ▸ hg.acquire (by simpa only [hself] using hin) hframe
  · rw [hm] at hg
    exact hm' ▸ hg.release (by simpa only [hself] using hin) hframe

theorem Moves.main_ok {s s' : State} {t : Tid} {f' : Frame} (h : Moves s s' t f') (hi : Inv s) :
    MainOk s' := by
  have hm := hi.main
  obtain ⟨hloop, hmain, hprinted⟩ := h.same
  obtain ⟨ha, hr, ha'⟩ := h.alive
  simp only [MainOk, hmain, hloop, hprinted, h.threads] at hm ⊢
  cases hpc : s.main <;> cases t <;> simp_all [Function.update]

theorem Moves.inv {s s' : State} {t : Tid} {f' : Frame} (h : Moves s s' t f') (hi : Inv s) :
    Inv s' where
  frames := h.frames hi
  guards := h.guards hi
  num_eq := by
    have hn := hi.num_eq
    have hc := h.counts
    rw [h.threads]
    cases t <;> simp only [Function.update_self, ne_eq, reduceCtorEq, not_false_eq_true,
      Function.update_of_ne] <;> omega
  increments_eq := by
    have hh := h.history
    have he := hi.increments_eq
    omega
  loop_le := h.same.1 ▸ hi.loop_le
  main := h.main_ok hi

theorem inv_create {s : State} (hi : Inv s) {t : Tid} (ht : (s.threads t).pc = .absent)
    {m : MainPc} (hm : MainOk { s.create t with main := m }) :
    Inv { s.create t with main := m } := by
  have hstart : ({ s.threads t with pc := .start } : Frame).completed =
      (s.threads t).completed := by simp [Frame.completed, ht]
  refine ⟨?_, ?_, ?_, hi.increments_eq, hi.loop_le, hm⟩
  · intro u
    by_cases hu : u = t
    · subst hu
      simp [State.create, State.setFrame, Frame.Ok]
    · simpa [State.create, State.setFrame, hu] using hi.frames u
  · apply hi.guards.frame (t := t)
    · simp [State.create, State.setFrame, Frame.Inside, ht]
    · intro u hu
      simp [State.create, State.setFrame, hu]
  · have hn := hi.num_eq
    cases t <;> simpa [State.create, State.setFrame, hstart] using hn

theorem inv_setMain {s : State} (hi : Inv s) {m : MainPc} {p : Option ℤ}
    (hm : MainOk { s with main := m, printed := p }) :
    Inv { s with main := m, printed := p } :=
  ⟨hi.frames, hi.guards, hi.num_eq, hi.increments_eq, hi.loop_le, hm⟩

/-- Once both threads have returned, each has made `loop` increments. -/
theorem Inv.num_of_returned {s : State} (hi : Inv s) (h1 : (s.threads .t1).pc = .returned)
    (h2 : (s.threads .t2).pc = .returned) : s.num = 2 * s.loop := by
  have hf1 := hi.frames .t1
  have hf2 := hi.frames .t2
  simp only [Frame.Ok, h1, h2] at hf1 hf2
  rw [hi.num_eq]
  simp only [Frame.completed, h1, h2]
  omega

theorem Inv.free_of_outside {s : State} (hi : Inv s) (h1 : ¬ (s.threads .t1).Inside)
    (h2 : ¬ (s.threads .t2).Inside) : s.mtx = none := by
  cases hm : s.mtx with
  | none => rfl
  | some o =>
    have ho := (hi.guards o).mpr hm
    cases o <;> contradiction

theorem inv_main {s s' : State} (hi : Inv s) (h : main s = some s') : Inv s' := by
  have hm := hi.main
  cases hpc : s.main with
  | attrInit | attrSettype | attrDestroy =>
    simp only [main, hpc, Option.some.injEq] at h
    simp only [MainOk, hpc] at hm
    exact h ▸ inv_setMain hi (by simpa [MainOk] using hm)
  | mutexInit =>
    simp only [main, hpc, Option.some.injEq] at h
    simp only [MainOk, hpc] at hm
    have hfree : s.mtx = none :=
      hi.free_of_outside (by simp [Frame.Inside, hm]) (by simp [Frame.Inside, hm])
    rw [← hfree] at h
    exact h ▸ inv_setMain hi (by simpa [MainOk] using hm)
  | readLoop =>
    simp only [main, hpc, Option.some.injEq] at h
    simp only [MainOk, hpc] at hm
    refine h ▸ inv_setMain hi ?_
    by_cases hl : s.loop ≤ 0
    · simpa [MainOk, hl] using hm
    · simpa [MainOk, hl] using ⟨by omega, hm⟩
  | create1 =>
    simp only [main, hpc, Option.some.injEq] at h
    simp only [MainOk, hpc] at hm
    refine h ▸ inv_create hi hm.2.1 ?_
    simpa [MainOk, State.create, State.setFrame] using ⟨hm.1, hm.2.2⟩
  | create2 =>
    simp only [main, hpc, Option.some.injEq] at h
    simp only [MainOk, hpc] at hm
    refine h ▸ inv_create hi hm.2.2 ?_
    simpa [MainOk, State.create, State.setFrame] using ⟨hm.1, hm.2.1⟩
  | join1 =>
    simp only [MainOk, hpc] at hm
    by_cases hj : (s.threads .t1).pc = .returned
    · simp only [main, hpc, hj, if_true, Option.some.injEq] at h
      exact h ▸ inv_setMain hi (by simp [MainOk, hm, hj])
    · simp [main, hpc, hj] at h
  | join2 =>
    simp only [MainOk, hpc] at hm
    by_cases hj : (s.threads .t2).pc = .returned
    · simp only [main, hpc, hj, if_true, Option.some.injEq] at h
      exact h ▸ inv_setMain hi (by simp [MainOk, hm, hj])
    · simp [main, hpc, hj] at h
  | mutexDestroy =>
    simp only [MainOk, hpc] at hm
    have hfree : s.mtx = none :=
      hi.free_of_outside (by simp [Frame.Inside, hm]) (by simp [Frame.Inside, hm])
    simp only [main, hpc, hfree, if_true, Option.some.injEq] at h
    rw [← hfree] at h
    exact h ▸ inv_setMain hi (by simpa [MainOk] using hm)
  | destroyErr => simp [MainOk, hpc] at hm
  | print =>
    simp only [main, hpc, Option.some.injEq] at h
    simp only [MainOk, hpc] at hm
    have hn := hi.num_of_returned hm.2.1 hm.2.2
    exact h ▸ inv_setMain hi (by simp [MainOk, hm, hn])
  | returned ret => simp [main, hpc] at h

theorem inv_start (loop : ℤ) (hl : loop ≤ INT_MAX) : Inv (start loop) where
  frames t := by simp [start, absentFrame, Frame.Ok]
  guards t := by simp [start, absentFrame, Frame.Inside]
  num_eq := by simp [start, absentFrame, Frame.completed]
  increments_eq := by simp [start]
  loop_le := hl
  main := by simp [MainOk, start, absentFrame]

theorem inv_invariant : program.Invariant Inv where
  init s := by
    rintro ⟨loop, -, hmax, rfl⟩
    exact inv_start loop hmax
  step s a s' hi h := by
    cases a with
    | main => exact inv_main hi h
    | thread t =>
      obtain ⟨f', hm⟩ := threadWrite_moves hi h
      exact hm.inv hi

theorem inv_of_reachable {s : State} (h : program.Reachable s) : Inv s :=
  inv_invariant.reachable h

end LinuxTemplates.MutexIncrements
