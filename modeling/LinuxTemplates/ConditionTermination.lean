import LinuxTemplates.ConditionAccounting
import LinuxTemplates.ConditionProgress
import LinuxTemplates.RunLengths

/-!
# Every run of `condition.cpp` ends

A sweep of `main` over the threads joins at least one of them, and a wait is ended by a signal,
of which each worker sends one, or spuriously. So only spurious wake-ups make a run longer.
-/

namespace LinuxTemplates.ConditionProgram
open TransitionSystems MutexOwnership TaskLedgers

variable {N : ℕ}

/-- The signal may send `main` through its loop once more. -/
def WorkerPc.weight : WorkerPc → ℕ
  | .absent | .sleep => 10
  | .lock => 9
  | .incrUnjoined => 8
  | .setTerminated => 7
  | .unlock => 6
  | .signal => 5
  | .ret => 1
  | .finished => 0

/-- The rest of a sweep has a thread to join. -/
def State.Promised (s : State N) (idx : ℕ) : Prop :=
  ∃ i : Fin N, idx ≤ i.val ∧ s.state i = .tsTerminated

instance (s : State N) (idx : ℕ) : Decidable (s.Promised idx) :=
  inferInstanceAs (Decidable (∃ i : Fin N, idx ≤ i.val ∧ s.state i = .tsTerminated))

/-- Until its first join a sweep is paid for by the thread that it is going to join. -/
def State.mainWeight (s : State N) : ℕ :=
  match s.main with
  | .calloc => 3 * N + 10
  | .forCreate idx => 2 * (N - idx) + N + 9
  | .create idx => 2 * (N - idx) + N + 8
  | .setTotal => N + 8
  | .setLive => N + 7
  | .whileLive => N + 6
  | .lock | .reacquire => N + 5
  | .whileUnjoined => N + 4
  | .condWait => N + 3
  | .waiting => N + 2
  | .forReap idx => if s.Promised idx then N - idx + 3 else N - idx + N + 8
  | .join idx => N - idx + 2
  | .setJoined idx => N - idx + 1
  | .decLive idx => N - idx + N + 10
  | .decUnjoined idx => N - idx + N + 9
  | .unlock => N + 7
  | .free => 1
  | .returned _ => 0

def State.weight (s : State N) : ℕ :=
  s.mainWeight + load s.worker WorkerPc.weight + (N + 10) * tally s.state (· ≠ .tsJoined)

theorem weight_start (N : ℕ) : (start N).weight = N * N + 23 * N + 10 := by
  have hjoined : tally (fun _ : Fin N => ThreadState.tsAlive) (· ≠ .tsJoined) = N := by
    rw [tally_eq_card_of_forall (fun _ => by simp), Fintype.card_fin]
  simp only [State.weight, State.mainWeight, start, load_const, Fintype.card_fin, WorkerPc.weight,
    hjoined, Nat.add_mul]
  omega

/-! ## Steps of a worker -/

/-- Only the signal can move `main`, and it is worth four steps. -/
theorem threadFunc_pays {s s' : State N} {i : Fin N} (h : threadFunc s i = some s') :
    (s'.main = s.main ∧ (s'.worker i).weight + 1 ≤ (s.worker i).weight) ∨
      (s'.main = s.main.signalled ∧ (s'.worker i).weight + 4 ≤ (s.worker i).weight) := by
  cases hpc : s.worker i with
  | absent | finished => simp [threadFunc, hpc] at h
  | lock =>
    simp only [threadFunc, hpc, Option.ite_none_right_eq_some, Option.some.injEq] at h
    obtain ⟨-, rfl⟩ := h
    exact .inl ⟨rfl, by simp [State.setWorker, WorkerPc.weight]⟩
  | sleep | incrUnjoined | setTerminated | unlock | ret =>
    simp only [threadFunc, hpc, Option.some.injEq] at h
    subst h
    exact .inl ⟨rfl, by simp [State.setWorker, State.setState, WorkerPc.weight]⟩
  | signal =>
    simp only [threadFunc, hpc, Option.some.injEq] at h
    subst h
    exact .inr ⟨rfl, by simp [State.setWorker, WorkerPc.weight]⟩

theorem mainWeight_signalled {s s' : State N} (h : s'.main = s.main.signalled)
    (hsame : s'.main = s.main → s'.mainWeight ≤ s.mainWeight) :
    s'.mainWeight ≤ s.mainWeight + 3 := by
  rcases signalled_cases s.main with ⟨-, hsig⟩ | ⟨hwait, hsig⟩
  · exact Nat.le_add_right_of_le (hsame (h.trans hsig))
  · rw [State.mainWeight, h, hsig, State.mainWeight, hwait]

/-- A thread that ends in the midst of a sweep can only shorten it. -/
theorem Moves.mainWeight_le {s s' : State N} {i : Fin N} {pc : WorkerPc} {ts : ThreadState}
    (h : Moves s s' i pc ts) (hmain : s'.main = s.main) : s'.mainWeight ≤ s.mainWeight := by
  have hpromised : ∀ idx, s.Promised idx → s'.Promised idx :=
    fun _ ⟨j, hj, hterm⟩ => ⟨j, hj, h.terminated_keep hterm⟩
  cases hpc : s.main <;> simp only [State.mainWeight, hmain, hpc, Nat.le_refl]
  case forReap idx =>
    by_cases hp : s.Promised idx
    · rw [if_pos hp, if_pos (hpromised idx hp)]
    · rw [if_neg hp]
      split <;> omega

theorem threadFunc_weight {s s' : State N} {i : Fin N} (hi : Inv s)
    (h : threadFunc s i = some s') : s'.weight < s.weight := by
  obtain ⟨pc, ts, hm⟩ := threadFunc_moves hi h
  have hload := load_update s.worker WorkerPc.weight i pc
  have hpc : s'.worker i = pc := by rw [hm.worker, Function.update_self]
  simp only [State.weight, hm.live_eq, hm.worker]
  rcases threadFunc_pays h with ⟨hmain, hpays⟩ | ⟨hmain, hpays⟩
  · have hle := hm.mainWeight_le hmain
    rw [hpc] at hpays
    omega
  · have hle := mainWeight_signalled hmain hm.mainWeight_le
    rw [hpc] at hpays
    omega

/-! ## Steps of `main` -/

/-- A sweep begins with something to join. -/
theorem Inv.promised {s : State N} (hi : Inv s) (hpc : s.main = .whileUnjoined)
    (hu : s.numUnjoined ≠ 0) : s.Promised 0 := by
  have hun := hi.unjoined
  have hnone : tally s.worker (· = .setTerminated) = 0 := by
    refine tally_eq_zero_iff.mpr (fun i hw => ?_)
    have hboth : Agent.main = .worker i := hi.guards.unique
      (show s.Holds .main by simp [State.Holds, hpc, MainPc.holds])
      (show s.Holds (.worker i) by simp [State.Holds, hw, WorkerPc.holds])
    cases hboth
  simp only [hpc, MainPc.owesUnjoined, hnone] at hun
  have hpos : 0 < tally s.state (· = .tsTerminated) := by omega
  obtain ⟨i, hterm⟩ := tally_pos_iff.mp hpos
  exact ⟨i, Nat.zero_le _, hterm⟩

theorem promised_succ {s : State N} {idx : ℕ} (hidx : idx < N)
    (h : s.state ⟨idx, hidx⟩ ≠ .tsTerminated) : s.Promised (idx + 1) ↔ s.Promised idx := by
  constructor
  · rintro ⟨i, hle, hterm⟩
    exact ⟨i, Nat.le_of_succ_le hle, hterm⟩
  · rintro ⟨i, hle, hterm⟩
    refine ⟨i, Nat.lt_of_le_of_ne hle (fun he => h ?_), hterm⟩
    rw [← hterm]
    exact congrArg s.state (Fin.ext he)

theorem not_promised {s : State N} {idx : ℕ} (hidx : ¬ idx < N) : ¬ s.Promised idx :=
  fun ⟨i, hle, _⟩ => hidx (Nat.lt_of_le_of_lt hle i.isLt)

theorem setJoined_live {s : State N} {idx : Fin N} (h : s.state idx = .tsTerminated) :
    (N + 10) * tally (s.setState idx .tsJoined).state (· ≠ .tsJoined) + (N + 10) =
      (N + 10) * tally s.state (· ≠ .tsJoined) := by
  have hlive := tally_update s.state (· ≠ .tsJoined) idx .tsJoined
  rw [if_pos (by simp [h]), if_neg (by simp)] at hlive
  have hmul := congrArg ((N + 10) * ·) hlive
  simp only [Nat.mul_add, Nat.mul_one, Nat.add_zero] at hmul
  exact hmul

theorem main_weight {s s' : State N} (hi : Inv s) (h : main s = some s') :
    s'.weight < s.weight := by
  have hm := hi.main
  cases hpc : s.main with
  | waiting | returned => simp [main, hpc] at h
  | calloc | setTotal | setLive | condWait | decLive | unlock | free =>
    simp only [main, hpc, Option.some.injEq] at h
    subst h
    simp only [State.weight, State.mainWeight, hpc]
    omega
  | lock | reacquire =>
    simp only [main, hpc, Option.ite_none_right_eq_some, Option.some.injEq] at h
    obtain ⟨-, rfl⟩ := h
    simp only [State.weight, State.mainWeight, hpc]
    omega
  | join idx =>
    simp only [main, hpc, Option.ite_none_right_eq_some, Option.some.injEq] at h
    obtain ⟨-, rfl⟩ := h
    simp only [State.weight, State.mainWeight, hpc]
    omega
  | whileLive =>
    simp only [main, hpc, Option.some.injEq] at h
    subst h
    by_cases hl : s.numLive > 0 <;> simp only [State.weight, State.mainWeight, hpc, hl, if_true,
      if_false] <;> omega
  | whileUnjoined =>
    simp only [main, hpc, Option.some.injEq] at h
    subst h
    by_cases hu : s.numUnjoined = 0
    · simp only [State.weight, State.mainWeight, hpc, hu, if_true]
      omega
    · have hp : State.Promised { s with main := .forReap 0 } 0 := hi.promised hpc hu
      simp only [State.weight, State.mainWeight, hpc, hu, if_false, if_pos hp]
      omega
  | forCreate idx =>
    by_cases hidx : idx < N
    · simp only [main, hpc, hidx, dif_pos, Option.some.injEq, hi.setState_alive hpc] at h
      subst h
      simp only [State.weight, State.mainWeight, hpc]
      omega
    · simp only [main, hpc, hidx, dif_neg, not_false_eq_true, Option.some.injEq] at h
      subst h
      simp only [State.weight, State.mainWeight, hpc]
      omega
  | create idx =>
    simp only [main, hpc, Option.some.injEq] at h
    simp only [MainOk, hpc] at hm
    subst h
    have habsent : s.worker idx = .absent := by
      by_contra hne
      exact absurd ((hm.1 idx).mp hne) (Nat.lt_irrefl _)
    have hload := load_update s.worker WorkerPc.weight idx .sleep
    have hidx := idx.isLt
    simp only [habsent, WorkerPc.weight] at hload
    simp only [State.weight, State.mainWeight, State.setWorker, hpc]
    omega
  | forReap idx =>
    by_cases hidx : idx < N
    · simp only [main, hpc, hidx, dif_pos, Option.some.injEq] at h
      subst h
      by_cases hterm : s.state ⟨idx, hidx⟩ = .tsTerminated
      · have hp : s.Promised idx := ⟨⟨idx, hidx⟩, Nat.le_refl _, hterm⟩
        simp only [State.weight, State.mainWeight, hpc, hterm, if_true, if_pos hp]
        omega
      · have hp := promised_succ hidx hterm
        have hkeep : State.Promised { s with main := .forReap (idx + 1) } (idx + 1) ↔
            s.Promised (idx + 1) := Iff.rfl
        simp only [State.weight, State.mainWeight, hpc, hterm, if_false, hkeep, hp]
        split <;> omega
    · simp only [main, hpc, hidx, dif_neg, not_false_eq_true, Option.some.injEq] at h
      subst h
      simp only [State.weight, State.mainWeight, hpc, if_neg (not_promised hidx)]
      omega
  | setJoined idx =>
    simp only [main, hpc, Option.some.injEq] at h
    simp only [MainOk, hpc] at hm
    subst h
    have hlive := setJoined_live hm.2.2.1
    have hidx := idx.isLt
    simp only [State.weight, State.mainWeight, State.setState, hpc] at hlive ⊢
    omega
  | decUnjoined idx =>
    simp only [main, hpc, Option.some.injEq] at h
    subst h
    have hidx := idx.isLt
    simp only [State.weight, State.mainWeight, hpc]
    split <;> omega

theorem step_weight {s s' : State N} {a : Action N} (hi : Inv s)
    (h : (program N).step s a = some s') :
    s'.weight + 1 ≤ s.weight + if decide (a = .spuriousWake) then 4 else 0 := by
  cases a with
  | main => exact main_weight hi h
  | worker i => exact threadFunc_weight hi (step_worker h)
  | callFails =>
    simp only [program, step, callFails] at h
    split at h <;> simp only [Option.some.injEq, reduceCtorEq] at h
    all_goals
      rename_i hpc
      subst h
      simp only [State.weight, State.mainWeight, hpc]
      omega
  | spuriousWake =>
    simp only [program, step, spuriousWake] at h
    split at h <;> simp only [Option.some.injEq, reduceCtorEq] at h
    rename_i hpc
    subst h
    simp only [State.weight, State.mainWeight, hpc, decide_true, if_true]
    omega

/-! ## The end of a run -/

/-- The actions of the program itself. -/
def Action.proper (a : Action N) : Prop := a = .main ∨ ∃ i, a = .worker i

theorem Inv.halted_iff {s : State N} (hi : Inv s) :
    (program N).Halted s ↔ ∃ ret, s.main = .returned ret := by
  constructor
  · intro hhalted
    by_contra hret
    rcases progress hi (not_exists.mp hret) with henabled | ⟨i, henabled⟩
    · exact hhalted.not_enabled _ henabled
    · exact hhalted.not_enabled _ henabled
  · rintro ⟨ret, hpc⟩ a
    cases a <;> simp [program, step, ConditionProgram.main, callFails, spuriousWake, hpc]

/-- Only a failing call makes `main` return an error. -/
theorem main_ne_failed {s s' : State N} (h : main s = some s') : s'.main ≠ .returned (-1) := by
  cases hpc : s.main with
  | waiting | returned => simp [main, hpc] at h
  | calloc | create | setTotal | setLive | condWait | setJoined | decLive | decUnjoined | unlock
  | free =>
    simp only [main, hpc, Option.some.injEq] at h
    simp [← h]
  | lock | reacquire | join =>
    simp only [main, hpc, Option.ite_none_right_eq_some, Option.some.injEq] at h
    simp [← h.2]
  | whileLive | whileUnjoined =>
    simp only [main, hpc, Option.some.injEq] at h
    subst h
    dsimp only
    split <;> simp
  | forCreate idx | forReap idx =>
    by_cases hidx : idx < N <;> simp only [main, hpc, hidx, dif_pos, dif_neg, not_false_eq_true,
      Option.some.injEq] at h <;> subst h <;> dsimp only
    all_goals first | split <;> simp | simp

theorem step_ne_failed {s s' : State N} {a : Action N} (hi : Inv s)
    (hne : s.main ≠ .returned (-1)) (ha : a ≠ .callFails) (h : (program N).step s a = some s') :
    s'.main ≠ .returned (-1) := by
  cases a with
  | callFails => exact absurd rfl ha
  | main => exact main_ne_failed h
  | worker i =>
    obtain ⟨pc, ts, hm⟩ := threadFunc_moves hi (step_worker h)
    rcases hm.wakes with ⟨hmain, -⟩ | ⟨-, hmain⟩
    · exact hmain ▸ hne
    · simp [hmain]
  | spuriousWake =>
    simp only [program, step, spuriousWake] at h
    split at h <;> simp only [Option.some.injEq, reduceCtorEq] at h
    simp [← h]

/-- No call has failed. -/
structure Unfailed (s : State N) : Prop where
  inv : Inv s
  main : s.main ≠ .returned (-1)

theorem unfailed_start : Unfailed (start N) := ⟨inv_start, by simp [start]⟩

theorem unfailed_step (s : State N) (a : Action N) (s' : State N) (h : Unfailed s)
    (ha : a ≠ .callFails) (hs : (program N).step s a = some s') : Unfailed s' :=
  ⟨inv_invariant.step _ _ _ h.inv hs, step_ne_failed h.inv h.main ha hs⟩

theorem Unfailed.returned {s : State N} (h : Unfailed s) {ret : ℤ} (hpc : s.main = .returned ret) :
    s.main = .returned 0 := by
  have hm := h.inv.main
  simp only [MainOk, hpc] at hm
  rcases hm with rfl | ⟨rfl, -⟩
  · exact absurd hpc h.main
  · exact hpc

theorem Unfailed.progress {s : State N} (h : Unfailed s) (hend : ¬ s.main = .returned 0) :
    ∃ a : Action N, a.proper ∧ (program N).Enabled s a := by
  have hret : ∀ ret, s.main ≠ .returned ret := fun _ hpc => hend (h.returned hpc)
  rcases ConditionProgram.progress h.inv hret with henabled | ⟨i, henabled⟩
  · exact ⟨.main, .inl rfl, henabled⟩
  · exact ⟨.worker i, .inr ⟨i, rfl⟩, henabled⟩

theorem Action.proper.ne {a : Action N} (h : a.proper) : a ≠ .callFails ∧ a ≠ .spuriousWake := by
  rcases h with rfl | ⟨i, rfl⟩ <;> simp

theorem proper_weight (s : State N) (a : Action N) (s' : State N) (h : Unfailed s)
    (ha : a.proper) (hs : (program N).step s a = some s') : s'.weight < s.weight := by
  have hweight := step_weight h.inv hs
  rw [if_neg (by simp [ha.ne.2])] at hweight
  exact hweight

/-- A run has at most so many steps, and four more for each spurious wake-up. It ends just when
`main` returns, which is 0 with all threads joined unless a call has failed. And from every state
that a run without such a failure reaches, `main` and the workers alone can get there. -/
theorem reaping_ends {as : List (Action N)} {s : State N}
    (hrun : (program N).run (start N) as = some s) :
    as.length ≤ N * N + 23 * N + 10 + 4 * as.countP (· = .spuriousWake) ∧
    ((program N).Halted s ↔ ∃ ret, s.main = .returned ret) ∧
    (.callFails ∉ as →
      ((program N).Halted s → s.main = .returned 0 ∧ ∀ i, s.state i = .tsJoined) ∧
      ∃ bs t, (∀ b ∈ bs, b.proper) ∧ (program N).run s bs = some t ∧
        t.main = .returned 0 ∧ ∀ i, t.state i = .tsJoined) := by
  have hi := inv_of_reachable ((System.Reachable.init rfl).run hrun)
  refine ⟨?_, hi.halted_iff, fun hfails => ?_⟩
  · have hle := System.length_run_le_refund (inv_invariant (N := N)).step
      (fun _ _ _ h hs => step_weight h hs) inv_start hrun
    rw [weight_start] at hle
    omega
  · have hs := System.run_preserves_of unfailed_step
      (fun a ha hfail => hfails (hfail ▸ ha)) unfailed_start hrun
    refine ⟨fun hhalted => ?_, ?_⟩
    · obtain ⟨ret, hpc⟩ := hi.halted_iff.mp hhalted
      exact ⟨hs.returned hpc, (hi.all_joined (.inr (hs.returned hpc))).1⟩
    · obtain ⟨bs, t, hbs, hrun', hend⟩ := System.exists_run_to
        (fun s a s' h ha => unfailed_step s a s' h ha.ne.1) proper_weight
        (fun s h hend => h.progress hend) hs
      have ht := inv_invariant.reachable (((System.Reachable.init rfl).run hrun).run hrun')
      exact ⟨bs, t, hbs, hrun', hend, (ht.all_joined (.inr hend)).1⟩

/-- `main` is woken spuriously, while the only thread is asleep. -/
def spuriousSchedule : List (Action 1) :=
  List.replicate 10 .main ++ [.spuriousWake, .main, .main]

theorem reaping_ends_spurious :
    ∃ bs t, (∀ b ∈ bs, Action.proper b) ∧
      (program 1).run ((program 1).after (start 1) spuriousSchedule (by decide)) bs = some t ∧
      t.main = .returned 0 ∧ ∀ i, t.state i = .tsJoined := by
  have hrun : (program 1).run (start 1) spuriousSchedule =
      some ((program 1).after (start 1) spuriousSchedule (by decide)) := System.run_after _ _
  exact ((reaping_ends hrun).2.2 (by decide)).2

end LinuxTemplates.ConditionProgram
