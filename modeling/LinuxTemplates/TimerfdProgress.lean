import LinuxTemplates.TimerfdAccounting

/-!
# When `timerfd.cpp` ends

A turn of the loop takes at least one expiration, and the program waits in `read` only for
the next one. It waits for ever when the timer expires less often than the loop wants.
-/

namespace LinuxTemplates.TimerfdSystem
open TransitionSystems IntervalTimers TimerfdProgram

variable {env : Env} {s s' : State}

/-! ## How many turns there are -/

/-- Before the last read the loop was not done. -/
def NotDone (s : State) : Prop :=
  ∀ counts n, s.counts = counts ++ [n] → (counts.sum : ℤ).bmod 4294967296 < s.maxLoop.toInt

theorem notDone_step (hi : Inv env s) (h : NotDone s) {a : Action}
    (hs : (program env).step s a = some s') : NotDone s' := by
  have hmain := hi.main
  cases a with
  | main =>
    simp only [program, step, main] at hs
    cases hp : s.main <;> simp only [MainOk, hp] at hs hmain
    case arguments =>
      split at hs
      · exact Option.some.inj hs ▸ h
      · obtain rfl := Option.some.inj hs
        intro counts n hcounts
        rw [hmain.counts] at hcounts
        exact absurd hcounts (by simp)
    case settime =>
      split at hs
      · exact Option.some.inj hs ▸ h
      · exact Option.some.inj hs ▸ h
    case read =>
      split at hs
      · cases hs
      · obtain rfl := Option.some.inj hs
        intro counts n hcounts
        obtain ⟨rfl, -⟩ := List.append_inj' hcounts rfl
        rw [← hi.total]
        exact Int32.lt_iff_toInt_lt.mp hmain.2.2
    case create | clockStart | test | clockNow => exact Option.some.inj hs ▸ h
    case returned | crashed => cases hs
  | fails =>
    simp only [program, step, fails] at hs
    cases hp : s.main <;> simp only [hp, Option.some.injEq, reduceCtorEq] at hs
    all_goals exact hs ▸ h
  | tick d =>
    simp only [program, step, tick, Option.ite_none_right_eq_some, Option.some.injEq] at hs
    exact hs.2 ▸ h
  | expire =>
    simp only [program, step, expire, Option.map_eq_some_iff] at hs
    obtain ⟨t, -, rfl⟩ := hs
    exact h

theorem length_le_sum {counts : List ℕ} (h : ∀ n ∈ counts, 0 < n) : counts.length ≤ counts.sum := by
  have hle := List.card_nsmul_le_sum counts 1 h
  simpa using hle

theorem counts_length_le (hi : Inv env s) (h : NotDone s) (hsum : s.counts.sum < 2147483648) :
    s.counts.length ≤ s.maxLoop.toInt.toNat := by
  rcases List.eq_nil_or_concat s.counts with hnil | ⟨counts, n, hcounts⟩
  · simp [hnil]
  · rw [List.concat_eq_append] at hcounts
    have hlt := h counts n hcounts
    have hlength : counts.length ≤ counts.sum :=
      length_le_sum fun k hk => hi.pos k (by rw [hcounts]; exact List.mem_append_left _ hk)
    rw [hcounts, List.sum_append, List.sum_singleton] at hsum
    rw [Int.bmod_eq_of_le (by omega) (by omega)] at hlt
    rw [hcounts, List.length_append, List.length_singleton]
    omega

/-- The steps of `main` up to a program point, less those of completed turns. -/
def MainPc.steps : MainPc → ℕ
  | .arguments => 0
  | .create => 1
  | .settime => 2
  | .clockStart | .clockNow => 3
  | .test => 4
  | .read | .returned _ | .crashed => 5

def State.steps (s : State) : ℕ := 3 * s.counts.length + s.main.steps

theorem steps_le (s : State) : s.steps ≤ 3 * s.counts.length + 5 := by
  rw [State.steps]
  cases s.main <;> simp [MainPc.steps]

theorem step_steps {a : Action} (hs : (program env).step s a = some s') :
    s.steps + (if a = .main then 1 else 0) ≤ s'.steps := by
  cases a with
  | main =>
    simp only [program, step, main] at hs
    rw [State.steps, State.steps]
    cases hp : s.main <;> simp only [hp] at hs
    case arguments => split at hs <;> cases Option.some.inj hs <;> simp [MainPc.steps]
    case settime => split at hs <;> cases Option.some.inj hs <;> simp [MainPc.steps, State.fail]
    case read =>
      split at hs
      · cases hs
      · obtain rfl := Option.some.inj hs
        simp only [List.length_append, List.length_singleton, MainPc.steps, if_true]
        omega
    case test =>
      obtain rfl := Option.some.inj hs
      by_cases hlt : s.totalLoop < s.maxLoop <;> simp [hlt, MainPc.steps]
    case create | clockStart | clockNow =>
      obtain rfl := Option.some.inj hs
      simp [MainPc.steps]
    case returned | crashed => cases hs
  | fails =>
    simp only [program, step, fails] at hs
    rw [State.steps, State.steps]
    cases hp : s.main <;> simp only [hp, Option.some.injEq, reduceCtorEq] at hs
    all_goals
      subst hs
      simp [State.fail, MainPc.steps]
  | tick d =>
    simp only [program, step, tick, Option.ite_none_right_eq_some, Option.some.injEq] at hs
    exact hs.2 ▸ le_refl _
  | expire =>
    simp only [program, step, expire, Option.map_eq_some_iff] at hs
    obtain ⟨t, -, rfl⟩ := hs
    exact le_refl _

/-! ## Waiting -/

theorem count_of_delay {c : Schedule} (h : c.delay = 0) (now : ℕ) : c.count now = 0 :=
  if_pos (.inl h)

theorem count_le_one {c : Schedule} (h : c.interval = 0) (now : ℕ) : c.count now ≤ 1 := by
  rw [Schedule.count, if_pos h]
  split
  · exact Nat.zero_le 1
  · exact Nat.le_refl 1

/-- The timer expires less often than the loop wants. -/
def Starves (s : State) : Prop :=
  (s.schedule.delay = 0 ∧ 0 < s.maxLoop.toInt) ∨
    (s.schedule.interval = 0 ∧ 1 < s.maxLoop.toInt)

theorem Starves.count_lt (h : Starves s) (now : ℕ) :
    (s.schedule.count now : ℤ) < s.maxLoop.toInt := by
  rcases h with ⟨hdelay, hlt⟩ | ⟨hinterval, hlt⟩
  · rw [count_of_delay hdelay]
    exact hlt
  · have hle := count_le_one hinterval now
    omega

/-- A read that waits for a timer without a next instant. -/
theorem starves_of_exhausted (h : Inv env s) (hp : s.main = .read) (hticks : s.timer.ticks = 0)
    (hnext : s.timer.next = none) : Starves s := by
  have hmain := h.main
  rw [MainOk, hp] at hmain
  have hlt := Int32.lt_iff_toInt_lt.mp hmain.2.2
  have hfired := h.follows.fired
  have htotal := h.total
  rcases h.follows.exhausted_iff.mp hnext with hdelay | ⟨hinterval, htold⟩
  · rw [count_of_delay hdelay] at hfired
    rw [show s.counts.sum = 0 by omega] at htotal
    rw [htotal] at hlt
    exact .inl ⟨hdelay, hlt⟩
  · have hone := count_le_one hinterval s.clock
    rw [show s.counts.sum = 1 by omega] at htotal
    rw [htotal] at hlt
    exact .inr ⟨hinterval, hlt⟩

/-- Some step is possible unless `main` is done or waits in vain. -/
theorem progress (h : Inv env s) (hover : s.main.over = false) :
    (program env).Enabled s .main ∨ (program env).Enabled s .expire ∨
      (∃ i, s.timer.next = some i ∧ (program env).Enabled s (.tick (i - s.clock))) ∨
      (s.main = .read ∧ Starves s) := by
  cases hp : s.main with
  | read =>
    by_cases hticks : s.timer.ticks = 0
    · cases hnext : s.timer.next with
      | none => exact .inr (.inr (.inr ⟨rfl, starves_of_exhausted h hp hticks hnext⟩))
      | some i =>
        rcases Nat.lt_or_ge s.clock i with hlt | hle
        · refine .inr (.inr (.inl ⟨i, rfl, ?_⟩))
          have hallows : s.timer.Allows (s.clock + (i - s.clock)) := by
            intro j hj
            rw [hnext, Option.mem_some] at hj
            omega
          simp [System.Enabled, program, step, tick, hallows, hlt]
        · refine .inr (.inl ?_)
          simp [System.Enabled, program, step, expire, Timer.expire, hnext, hle]
    · exact .inl (by simp [System.Enabled, program, step, main, hp, hticks])
  | arguments =>
    refine .inl ?_
    cases harg : arguments env <;> simp [System.Enabled, program, step, main, hp, harg]
  | settime =>
    refine .inl ?_
    simp only [System.Enabled, program, step, main, hp]
    split <;> rfl
  | create | clockStart | test | clockNow =>
    exact .inl (by simp [System.Enabled, program, step, main, hp])
  | returned | crashed =>
    rw [hp] at hover
    cases hover

/-- As long as fewer than 2^31 expirations have been read `main` has taken only so many steps for
each of those that it wants. Until it is done it can go on, or the timer can expire, or the next
expiration is ahead; else it waits in `read` for a timer that does not expire often enough, and
with such a timer it does not return 0 in any run. -/
theorem timer_ends {as : List Action} (hrun : (program env).run (start env) as = some s) :
    (s.counts.sum < 2147483648 →
      as.countP (· = .main) ≤ 3 * s.maxLoop.toInt.toNat + 5) ∧
    (s.main.over = false → (program env).Enabled s .main ∨ (program env).Enabled s .expire ∨
      (∃ i, s.timer.next = some i ∧ (program env).Enabled s (.tick (i - s.clock))) ∨
      (s.main = .read ∧ Starves s)) ∧
    (Starves s → s.main ≠ .returned 0) := by
  have hpreserve : ∀ s a s', (Inv env s ∧ NotDone s) → (program env).step s a = some s' →
      Inv env s' ∧ NotDone s' :=
    fun _ _ _ h hs => ⟨(inv_invariant env).step _ _ _ h.1 hs, notDone_step h.1 h.2 hs⟩
  have hstart : Inv env (start env) ∧ NotDone (start env) :=
    ⟨(inv_invariant env).init _ rfl, fun counts n hcounts => by simp [start] at hcounts⟩
  have hearn : ∀ s a s', (Inv env s ∧ NotDone s) → (program env).step s a = some s' →
      s.steps + (if decide (a = Action.main) = true then 1 else 0) ≤ s'.steps :=
    fun _ _ _ _ hs => by simpa using step_steps hs
  have hearned := System.countP_le_run hpreserve hearn hstart hrun
  obtain ⟨hi, hnot⟩ := System.run_preserves hpreserve hstart hrun
  refine ⟨fun hsum => ?_, progress hi, fun hstarves hp => ?_⟩
  · have hlength := counts_length_le hi hnot hsum
    have hle := steps_le s
    have hzero : (start env).steps = 0 := rfl
    rw [hzero] at hearned
    omega
  · rcases hi.returned hp with ⟨-, -, hdue⟩ | ⟨hret, -⟩
    · exact absurd hdue (not_le.mpr (hstarves.count_lt s.clock))
    · cases hret

/-- The program waits for its first expiration, which is a second away. -/
def waitingEnd : State :=
  (program demoEnv).after (start demoEnv) (List.replicate 5 .main) (by decide)

theorem run_waiting :
    (program demoEnv).run (start demoEnv) (List.replicate 5 .main) = some waitingEnd :=
  (program demoEnv).run_after (by decide)

theorem timer_ends_late :
    lateSchedule.countP (· = .main) ≤ 14 ∧ lateEnd.main = .returned 0 ∧ ¬ Starves lateEnd ∧
      waitingEnd.main = .read ∧
      ((program demoEnv).Enabled waitingEnd .main ∨ (program demoEnv).Enabled waitingEnd .expire ∨
        (∃ i, waitingEnd.timer.next = some i ∧
          (program demoEnv).Enabled waitingEnd (.tick (i - waitingEnd.clock))) ∨
        (waitingEnd.main = .read ∧ Starves waitingEnd)) := by
  have hend : lateEnd.main = .returned 0 := by decide
  exact ⟨(timer_ends run_late).1 (by decide), hend,
    fun hstarves => (timer_ends run_late).2.2 hstarves hend, by decide,
    (timer_ends run_waiting).2.1 (by decide)⟩

end LinuxTemplates.TimerfdSystem
