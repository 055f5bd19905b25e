import Mathlib.Algebra.Order.Group.Nat
import Mathlib.Tactic.Ring

/-!
# Interval timers

A timer expires some delay after it was armed and then once in every interval. Whoever asks
is told the number of expirations since the last time, so that all that were due have been
told once and none ahead of its instant.
-/

namespace LinuxTemplates.IntervalTimers

/-- A delay of zero disarms a timer, and without an interval it expires once. -/
structure Schedule where
  armed : ℕ
  delay : ℕ
  interval : ℕ
  deriving DecidableEq, Repr

namespace Schedule

/-- The instant of an expiration; the first one has the number zero. -/
def instant (c : Schedule) (k : ℕ) : Option ℕ :=
  if c.delay = 0 ∨ (c.interval = 0 ∧ k ≠ 0) then none
  else some (c.armed + c.delay + k * c.interval)

/-- How many expirations are due. -/
def count (c : Schedule) (now : ℕ) : ℕ :=
  if c.delay = 0 ∨ now < c.armed + c.delay then 0
  else if c.interval = 0 then 1
  else (now - (c.armed + c.delay)) / c.interval + 1

variable {c : Schedule} {k n i now : ℕ}

theorem instant_eq_some : c.instant k = some i ↔
    c.delay ≠ 0 ∧ (c.interval = 0 → k = 0) ∧ i = c.armed + c.delay + k * c.interval := by
  unfold instant
  split
  · rename_i h
    simp only [reduceCtorEq, false_iff, not_and]
    intro hd hk
    rcases h with h | ⟨hi, hk'⟩
    · exact absurd h hd
    · exact absurd (hk hi) hk'
  · rename_i h
    rw [not_or, not_and, not_not] at h
    rw [Option.some.injEq, eq_comm]
    exact ⟨fun hi => ⟨h.1, h.2, hi⟩, fun hi => hi.2.2⟩

theorem instant_eq_none : c.instant k = none ↔ c.delay = 0 ∨ (c.interval = 0 ∧ k ≠ 0) := by
  unfold instant
  split
  · rename_i h
    exact iff_of_true rfl h
  · rename_i h
    exact iff_of_false (Option.some_ne_none _) h

theorem instant_succ (h : c.instant k = some i) :
    c.instant (k + 1) = if c.interval = 0 then none else some (i + c.interval) := by
  obtain ⟨hd, -, rfl⟩ := instant_eq_some.mp h
  split
  · rename_i hi
    exact instant_eq_none.mpr (.inr ⟨hi, k.succ_ne_zero⟩)
  · rename_i hi
    refine instant_eq_some.mpr ⟨hd, fun h0 => absurd h0 hi, ?_⟩
    ring

/-- An expiration is due from its instant on. -/
theorem lt_count_iff : k < c.count now ↔ ∃ i, c.instant k = some i ∧ i ≤ now := by
  have hiff : (∃ i, c.instant k = some i ∧ i ≤ now) ↔
      c.delay ≠ 0 ∧ (c.interval = 0 → k = 0) ∧ c.armed + c.delay + k * c.interval ≤ now := by
    constructor
    · rintro ⟨i, hi, hle⟩
      obtain ⟨hd, hk, rfl⟩ := instant_eq_some.mp hi
      exact ⟨hd, hk, hle⟩
    · rintro ⟨hd, hk, hle⟩
      exact ⟨_, instant_eq_some.mpr ⟨hd, hk, rfl⟩, hle⟩
  rw [hiff, count]
  split
  · rename_i h
    refine iff_of_false (Nat.not_lt_zero k) ?_
    rintro ⟨hd, -, hle⟩
    rcases h with h | h
    · exact hd h
    · omega
  · rename_i h
    rw [not_or, Nat.not_lt] at h
    split
    · rename_i hi
      rw [hi, Nat.mul_zero, Nat.add_zero, Nat.lt_one_iff]
      exact ⟨fun hk => ⟨h.1, fun _ => hk, h.2⟩, fun hk => hk.2.1 rfl⟩
    · rename_i hi
      rw [Nat.lt_add_one_iff, Nat.le_div_iff_mul_le (Nat.pos_of_ne_zero hi)]
      constructor
      · intro hk
        exact ⟨h.1, fun h0 => absurd h0 hi, by omega⟩
      · rintro ⟨-, -, hle⟩
        omega

end Schedule

/-- The next instant, the interval and the expirations that nobody has been told yet. -/
structure Timer where
  next : Option ℕ
  interval : ℕ
  ticks : ℕ
  deriving DecidableEq, Repr

namespace Timer

def arm (now delay interval : ℕ) : Timer :=
  ⟨if delay = 0 then none else some (now + delay), interval, 0⟩

/-- The timer expires once its instant has come. -/
def expire (t : Timer) (now : ℕ) : Option Timer :=
  match t.next with
  | none => none
  | some i =>
    if i ≤ now then
      some ⟨if t.interval = 0 then none else some (i + t.interval), t.interval, t.ticks + 1⟩
    else none

/-- Time does not go past an instant at which the timer has not expired. -/
def Allows (t : Timer) (now : ℕ) : Prop := ∀ i ∈ t.next, now ≤ i

instance (t : Timer) (now : ℕ) : Decidable (t.Allows now) :=
  inferInstanceAs (Decidable (∀ i ∈ t.next, now ≤ i))

def take (t : Timer) : Timer := { t with ticks := 0 }

/-- The timer is on its schedule when `told` expirations have been told: all told and untold
ones are due, and the next one is not past. -/
structure Follows (t : Timer) (c : Schedule) (now told : ℕ) : Prop where
  next : t.next = c.instant (told + t.ticks)
  interval : t.interval = c.interval
  fired : told + t.ticks ≤ c.count now
  allows : t.Allows now

variable {t t' : Timer} {c : Schedule} {now later told i : ℕ}

theorem follows_arm (now delay interval : ℕ) :
    (arm now delay interval).Follows ⟨now, delay, interval⟩ now 0 := by
  refine ⟨?_, rfl, Nat.zero_le _, ?_⟩
  · simp [arm, Schedule.instant]
  · intro i hi
    by_cases hd : delay = 0
    · simp [arm, hd] at hi
    · simp only [arm, hd, if_false, Option.mem_def, Option.some.injEq] at hi
      omega

theorem expire_eq_some (h : t.expire now = some t') : ∃ i, t.next = some i ∧ i ≤ now ∧
    t' = ⟨if t.interval = 0 then none else some (i + t.interval), t.interval, t.ticks + 1⟩ := by
  unfold expire at h
  split at h
  · cases h
  · rename_i i hi
    rw [Option.ite_none_right_eq_some, Option.some.injEq] at h
    exact ⟨i, hi, h.1, h.2.symm⟩

theorem Follows.expire (h : t.Follows c now told) (ht : t.expire now = some t') :
    t'.Follows c now told := by
  obtain ⟨i, hi, hle, rfl⟩ := expire_eq_some ht
  have hinstant : c.instant (told + t.ticks) = some i := h.next ▸ hi
  have hnow : now ≤ i := h.allows i hi
  refine ⟨?_, h.interval, Schedule.lt_count_iff.mpr ⟨i, hinstant, hle⟩, ?_⟩
  · rw [← Nat.add_assoc, Schedule.instant_succ hinstant, h.interval]
  · intro j hj
    by_cases h0 : t.interval = 0
    · simp [h0] at hj
    · simp only [h0, if_false, Option.mem_def, Option.some.injEq] at hj
      omega

theorem Follows.pass (h : t.Follows c now told) (hle : now ≤ later) (hallows : t.Allows later) :
    t.Follows c later told := by
  refine ⟨h.next, h.interval, Nat.le_of_not_lt fun hlt => ?_, hallows⟩
  -- what was due stays due
  obtain ⟨i, hi, hi'⟩ := Schedule.lt_count_iff.mp (hlt.trans_le h.fired)
  exact absurd (Schedule.lt_count_iff.mpr ⟨i, hi, hi'.trans hle⟩) (Nat.lt_irrefl _)

theorem Follows.take (h : t.Follows c now told) : t.take.Follows c now (told + t.ticks) :=
  ⟨h.next, h.interval, h.fired, h.allows⟩

/-- A timer that cannot expire now has told, or is ready to tell, all that is due. -/
theorem Follows.settled (h : t.Follows c now told) (hnone : t.expire now = none) :
    told + t.ticks = c.count now := by
  refine le_antisymm h.fired (Nat.le_of_not_lt fun hlt => ?_)
  obtain ⟨i, hi, hle⟩ := Schedule.lt_count_iff.mp hlt
  simp [Timer.expire, h.next, hi, hle] at hnone

theorem Follows.exhausted_iff (h : t.Follows c now told) :
    t.next = none ↔ c.delay = 0 ∨ (c.interval = 0 ∧ told + t.ticks ≠ 0) := by
  rw [h.next, Schedule.instant_eq_none]

end Timer

end LinuxTemplates.IntervalTimers
