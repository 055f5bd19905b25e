import Mathlib.Algebra.Order.Round
import Mathlib.Data.Rat.Floor
import Mathlib.Tactic.FieldSimp
import Mathlib.Tactic.Ring

/-!
# Elapsed time in `timerfd.cpp`

Each turn of the loop prints the time since the start as seconds and milliseconds. The
nanoseconds are rounded to milliseconds without a carry into the seconds.
-/

namespace LinuxTemplates.TimerfdProgram

def LLONG_MIN : ℤ := -9223372036854775808
def LLONG_MAX : ℤ := 9223372036854775807

structure Timespec where
  tvSec : Int64
  tvNsec : Int64

def Timespec.Normalised (t : Timespec) : Prop := 0 ≤ t.tvNsec.toInt ∧ t.tvNsec.toInt < 1000000000

/-- A time in nanoseconds. -/
def Timespec.nanos (t : Timespec) : ℤ := 1000000000 * t.tvSec.toInt + t.tvNsec.toInt

/-- The value of a signed expression; `none` for an overflow, which is undefined. -/
def longLong (v : ℤ) : Option ℤ := if LLONG_MIN ≤ v ∧ v ≤ LLONG_MAX then some v else none

/-- What `"%lld.%03lld"` prints. -/
structure Elapsed where
  secs : ℤ
  millis : ℤ
  deriving DecidableEq, Repr

/-- A second taken back for negative nanoseconds. -/
def borrow (secs nsecs : ℤ) : Option (ℤ × ℤ) :=
  if nsecs < 0 then do
    let secs ← longLong (secs - 1)
    let nsecs ← longLong (nsecs + 1000000000)
    return (secs, nsecs)
  else some (secs, nsecs)

def elapsed (start now : Timespec) : Option Elapsed := do
  let secs ← longLong (now.tvSec.toInt - start.tvSec.toInt)
  let nsecs ← longLong (now.tvNsec.toInt - start.tvNsec.toInt)
  let (secs, nsecs) ← borrow secs nsecs
  let rounded ← longLong (nsecs + 500000)
  return ⟨secs, rounded.tdiv 1000000⟩

/-- The printed time is the exact one in milliseconds, rounded half up. -/
structure Elapsed.Right (start now : Timespec) (e : Elapsed) : Prop where
  millis_nonneg : 0 ≤ e.millis
  millis_le : e.millis ≤ 999
  total : 1000 * e.secs + e.millis = round ((now.nanos - start.nanos : ℤ) / 1000000 : ℚ)

/-- Rounding half up a quotient of integers. -/
theorem round_intCast_div_natCast (x : ℤ) {d : ℕ} (hd : d ≠ 0) :
    round ((x : ℚ) / d) = (2 * x + d) / (2 * d : ℕ) := by
  have hq : (d : ℚ) ≠ 0 := Nat.cast_ne_zero.mpr hd
  have hsum : (x : ℚ) / d + 1 / 2 = ((2 * x + d : ℤ) : ℚ) / ((2 * d : ℕ) : ℚ) := by
    push_cast
    field_simp
  rw [round_eq, hsum, Rat.floor_intCast_div_natCast]

theorem longLong_eq_some {v : ℤ} (h : LLONG_MIN ≤ v) (h' : v ≤ LLONG_MAX) : longLong v = some v :=
  if_pos ⟨h, h'⟩

theorem longLong_eq_none {v : ℤ} (h : LLONG_MAX < v) : longLong v = none :=
  if_neg (fun hv => absurd hv.2 (Int.not_le.mpr h))

section Arithmetic
variable {start now : Timespec}

/-- Neither step of the borrow overflows for a difference of normalised times. -/
theorem borrow_eq (secs nsecs : ℤ) (h0 : 0 ≤ 1000000000 * secs + nsecs)
    (hsecs : secs ≤ LLONG_MAX) (hlt : -1000000000 < nsecs) (hlt' : nsecs < 1000000000) :
    borrow secs nsecs = some ((1000000000 * secs + nsecs) / 1000000000,
      (1000000000 * secs + nsecs) % 1000000000) := by
  by_cases hneg : nsecs < 0
  · have h1 : longLong (secs - 1) = some (secs - 1) := by
      apply longLong_eq_some <;> simp only [LLONG_MIN, LLONG_MAX] at hsecs ⊢ <;> omega
    have h2 : longLong (nsecs + 1000000000) = some (nsecs + 1000000000) := by
      apply longLong_eq_some <;> simp only [LLONG_MIN, LLONG_MAX] <;> omega
    have hdiv : (1000000000 * secs + nsecs) / 1000000000 = secs - 1 := by omega
    have hmod : (1000000000 * secs + nsecs) % 1000000000 = nsecs + 1000000000 := by omega
    rw [borrow, if_pos hneg, h1, h2, hdiv, hmod]
    rfl
  · have hdiv : (1000000000 * secs + nsecs) / 1000000000 = secs := by omega
    have hmod : (1000000000 * secs + nsecs) % 1000000000 = nsecs := by omega
    rw [borrow, if_neg hneg, hdiv, hmod]

/-- The seconds are whole and the milliseconds are the rounded rest of the time. -/
theorem elapsed_eq (hs : start.Normalised) (hn : now.Normalised) (hle : start.nanos ≤ now.nanos)
    (hfit : now.tvSec.toInt - start.tvSec.toInt ≤ LLONG_MAX) :
    elapsed start now = some ⟨(now.nanos - start.nanos) / 1000000000,
      ((now.nanos - start.nanos) % 1000000000 + 500000) / 1000000⟩ := by
  obtain ⟨hs0, hs1⟩ := hs
  obtain ⟨hn0, hn1⟩ := hn
  simp only [Timespec.nanos] at hle
  have hdiff : now.nanos - start.nanos = 1000000000 * (now.tvSec.toInt - start.tvSec.toInt) +
      (now.tvNsec.toInt - start.tvNsec.toInt) := by
    simp only [Timespec.nanos]
    ring
  have hsec : longLong (now.tvSec.toInt - start.tvSec.toInt) =
      some (now.tvSec.toInt - start.tvSec.toInt) :=
    longLong_eq_some (by simp only [LLONG_MIN]; omega) hfit
  have hnsec : longLong (now.tvNsec.toInt - start.tvNsec.toInt) =
      some (now.tvNsec.toInt - start.tvNsec.toInt) := by
    apply longLong_eq_some <;> simp only [LLONG_MIN, LLONG_MAX] <;> omega
  have hborrow := borrow_eq (now.tvSec.toInt - start.tvSec.toInt)
    (now.tvNsec.toInt - start.tvNsec.toInt) (by omega) hfit (by omega) (by omega)
  rw [← hdiff] at hborrow
  have hrem : 0 ≤ (now.nanos - start.nanos) % 1000000000 := Int.emod_nonneg _ (by decide)
  have hlt : (now.nanos - start.nanos) % 1000000000 < 1000000000 := Int.emod_lt_of_pos _ (by decide)
  have hround : longLong ((now.nanos - start.nanos) % 1000000000 + 500000) =
      some ((now.nanos - start.nanos) % 1000000000 + 500000) := by
    apply longLong_eq_some <;> simp only [LLONG_MIN, LLONG_MAX] <;> omega
  have htdiv := Int.tdiv_eq_ediv_of_nonneg (b := 1000000)
    (show 0 ≤ (now.nanos - start.nanos) % 1000000000 + 500000 by omega)
  simp [elapsed, hsec, hnsec, hborrow, hround, htdiv]

theorem elapsed_overflow (h : LLONG_MAX < now.tvSec.toInt - start.tvSec.toInt) :
    elapsed start now = none := by
  simp [elapsed, longLong_eq_none h]

/-- The total is always right; the milliseconds are out of range in the last half
millisecond of a second. -/
theorem elapsed_right_iff (hs : start.Normalised) (hn : now.Normalised)
    (hle : start.nanos ≤ now.nanos) :
    (∃ e, elapsed start now = some e ∧ e.Right start now) ↔
      now.tvSec.toInt - start.tvSec.toInt ≤ LLONG_MAX ∧
        (now.nanos - start.nanos) % 1000000000 < 999500000 := by
  rcases Int.lt_or_le LLONG_MAX (now.tvSec.toInt - start.tvSec.toInt) with hover | hfit
  · refine iff_of_false ?_ (fun h => absurd h.1 (Int.not_le.mpr hover))
    rintro ⟨e, he, -⟩
    simp [elapsed_overflow hover] at he
  · have heq := elapsed_eq hs hn hle hfit
    have hround := round_intCast_div_natCast (now.nanos - start.nanos) (d := 1000000) (by decide)
    constructor
    · rintro ⟨e, he, hright⟩
      obtain rfl := Option.some.inj (heq.symm.trans he)
      have hmax := hright.millis_le
      refine ⟨hfit, ?_⟩
      simp only at hmax
      omega
    · rintro ⟨-, hlt⟩
      have hrem : 0 ≤ (now.nanos - start.nanos) % 1000000000 := Int.emod_nonneg _ (by decide)
      refine ⟨_, heq, ?_, ?_, ?_⟩
      · simp only
        omega
      · simp only
        omega
      · have hcast : ((1000000 : ℕ) : ℚ) = 1000000 := by norm_num
        rw [hcast] at hround
        rw [hround]
        simp only
        omega

end Arithmetic

/-- Half a millisecond before a full second 1000 milliseconds are printed. -/
theorem not_elapsed_right :
    elapsed ⟨5, 0⟩ ⟨5, 999500000⟩ = some ⟨0, 1000⟩ ∧
      ¬ ∃ e, elapsed ⟨5, 0⟩ ⟨5, 999500000⟩ = some e ∧ e.Right ⟨5, 0⟩ ⟨5, 999500000⟩ := by
  have heq : elapsed ⟨5, 0⟩ ⟨5, 999500000⟩ = some ⟨0, 1000⟩ := by decide
  refine ⟨heq, ?_⟩
  rintro ⟨e, he, hright⟩
  obtain rfl := Option.some.inj (heq.symm.trans he)
  exact absurd hright.millis_le (by decide)

theorem elapsed_right_borrow :
    (∃ e, elapsed ⟨5, 900000000⟩ ⟨7, 400500000⟩ = some e ∧
      e.Right ⟨5, 900000000⟩ ⟨7, 400500000⟩) ↔
      (Timespec.tvSec ⟨7, 400500000⟩).toInt - (Timespec.tvSec ⟨5, 900000000⟩).toInt ≤ LLONG_MAX ∧
        (Timespec.nanos ⟨7, 400500000⟩ - Timespec.nanos ⟨5, 900000000⟩) % 1000000000 < 999500000 :=
  elapsed_right_iff ⟨by decide, by decide⟩ ⟨by decide, by decide⟩ (by decide)

end LinuxTemplates.TimerfdProgram
