import LinuxTemplates.TimerfdElapsed
import Mathlib.Algebra.GroupWithZero.Nat

/-!
# Expiration counts in `timerfd.cpp`

The kernel delivers the number of expirations as eight bytes. `num_loop` keeps the low four
as a signed number; the others land in the memory behind it. The sum of what is kept ends
the loop, and both are printed as unsigned numbers of eight bytes.
-/

namespace LinuxTemplates.TimerfdProgram

deriving instance DecidableEq, Repr for Timespec

/-- `num_loop` after a read of eight bytes on a little-endian machine. -/
def numLoop (count : UInt64) : Int32 := count.toUInt32.toInt32

def unsignedLongLong (v : Int32) : UInt64 := v.toInt64.toUInt64

/-- The calls of one turn: `read` delivers eight bytes or fails, and so does the clock. -/
structure Turn where
  count : Option UInt64
  now : Option Timespec

/-- The two lines that a turn prints; `elapsed` is `none` where the time overflows. -/
structure Report where
  now : Timespec
  elapsed : Option Elapsed
  read : UInt64
  total : UInt64
  deriving DecidableEq, Repr

/-- `blocked` waits in `read` for the next expiration; `failed` has printed a message and
returns -1. -/
inductive Status
  | blocked | returned (ret : ℤ) | failed (message : String)
  deriving DecidableEq, Repr

structure Output where
  reports : List Report
  status : Status
  deriving DecidableEq, Repr

/-- The loop of `main` over the turns that the kernel answers. The additions to
`total_loop` wrap. -/
def loop (start : Timespec) (maxLoop totalLoop : Int32) : List Turn → Output
  | [] => ⟨[], if totalLoop < maxLoop then .blocked else .returned 0⟩
  | turn :: turns =>
    if totalLoop < maxLoop then
      match turn.count, turn.now with
      | none, _ => ⟨[], .failed "read() err"⟩
      | some _, none => ⟨[], .failed "clock_gettime() err"⟩
      | some count, some now =>
        let totalLoop := totalLoop + numLoop count
        let rest := loop start maxLoop totalLoop turns
        ⟨⟨now, elapsed start now, unsignedLongLong (numLoop count), unsignedLongLong totalLoop⟩
          :: rest.reports, rest.status⟩
    else ⟨[], .returned 0⟩

/-- A count together with the time at which it is read. -/
abbrev Delivery := UInt64 × Timespec

def Delivery.turn (d : Delivery) : Turn := ⟨some d.1, some d.2⟩

/-- The exact sum of the first counts, on top of earlier ones. -/
def exactTotal (earlier : ℕ) (deliveries : List Delivery) (reads : ℕ) : ℕ :=
  earlier + ((deliveries.take reads).map (fun d => d.1.toNat)).sum

/-- Each line shows the count just read and the exact sum, and the loop is left after the
first read at which that sum reaches `max_loop`. -/
structure Output.Exact (out : Output) (maxLoop : Int32) (earlier : ℕ)
    (deliveries : List Delivery) : Prop where
  printed : ∀ i report, out.reports[i]? = some report →
    ∃ d, deliveries[i]? = some d ∧ report.read = d.1 ∧
      report.total.toNat = exactTotal earlier deliveries (i + 1)
  notLater : ∀ i < out.reports.length, (exactTotal earlier deliveries i : ℤ) < maxLoop.toInt
  left : out.status = .returned 0 ↔
    maxLoop.toInt ≤ exactTotal earlier deliveries out.reports.length

/-- Every sum that the exact loop forms is below 2^31. -/
def Fits (maxLoop : Int32) (earlier : ℕ) (deliveries : List Delivery) : Prop :=
  ∀ i < deliveries.length, (exactTotal earlier deliveries i : ℤ) < maxLoop.toInt →
    exactTotal earlier deliveries (i + 1) < 2147483648

/-! ## Widths -/

theorem toInt_numLoop (count : UInt64) :
    (numLoop count).toInt = (count.toNat : ℤ).bmod 4294967296 := by
  have hword : (numLoop count).toInt = (count.toUInt32.toNat : ℤ).bmod 4294967296 := by
    rw [numLoop, ← UInt32.ofNat_toNat (x := count.toUInt32), UInt32.toInt32_ofNat',
      Int32.toInt_ofNat']
    simp [Int32.size]
  rw [hword, UInt64.toNat_toUInt32, Int.natCast_emod]
  exact Int.emod_bmod _ 4294967296

theorem toInt_add_numLoop (total : Int32) (count : UInt64) :
    (total + numLoop count).toInt = (total.toInt + count.toNat).bmod 4294967296 := by
  rw [Int32.toInt_add, toInt_numLoop]
  exact Int.add_bmod_bmod

theorem toNat_unsignedLongLong (v : Int32) :
    ((unsignedLongLong v).toNat : ℤ) = v.toInt % 18446744073709551616 := by
  have hsigned : v.toInt64.toBitVec.toInt = v.toInt := Int32.toInt_toInt64 v
  have hlt := v.toInt64.toBitVec.isLt
  rw [unsignedLongLong, ← Int64.toNat_toBitVec, ← hsigned, BitVec.toInt_eq_toNat_bmod,
    Int.bmod_def]
  split <;> omega

theorem toInt_lt (v : Int32) : v.toInt < 2147483648 := by
  simpa using Int32.toInt_lt v

/-- A number below 2^31 is printed as it is. -/
theorem toNat_unsignedLongLong_eq {v : Int32} {n : ℕ} (h : v.toInt = n) :
    (unsignedLongLong v).toNat = n := by
  have hmod := toNat_unsignedLongLong v
  have hlt := toInt_lt v
  omega

theorem unsignedLongLong_numLoop {count : UInt64} (h : count.toNat < 2147483648) :
    unsignedLongLong (numLoop count) = count := by
  have hword : (numLoop count).toInt = count.toNat := by
    rw [toInt_numLoop, Int.bmod_def]
    omega
  exact UInt64.toNat_inj.mp (toNat_unsignedLongLong_eq hword)

/-! ## One turn -/

section Turns
variable {start : Timespec} {maxLoop totalLoop : Int32} {earlier : ℕ} {d : Delivery}
  {ds : List Delivery} {report : Report} {out : Output}

theorem loop_done (h : ¬ totalLoop < maxLoop) (turns : List Turn) :
    loop start maxLoop totalLoop turns = ⟨[], .returned 0⟩ := by
  cases turns <;> rw [loop, if_neg h]

theorem loop_turn (h : totalLoop < maxLoop) (turns : List Turn) :
    loop start maxLoop totalLoop (d.turn :: turns) =
      ⟨⟨d.2, elapsed start d.2, unsignedLongLong (numLoop d.1),
        unsignedLongLong (totalLoop + numLoop d.1)⟩
        :: (loop start maxLoop (totalLoop + numLoop d.1) turns).reports,
        (loop start maxLoop (totalLoop + numLoop d.1) turns).status⟩ := by
  rw [loop, if_pos h]
  rfl

@[simp] theorem exactTotal_zero : exactTotal earlier ds 0 = earlier := by simp [exactTotal]

@[simp] theorem exactTotal_cons (i : ℕ) :
    exactTotal earlier (d :: ds) (i + 1) = exactTotal (earlier + d.1.toNat) ds i := by
  simp [exactTotal, Nat.add_assoc]

theorem le_exactTotal (i : ℕ) : earlier ≤ exactTotal earlier ds i := Nat.le_add_right _ _

theorem exact_cons_iff :
    Output.Exact ⟨report :: out.reports, out.status⟩ maxLoop earlier (d :: ds) ↔
      (report.read = d.1 ∧ report.total.toNat = earlier + d.1.toNat) ∧
        (earlier : ℤ) < maxLoop.toInt ∧ out.Exact maxLoop (earlier + d.1.toNat) ds := by
  constructor
  · rintro ⟨hprinted, hlater, hleft⟩
    obtain ⟨_, hd, hread, htotal⟩ := hprinted 0 report rfl
    obtain rfl := Option.some.inj hd
    have hfirst := hlater 0 (Nat.succ_pos _)
    rw [exactTotal_zero] at hfirst
    rw [exactTotal_cons, exactTotal_zero] at htotal
    refine ⟨⟨hread, htotal⟩, hfirst, ?_, ?_, ?_⟩
    · intro i r hr
      simpa using hprinted (i + 1) r hr
    · intro i hi
      simpa using hlater (i + 1) (Nat.succ_lt_succ hi)
    · simpa using hleft
  · rintro ⟨⟨hread, htotal⟩, hfirst, hprinted, hlater, hleft⟩
    refine ⟨?_, ?_, by simpa using hleft⟩
    · intro i r hr
      cases i with
      | zero =>
        obtain rfl := Option.some.inj hr
        exact ⟨d, rfl, hread, by simpa using htotal⟩
      | succ i => simpa using hprinted i r hr
    · intro i hi
      cases i with
      | zero => simpa using hfirst
      | succ i => simpa using hlater i (Nat.lt_of_succ_lt_succ hi)

theorem fits_cons_iff :
    Fits maxLoop earlier (d :: ds) ↔
      ((earlier : ℤ) < maxLoop.toInt → earlier + d.1.toNat < 2147483648) ∧
        Fits maxLoop (earlier + d.1.toNat) ds := by
  constructor
  · intro h
    refine ⟨fun hlt => ?_, fun i hi hlt => ?_⟩
    · simpa using h 0 (Nat.succ_pos _) (by simpa using hlt)
    · simpa using h (i + 1) (Nat.succ_lt_succ hi) (by simpa using hlt)
  · rintro ⟨hfirst, hrest⟩ i hi hlt
    cases i with
    | zero => simpa using hfirst (by simpa using hlt)
    | succ i => simpa using hrest i (Nat.lt_of_succ_lt_succ hi) (by simpa using hlt)

/-- Once the exact sum is reached there is nothing left to go wrong. -/
theorem fits_of_le (h : maxLoop.toInt ≤ earlier) : Fits maxLoop earlier ds := by
  intro i _ hlt
  have hle : earlier ≤ exactTotal earlier ds i := le_exactTotal i
  omega

/-- A loop that is still running although the exact sum is reached is not left in time. -/
theorem not_exact_of_running (hlt : totalLoop < maxLoop) (h : maxLoop.toInt ≤ earlier) :
    ¬ (loop start maxLoop totalLoop (ds.map Delivery.turn)).Exact maxLoop earlier ds := by
  intro hexact
  cases ds with
  | nil =>
    have hleft := hexact.left
    simp [loop, hlt, h] at hleft
  | cons d ds =>
    rw [List.map_cons, loop_turn hlt] at hexact
    have hfirst := (exact_cons_iff.mp hexact).2.1
    omega

/-- The printed sum is right only while it is below 2^31; above, the loop goes on. -/
theorem not_exact_of_overflow (hlt : totalLoop < maxLoop) (htotal : totalLoop.toInt = earlier)
    (hover : 2147483648 ≤ earlier + d.1.toNat) :
    ¬ (loop start maxLoop totalLoop ((d :: ds).map Delivery.turn)).Exact maxLoop earlier
      (d :: ds) := by
  intro hexact
  rw [List.map_cons, loop_turn hlt, exact_cons_iff] at hexact
  obtain ⟨⟨-, hprinted⟩, -, hrest⟩ := hexact
  have hmod := toNat_unsignedLongLong (totalLoop + numLoop d.1)
  have hmax := toInt_lt maxLoop
  have hnew := toInt_lt (totalLoop + numLoop d.1)
  have hold : totalLoop.toInt < maxLoop.toInt := Int32.lt_iff_toInt_lt.mp hlt
  rw [hprinted] at hmod
  have hneg : (totalLoop + numLoop d.1).toInt < 0 := by omega
  apply not_exact_of_running _ _ hrest
  · exact Int32.lt_iff_toInt_lt.mpr (by omega)
  · omega

theorem exact_done (h : maxLoop.toInt ≤ earlier) :
    Output.Exact ⟨[], .returned 0⟩ maxLoop earlier ds := by
  refine ⟨?_, ?_, ?_⟩
  · intro i report hreport
    cases hreport
  · intro i hi
    exact absurd hi (Nat.not_lt_zero i)
  · simpa using h

theorem exact_blocked (h : earlier < maxLoop.toInt) :
    Output.Exact ⟨[], .blocked⟩ maxLoop earlier [] := by
  refine ⟨?_, ?_, ?_⟩
  · intro i report hreport
    cases hreport
  · intro i hi
    exact absurd hi (Nat.not_lt_zero i)
  · simpa using h

/-- `total_loop` is the exact sum while the sums fit. -/
theorem toInt_add_numLoop_eq (htotal : totalLoop.toInt = earlier)
    (hfit : earlier + d.1.toNat < 2147483648) :
    (totalLoop + numLoop d.1).toInt = (earlier + d.1.toNat : ℕ) := by
  rw [toInt_add_numLoop, htotal, Int.bmod_def]
  omega

theorem loop_exact_from (htotal : totalLoop.toInt = earlier) :
    (loop start maxLoop totalLoop (ds.map Delivery.turn)).Exact maxLoop earlier ds ↔
      Fits maxLoop earlier ds := by
  induction ds generalizing totalLoop earlier with
  | nil =>
    refine iff_of_true ?_ (fun i hi => absurd hi (Nat.not_lt_zero i))
    by_cases hlt : totalLoop < maxLoop
    · rw [List.map_nil, loop, if_pos hlt]
      exact exact_blocked (htotal ▸ Int32.lt_iff_toInt_lt.mp hlt)
    · rw [List.map_nil, loop, if_neg hlt]
      exact exact_done (htotal ▸ Int32.le_iff_toInt_le.mp (Int32.not_lt.mp hlt))
  | cons d ds ih =>
    by_cases hlt : totalLoop < maxLoop
    · have hless : (earlier : ℤ) < maxLoop.toInt := htotal ▸ Int32.lt_iff_toInt_lt.mp hlt
      rcases Nat.lt_or_ge (earlier + d.1.toNat) 2147483648 with hfit | hover
      · have hnew := toInt_add_numLoop_eq htotal hfit
        have hread : unsignedLongLong (numLoop d.1) = d.1 := unsignedLongLong_numLoop (by omega)
        rw [List.map_cons, loop_turn hlt, exact_cons_iff, fits_cons_iff, ih hnew]
        constructor
        · rintro ⟨-, -, hrest⟩
          exact ⟨fun _ => hfit, hrest⟩
        · rintro ⟨-, hrest⟩
          exact ⟨⟨hread, toNat_unsignedLongLong_eq hnew⟩, hless, hrest⟩
      · refine iff_of_false (not_exact_of_overflow hlt htotal hover) ?_
        rw [fits_cons_iff]
        rintro ⟨hfirst, -⟩
        exact absurd (hfirst hless) (Nat.not_lt.mpr hover)
    · have hle : maxLoop.toInt ≤ earlier := htotal ▸ Int32.le_iff_toInt_le.mp (Int32.not_lt.mp hlt)
      rw [loop_done hlt]
      exact iff_of_true (exact_done hle) (fits_of_le hle)

end Turns

/-- The lines and the end of the loop are exact just when every sum that it has to form is
below 2^31. -/
theorem loop_exact_iff (start : Timespec) (maxLoop : Int32) (deliveries : List Delivery) :
    (loop start maxLoop 0 (deliveries.map Delivery.turn)).Exact maxLoop 0 deliveries ↔
      Fits maxLoop 0 deliveries :=
  loop_exact_from (by decide)

/-- A count of 2^32 is read as zero, and the loop waits for more. -/
theorem not_loop_exact :
    loop ⟨0, 0⟩ 1 0 ([(4294967296, ⟨5, 0⟩)].map Delivery.turn) =
        ⟨[⟨⟨5, 0⟩, some ⟨5, 0⟩, 0, 0⟩], .blocked⟩ ∧
      ¬ (loop ⟨0, 0⟩ 1 0 ([(4294967296, ⟨5, 0⟩)].map Delivery.turn)).Exact 1 0
        [(4294967296, ⟨5, 0⟩)] := by
  have heq : loop ⟨0, 0⟩ 1 0 ([(4294967296, ⟨5, 0⟩)].map Delivery.turn) =
      ⟨[⟨⟨5, 0⟩, some ⟨5, 0⟩, 0, 0⟩], .blocked⟩ := by decide
  refine ⟨heq, ?_⟩
  rw [heq]
  intro hexact
  have hleft := hexact.left.mpr (by decide)
  cases hleft

end LinuxTemplates.TimerfdProgram
