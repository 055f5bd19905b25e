import Mathlib.Data.Nat.Notation
import Mathlib.Data.Nat.Bitwise

/-!
# Wait statuses

What happened to a child is packed into one `int`: the exit code or the stop signal in the
second byte, the signal that killed it in the low seven bits, and a flag for a core file
between them. The macros take the word apart again.
-/

namespace LinuxTemplates.WaitStatuses

universe u

/-- Signal numbers are 1 to 64. -/
@[ext] structure Signal where
  number : ℕ
  pos : 0 < number
  le : number ≤ 64
  deriving DecidableEq, Repr

/-- What the kernel can report of a child. -/
inductive ChildEvent
  | exited (code : UInt8)
  | killed (sig : Signal) (coreDump : Bool)
  | stopped (sig : Signal)
  | continued
  deriving DecidableEq, Repr

/-- A child that exited or was killed is no more. -/
def ChildEvent.ends : ChildEvent → Bool
  | .exited _ | .killed _ _ => true
  | .stopped _ | .continued => false

/-- The word that `waitpid` stores for an event. -/
def waitStatus : ChildEvent → Int32
  | .exited code => Int32.ofNat code.toNat <<< 8
  | .killed sig coreDump => (if coreDump then 0x80 else 0) ||| Int32.ofNat sig.number
  | .stopped sig => Int32.ofNat sig.number <<< 8 ||| 0x7f
  | .continued => 0xffff

def wExitStatus (status : Int32) : Int32 := (status &&& 0xff00) >>> 8

def wTermSig (status : Int32) : Int32 := status &&& 0x7f

def wStopSig (status : Int32) : Int32 := wExitStatus status

def wIfExited (status : Int32) : Bool := wTermSig status = 0

/-- The sum is cut to a `signed char`, so that 0x7f gives a negative number. -/
def wIfSignaled (status : Int32) : Bool := ((status &&& 0x7f) + 1).toInt8.toInt32 >>> 1 > 0

def wIfStopped (status : Int32) : Bool := status &&& 0xff = 0x7f

def wIfContinued (status : Int32) : Bool := status = 0xffff

def wCoreDump (status : Int32) : Bool := status &&& 0x80 ≠ 0

/-! ## Reports of which the latest is kept

The kernel keeps one report for a child: an event that is not reported yet is replaced by
the next one. -/

structure Reports (E : Type u) where
  events : List E
  unreported : Option E
  reported : List E
  sublist : (reported ++ unreported.toList).Sublist events
  last : (reported ++ unreported.toList).getLast? = events.getLast?

namespace Reports
variable {E : Type u}

def none : Reports E := ⟨[], .none, [], List.Sublist.slnil, rfl⟩

def happen (r : Reports E) (e : E) : Reports E :=
  ⟨r.events ++ [e], some e, r.reported,
    ((List.sublist_append_left _ _).trans r.sublist).append (List.Sublist.refl [e]), by simp⟩

/-- The event that `waitpid` finds, and what is left. -/
def take (r : Reports E) : Option (E × Reports E) :=
  match h : r.unreported with
  | .none => .none
  | some e => some (e, ⟨r.events, .none, r.reported ++ [e], by simpa [h] using r.sublist,
      by simpa [h] using r.last⟩)

@[simp] theorem happen_events (r : Reports E) (e : E) : (r.happen e).events = r.events ++ [e] := rfl
@[simp] theorem happen_unreported (r : Reports E) (e : E) : (r.happen e).unreported = some e := rfl
@[simp] theorem happen_reported (r : Reports E) (e : E) : (r.happen e).reported = r.reported := rfl

theorem take_cases {r r' : Reports E} {e : E} (h : r.take = some (e, r')) :
    r.unreported = some e ∧ r'.events = r.events ∧ r'.unreported = .none ∧
      r'.reported = r.reported ++ [e] := by
  unfold take at h
  split at h
  · cases h
  · rename_i e' he
    obtain ⟨rfl, rfl⟩ := Prod.mk.inj (Option.some.inj h)
    exact ⟨he, rfl, rfl, rfl⟩

theorem take_isSome (r : Reports E) : r.take.isSome = r.unreported.isSome := by
  unfold take
  split <;> simp_all

end Reports

/-! ## The fields of the word -/

/-- The word as an unsigned number. -/
def word (status : Int32) : ℕ := status.toBitVec.toNat

theorem word_lt (status : Int32) : word status < 4294967296 := status.toBitVec.isLt

theorem word_inj {a b : Int32} : word a = word b ↔ a = b := by
  rw [word, word, BitVec.toNat_inj, Int32.toBitVec_inj]

theorem word_ofNat {n : ℕ} (h : n < 4294967296) : word (Int32.ofNat n) = n := by
  rw [word, Int32.toBitVec_ofNat', BitVec.toNat_ofNat]
  exact Nat.mod_eq_of_lt h

theorem word_and (a b : Int32) : word (a &&& b) = word a &&& word b := by
  rw [word, Int32.toBitVec_and, BitVec.toNat_and, word, word]

theorem word_or (a b : Int32) : word (a ||| b) = word a ||| word b := by
  rw [word, Int32.toBitVec_or, BitVec.toNat_or, word, word]

/-- A number moved to the second byte. -/
theorem word_shiftLeft {n : ℕ} (h : n < 256) : word (Int32.ofNat n <<< 8) = n * 256 := by
  have height : (Int32.toBitVec 8).smod 32 = BitVec.ofNat 32 8 := by decide
  rw [word, Int32.toBitVec_shiftLeft, height, BitVec.shiftLeft_eq', BitVec.toNat_shiftLeft,
    Int32.toBitVec_ofNat', BitVec.toNat_ofNat, BitVec.toNat_ofNat, Nat.shiftLeft_eq]
  have hpow : 2 ^ (8 % 2 ^ 32) = 256 := rfl
  rw [hpow]
  omega

/-- What each kind of event packs into the word. -/
def ChildEvent.packed : ChildEvent → ℕ
  | .exited code => code.toNat * 256
  | .killed sig coreDump => (if coreDump then 128 else 0) + sig.number
  | .stopped sig => sig.number * 256 + 127
  | .continued => 65535

theorem word_waitStatus (e : ChildEvent) : word (waitStatus e) = e.packed := by
  cases e with
  | exited code => exact word_shiftLeft code.toNat_lt
  | killed sig coreDump =>
    have hle := sig.le
    have hsig : word (Int32.ofNat sig.number) = sig.number := word_ofNat (by omega)
    rw [waitStatus, ChildEvent.packed, word_or, hsig]
    cases coreDump with
    | true => exact (Nat.two_pow_add_eq_or_of_lt (i := 7) (by omega) 1).symm
    | false => exact (Nat.zero_or _).trans (Nat.zero_add _).symm
  | stopped sig =>
    have hle := sig.le
    have hlow : word 0x7f = 127 := rfl
    rw [waitStatus, ChildEvent.packed, word_or, word_shiftLeft (by omega), hlow, Nat.mul_comm]
    exact (Nat.two_pow_add_eq_or_of_lt (i := 8) (by decide) sig.number).symm
  | continued => rfl

/-- No two events share a word. -/
theorem waitStatus_injective : Function.Injective waitStatus := by
  intro e e' h
  have hpacked : e.packed = e'.packed := by
    rw [← word_waitStatus, ← word_waitStatus, h]
  have hpos (sig : Signal) : 0 < sig.number ∧ sig.number ≤ 64 := ⟨sig.pos, sig.le⟩
  -- the low byte tells the kinds of events apart
  cases e with
  | exited code =>
    cases e' with
    | exited code' =>
      simp only [ChildEvent.packed] at hpacked
      rw [UInt8.toNat_inj.mp (Nat.eq_of_mul_eq_mul_right (by decide) hpacked)]
    | killed sig' core' =>
      have hp := hpos sig'
      simp only [ChildEvent.packed] at hpacked
      split at hpacked <;> omega
    | stopped sig' => simp only [ChildEvent.packed] at hpacked; omega
    | continued => simp only [ChildEvent.packed] at hpacked; omega
  | killed sig core =>
    have hp := hpos sig
    cases e' with
    | exited code' => simp only [ChildEvent.packed] at hpacked; split at hpacked <;> omega
    | killed sig' core' =>
      have hp' := hpos sig'
      simp only [ChildEvent.packed] at hpacked
      cases core <;> cases core' <;>
        simp only [if_true, Bool.false_eq_true, if_false] at hpacked
      · obtain rfl : sig = sig' := Signal.ext (by omega)
        rfl
      · omega
      · omega
      · obtain rfl : sig = sig' := Signal.ext (by omega)
        rfl
    | stopped sig' => simp only [ChildEvent.packed] at hpacked; split at hpacked <;> omega
    | continued => simp only [ChildEvent.packed] at hpacked; split at hpacked <;> omega
  | stopped sig =>
    have hp := hpos sig
    cases e' with
    | exited code' => simp only [ChildEvent.packed] at hpacked; omega
    | killed sig' core' =>
      have hp' := hpos sig'
      simp only [ChildEvent.packed] at hpacked
      split at hpacked <;> omega
    | stopped sig' =>
      simp only [ChildEvent.packed] at hpacked
      obtain rfl : sig = sig' := Signal.ext (by omega)
      rfl
    | continued => simp only [ChildEvent.packed] at hpacked; omega
  | continued =>
    cases e' with
    | exited code' => simp only [ChildEvent.packed] at hpacked; omega
    | killed sig' core' =>
      have hp' := hpos sig'
      simp only [ChildEvent.packed] at hpacked
      split at hpacked <;> omega
    | stopped sig' => simp only [ChildEvent.packed] at hpacked; omega
    | continued => rfl

theorem word_wTermSig (status : Int32) : word (wTermSig status) = word status % 128 := by
  rw [wTermSig, word_and]
  exact Nat.and_two_pow_sub_one_eq_mod _ 7

theorem word_wExitStatus (status : Int32) :
    word (wExitStatus status) = word status / 256 % 256 := by
  have hmask : word (status &&& 0xff00) = word status &&& 65280 := word_and status 0xff00
  have hmsb : (status &&& 0xff00).toBitVec.msb = false := by
    have hle : word (status &&& 0xff00) ≤ 65280 := hmask ▸ Nat.and_le_right
    rw [word] at hle
    rw [BitVec.msb_eq_false_iff_two_mul_lt]
    omega
  -- a word without its sign bit is shifted like an unsigned one
  have hshift : word (wExitStatus status) = word (status &&& 0xff00) >>> 8 := by
    rw [word, wExitStatus, Int32.toBitVec_shiftRight]
    exact BitVec.toNat_sshiftRight_of_msb_false hmsb
  rw [hshift, hmask, Nat.shiftRight_and_distrib, Nat.shiftRight_eq_div_pow]
  exact Nat.and_two_pow_sub_one_eq_mod _ 8

theorem wTermSig_eq (status : Int32) : wTermSig status = Int32.ofNat (word status % 128) := by
  rw [← word_inj, word_wTermSig, word_ofNat (by omega)]

theorem wExitStatus_eq (status : Int32) :
    wExitStatus status = Int32.ofNat (word status / 256 % 256) := by
  rw [← word_inj, word_wExitStatus, word_ofNat (by omega)]

/-! ## The tests -/

theorem wIfExited_iff {status : Int32} : wIfExited status = true ↔ word status % 128 = 0 := by
  rw [wIfExited, decide_eq_true_eq, ← word_inj, word_wTermSig]
  rfl

theorem wIfSignaled_small :
    ∀ n < 128, wIfSignaled (Int32.ofNat n) = decide (0 < n ∧ n < 127) := by
  decide +kernel

theorem wIfSignaled_iff {status : Int32} :
    wIfSignaled status = true ↔ 0 < word status % 128 ∧ word status % 128 < 127 := by
  have hlow : wIfSignaled status = wIfSignaled (Int32.ofNat (word status % 128)) := by
    have hmask : wTermSig (Int32.ofNat (word status % 128)) = wTermSig status := by
      rw [← word_inj, word_wTermSig, word_wTermSig, word_ofNat (by omega), Nat.mod_mod]
    rw [wTermSig, wTermSig] at hmask
    rw [wIfSignaled, wIfSignaled, hmask]
  rw [hlow, wIfSignaled_small _ (Nat.mod_lt _ (by decide)), decide_eq_true_eq]

theorem wIfStopped_iff {status : Int32} : wIfStopped status = true ↔ word status % 256 = 127 := by
  have hmask : word (status &&& 0xff) = word status % 256 := by
    rw [word_and]
    exact Nat.and_two_pow_sub_one_eq_mod _ 8
  rw [wIfStopped, decide_eq_true_eq, ← word_inj, hmask]
  rfl

theorem wIfContinued_iff {status : Int32} : wIfContinued status = true ↔ word status = 65535 := by
  rw [wIfContinued, decide_eq_true_eq, ← word_inj]
  rfl

theorem wCoreDump_iff {status : Int32} : wCoreDump status = true ↔ word status / 128 % 2 = 1 := by
  have hmask : word (status &&& 0x80) = word status / 128 % 2 * 128 := by
    rw [word_and]
    exact (Nat.and_two_pow _ 7).trans (congrArg (· * 128) (Nat.toNat_testBit _ 7))
  rw [wCoreDump, decide_eq_true_eq, ne_eq, ← word_inj, hmask]
  have hzero : word 0 = 0 := rfl
  omega

/-- The two tests by which a parent knows that its child is no more. -/
theorem ends_waitStatus (e : ChildEvent) :
    (wIfExited (waitStatus e) || wIfSignaled (waitStatus e)) = e.ends := by
  rw [Bool.eq_iff_iff, Bool.or_eq_true, wIfExited_iff, wIfSignaled_iff, word_waitStatus]
  cases e with
  | exited code =>
    refine iff_of_true (.inl ?_) rfl
    simp only [ChildEvent.packed]
    omega
  | killed sig coreDump =>
    have hpos := sig.pos
    have hle := sig.le
    refine iff_of_true (.inr ?_) rfl
    simp only [ChildEvent.packed]
    split <;> omega
  | stopped sig =>
    refine iff_of_false ?_ Bool.false_ne_true
    simp only [ChildEvent.packed]
    omega
  | continued => exact iff_of_false (by simp [ChildEvent.packed]) Bool.false_ne_true

end LinuxTemplates.WaitStatuses
