import LinuxTemplates.StdioStreams
import LinuxTemplates.WaitStatuses

/-!
# `PrintWaitStatus`

The function of `wait_status.cpp` tries the four tests on a status word in turn and prints
one line about the child.
-/

namespace LinuxTemplates.WaitStatusPrinter
open WaitStatuses
open StdioStreams (decimal hexadecimal)

/-- What the function prints; `strsignal` gives the name of a signal. -/
def printWaitStatus (strsignal : Int32 → String) (msg : Option String) (status : Int32) : String :=
  msg.getD "" ++
    if wIfExited status then
      "Child exited, status=" ++ decimal (wExitStatus status).toInt ++ "\n"
    else if wIfSignaled status then
      "Child killed by signal " ++ decimal (wTermSig status).toInt ++ "(" ++
        strsignal (wTermSig status) ++ ")" ++
        (if wCoreDump status then "(core dumped)" else "") ++ "\n"
    else if wIfStopped status then
      "Child stopped by signal " ++ decimal (wStopSig status).toInt ++ "(" ++
        strsignal (wStopSig status) ++ ")\n"
    else if wIfContinued status then "Child continued\n"
    else "Unknow status=" ++ hexadecimal (word status) ++ "\n"

/-- The line about an event. -/
def line (strsignal : Int32 → String) : ChildEvent → String
  | .exited code => "Child exited, status=" ++ decimal code.toNat ++ "\n"
  | .killed sig coreDump => "Child killed by signal " ++ decimal sig.number ++ "(" ++
      strsignal (Int32.ofNat sig.number) ++ ")" ++
      (if coreDump then "(core dumped)" else "") ++ "\n"
  | .stopped sig => "Child stopped by signal " ++ decimal sig.number ++ "(" ++
      strsignal (Int32.ofNat sig.number) ++ ")\n"
  | .continued => "Child continued\n"

theorem toInt_ofNat_small {n : ℕ} (h : n < 256) : (Int32.ofNat n).toInt = n := by
  rw [Int32.toInt_ofNat', Int.bmod_def]
  simp only [Int32.size]
  omega

/-- The tests undo the packing of every event. -/
theorem printWaitStatus_packed (strsignal : Int32 → String) (msg : Option String) {status : Int32}
    {e : ChildEvent} (h : word status = e.packed) :
    printWaitStatus strsignal msg status = msg.getD "" ++ line strsignal e := by
  rw [printWaitStatus]
  cases e with
  | exited code =>
    have hlt := code.toNat_lt
    simp only [ChildEvent.packed] at h
    have hexit : wIfExited status = true := by
      rw [wIfExited_iff]
      omega
    have hcode : wExitStatus status = Int32.ofNat code.toNat := by
      have hbyte : code.toNat * 256 / 256 % 256 = code.toNat := by omega
      rw [wExitStatus_eq, h, hbyte]
    rw [if_pos hexit, hcode, toInt_ofNat_small hlt]
    rfl
  | killed sig coreDump =>
    have hpos := sig.pos
    have hle := sig.le
    simp only [ChildEvent.packed] at h
    have hlow : word status % 128 = sig.number := by
      split at h <;> omega
    have hsig : wTermSig status = Int32.ofNat sig.number := by
      rw [wTermSig_eq, hlow]
    have hexit : ¬ wIfExited status = true := by
      rw [wIfExited_iff]
      omega
    have hkill : wIfSignaled status = true := by
      rw [wIfSignaled_iff]
      omega
    have hcore : wCoreDump status = coreDump := by
      rw [Bool.eq_iff_iff, wCoreDump_iff]
      cases coreDump with
      | true => simp only [if_true] at h; exact iff_of_true (by omega) rfl
      | false =>
        simp only [Bool.false_eq_true, if_false] at h
        exact iff_of_false (by omega) Bool.false_ne_true
    rw [if_neg hexit, if_pos hkill, hsig, hcore, toInt_ofNat_small (by omega)]
    rfl
  | stopped sig =>
    have hle := sig.le
    simp only [ChildEvent.packed] at h
    have hsig : wStopSig status = Int32.ofNat sig.number := by
      have hbyte : (sig.number * 256 + 127) / 256 % 256 = sig.number := by omega
      rw [wStopSig, wExitStatus_eq, h, hbyte]
    have hexit : ¬ wIfExited status = true := by
      rw [wIfExited_iff]
      omega
    have hkill : ¬ wIfSignaled status = true := by
      rw [wIfSignaled_iff]
      omega
    have hstop : wIfStopped status = true := by
      rw [wIfStopped_iff]
      omega
    rw [if_neg hexit, if_neg hkill, if_pos hstop, hsig, toInt_ofNat_small (by omega)]
    rfl
  | continued =>
    simp only [ChildEvent.packed] at h
    have hexit : ¬ wIfExited status = true := by
      rw [wIfExited_iff]
      omega
    have hkill : ¬ wIfSignaled status = true := by
      rw [wIfSignaled_iff]
      omega
    have hstop : ¬ wIfStopped status = true := by
      rw [wIfStopped_iff]
      omega
    rw [if_neg hexit, if_neg hkill, if_neg hstop, if_pos (wIfContinued_iff.mpr h)]
    rfl

theorem tests_count (status : Int32) :
    [wIfExited status, wIfSignaled status, wIfStopped status, wIfContinued status].count true =
      if word status % 256 = 255 ∧ word status ≠ 65535 then 0 else 1 := by
  have hlt := word_lt status
  have hcount (b c d e : Bool) : [b, c, d, e].count true = b.toNat + c.toNat + d.toNat + e.toNat := by
    cases b <;> cases c <;> cases d <;> cases e <;> rfl
  have hnum {b : Bool} {p : Prop} [Decidable p] (h : b = true ↔ p) :
      b.toNat = if p then 1 else 0 := by
    cases b <;> simp_all
  rw [hcount, hnum wIfExited_iff, hnum wIfSignaled_iff, hnum wIfStopped_iff, hnum wIfContinued_iff]
  split_ifs <;> omega

/-- Every event is printed as what it is, and a word satisfies at most one of the tests: none
only if its low byte is 0xff and it does not stand for a continued child. -/
theorem printWaitStatus_decodes :
    (∀ strsignal msg e,
      printWaitStatus strsignal msg (waitStatus e) = msg.getD "" ++ line strsignal e) ∧
    Function.Injective waitStatus ∧
    ∀ status, [wIfExited status, wIfSignaled status, wIfStopped status,
      wIfContinued status].count true =
        if word status % 256 = 255 ∧ word status ≠ 65535 then 0 else 1 :=
  ⟨fun strsignal msg e => printWaitStatus_packed strsignal msg (word_waitStatus e),
    waitStatus_injective, tests_count⟩

end LinuxTemplates.WaitStatusPrinter
