import LinuxTemplates.PosixShmRoundTrip

/-!
# What failed shared-memory operations leave behind

`posix_shm_create` and `posix_shm_write` resize a segment before they map it, and take
nothing back when a later call fails.
-/

namespace LinuxTemplates.PosixShm

universe u

variable {Name : Type u} [DecidableEq Name]

/-- A failure of `posix_shm_write` comes behind an `ftruncate` that changed the segment. -/
def WriteDisturbs (faults : Faults) (shm : Shm Name) (name : Option Name)
    (data : Option (List UInt8)) (len : Int32) (n : Name) (bytes : List UInt8) : Prop :=
  WriteOpens faults shm name data len n bytes ∧ faults .ftruncate = false ∧
    bytes.length ≠ len.toInt.toNat

instance (faults : Faults) (access : Access) (length : Int64) :
    Decidable (Truncates faults access length) :=
  inferInstanceAs (Decidable (_ ∧ _ ∧ _))

/-- What a failed `posix_shm_create` leaves of a segment that it has opened. -/
def leftByCreate (faults : Faults) (flag : OpenFlags) (size : UInt64) (bytes : List UInt8) :
    List UInt8 :=
  if Truncates faults flag.access size.toInt64 then
    resize size.toNat (if flag.trunc then [] else bytes)
  else if flag.trunc then [] else bytes

/-- A failure of `posix_shm_create` comes behind an `O_TRUNC` or an `ftruncate` that changed
the segment. -/
def CreateDisturbs (faults : Faults) (shm : Shm Name) (name : Name) (flag : OpenFlags)
    (size : UInt64) (bytes : List UInt8) : Prop :=
  Opens faults shm name flag ∧
    if Truncates faults flag.access size.toInt64 then
      bytes.length ≠ size.toNat ∨ (flag.trunc = true ∧ ∃ b ∈ bytes, b ≠ 0)
    else flag.trunc = true ∧ bytes ≠ []

theorem resize_eq_self_iff {length : ℕ} {bytes : List UInt8} :
    resize length bytes = bytes ↔ bytes.length = length := by
  constructor
  · intro h
    rw [← h, length_resize]
  · rintro rfl
    rw [resize, List.take_length, Nat.sub_self, List.replicate_zero, List.append_nil]

theorem resize_nil_eq_iff {length : ℕ} {bytes : List UInt8} :
    resize length [] = bytes ↔ bytes.length = length ∧ ∀ b ∈ bytes, b = 0 := by
  rw [resize, List.take_nil, List.nil_append, List.length_nil, Nat.sub_zero, eq_comm,
    List.eq_replicate_iff]

theorem toNat_toInt64 {size : UInt64} (h : 0 ≤ size.toInt64) :
    size.toInt64.toInt.toNat = size.toNat := by
  have hword : size.toInt64.toInt = (size.toNat : ℤ).bmod 18446744073709551616 := by
    rw [← UInt64.ofNat_toNat (x := size), UInt64.toInt64_ofNat', Int64.toInt_ofNat']
    simp [Int64.size]
  have hpos : 0 ≤ size.toInt64.toInt := by simpa using Int64.le_iff_toInt_le.mp h
  have hlt := size.toNat_lt
  rw [Int.bmod_def] at hword
  split at hword <;> omega

section Failures
variable {faults : Faults} {shm : Shm Name} {r : Result Name}

theorem leftByCreate_eq_self_iff {flag : OpenFlags} {size : UInt64} {bytes : List UInt8} :
    leftByCreate faults flag size bytes = bytes ↔
      ¬ if Truncates faults flag.access size.toInt64 then
        bytes.length ≠ size.toNat ∨ (flag.trunc = true ∧ ∃ b ∈ bytes, b ≠ 0)
      else flag.trunc = true ∧ bytes ≠ [] := by
  unfold leftByCreate
  cases flag.trunc with
  | true =>
    split
    · rw [if_pos rfl, resize_nil_eq_iff]
      simp
    · rw [if_pos rfl]
      simp [eq_comm]
  | false =>
    split
    · simp [resize_eq_self_iff]
    · simp

/-- A failed `posix_shm_write` has resized its segment when `ftruncate` succeeded. -/
theorem posixShmWrite_failed {name : Option Name} {data : Option (List UInt8)} {len : Int32}
    (h : posixShmWrite faults name data len shm = some r) (hret : r.ret = -1) :
    (∀ n bytes, WriteDisturbs faults shm name data len n bytes → r.shm.segments =
      Function.update shm.segments n (some (resize len.toInt.toNat bytes))) ∧
    ((∀ n bytes, ¬ WriteDisturbs faults shm name data len n bytes) →
      r.shm.segments = shm.segments) := by
  rcases posixShmWrite_exits h with ⟨hnone, -, hs⟩ | ⟨n, bytes, hw, hexit⟩
  · exact ⟨fun n bytes hd => absurd hd.1 (hnone n bytes), fun _ => by rw [hs]⟩
  · have hsame (n' : Name) (bytes' : List UInt8)
        (hw' : WriteOpens faults shm name data len n' bytes') : n' = n ∧ bytes' = bytes := by
      obtain rfl := Option.some.inj (hw'.1.symm.trans hw.1)
      exact ⟨rfl, Option.some.inj (hw'.2.2.2.2.symm.trans hw.2.2.2.2)⟩
    have hsegments : (faults .ftruncate = true ∧ r.shm.segments = shm.segments) ∨
        (faults .ftruncate = false ∧ r.shm.segments =
          Function.update shm.segments n (some (resize len.toInt.toNat bytes))) := by
      rcases hexit with ⟨hf, -, hs⟩ | ⟨hf, -, -, hs⟩ | ⟨hf, -, -, -, hs⟩ | ⟨-, -, -, hzero, -⟩
      · exact .inl ⟨hf, by rw [hs, Shm.leaked_segments]⟩
      · exact .inr ⟨hf, by rw [hs, Shm.leaked_segments, Shm.set_segments]⟩
      · exact .inr ⟨hf, by rw [hs, Shm.set_segments]⟩
      · rw [hret] at hzero
        cases hzero
    constructor
    · rintro n' bytes' ⟨hw', hf, -⟩
      obtain ⟨rfl, rfl⟩ := hsame n' bytes' hw'
      rcases hsegments with ⟨hf', -⟩ | ⟨-, hs⟩
      · rw [hf] at hf'
        cases hf'
      · exact hs
    · intro hno
      rcases hsegments with ⟨-, hs⟩ | ⟨hf, hs⟩
      · exact hs
      · have hlength : bytes.length = len.toInt.toNat := by
          by_contra hne
          exact hno n bytes ⟨hw, hf, hne⟩
        rw [hs, resize_eq_self_iff.mpr hlength, Function.update_eq_self_iff]
        exact hw.2.2.2.2.symm

theorem posixShmCreate_failed {name : Name} {flag : OpenFlags} {size : UInt64}
    {bytes : List UInt8} (hname : shm.segments name = some bytes)
    (hret : (posixShmCreate faults name flag size shm).ret = -1) :
    (Opens faults shm name flag → (posixShmCreate faults name flag size shm).shm.segments =
      Function.update shm.segments name (some (leftByCreate faults flag size bytes))) ∧
    (¬ Opens faults shm name flag →
      (posixShmCreate faults name flag size shm).shm.segments = shm.segments) := by
  have hcall : posixShmCreate faults name flag size shm = _ := rfl
  rcases posixShmCreate_exits hcall with ⟨hopens, -, hs⟩ | ⟨hopens, htrunc, -, hs⟩ |
    ⟨hopens, htrunc, -, -, hs⟩ | ⟨-, -, -, hzero, -⟩
  · exact ⟨fun ho => absurd ho hopens, fun _ => by rw [hs]⟩
  · refine ⟨fun _ => ?_, fun ho => absurd hopens ho⟩
    rw [hs, leftByCreate, if_neg htrunc, hname]
    rfl
  · refine ⟨fun _ => ?_, fun ho => absurd hopens ho⟩
    rw [hs, leftByCreate, if_pos htrunc, hname, toNat_toInt64 htrunc.2.1]
    rfl
  · rw [hret] at hzero
    cases hzero

end Failures

/-- A failed call changes at most the segment it names, and exactly when a call that changes
it came before the one that failed. -/
theorem failed_calls (faults : Faults) (shm : Shm Name) :
    (∀ name data len r, posixShmWrite faults name data len shm = some r → r.ret = -1 →
      (r.shm.segments = shm.segments ↔
        ∀ n bytes, ¬ WriteDisturbs faults shm name data len n bytes) ∧
      ∀ n bytes, WriteDisturbs faults shm name data len n bytes → r.shm.segments =
        Function.update shm.segments n (some (resize len.toInt.toNat bytes))) ∧
    ∀ name flag size bytes, shm.segments name = some bytes →
      (posixShmCreate faults name flag size shm).ret = -1 →
      ((posixShmCreate faults name flag size shm).shm.segments = shm.segments ↔
        ¬ CreateDisturbs faults shm name flag size bytes) ∧
      (CreateDisturbs faults shm name flag size bytes →
        (posixShmCreate faults name flag size shm).shm.segments =
          Function.update shm.segments name (some (leftByCreate faults flag size bytes))) := by
  constructor
  · intro name data len r h hret
    obtain ⟨hresized, hsame⟩ := posixShmWrite_failed h hret
    refine ⟨⟨fun heq n bytes hd => ?_, hsame⟩, hresized⟩
    rw [hresized n bytes hd, Function.update_eq_self_iff, hd.1.2.2.2.2, Option.some_inj,
      resize_eq_self_iff] at heq
    exact hd.2.2 heq
  · intro name flag size bytes hname hret
    obtain ⟨hopened, hclosed⟩ := posixShmCreate_failed hname hret
    refine ⟨?_, fun hd => hopened hd.1⟩
    by_cases hopens : Opens faults shm name flag
    · rw [hopened hopens, Function.update_eq_self_iff, hname, Option.some_inj,
        leftByCreate_eq_self_iff, CreateDisturbs, and_iff_right hopens]
    · exact iff_of_true (hclosed hopens) (fun hd => hopens hd.1)

section DemoShm

/-- Other programs have left something behind. -/
def demoSegments : Shm String := ⟨fun _ => some helloWorld, []⟩

def mmapFails : Faults := fun call => decide (call = .mmap)

/-- The write that cannot map its segment leaves it cut to two bytes. -/
theorem failed_calls_mmap :
    ∃ r, posixShmWrite mmapFails (some "/demo_shm") (some [104, 105]) 2 demoSegments = some r ∧
      r.shm.segments =
        Function.update demoSegments.segments "/demo_shm" (some (resize 2 helloWorld)) := by
  have hdisturbs : WriteDisturbs mmapFails demoSegments (some "/demo_shm") (some [104, 105]) 2
      "/demo_shm" helloWorld :=
    ⟨⟨rfl, Option.some_ne_none _, by decide, by decide, rfl⟩, by decide, by decide⟩
  refine ⟨_, rfl, ?_⟩
  exact ((failed_calls mmapFails demoSegments).1 _ _ _ _ rfl (by decide)).2 _ _ hdisturbs

/-- A segment of length zero cannot be mapped, but it has been cut to length zero by then;
and a write that cannot map its segment has cut it as well. -/
theorem not_failed_calls_keep :
    ((posixShmCreate noFaults "/demo_shm" ⟨.rdwr, true, false, false⟩ 0 demoSegments).ret = -1 ∧
      (posixShmCreate noFaults "/demo_shm" ⟨.rdwr, true, false, false⟩ 0
        demoSegments).shm.segments ≠ demoSegments.segments) ∧
    ∃ r, posixShmWrite mmapFails (some "/demo_shm") (some [104, 105]) 2 demoSegments = some r ∧
      r.ret = -1 ∧ r.shm.segments ≠ demoSegments.segments := by
  refine ⟨⟨by decide, fun heq => ?_⟩, ⟨_, rfl, by decide, fun heq => ?_⟩⟩
  · exact absurd (congrFun heq "/demo_shm") (by decide)
  · exact absurd (congrFun heq "/demo_shm") (by decide)

end DemoShm

end LinuxTemplates.PosixShm
