import LinuxTemplates.PosixShmExits
import LinuxTemplates.TransitionSystems

/-!
# What was written is read back

`posix_shm_write` stores no terminator. The reader prints a C string, whose end is the
zero fill behind the segment's last byte: there is one unless the data end on a page.
-/

namespace LinuxTemplates.PosixShm
open PageMappings CStrings TransitionSystems

universe u

inductive Call (Name : Type u)
  | create (name : Name) (flag : OpenFlags) (size : UInt64)
  | write (name : Option Name) (data : Option (List UInt8)) (len : Int32)
  | read (name : Option Name)
  | unlink (name : Option Name)

variable {Name : Type u} [DecidableEq Name]

/-- The name that a call touches. -/
def Call.touches : Call Name → Option Name
  | .create name _ _ => some name
  | .write name _ _ => name
  | .read _ => none
  | .unlink name => name

def Call.exec (page : ℕ+) (faults : Faults) (shm : Shm Name) : Call Name → Option (Result Name)
  | .create name flag size => some (posixShmCreate faults name flag size shm)
  | .write name data len => posixShmWrite faults name data len shm
  | .read name => some (posixShmRead page faults name shm)
  | .unlink name => some (posixShmUnlink faults name shm)

/-- Sequences of successful calls, from any segments. -/
def posixShm (page : ℕ+) (Name : Type u) [DecidableEq Name] :
    System (Shm Name) (Call Name × Faults) where
  init _ := True
  step shm call := match call.1.exec page call.2 shm with
    | some r => if r.ret = 0 then some r.shm else none
    | none => none

/-- `posix_shm_read` prints exactly `data` and stays inside its mapping. -/
def Reads (page : ℕ+) (shm : Shm Name) (name : Name) (data : List UInt8) : Prop :=
  (posixShmRead page noFaults (some name) shm).printed = [.content data]

variable {page : ℕ+} {shm shm' : Shm Name} {name : Name}

theorem step_eq_some {call : Call Name × Faults} :
    (posixShm page Name).step shm call = some shm' ↔
      ∃ r, call.1.exec page call.2 shm = some r ∧ r.ret = 0 ∧ r.shm = shm' := by
  simp only [posixShm]
  cases h : call.1.exec page call.2 shm with
  | none => simp
  | some r => by_cases hret : r.ret = 0 <;> simp [hret]

theorem step_frame {call : Call Name × Faults} (hne : call.1.touches ≠ some name)
    (h : (posixShm page Name).step shm call = some shm') :
    shm'.segments name = shm.segments name := by
  obtain ⟨r, hexec, hret, rfl⟩ := step_eq_some.mp h
  obtain ⟨c, faults⟩ := call
  cases c with
  | create n flag size =>
    have hn : name ≠ n := fun heq => hne (congrArg some heq.symm)
    rcases posixShmCreate_cases (Option.some.inj hexec) with ⟨-, hs⟩ | ⟨-, hs⟩ | ⟨-, hs⟩
    · rw [hs]
    · rw [hs, Function.update_of_ne hn]
    · rw [hs, Function.update_of_ne hn]
  | write n data len =>
    rcases posixShmWrite_cases hexec with ⟨-, hs⟩ | ⟨n, d, bytes, rfl, -, -, -, hs⟩
    · rw [hs]
    · have hn : name ≠ n := fun heq => hne (congrArg some heq.symm)
      rcases hs with ⟨-, hs⟩ | ⟨-, -, hs⟩ <;> rw [hs, Function.update_of_ne hn]
  | read n => rw [posixShmRead_segments (Option.some.inj hexec)]
  | unlink n =>
    rcases posixShmUnlink_cases (Option.some.inj hexec) with ⟨-, hs⟩ | ⟨n, rfl, -, hs⟩
    · rw [hs]
    · have hn : name ≠ n := fun heq => hne (congrArg some heq.symm)
      rw [hs, Function.update_of_ne hn]

/-- Calls on other names leave a segment alone. -/
theorem run_frame {calls : List (Call Name × Faults)}
    (hne : ∀ call ∈ calls, call.1.touches ≠ some name)
    (h : (posixShm page Name).run shm calls = some shm') :
    shm'.segments name = shm.segments name := by
  induction calls generalizing shm with
  | nil => rw [Option.some.inj h]
  | cons call calls ih =>
    obtain ⟨t, ht, hrun⟩ := (System.run_cons _).mp h
    have hrest := ih (fun c hc => hne c (List.mem_cons_of_mem _ hc)) hrun
    rw [hrest, step_frame (hne call List.mem_cons_self) ht]

/-- What a successful `posix_shm_write` leaves in its segment. -/
theorem segment_of_write {data : List UInt8} {len : Int32} {faults : Faults}
    (h : (posixShm page Name).step shm (.write (some name) (some data) len, faults) = some shm') :
    0 < len ∧ len.toInt.toNat ≤ data.length ∧
      shm'.segments name = some (data.take len.toInt.toNat) := by
  obtain ⟨r, hexec, hret, rfl⟩ := step_eq_some.mp h
  have hcases : posixShmWrite faults (some name) (some data) len shm = some r := hexec
  rcases posixShmWrite_cases hcases with ⟨hfail, -⟩ | ⟨n, d, bytes, hn, hd, hlen, -, hs⟩
  · rw [hret] at hfail
    cases hfail
  · obtain rfl := Option.some.inj hn
    obtain rfl := Option.some.inj hd
    rcases hs with ⟨hfail, -⟩ | ⟨-, hle, hs⟩
    · rw [hret] at hfail
      cases hfail
    · exact ⟨hlen, hle, by rw [hs, Function.update_self]⟩

/-- A segment without NUL is read as it is, unless it fills its last page. -/
theorem reads_iff {data : List UInt8} (hseg : shm.segments name = some data) (hne : data ≠ [])
    (hnul : 0 ∉ data) : Reads page shm name data ↔ ¬ (page : ℕ) ∣ data.length := by
  rw [Reads, posixShmRead_noFaults hne hseg, List.singleton_inj, printContent_eq_content_iff,
    cString_mapped_iff hnul]

/-- After any successful calls of which the last on `name` wrote `data` there, `data` are
read back if and only if their length is no multiple of the page size. -/
theorem reads_written_iff {shm₀ : Shm Name} {pre post : List (Call Name × Faults)}
    {data : List UInt8} {len : Int32} {faults : Faults}
    (hrun : (posixShm page Name).run shm₀
      (pre ++ (.write (some name) (some data) len, faults) :: post) = some shm)
    (hlast : ∀ call ∈ post, call.1.touches ≠ some name)
    (hnul : 0 ∉ data.take len.toInt.toNat) :
    Reads page shm name (data.take len.toInt.toNat) ↔ ¬ (page : ℕ) ∣ len.toInt.toNat := by
  obtain ⟨t, -, hrest⟩ := (System.run_append_iff _).mp hrun
  obtain ⟨u, hwrite, hpost⟩ := (System.run_cons _).mp hrest
  obtain ⟨hlen, hle, hseg⟩ := segment_of_write hwrite
  have hlength : (data.take len.toInt.toNat).length = len.toInt.toNat := List.length_take_of_le hle
  have hpos : 0 < len.toInt := by simpa using Int32.lt_iff_toInt_lt.mp hlen
  have hne : data.take len.toInt.toNat ≠ [] := by
    intro hnil
    rw [hnil, List.length_nil] at hlength
    omega
  rw [← run_frame hlast hpost] at hseg
  rw [reads_iff hseg hne hnul, hlength]

/-- A fresh segment takes any data. -/
theorem run_create_write {size : UInt64} {data : List UInt8} {len : Int32}
    (hname : shm.segments name = none) (hsize : 0 < size.toInt64) (hlen : 0 < len)
    (hdata : len.toInt.toNat ≤ data.length) :
    ∃ shm', (posixShm page Name).run shm
      [(.create name ⟨.rdwr, true, false, false⟩ size, noFaults),
        (.write (some name) (some data) len, noFaults)] = some shm' := by
  have hret := posixShmCreate_noFaults hsize hname
  have hseg : ∃ bytes, (posixShmCreate noFaults name ⟨.rdwr, true, false, false⟩ size
      shm).shm.segments name = some bytes := by
    have hcreate : posixShmCreate noFaults name ⟨.rdwr, true, false, false⟩ size shm = _ := rfl
    rcases posixShmCreate_cases hcreate with ⟨hfail, -⟩ | ⟨-, hs⟩ | ⟨-, hs⟩
    · rw [hret] at hfail
      cases hfail
    · exact ⟨_, by rw [hs, Function.update_self]⟩
    · exact ⟨_, by rw [hs, Function.update_self]⟩
  obtain ⟨bytes, hbytes⟩ := hseg
  obtain ⟨r, hr, hret'⟩ := posixShmWrite_noFaults hlen hdata hbytes
  refine ⟨r.shm, (System.run_cons _).mpr ⟨_, step_eq_some.mpr ⟨_, rfl, hret, rfl⟩, ?_⟩⟩
  exact (System.run_cons _).mpr ⟨_, step_eq_some.mpr ⟨r, hr, hret', rfl⟩, rfl⟩

section DemoShm

def helloWorld : List UInt8 := [104, 101, 108, 108, 111, 32, 119, 111, 114, 108, 100]

/-- The call of the first program. -/
def demoCreate : Call String × Faults :=
  (.create "/demo_shm" ⟨.rdwr, true, false, false⟩ 100, noFaults)

/-- The call of the second one, for any data. -/
def demoWrite (data : List UInt8) (len : Int32) : Call String × Faults :=
  (.write (some "/demo_shm") (some data) len, noFaults)

theorem run_demo (page : ℕ+) (data : List UInt8) (len : Int32) (hlen : 0 < len)
    (hdata : len.toInt.toNat ≤ data.length) :
    ∃ shm, (posixShm page String).run ⟨fun _ => none, []⟩ [demoCreate, demoWrite data len] =
      some shm :=
  run_create_write rfl (by decide) hlen hdata

theorem reads_written_iff_demo :
    ∃ shm, (posixShm 4096 String).run ⟨fun _ => none, []⟩
        ([demoCreate] ++ demoWrite (helloWorld ++ [0]) 11 :: []) = some shm ∧
      (Reads 4096 shm "/demo_shm" helloWorld ↔ ¬ 4096 ∣ 11) := by
  obtain ⟨shm, hrun⟩ := run_demo 4096 (helloWorld ++ [0]) 11 (by decide) (by decide)
  have hsplit : (posixShm 4096 String).run ⟨fun _ => none, []⟩
      ([demoCreate] ++ demoWrite (helloWorld ++ [0]) 11 :: []) = some shm := hrun
  have hlast : ∀ call ∈ ([] : List (Call String × Faults)), call.1.touches ≠ some "/demo_shm" :=
    fun call hcall => absurd hcall List.not_mem_nil
  have hnul : 0 ∉ (helloWorld ++ [0]).take (11 : Int32).toInt.toNat := by decide
  exact ⟨shm, hrun, reads_written_iff hsplit hlast hnul⟩

/-- Data that fill their page have no terminator. -/
theorem not_reads_written :
    ∃ shm, (posixShm 4096 String).run ⟨fun _ => none, []⟩
        [demoCreate, demoWrite (List.replicate 4096 97) 4096] = some shm ∧
      ¬ Reads 4096 shm "/demo_shm" (List.replicate 4096 97) := by
  have hlength : (4096 : Int32).toInt.toNat = 4096 := by decide
  obtain ⟨shm, hrun⟩ := run_demo 4096 (List.replicate 4096 97) 4096 (by decide)
    (by rw [hlength, List.length_replicate])
  obtain ⟨t, -, hlast⟩ := (System.run_cons _).mp hrun
  obtain ⟨u, hwrite, hnil⟩ := (System.run_cons _).mp hlast
  obtain rfl := Option.some.inj hnil
  obtain ⟨-, -, hseg⟩ := segment_of_write hwrite
  rw [hlength, List.take_replicate, min_self] at hseg
  have hnul : (0 : UInt8) ∉ List.replicate 4096 97 := by
    rw [List.mem_replicate]
    rintro ⟨-, hzero⟩
    exact absurd hzero (by decide)
  have hne : List.replicate 4096 (97 : UInt8) ≠ [] := by
    rw [Ne, List.replicate_eq_nil_iff]
    decide
  refine ⟨u, hrun, fun hreads => ?_⟩
  apply (reads_iff hseg hne hnul).mp hreads
  rw [List.length_replicate]
  exact Nat.dvd_refl 4096

end DemoShm

end LinuxTemplates.PosixShm
