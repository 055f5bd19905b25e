import LinuxTemplates.PosixShmProgram

/-!
# The ways out of the shared-memory operations

Each operation is a chain of calls. Which of them is the first to fail is decided by the
arguments, the segments and the faults, and with it what the operation leaves behind.
-/

namespace LinuxTemplates.PosixShm
open CStrings PageMappings

universe u

variable {Name : Type u} [DecidableEq Name]

/-- `shm_open` succeeds. -/
def Opens (faults : Faults) (shm : Shm Name) (name : Name) (flags : OpenFlags) : Prop :=
  faults .shmOpen = false ∧
    match shm.segments name with
    | none => flags.creat = true
    | some _ => ¬ (flags.creat = true ∧ flags.excl = true)

/-- `ftruncate` succeeds on a descriptor with this access. -/
def Truncates (faults : Faults) (access : Access) (length : Int64) : Prop :=
  faults .ftruncate = false ∧ 0 ≤ length ∧ access ≠ .rdonly

/-- `mmap` succeeds on such a descriptor. -/
def Maps (faults : Faults) (access : Access) (length : ℕ) (prot : Access) : Prop :=
  faults .mmap = false ∧ length ≠ 0 ∧ (access = .rdwr ∨ prot = access)

section Calls
open Shm
variable {faults : Faults} {shm : Shm Name} {name : Name} {flags : OpenFlags} {fd : Fd Name}
  {length : ℕ} {prot : Access}

omit [DecidableEq Name] in
theorem mmap_eq (h : Maps faults fd.access length prot) :
    shm.mmap faults fd length prot = shm.segments fd.name := by
  obtain ⟨hfault, hlength, haccess⟩ := h
  rw [mmap, if_neg]
  simp [hfault, hlength, haccess]

omit [DecidableEq Name] in
theorem mmap_eq_none (h : ¬ Maps faults fd.access length prot) :
    shm.mmap faults fd length prot = none := by
  rw [mmap, if_pos]
  by_contra hno
  rw [not_or, not_or, not_not] at hno
  exact h ⟨eq_false_of_ne_true hno.1, hno.2.1, hno.2.2⟩

/-- The segments and descriptors once `name` is open. -/
def Shm.afterOpen (shm : Shm Name) (name : Name) (flags : OpenFlags) : Shm Name :=
  { shm.set name (some (opened flags (shm.segments name))) with
    fds := lowestFree shm.fds :: shm.fds }

theorem shmOpen_eq_some (h : Opens faults shm name flags) :
    shm.shmOpen faults name flags =
      some (⟨lowestFree shm.fds, name, flags.access⟩, shm.afterOpen name flags) := by
  obtain ⟨hfault, hseg⟩ := h
  rw [shmOpen, if_neg (by simp [hfault])]
  cases hs : shm.segments name with
  | none =>
    rw [hs] at hseg
    simp [hseg, afterOpen, descriptor, opened, hs, Shm.set]
  | some bytes =>
    rw [hs] at hseg
    simp [hseg, afterOpen, descriptor, hs, Shm.set]

theorem shmOpen_eq_none (h : ¬ Opens faults shm name flags) :
    shm.shmOpen faults name flags = none := by
  rw [shmOpen]
  cases hfault : faults .shmOpen with
  | true => rfl
  | false =>
    cases hs : shm.segments name with
    | none =>
      have hcreat : ¬ flags.creat = true := fun hc => h ⟨hfault, by rw [hs]; exact hc⟩
      simp [hcreat]
    | some bytes =>
      have hexcl : flags.creat = true ∧ flags.excl = true := by
        by_contra hno
        exact h ⟨hfault, by rw [hs]; exact hno⟩
      simp [hexcl]

theorem ftruncate_eq_some {length : Int64} (h : Truncates faults fd.access length) :
    shm.ftruncate faults fd length =
      some (shm.set fd.name ((shm.segments fd.name).map (resize length.toInt.toNat))) := by
  obtain ⟨hfault, hlength, haccess⟩ := h
  rw [ftruncate, if_neg]
  simp [hfault, haccess, Int64.not_lt.mpr hlength]

theorem ftruncate_eq_none {length : Int64} (h : ¬ Truncates faults fd.access length) :
    shm.ftruncate faults fd length = none := by
  rw [ftruncate, if_pos]
  by_contra hno
  rw [not_or, not_or] at hno
  exact h ⟨eq_false_of_ne_true hno.1, Int64.not_lt.mp hno.2.1, hno.2.2⟩

end Calls

/-- The process with one more descriptor. -/
def Shm.leaked (shm : Shm Name) : Shm Name := { shm with fds := lowestFree shm.fds :: shm.fds }

omit [DecidableEq Name] in
@[simp] theorem Shm.leaked_segments (shm : Shm Name) : shm.leaked.segments = shm.segments := rfl

@[simp] theorem Shm.set_leaked (shm : Shm Name) (n : Name) (bytes : Option (List UInt8)) :
    shm.leaked.set n bytes = (shm.set n bytes).leaked := rfl

@[simp] theorem Shm.set_fds (shm : Shm Name) (n : Name) (bytes : Option (List UInt8)) :
    (shm.set n bytes).fds = shm.fds := rfl

@[simp] theorem Shm.set_segments (shm : Shm Name) (n : Name) (bytes : Option (List UInt8)) :
    (shm.set n bytes).segments = Function.update shm.segments n bytes := rfl

theorem Shm.set_set (shm : Shm Name) (n : Name) (a b : Option (List UInt8)) :
    (shm.set n a).set n b = shm.set n b := by
  rw [Shm.set, Shm.set, Function.update_idem]
  rfl

omit [DecidableEq Name] in
theorem Shm.close_leaked (shm : Shm Name) (n : Name) (access : Access) :
    shm.leaked.close ⟨lowestFree shm.fds, n, access⟩ = shm := by
  simp [Shm.close, leaked]

section Exits
open Shm
variable {faults : Faults} {shm : Shm Name} {r : Result Name}

omit [DecidableEq Name] in
theorem opens_existing_iff {n : Name} {access : Access} :
    Opens faults shm n ⟨access, false, false, false⟩ ↔
      faults .shmOpen = false ∧ ∃ bytes, shm.segments n = some bytes := by
  rw [Opens]
  cases shm.segments n with
  | none => simp
  | some bytes => simp

theorem afterOpen_existing {n : Name} {bytes : List UInt8} (access : Access)
    (h : shm.segments n = some bytes) :
    shm.afterOpen n ⟨access, false, false, false⟩ = shm.leaked := by
  have hsame : shm.set n (some bytes) = shm := by
    rw [Shm.set, ← h, Function.update_eq_self]
  have hopened : opened ⟨access, false, false, false⟩ (some bytes) = bytes := rfl
  rw [afterOpen, h, hopened, hsame, leaked]

/-- `posix_shm_create` gives its descriptor back on both failures after `shm_open`, and
keeps it when it succeeds. -/
theorem posixShmCreate_exits {name : Name} {flag : OpenFlags} {size : UInt64}
    (h : posixShmCreate faults name flag size shm = r) :
    (¬ Opens faults shm name flag ∧ r.ret = -1 ∧ r.shm = shm) ∨
    (Opens faults shm name flag ∧ ¬ Truncates faults flag.access size.toInt64 ∧ r.ret = -1 ∧
      r.shm = shm.set name (some (opened flag (shm.segments name)))) ∨
    (Opens faults shm name flag ∧ Truncates faults flag.access size.toInt64 ∧
      ¬ Maps faults flag.access size.toNat .rdwr ∧ r.ret = -1 ∧
      r.shm = shm.set name
        (some (resize size.toInt64.toInt.toNat (opened flag (shm.segments name))))) ∨
    (Opens faults shm name flag ∧ Truncates faults flag.access size.toInt64 ∧
      Maps faults flag.access size.toNat .rdwr ∧ r.ret = 0 ∧
      r.shm = (shm.set name
        (some (resize size.toInt64.toInt.toNat (opened flag (shm.segments name))))).leaked) := by
  subst h
  by_cases hopens : Opens faults shm name flag
  · right
    rw [posixShmCreate, shmOpen_eq_some hopens]
    dsimp only
    by_cases htrunc : Truncates faults flag.access size.toInt64
    · right
      rw [ftruncate_eq_some htrunc]
      dsimp only
      by_cases hmaps : Maps faults flag.access size.toNat .rdwr
      · right
        refine ⟨hopens, htrunc, hmaps, ?_⟩
        rw [mmap_eq hmaps]
        simp [afterOpen, leaked, Shm.set]
      · left
        refine ⟨hopens, htrunc, hmaps, ?_⟩
        rw [mmap_eq_none hmaps]
        simp [afterOpen, Shm.close, Shm.set]
    · left
      refine ⟨hopens, htrunc, ?_⟩
      rw [ftruncate_eq_none htrunc]
      simp [afterOpen, Shm.close, Shm.set]
  · left
    refine ⟨hopens, ?_⟩
    rw [posixShmCreate, shmOpen_eq_none hopens]
    simp

/-- The arguments of a call that gets a descriptor on a segment and asks for `len` bytes. -/
def WriteOpens (faults : Faults) (shm : Shm Name) (name : Option Name)
    (data : Option (List UInt8)) (len : Int32) (n : Name) (bytes : List UInt8) : Prop :=
  name = some n ∧ data ≠ none ∧ 0 < len ∧ faults .shmOpen = false ∧ shm.segments n = some bytes

/-- The ways out of `posix_shm_write` behind `shm_open`: it keeps its descriptor when
`ftruncate` or `mmap` fails. -/
def WriteExits (faults : Faults) (shm : Shm Name) (data : Option (List UInt8)) (len : Int32)
    (n : Name) (bytes : List UInt8) (r : Result Name) : Prop :=
  (faults .ftruncate = true ∧ r.ret = -1 ∧ r.shm = shm.leaked) ∨
  (faults .ftruncate = false ∧ faults .mmap = true ∧ r.ret = -1 ∧
    r.shm = (shm.set n (some (resize len.toInt.toNat bytes))).leaked) ∨
  (faults .ftruncate = false ∧ faults .mmap = false ∧ faults .close = true ∧ r.ret = -1 ∧
    r.shm = shm.set n (some (resize len.toInt.toNat bytes))) ∨
  (faults .ftruncate = false ∧ faults .mmap = false ∧ faults .close = false ∧ r.ret = 0 ∧
    ∃ d, data = some d ∧ len.toInt.toNat ≤ d.length ∧
      r.shm = shm.set n (some (d.take len.toInt.toNat)))

theorem posixShmWrite_of_opens {name : Option Name} {data : Option (List UInt8)} {len : Int32}
    {n : Name} {bytes : List UInt8} (hw : WriteOpens faults shm name data len n bytes)
    (h : posixShmWrite faults name data len shm = some r) :
    WriteExits faults shm data len n bytes r := by
  obtain ⟨rfl, hdata, hlen, hfault, hbytes⟩ := hw
  obtain ⟨d, rfl⟩ := Option.ne_none_iff_exists'.mp hdata
  have hpos : 0 < len.toInt := by simpa using Int32.lt_iff_toInt_lt.mp hlen
  have hlength : 0 ≤ len.toInt64 := by
    rw [Int64.le_iff_toInt_le, Int32.toInt_toInt64]
    exact hpos.le
  rw [posixShmWrite, if_neg (Int32.not_le.mpr hlen),
    shmOpen_eq_some (opens_existing_iff.mpr ⟨hfault, bytes, hbytes⟩),
    afterOpen_existing .rdwr hbytes] at h
  dsimp only at h
  by_cases htrunc : faults .ftruncate = true
  · rw [ftruncate_eq_none (fun ht => absurd ht.1 (by simp [htrunc]))] at h
    obtain rfl := Option.some.inj h
    exact .inl ⟨htrunc, rfl, rfl⟩
  · have hnotrunc := eq_false_of_ne_true htrunc
    rw [ftruncate_eq_some ⟨hnotrunc, hlength, by simp⟩, Int32.toInt_toInt64, leaked_segments,
      hbytes, Option.map_some, set_leaked] at h
    dsimp only at h
    right
    by_cases hmap : faults .mmap = true
    · rw [mmap_eq_none (fun hm => absurd hm.1 (by simp [hmap]))] at h
      obtain rfl := Option.some.inj h
      exact .inl ⟨hnotrunc, hmap, rfl, rfl⟩
    · have hnomap := eq_false_of_ne_true hmap
      have hmaps : Maps faults .rdwr len.toInt.toNat .rdwr := ⟨hnomap, by omega, .inl rfl⟩
      have hclosed := (shm.set n (some (resize len.toInt.toNat bytes))).close_leaked n .rdwr
      rw [set_fds] at hclosed
      rw [mmap_eq hmaps, leaked_segments, set_segments, Function.update_self, hclosed] at h
      dsimp only at h
      right
      split at h
      · rename_i hclose
        obtain rfl := Option.some.inj h
        exact .inl ⟨hnotrunc, hnomap, hclose, rfl, rfl⟩
      · rename_i hclose
        obtain ⟨shm', hcopy, rfl⟩ := Option.map_eq_some_iff.mp h
        obtain ⟨hle, hshm⟩ := memcpy_spec hcopy
        rw [set_segments, Function.update_self, Option.map_some, take_memcpy_resize hle,
          set_set] at hshm
        exact .inr ⟨hnotrunc, hnomap, eq_false_of_ne_true hclose, rfl, d, rfl, hle, hshm⟩

theorem posixShmWrite_of_not_opens {name : Option Name} {data : Option (List UInt8)} {len : Int32}
    (hw : ∀ n bytes, ¬ WriteOpens faults shm name data len n bytes)
    (h : posixShmWrite faults name data len shm = some r) : r.ret = -1 ∧ r.shm = shm := by
  unfold posixShmWrite at h
  split at h
  · rename_i n d
    split at h
    · rw [← Option.some.inj h]
      exact ⟨rfl, rfl⟩
    · rename_i hlen
      have hopens : ¬ Opens faults shm n ⟨.rdwr, false, false, false⟩ := by
        rw [opens_existing_iff]
        rintro ⟨hfault, bytes, hbytes⟩
        exact hw n bytes ⟨rfl, Option.some_ne_none d, Int32.not_le.mp hlen, hfault, hbytes⟩
      rw [shmOpen_eq_none hopens] at h
      rw [← Option.some.inj h]
      exact ⟨rfl, rfl⟩
  · rw [← Option.some.inj h]
    exact ⟨rfl, rfl⟩

theorem posixShmWrite_exits {name : Option Name} {data : Option (List UInt8)} {len : Int32}
    (h : posixShmWrite faults name data len shm = some r) :
    ((∀ n bytes, ¬ WriteOpens faults shm name data len n bytes) ∧ r.ret = -1 ∧ r.shm = shm) ∨
      ∃ n bytes, WriteOpens faults shm name data len n bytes ∧
        WriteExits faults shm data len n bytes r := by
  by_cases hopens : ∃ n bytes, WriteOpens faults shm name data len n bytes
  · obtain ⟨n, bytes, hw⟩ := hopens
    exact .inr ⟨n, bytes, hw, posixShmWrite_of_opens hw h⟩
  · have hnone (n : Name) (bytes : List UInt8) :
        ¬ WriteOpens faults shm name data len n bytes := fun hw => hopens ⟨n, bytes, hw⟩
    exact .inl ⟨hnone, posixShmWrite_of_not_opens hnone h⟩

/-- `posix_shm_read` gets a descriptor on a segment. -/
def ReadOpens (faults : Faults) (shm : Shm Name) (name : Option Name) (n : Name)
    (bytes : List UInt8) : Prop :=
  name = some n ∧ faults .shmOpen = false ∧ shm.segments n = some bytes

/-- The ways out of `posix_shm_read` behind `shm_open`: it keeps its descriptor when `fstat`
or `mmap` fails, and an empty segment cannot be mapped. -/
def ReadExits (faults : Faults) (shm : Shm Name) (bytes : List UInt8) (r : Result Name) : Prop :=
  ((faults .fstat = true ∨ faults .mmap = true ∨ bytes = []) ∧ r.ret = -1 ∧ r.shm = shm.leaked) ∨
  (faults .fstat = false ∧ faults .mmap = false ∧ bytes ≠ [] ∧ r.shm = shm)

theorem posixShmRead_of_opens {page : ℕ+} {name : Option Name} {n : Name} {bytes : List UInt8}
    (hr : ReadOpens faults shm name n bytes) (h : posixShmRead page faults name shm = r) :
    ReadExits faults shm bytes r := by
  obtain ⟨rfl, hfault, hbytes⟩ := hr
  rw [posixShmRead, shmOpen_eq_some (opens_existing_iff.mpr ⟨hfault, bytes, hbytes⟩),
    afterOpen_existing .rdonly hbytes] at h
  dsimp only at h
  by_cases hstat : faults .fstat = true
  · rw [fstat, if_pos hstat] at h
    subst h
    exact .inl ⟨.inl hstat, rfl, rfl⟩
  · rw [fstat, if_neg hstat, leaked_segments, hbytes, Option.map_some] at h
    dsimp only at h
    by_cases hmaps : Maps faults .rdonly bytes.length .rdonly
    · rw [mmap_eq hmaps, leaked_segments, hbytes, close_leaked] at h
      dsimp only at h
      obtain ⟨hmap, hlength, -⟩ := hmaps
      refine .inr ⟨eq_false_of_ne_true hstat, hmap, List.length_eq_zero_iff.not.mp hlength, ?_⟩
      split at h
      · subst h
        rfl
      · subst h
        rfl
    · rw [mmap_eq_none hmaps] at h
      subst h
      refine .inl ⟨?_, rfl, rfl⟩
      by_contra hno
      rw [not_or, not_or] at hno
      refine hmaps ⟨eq_false_of_ne_true hno.2.1, ?_, .inr rfl⟩
      exact List.length_eq_zero_iff.not.mpr hno.2.2

theorem posixShmRead_of_not_opens {page : ℕ+} {name : Option Name}
    (hr : ∀ n bytes, ¬ ReadOpens faults shm name n bytes)
    (h : posixShmRead page faults name shm = r) : r.ret = -1 ∧ r.shm = shm := by
  cases name with
  | none =>
    subst h
    exact ⟨rfl, rfl⟩
  | some n =>
    have hopens : ¬ Opens faults shm n ⟨.rdonly, false, false, false⟩ := by
      rw [opens_existing_iff]
      rintro ⟨hfault, bytes, hbytes⟩
      exact hr n bytes ⟨rfl, hfault, hbytes⟩
    rw [posixShmRead, shmOpen_eq_none hopens] at h
    subst h
    exact ⟨rfl, rfl⟩

theorem posixShmRead_exits {page : ℕ+} {name : Option Name}
    (h : posixShmRead page faults name shm = r) :
    ((∀ n bytes, ¬ ReadOpens faults shm name n bytes) ∧ r.ret = -1 ∧ r.shm = shm) ∨
      ∃ n bytes, ReadOpens faults shm name n bytes ∧ ReadExits faults shm bytes r := by
  by_cases hopens : ∃ n bytes, ReadOpens faults shm name n bytes
  · obtain ⟨n, bytes, hr⟩ := hopens
    exact .inr ⟨n, bytes, hr, posixShmRead_of_opens hr h⟩
  · have hnone (n : Name) (bytes : List UInt8) : ¬ ReadOpens faults shm name n bytes :=
      fun hr => hopens ⟨n, bytes, hr⟩
    exact .inl ⟨hnone, posixShmRead_of_not_opens hnone h⟩

end Exits

/-! ## What the operations do to the segments -/

section Segments
open Shm
variable {faults : Faults} {shm : Shm Name} {r : Result Name}

/-- A call of `posix_shm_create` fails before it opens the segment, before it resizes it
or after it has. -/
theorem posixShmCreate_cases {name : Name} {flag : OpenFlags} {size : UInt64}
    (h : posixShmCreate faults name flag size shm = r) :
    (r.ret = -1 ∧ r.shm.segments = shm.segments) ∨
    (r.ret = -1 ∧ r.shm.segments =
      Function.update shm.segments name (some (opened flag (shm.segments name)))) ∨
    ((r.ret = -1 ∨ r.ret = 0) ∧ r.shm.segments = Function.update shm.segments name
      (some (resize size.toInt64.toInt.toNat (opened flag (shm.segments name))))) := by
  rcases posixShmCreate_exits h with ⟨-, hret, hs⟩ | ⟨-, -, hret, hs⟩ | ⟨-, -, -, hret, hs⟩ |
    ⟨-, -, -, hret, hs⟩
  · exact .inl ⟨hret, by rw [hs]⟩
  · exact .inr (.inl ⟨hret, by rw [hs, set_segments]⟩)
  · exact .inr (.inr ⟨.inl hret, by rw [hs, set_segments]⟩)
  · exact .inr (.inr ⟨.inr hret, by rw [hs, leaked_segments, set_segments]⟩)

theorem posixShmWrite_cases {name : Option Name} {data : Option (List UInt8)} {len : Int32}
    (h : posixShmWrite faults name data len shm = some r) :
    (r.ret = -1 ∧ r.shm.segments = shm.segments) ∨
    ∃ n d bytes, name = some n ∧ data = some d ∧ 0 < len ∧ shm.segments n = some bytes ∧
      ((r.ret = -1 ∧ r.shm.segments =
        Function.update shm.segments n (some (resize len.toInt.toNat bytes))) ∨
      (r.ret = 0 ∧ len.toInt.toNat ≤ d.length ∧ r.shm.segments =
        Function.update shm.segments n (some (d.take len.toInt.toNat)))) := by
  rcases posixShmWrite_exits h with ⟨-, hret, hs⟩ | ⟨n, bytes, ⟨hname, hdata, hlen, -, hbytes⟩, hexit⟩
  · exact .inl ⟨hret, by rw [hs]⟩
  · obtain ⟨d, hd⟩ := Option.ne_none_iff_exists'.mp hdata
    rcases hexit with ⟨-, hret, hs⟩ | ⟨-, -, hret, hs⟩ | ⟨-, -, -, hret, hs⟩ |
      ⟨-, -, -, hret, d', hd', hle, hs⟩
    · exact .inl ⟨hret, by rw [hs, leaked_segments]⟩
    · refine .inr ⟨n, d, bytes, hname, hd, hlen, hbytes, .inl ⟨hret, ?_⟩⟩
      rw [hs, leaked_segments, set_segments]
    · refine .inr ⟨n, d, bytes, hname, hd, hlen, hbytes, .inl ⟨hret, ?_⟩⟩
      rw [hs, set_segments]
    · refine .inr ⟨n, d', bytes, hname, hd', hlen, hbytes, .inr ⟨hret, hle, ?_⟩⟩
      rw [hs, set_segments]

/-- Whatever fails, a read leaves the segments alone. -/
theorem posixShmRead_segments {page : ℕ+} {name : Option Name}
    (h : posixShmRead page faults name shm = r) : r.shm.segments = shm.segments := by
  rcases posixShmRead_exits h with ⟨-, -, hs⟩ | ⟨n, bytes, -, ⟨-, -, hs⟩ | ⟨-, -, -, hs⟩⟩
  · rw [hs]
  · rw [hs, leaked_segments]
  · rw [hs]

end Segments

end LinuxTemplates.PosixShm
