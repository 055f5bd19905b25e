import LinuxTemplates.PageMappings
import Mathlib.Logic.Function.Basic

/-!
# `posix_shm_create`, `posix_shm_write`, `posix_shm_read` and `posix_shm_unlink`

The segments are a map from names to bytes. Each operation makes every system call at
most once; `faults` says which of them fail although their arguments are in order. A write is
`none` when it reads outside the data it was given, and a read notes that it left its mapping.
-/

namespace LinuxTemplates.PosixShm
open CStrings PageMappings

universe u

inductive Sys
  | shmOpen | ftruncate | fstat | mmap | close | shmUnlink
  deriving DecidableEq, Repr

abbrev Faults := Sys → Bool

def noFaults : Faults := fun _ => false

inductive Access
  | rdonly | wronly | rdwr
  deriving DecidableEq, Repr

structure OpenFlags where
  access : Access
  creat : Bool
  excl : Bool
  trunc : Bool
  deriving DecidableEq, Repr

/-- The printed lines: `[E]: … err`, the same with file and line, `perror`,
`[R]: Resized to … bytes` and `[R]: Content: …`, of which `overread` goes on in the memory behind
the mapping. -/
inductive Printed
  | err (call : Sys)
  | located (call : Sys)
  | perror
  | resized (len : Int32)
  | content (bytes : List UInt8)
  | overread
  deriving DecidableEq, Repr

/-- The segments of the machine and the open descriptors of the process. -/
structure Shm (Name : Type u) where
  segments : Name → Option (List UInt8)
  fds : List ℕ

structure Fd (Name : Type u) where
  number : ℕ
  name : Name
  access : Access

structure Result (Name : Type u) where
  ret : ℤ
  printed : List Printed
  shm : Shm Name

def lowestFree (fds : List ℕ) : ℕ :=
  ((List.range (fds.length + 1)).find? (fun n => n ∉ fds)).getD 0

/-- Cuts, or extends with zeros. -/
def resize (length : ℕ) (bytes : List UInt8) : List UInt8 :=
  bytes.take length ++ List.replicate (length - bytes.length) 0

theorem length_resize (length : ℕ) (bytes : List UInt8) : (resize length bytes).length = length := by
  rw [resize, List.length_append, List.length_take, List.length_replicate]
  omega

variable {Name : Type u} [DecidableEq Name]

/-! ## System calls -/

namespace Shm

def set (shm : Shm Name) (name : Name) (bytes : Option (List UInt8)) : Shm Name :=
  { shm with segments := Function.update shm.segments name bytes }

def descriptor (shm : Shm Name) (name : Name) (access : Access) : Fd Name × Shm Name :=
  (⟨lowestFree shm.fds, name, access⟩, { shm with fds := lowestFree shm.fds :: shm.fds })

/-- What a segment holds once it is open: a new one is empty. -/
def opened (flags : OpenFlags) : Option (List UInt8) → List UInt8
  | none => []
  | some bytes => if flags.trunc then [] else bytes

def shmOpen (faults : Faults) (shm : Shm Name) (name : Name) (flags : OpenFlags) :
    Option (Fd Name × Shm Name) :=
  if faults .shmOpen then none else
  match shm.segments name with
  | none => if flags.creat then some ((shm.set name (some [])).descriptor name flags.access) else none
  | some bytes =>
    if flags.creat && flags.excl then none else
    some ((shm.set name (some (opened flags (some bytes)))).descriptor name flags.access)

def ftruncate (faults : Faults) (shm : Shm Name) (fd : Fd Name) (length : Int64) :
    Option (Shm Name) :=
  if faults .ftruncate ∨ length < 0 ∨ fd.access = .rdonly then none else
  some (shm.set fd.name ((shm.segments fd.name).map (resize length.toInt.toNat)))

/-- The size of the segment. -/
def fstat (faults : Faults) (shm : Shm Name) (fd : Fd Name) : Option ℕ :=
  if faults .fstat then none else (shm.segments fd.name).map List.length

/-- A mapping of the segment: its bytes, as seen through the mapping. -/
def mmap (faults : Faults) (shm : Shm Name) (fd : Fd Name) (length : ℕ) (prot : Access) :
    Option (List UInt8) :=
  if faults .mmap ∨ length = 0 ∨ ¬ (fd.access = .rdwr ∨ prot = fd.access) then none else
  shm.segments fd.name

def close (shm : Shm Name) (fd : Fd Name) : Shm Name :=
  { shm with fds := shm.fds.erase fd.number }

/-- Copies into the shared mapping of a segment, which does not make the segment longer. -/
def memcpy (shm : Shm Name) (addr : Name) (data : List UInt8) (len : ℕ) : Option (Shm Name) :=
  if data.length < len then none else
  some (shm.set addr ((shm.segments addr).map
    (fun bytes => (data.take len ++ bytes.drop len).take bytes.length)))

variable {faults : Faults} {shm shm' : Shm Name} {name : Name} {fd : Fd Name}

theorem memcpy_spec {data : List UInt8} {len : ℕ} (h : shm.memcpy name data len = some shm') :
    len ≤ data.length ∧ shm' = shm.set name ((shm.segments name).map
      (fun bytes => (data.take len ++ bytes.drop len).take bytes.length)) := by
  unfold memcpy at h
  split at h
  · cases h
  · rename_i hlen
    exact ⟨Nat.le_of_not_lt hlen, (Option.some.inj h).symm⟩

end Shm

/-! ## Operations -/

def posixShmCreate (faults : Faults) (name : Name) (flag : OpenFlags) (size : UInt64)
    (shm : Shm Name) : Result Name :=
  match shm.shmOpen faults name flag with
  | none => ⟨-1, [.located .shmOpen], shm⟩
  | some (fd, shm) =>
    match shm.ftruncate faults fd size.toInt64 with
    | none => ⟨-1, [.perror, .located .ftruncate], shm.close fd⟩
    | some shm =>
      match shm.mmap faults fd size.toNat .rdwr with
      | none => ⟨-1, [.located .mmap], shm.close fd⟩
      | some _ => ⟨0, [], shm⟩

def posixShmWrite (faults : Faults) (name : Option Name) (data : Option (List UInt8))
    (len : Int32) (shm : Shm Name) : Option (Result Name) :=
  match name, data with
  | some name, some data =>
    if len ≤ 0 then some ⟨-1, [], shm⟩ else
    match shm.shmOpen faults name ⟨.rdwr, false, false, false⟩ with
    | none => some ⟨-1, [.err .shmOpen], shm⟩
    | some (fd, shm) =>
      match shm.ftruncate faults fd len.toInt64 with
      | none => some ⟨-1, [.err .ftruncate], shm⟩
      | some shm =>
        match shm.mmap faults fd len.toInt.toNat .rdwr with
        | none => some ⟨-1, [.resized len, .err .mmap], shm⟩
        | some _ =>
          if faults .close then some ⟨-1, [.resized len, .err .close], shm.close fd⟩ else
          ((shm.close fd).memcpy name data len.toInt.toNat).map (⟨0, [.resized len], ·⟩)
  | _, _ => some ⟨-1, [], shm⟩

/-- `printf("[R]: Content: %s\n", addr)` -/
def printContent (memory : List UInt8) : Printed :=
  match cString memory with
  | some str => .content str
  | none => .overread

theorem printContent_eq_content_iff {memory str : List UInt8} :
    printContent memory = .content str ↔ cString memory = some str := by
  rw [printContent]
  cases cString memory with
  | none => simp
  | some s => simp

def posixShmRead (page : ℕ+) (faults : Faults) (name : Option Name) (shm : Shm Name) :
    Result Name :=
  match name with
  | none => ⟨-1, [], shm⟩
  | some name =>
    match shm.shmOpen faults name ⟨.rdonly, false, false, false⟩ with
    | none => ⟨-1, [.err .shmOpen], shm⟩
    | some (fd, shm) =>
      match shm.fstat faults fd with
      | none => ⟨-1, [.err .fstat], shm⟩
      | some stSize =>
        match shm.mmap faults fd stSize .rdonly with
        | none => ⟨-1, [.err .mmap], shm⟩
        | some addr =>
          if faults .close then ⟨-1, [.err .close], shm.close fd⟩ else
          ⟨0, [printContent (mapped page addr)], shm.close fd⟩

def posixShmUnlink (faults : Faults) (name : Option Name) (shm : Shm Name) : Result Name :=
  match name with
  | none => ⟨-1, [], shm⟩
  | some name =>
    if faults .shmUnlink ∨ shm.segments name = none then ⟨-1, [.err .shmUnlink], shm⟩ else
    ⟨0, [], shm.set name none⟩

/-! ## What the operations do to the segments -/

section Segments
open Shm
variable {faults : Faults} {shm : Shm Name} {r : Result Name}

/-- The bytes that a completed `posix_shm_write` leaves are those of its argument. -/
theorem take_memcpy_resize {data bytes : List UInt8} {len : ℕ} (h : len ≤ data.length) :
    (data.take len ++ (resize len bytes).drop len).take (resize len bytes).length =
      data.take len := by
  have hlen : (data.take len).length = len := List.length_take_of_le h
  rw [length_resize, List.take_append_of_le_length hlen.ge, List.take_take, min_self]

theorem posixShmUnlink_cases {name : Option Name} (h : posixShmUnlink faults name shm = r) :
    (r.ret = -1 ∧ r.shm = shm) ∨
      ∃ n, name = some n ∧ r.ret = 0 ∧ r.shm.segments = Function.update shm.segments n none := by
  subst h
  cases name with
  | none => exact .inl ⟨rfl, rfl⟩
  | some n =>
    unfold posixShmUnlink
    dsimp only
    split
    · exact .inl ⟨rfl, rfl⟩
    · exact .inr ⟨n, rfl, rfl, rfl⟩

theorem shmOpen_noFaults {name : Name} {bytes : List UInt8} (access : Access)
    (h : shm.segments name = some bytes) :
    shm.shmOpen noFaults name ⟨access, false, false, false⟩ =
      some (shm.descriptor name access) := by
  have hsame : shm.set name (some bytes) = shm := by
    rw [Shm.set, ← h, Function.update_eq_self]
  simp [shmOpen, noFaults, h, opened, hsame]

theorem posixShmCreate_noFaults {name : Name} {size : UInt64} (hsize : 0 < size.toInt64)
    (h : shm.segments name = none) :
    (posixShmCreate noFaults name ⟨.rdwr, true, false, false⟩ size shm).ret = 0 := by
  have hlength : ¬ size.toInt64 < 0 := Int64.not_lt.mpr (Int64.le_of_lt hsize)
  have hne : ¬ size.toNat = 0 := by
    intro hz
    obtain rfl : size = 0 := UInt64.toNat_inj.mp hz
    exact absurd hsize (by decide)
  simp [posixShmCreate, shmOpen, noFaults, h, descriptor, ftruncate, hlength, mmap, Shm.set, hne]

theorem posixShmWrite_noFaults {name : Name} {data bytes : List UInt8} {len : Int32}
    (hlen : 0 < len) (hdata : len.toInt.toNat ≤ data.length)
    (h : shm.segments name = some bytes) :
    ∃ r, posixShmWrite noFaults (some name) (some data) len shm = some r ∧ r.ret = 0 := by
  have hpos : 0 < len.toInt := by simpa using Int32.lt_iff_toInt_lt.mp hlen
  have hlength : ¬ len.toInt64 < 0 := by
    rw [Int64.lt_iff_toInt_lt, Int32.toInt_toInt64]
    exact fun hneg => absurd hneg (Int.not_lt.mpr hpos.le)
  simpa [posixShmWrite, Int32.not_le.mpr hlen, shmOpen_noFaults .rdwr h, descriptor, ftruncate,
    hlength, mmap, noFaults, h, Shm.set, memcpy] using hdata

/-- A read without failures changes nothing. -/
theorem posixShmRead_noFaults {page : ℕ+} {name : Name} {bytes : List UInt8} (hne : bytes ≠ [])
    (h : shm.segments name = some bytes) :
    posixShmRead page noFaults (some name) shm = ⟨0, [printContent (mapped page bytes)], shm⟩ := by
  simp [posixShmRead, shmOpen_noFaults .rdonly h, descriptor, fstat, mmap, noFaults, h, hne,
    Shm.close]

end Segments

end LinuxTemplates.PosixShm
