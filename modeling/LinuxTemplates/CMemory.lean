import LinuxTemplates.CStrings
import Mathlib.Data.List.Basic

/-!
# Blocks of memory and the strings in them

A pointer is a block and an offset. Every access is `none` when it leaves its block, and
every string has to end inside the block it begins in. Allocation adds a block at the end;
a freed block has no bytes left.
-/

namespace LinuxTemplates.CMemory
open CStrings

structure Ptr where
  block : ℕ
  offset : ℕ
  deriving DecidableEq, Repr

def Ptr.add (p : Ptr) (n : ℕ) : Ptr := ⟨p.block, p.offset + n⟩

structure Memory where
  blocks : List (List UInt8)
  deriving DecidableEq, Repr

namespace Memory

def block (m : Memory) (i : ℕ) : List UInt8 := m.blocks.getD i []

/-- The bytes from a pointer to the end of its block. -/
def bytes (m : Memory) (p : Ptr) : List UInt8 := (m.block p.block).drop p.offset

def string (m : Memory) (p : Ptr) : Option (List UInt8) := cString (m.bytes p)

def store (m : Memory) (p : Ptr) (b : UInt8) : Option Memory :=
  if p.offset < (m.block p.block).length then
    some ⟨m.blocks.set p.block ((m.block p.block).set p.offset b)⟩
  else none

/-- Adds a block. -/
def push (m : Memory) (bs : List UInt8) : Memory := ⟨m.blocks ++ [bs]⟩

/-- An offset in the block that is added next. -/
def fresh (m : Memory) (offset : ℕ) : Ptr := ⟨m.blocks.length, offset⟩

/-- Returns NULL when there is no memory for the copy. -/
def strdup (m : Memory) (malloc : Bool) (p : Ptr) : Option (Option Ptr × Memory) :=
  (m.string p).map (fun s => if malloc then (some (m.fresh 0), m.push (s ++ [0])) else (none, m))

/-- The first occurrence of a byte other than NUL. -/
def strchr (m : Memory) (p : Ptr) (c : UInt8) : Option (Option Ptr) :=
  (m.string p).map (fun s => if c ∈ s then some (p.add (s.idxOf c)) else none)

/-- Takes the start of a block that has not been freed. -/
def free (m : Memory) (p : Ptr) : Option Memory :=
  if p.offset = 0 ∧ m.block p.block ≠ [] then some ⟨m.blocks.set p.block []⟩ else none

variable {m : Memory} {p : Ptr} {bs s rest : List UInt8} {k : ℕ}

@[simp] theorem fresh_add (m : Memory) (k n : ℕ) : (m.fresh k).add n = m.fresh (k + n) := rfl

@[simp] theorem block_push (m : Memory) (bs : List UInt8) (k : ℕ) :
    (m.push bs).block (m.fresh k).block = bs := by
  simp [block, push, fresh]

theorem bytes_push_of_lt (h : p.block < m.blocks.length) (bs : List UInt8) :
    (m.push bs).bytes p = m.bytes p := by
  simp [bytes, block, push, List.getElem?_append_left h]

theorem set_push (m : Memory) (bs bs' : List UInt8) (k : ℕ) :
    (⟨(m.push bs).blocks.set (m.fresh k).block bs'⟩ : Memory) = m.push bs' := by
  simp [push, fresh]

theorem string_eq_some (h : 0 ∉ s) (hp : m.bytes p = s ++ 0 :: rest) : m.string p = some s := by
  rw [string, hp, cString_eq_some_iff]
  refine ⟨?_, upToNul_append_nul h rest⟩
  simp

/-! ## A block just added -/

theorem string_push (h : 0 ∉ s) (hk : bs.drop k = s ++ 0 :: rest) :
    (m.push bs).string (m.fresh k) = some s := by
  have hbytes : (m.push bs).bytes (m.fresh k) = s ++ 0 :: rest := by
    rw [bytes, block_push]
    exact hk
  exact string_eq_some h hbytes

theorem store_push (b : UInt8) (hk : k < bs.length) :
    (m.push bs).store (m.fresh k) b = some (m.push (bs.set k b)) := by
  rw [store, block_push]
  exact (if_pos hk).trans (congrArg some (set_push m bs _ k))

theorem free_push (hne : bs ≠ []) : (m.push bs).free (m.fresh 0) = some (m.push []) := by
  rw [free, block_push]
  exact (if_pos ⟨rfl, hne⟩).trans (congrArg some (set_push m bs _ 0))

theorem strdup_eq (h : 0 ∉ s) (hp : m.bytes p = s ++ 0 :: rest) :
    m.strdup true p = some (some (m.fresh 0), m.push (s ++ [0])) := by
  rw [strdup, string_eq_some h hp]
  rfl

theorem strchr_push_of_not_mem {c : UInt8} (h : 0 ∉ s) (hk : bs.drop k = s ++ 0 :: rest)
    (hc : c ∉ s) : (m.push bs).strchr (m.fresh k) c = some none := by
  rw [strchr, string_push h hk, Option.map_some, if_neg hc]

theorem strchr_push_append {c : UInt8} {a b : List UInt8} (h : 0 ∉ a ++ c :: b)
    (hk : bs.drop k = (a ++ c :: b) ++ 0 :: rest) (hc : c ∉ a) :
    (m.push bs).strchr (m.fresh k) c = some (some (m.fresh (k + a.length))) := by
  have hmem : c ∈ a ++ c :: b := List.mem_append_right _ List.mem_cons_self
  have hidx : (a ++ c :: b).idxOf c = a.length := by
    rw [List.idxOf_append_of_notMem hc, List.idxOf_cons_self, Nat.add_zero]
  rw [strchr, string_push h hk, Option.map_some, if_pos hmem, hidx, fresh_add]

end Memory

end LinuxTemplates.CMemory
