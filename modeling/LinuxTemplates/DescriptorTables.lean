import Mathlib.Data.List.AList

/-!
# Descriptor tables

A process finds its files through small numbers. `fork` copies the table; a file stays
open while some table has a descriptor on it.
-/

namespace LinuxTemplates.DescriptorTables

universe u

abbrev Table (File : Type u) := AList (fun _ : ℕ => File)

namespace Table
variable {File : Type u}

/-- Fails on a number that is not open. -/
def close (t : Table File) (fd : ℕ) : Option (Table File) :=
  if fd ∈ t then some (t.erase fd) else none

/-- Puts a copy of `old` at `new`, whatever was open there. -/
def dup2 (t : Table File) (old new : ℕ) : Option (Table File) :=
  (t.lookup old).map (fun file => if old = new then t else t.insert new file)

/-- Some descriptor is on the file. -/
def Holds (t : Table File) (file : File) : Prop := ∃ fd, t.lookup fd = some file

theorem holds_iff {t : Table File} {file : File} :
    t.Holds file ↔ ∃ e ∈ t.entries, e.2 = file := by
  constructor
  · rintro ⟨fd, h⟩
    exact ⟨⟨fd, file⟩, AList.mem_lookup_iff.mp h, rfl⟩
  · rintro ⟨⟨fd, file⟩, hmem, rfl⟩
    exact ⟨fd, AList.mem_lookup_iff.mpr hmem⟩

instance [DecidableEq File] (t : Table File) (file : File) : Decidable (t.Holds file) :=
  decidable_of_iff _ holds_iff.symm

theorem not_holds_empty (file : File) : ¬ Holds (∅ : Table File) file := by
  rintro ⟨fd, h⟩
  rw [AList.lookup_empty] at h
  cases h

/-- One descriptor, and no other, is on the file. -/
structure OnlyAt (t : Table File) (file : File) (fd : ℕ) : Prop where
  lookup : t.lookup fd = some file
  unique : ∀ other, t.lookup other = some file → other = fd

variable {t : Table File} {file other : File} {fd n : ℕ}

theorem OnlyAt.holds (h : t.OnlyAt file fd) : t.Holds file := ⟨fd, h.lookup⟩

theorem OnlyAt.mem (h : t.OnlyAt file fd) : fd ∈ t := by
  rw [← AList.lookup_isSome, h.lookup]
  rfl

theorem lookup_erase_eq_some {m : ℕ} (h : (t.erase n).lookup m = some file) :
    m ≠ n ∧ t.lookup m = some file := by
  have hne : m ≠ n := by
    rintro rfl
    rw [AList.lookup_erase] at h
    cases h
  rw [AList.lookup_erase_ne hne] at h
  exact ⟨hne, h⟩

/-- Closing the only descriptor on a file lets go of the file. -/
theorem OnlyAt.not_holds_erase (h : t.OnlyAt file fd) : ¬ (Table.Holds (t.erase fd) file) := by
  rintro ⟨m, hm⟩
  obtain ⟨hne, hlookup⟩ := lookup_erase_eq_some hm
  exact hne (h.unique m hlookup)

theorem not_holds_erase (h : ¬ t.Holds file) : ¬ (Table.Holds (t.erase n) file) := by
  rintro ⟨m, hm⟩
  exact h ⟨m, (lookup_erase_eq_some hm).2⟩

theorem OnlyAt.erase (h : t.OnlyAt file fd) (hne : fd ≠ n) : (Table.OnlyAt (t.erase n) file fd) where
  lookup := by rw [AList.lookup_erase_ne hne, h.lookup]
  unique m hm := h.unique m (lookup_erase_eq_some hm).2

theorem lookup_insert_eq_some {m : ℕ} (h : AList.lookup m (t.insert n other) = some file) :
    (m = n ∧ other = file) ∨ (m ≠ n ∧ t.lookup m = some file) := by
  by_cases hm : m = n
  · subst hm
    rw [AList.lookup_insert] at h
    exact .inl ⟨rfl, Option.some.inj h⟩
  · rw [AList.lookup_insert_ne hm] at h
    exact .inr ⟨hm, h⟩

theorem not_holds_insert (h : ¬ t.Holds file) (hne : other ≠ file) :
    ¬ (Table.Holds (t.insert n other) file) := by
  rintro ⟨m, hm⟩
  rcases lookup_insert_eq_some hm with ⟨-, heq⟩ | ⟨-, hold⟩
  · exact hne heq
  · exact h ⟨m, hold⟩

/-- A new file is open where it was opened and nowhere else. -/
theorem onlyAt_insert (h : ¬ t.Holds file) : Table.OnlyAt (t.insert n file) file n where
  lookup := AList.lookup_insert t
  unique m hm := by
    rcases lookup_insert_eq_some hm with ⟨heq, -⟩ | ⟨-, hold⟩
    · exact heq
    · exact absurd ⟨m, hold⟩ h

theorem OnlyAt.insert (h : t.OnlyAt file fd) (hne : fd ≠ n) (hfile : other ≠ file) :
    Table.OnlyAt (t.insert n other) file fd where
  lookup := by rw [AList.lookup_insert_ne hne, h.lookup]
  unique m hm := by
    rcases lookup_insert_eq_some hm with ⟨-, heq⟩ | ⟨-, hold⟩
    · exact absurd heq hfile
    · exact h.unique m hold

/-- `dup2` and `close` move a file from one descriptor to another. -/
theorem OnlyAt.move (h : t.OnlyAt file fd) (hne : n ≠ fd) :
    Table.OnlyAt (AList.erase fd (t.insert n file)) file n where
  lookup := by rw [AList.lookup_erase_ne hne, AList.lookup_insert]
  unique m hm := by
    obtain ⟨hm', hlookup⟩ := lookup_erase_eq_some hm
    rcases lookup_insert_eq_some hlookup with ⟨heq, -⟩ | ⟨-, hold⟩
    · exact heq
    · exact absurd (h.unique m hold) hm'

theorem close_eq (h : t.OnlyAt file fd) : t.close fd = some (t.erase fd) := if_pos h.mem

end Table

end LinuxTemplates.DescriptorTables
