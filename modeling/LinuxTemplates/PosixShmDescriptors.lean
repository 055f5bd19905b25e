import LinuxTemplates.PosixShmRoundTrip
import Mathlib.Data.List.Perm.Subperm

/-!
# Descriptors kept by the shared-memory operations

A descriptor is of no use once the segment is mapped. `posix_shm_create` does not close
it when it succeeds, the other two do not close it when they fail before the mapping.
-/

namespace LinuxTemplates.PosixShm
open TransitionSystems

universe u

variable {Name : Type u} [DecidableEq Name]

/-- Sequences of calls that may fail, from any segments and descriptors. -/
def posixShmCalls (page : ℕ+) (Name : Type u) [DecidableEq Name] :
    System (Shm Name) (Call Name × Faults) where
  init _ := True
  step shm call := (call.1.exec page call.2 shm).map Result.shm

/-- The call gives back the descriptor that it opens. -/
def Call.GivesBack (faults : Faults) (shm : Shm Name) : Call Name → Prop
  | .create name flag size => ¬ (Opens faults shm name flag ∧
      Truncates faults flag.access size.toInt64 ∧ Maps faults flag.access size.toNat .rdwr)
  | .write name data len => ∀ n bytes, WriteOpens faults shm name data len n bytes →
      faults .ftruncate = false ∧ faults .mmap = false
  | .read name => ∀ n bytes, ReadOpens faults shm name n bytes →
      faults .fstat = false ∧ faults .mmap = false ∧ bytes ≠ []
  | .unlink _ => True

theorem lowestFree_notMem (fds : List ℕ) : lowestFree fds ∉ fds := by
  cases hfind : (List.range (fds.length + 1)).find? (fun n => n ∉ fds) with
  | some n =>
    have hfree := List.find?_some hfind
    rw [lowestFree, hfind]
    simpa using hfree
  | none =>
    have hall : List.range (fds.length + 1) ⊆ fds := by
      intro n hn
      simpa using List.find?_eq_none.mp hfind n hn
    have hle := (List.nodup_range.subperm hall).length_le
    rw [List.length_range] at hle
    omega

theorem posixShmUnlink_fds {faults : Faults} {shm : Shm Name} (name : Option Name) :
    (posixShmUnlink faults name shm).shm.fds = shm.fds := by
  cases name with
  | none => rfl
  | some n =>
    unfold posixShmUnlink
    dsimp only
    split
    · rfl
    · rfl

variable {page : ℕ+} {shm shm' : Shm Name}

/-- A call ends with the descriptors that it began with, or with one more. -/
theorem step_fds {call : Call Name × Faults}
    (h : (posixShmCalls page Name).step shm call = some shm') :
    (call.1.GivesBack call.2 shm ∧ shm'.fds = shm.fds) ∨
      (¬ call.1.GivesBack call.2 shm ∧ shm'.fds = lowestFree shm.fds :: shm.fds) := by
  obtain ⟨r, hexec, rfl⟩ := Option.map_eq_some_iff.mp h
  obtain ⟨c, faults⟩ := call
  cases c with
  | create name flag size =>
    rcases posixShmCreate_exits (Option.some.inj hexec) with ⟨hopens, -, hs⟩ |
      ⟨-, htrunc, -, hs⟩ | ⟨-, -, hmaps, -, hs⟩ | ⟨hopens, htrunc, hmaps, -, hs⟩
    · exact .inl ⟨fun hall => hopens hall.1, by rw [hs]⟩
    · exact .inl ⟨fun hall => htrunc hall.2.1, by rw [hs, Shm.set_fds]⟩
    · exact .inl ⟨fun hall => hmaps hall.2.2, by rw [hs, Shm.set_fds]⟩
    · exact .inr ⟨fun hgives => hgives ⟨hopens, htrunc, hmaps⟩, by rw [hs]; rfl⟩
  | write name data len =>
    rcases posixShmWrite_exits hexec with ⟨hnone, -, hs⟩ | ⟨n, bytes, hw, hexit⟩
    · exact .inl ⟨fun n bytes hw => absurd hw (hnone n bytes), by rw [hs]⟩
    · have hgives (h1 : faults .ftruncate = false) (h2 : faults .mmap = false) :
          (Call.write name data len).GivesBack faults shm := fun _ _ _ => ⟨h1, h2⟩
      rcases hexit with ⟨hf, -, hs⟩ | ⟨-, hf, -, hs⟩ | ⟨hf, hm, -, -, hs⟩ |
        ⟨hf, hm, -, -, d, -, -, hs⟩
      · refine .inr ⟨fun hall => ?_, by rw [hs]; rfl⟩
        exact absurd ((hall n bytes hw).1.symm.trans hf) Bool.false_ne_true
      · refine .inr ⟨fun hall => ?_, by rw [hs]; rfl⟩
        exact absurd ((hall n bytes hw).2.symm.trans hf) Bool.false_ne_true
      · exact .inl ⟨hgives hf hm, by rw [hs, Shm.set_fds]⟩
      · exact .inl ⟨hgives hf hm, by rw [hs, Shm.set_fds]⟩
  | read name =>
    rcases posixShmRead_exits (Option.some.inj hexec) with ⟨hnone, -, hs⟩ | ⟨n, bytes, hr, hexit⟩
    · exact .inl ⟨fun n bytes hr => absurd hr (hnone n bytes), by rw [hs]⟩
    · rcases hexit with ⟨hfails, -, hs⟩ | ⟨hf, hm, hne, hs⟩
      · refine .inr ⟨fun hall => ?_, by rw [hs]; rfl⟩
        obtain ⟨hf, hm, hne⟩ := hall n bytes hr
        rcases hfails with hf' | hm' | hnil
        · exact absurd (hf.symm.trans hf') Bool.false_ne_true
        · exact absurd (hm.symm.trans hm') Bool.false_ne_true
        · exact hne hnil
      · refine .inl ⟨fun n' bytes' hr' => ⟨hf, hm, ?_⟩, by rw [hs]⟩
        obtain rfl := Option.some.inj (hr'.1.symm.trans hr.1)
        obtain rfl := Option.some.inj (hr'.2.2.symm.trans hr.2.2)
        exact hne
  | unlink name =>
    refine .inl ⟨trivial, ?_⟩
    rw [← Option.some.inj hexec]
    exact posixShmUnlink_fds name

/-- The open descriptors of the process. -/
def Shm.openFds (shm : Shm Name) : Set ℕ := {fd | fd ∈ shm.fds}

theorem openFds_step_iff {call : Call Name × Faults}
    (h : (posixShmCalls page Name).step shm call = some shm') :
    shm'.openFds = shm.openFds ↔ call.1.GivesBack call.2 shm := by
  rcases step_fds h with ⟨hgives, hfds⟩ | ⟨hkeeps, hfds⟩
  · exact iff_of_true (by rw [Shm.openFds, hfds, Shm.openFds]) hgives
  · refine iff_of_false (fun hsame => ?_) hkeeps
    have hmem : lowestFree shm.fds ∈ shm'.openFds := by
      rw [Shm.openFds, hfds]
      exact List.mem_cons_self
    rw [hsame] at hmem
    exact lowestFree_notMem shm.fds hmem

/-- After every call of a run the open descriptors are those at its start just when every
call gives its own back. -/
theorem openFds_run_iff {calls : List (Call Name × Faults)}
    (h : (posixShmCalls page Name).run shm calls = some shm') :
    (∀ done rest t, calls = done ++ rest → (posixShmCalls page Name).run shm done = some t →
      t.openFds = shm.openFds) ↔
    ∀ done call rest t, calls = done ++ call :: rest →
      (posixShmCalls page Name).run shm done = some t → call.1.GivesBack call.2 t :=
  System.run_keeps_iff (fun _ _ _ => openFds_step_iff) h

section DemoShm

def noSegments : Shm String := ⟨fun _ => none, [0, 1, 2]⟩

def helloSegments : Shm String := ⟨fun _ => some helloWorld, [0, 1, 2]⟩

/-- The first program ends with a descriptor that it does not need any more. -/
theorem not_openFds_run :
    ∃ shm, (posixShmCalls 4096 String).run noSegments [demoCreate] = some shm ∧
      shm.fds = [3, 0, 1, 2] ∧ shm.openFds ≠ noSegments.openFds := by
  refine ⟨_, rfl, by decide, fun hsame => ?_⟩
  have hmem : 3 ∈ noSegments.openFds := by
    rw [← hsame]
    exact List.mem_cons_self
  have hthree : 3 ∈ [0, 1, 2] := hmem
  exact absurd hthree (by decide)

theorem openFds_run_iff_write :
    ∃ shm, (posixShmCalls 4096 String).run helloSegments [demoWrite helloWorld 11] = some shm ∧
      ((∀ done rest t, [demoWrite helloWorld 11] = done ++ rest →
        (posixShmCalls 4096 String).run helloSegments done = some t →
          t.openFds = helloSegments.openFds) ↔
      ∀ done call rest t, [demoWrite helloWorld 11] = done ++ call :: rest →
        (posixShmCalls 4096 String).run helloSegments done = some t →
          call.1.GivesBack call.2 t) :=
  ⟨_, rfl, openFds_run_iff rfl⟩

end DemoShm

end LinuxTemplates.PosixShm
