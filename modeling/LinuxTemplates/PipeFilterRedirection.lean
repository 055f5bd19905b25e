import LinuxTemplates.PipeFilterProgram

/-!
# What a child's redirection does to its table

The descriptors of the pipe may coincide with the standard ones. Whichever they are, the
child ends up with its own end on the standard descriptor alone and without the other end.
-/

namespace LinuxTemplates.PipeFilter
open DescriptorTables Table

universe u

variable {File : Type u}

/-- The table at each stage, starting from `t`, where `file` is the child's own end. -/
def stageTable (own other std : ℕ) (file : File) (t : Table File) : Stage → Table File
  | .closeOther => t
  | .dup2 => t.erase other
  | .closeOwn => (t.erase other).insert std file
  | .exec => if own = std then t.erase other else ((t.erase other).insert std file).erase own

/-- An end that is in its place already is not moved. -/
def StageOk (own other std : ℕ) (file : File) (t : Table File) (stage : Stage)
    (table : Table File) : Prop :=
  table = stageTable own other std file t stage ∧
    (own = std → stage = .closeOther ∨ stage = .exec)

variable {own other std : ℕ} {file file' : File} {t table : Table File} {stage : Stage}

/-- No call of the redirection fails. -/
theorem redirect_eq_some (hown : t.OnlyAt file own) (hother : t.OnlyAt file' other)
    (hne : own ≠ other) (h : StageOk own other std file t stage table) (hexec : stage ≠ .exec) :
    ∃ stage' table', redirect own other std table stage = some (stage', table') ∧
      StageOk own other std file t stage' table' := by
  obtain ⟨rfl, hstd⟩ := h
  have herase : Table.OnlyAt (t.erase other) file own := hown.erase hne
  cases stage with
  | closeOther =>
    have hclose : Table.close t other = some (t.erase other) := close_eq hother
    by_cases heq : own = std
    · refine ⟨.exec, t.erase other, ?_, ?_, fun _ => .inr rfl⟩
      · simp [redirect, stageTable, hclose, heq]
      · rw [stageTable, if_pos heq]
    · refine ⟨.dup2, t.erase other, ?_, rfl, fun h => absurd h heq⟩
      simp [redirect, stageTable, hclose, heq]
  | dup2 =>
    have heq : own ≠ std := fun h => by simpa using hstd h
    refine ⟨.closeOwn, (t.erase other).insert std file, ?_, rfl, fun h => absurd h heq⟩
    simp [redirect, stageTable, Table.dup2, herase.lookup, heq]
  | closeOwn =>
    have heq : own ≠ std := fun h => by simpa using hstd h
    have hmem : own ∈ (t.erase other).insert std file :=
      (AList.mem_insert _).mpr (.inr herase.mem)
    refine ⟨.exec, ((t.erase other).insert std file).erase own, ?_, ?_, fun h => absurd h heq⟩
    · simp [redirect, stageTable, Table.close, hmem]
    · rw [stageTable, if_neg heq]
  | exec => exact absurd rfl hexec

/-- At its `exec` the child has its own end on the standard descriptor, and only there. -/
theorem exec_onlyAt (hown : t.OnlyAt file own) (hne : own ≠ other) :
    Table.OnlyAt (stageTable own other std file t .exec) file std := by
  have herase : Table.OnlyAt (t.erase other) file own := hown.erase hne
  rw [stageTable]
  split
  · rename_i heq
    exact heq ▸ herase
  · rename_i heq
    exact herase.move (Ne.symm heq)

/-- The other end is gone with the first `close`. -/
theorem exec_not_holds (hother : t.OnlyAt file' other) (hfile : file ≠ file') :
    ¬ Table.Holds (stageTable own other std file t .exec) file' := by
  have herase : ¬ Table.Holds (t.erase other) file' := hother.not_holds_erase
  rw [stageTable]
  split
  · exact herase
  · exact not_holds_erase (not_holds_insert herase hfile)

/-- The child never lets go of its own end. -/
theorem stage_holds (hown : t.OnlyAt file own) (hne : own ≠ other) :
    Table.Holds (stageTable own other std file t stage) file := by
  cases stage with
  | closeOther => exact hown.holds
  | dup2 => exact (hown.erase hne).holds
  | closeOwn => exact ⟨std, AList.lookup_insert _⟩
  | exec => exact (exec_onlyAt hown hne).holds

/-- Everything else in the table stays. -/
theorem stage_lookup {fd : ℕ} (hstd : fd ≠ std) (hown : fd ≠ own) (hother : fd ≠ other) :
    (stageTable own other std file t stage).lookup fd = t.lookup fd := by
  have herase : (t.erase other).lookup fd = t.lookup fd := AList.lookup_erase_ne hother
  have hinsert : ((t.erase other).insert std file).lookup fd = t.lookup fd :=
    (AList.lookup_insert_ne hstd).trans herase
  cases stage with
  | closeOther => rfl
  | dup2 => exact herase
  | closeOwn => exact hinsert
  | exec =>
    rw [stageTable]
    split
    · exact herase
    · exact (AList.lookup_erase_ne hown).trans hinsert

end LinuxTemplates.PipeFilter
