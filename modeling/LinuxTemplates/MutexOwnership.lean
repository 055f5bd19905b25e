import Mathlib.Logic.Basic
import Mathlib.Logic.Function.Basic

/-!
# Mutexes as owners, and the exclusion they give

A mutex is the party that owns it, if any. The two lock operations differ only in
what a relock by the owner does: the error-checking kind reports it, the normal kind
waits for itself. Exclusion is one equivalence between being inside a critical
section and owning the mutex, kept by acquiring, releasing and every other move.
-/

namespace LinuxTemplates.MutexOwnership

universe u

/-- How a call ends: with a result, with an error code, or not yet. -/
inductive Call (α : Type u)
  | returns (a : α)
  | fails
  | blocks
  deriving DecidableEq

/-- The owner of a mutex; `none` when it is free. -/
abbrev Mutex (τ : Type u) := Option τ

variable {τ : Type u} [DecidableEq τ]

/-- Locking a mutex of type `PTHREAD_MUTEX_ERRORCHECK`. -/
def lockErrorcheck (m : Mutex τ) (t : τ) : Call (Mutex τ) :=
  match m with
  | none => .returns (some t)
  | some o => if o = t then .fails else .blocks

/-- Unlocking a mutex of type `PTHREAD_MUTEX_ERRORCHECK`. -/
def unlockErrorcheck (m : Mutex τ) (t : τ) : Call (Mutex τ) :=
  if m = some t then .returns none else .fails

/-- Exactly the party inside its critical section owns the mutex. -/
def Guards (m : Mutex τ) (inside : τ → Prop) : Prop := ∀ t, inside t ↔ m = some t

namespace Guards
variable {m : Mutex τ} {inside inside' : τ → Prop} {t u : τ}

omit [DecidableEq τ] in
theorem unique (h : Guards m inside) (ht : inside t) (hu : inside u) : t = u :=
  Option.some.inj (((h t).mp ht).symm.trans ((h u).mp hu))

omit [DecidableEq τ] in
theorem outside_of_free (h : Guards none inside) (t : τ) : ¬ inside t := by
  simp [h t]

omit [DecidableEq τ] in
/-- A move that leaves everybody on the same side. -/
theorem frame (h : Guards m inside) (ht : inside' t ↔ inside t)
    (hframe : ∀ u, u ≠ t → (inside' u ↔ inside u)) : Guards m inside' := by
  intro u
  by_cases hu : u = t
  · rw [hu, ht, h t]
  · rw [hframe u hu, h u]

omit [DecidableEq τ] in
theorem acquire (h : Guards none inside) (ht : inside' t)
    (hframe : ∀ u, u ≠ t → (inside' u ↔ inside u)) : Guards (some t) inside' := by
  intro u
  by_cases hu : u = t
  · simp [hu, ht]
  · simp [hframe u hu, h u, Ne.symm hu]

omit [DecidableEq τ] in
theorem release (h : Guards (some t) inside) (ht : ¬ inside' t)
    (hframe : ∀ u, u ≠ t → (inside' u ↔ inside u)) : Guards none inside' := by
  intro u
  by_cases hu : u = t
  · simp [hu, ht]
  · simp [hframe u hu, h u, Ne.symm hu]

/-- Whoever stays outside and finds the mutex free or foreign gets no error. -/
theorem lock_of_outside (h : Guards m inside) (ht : ¬ inside t) :
    (m = none ∧ lockErrorcheck m t = .returns (some t)) ∨
      (∃ o, o ≠ t ∧ m = some o ∧ lockErrorcheck m t = .blocks) := by
  cases m with
  | none => exact .inl ⟨rfl, rfl⟩
  | some o =>
    have ho : o ≠ t := fun hot => ht ((h t).mpr (congrArg some hot))
    exact .inr ⟨o, ho, rfl, by simp [lockErrorcheck, ho]⟩

theorem unlock_of_inside (h : Guards m inside) (ht : inside t) :
    unlockErrorcheck m t = .returns none := by
  simp [unlockErrorcheck, (h t).mp ht]

end Guards

end LinuxTemplates.MutexOwnership
