import LinuxTemplates.TransitionSystems
import Mathlib.Data.Int.Notation

/-!
# The length of runs

A measure that every step lowers bounds the length of a run. Where every step lowers it by just
one it says how long the run is, and where some actions raise it again they are counted apart.
-/

namespace LinuxTemplates.TransitionSystems

universe u v

namespace System
variable {State : Type u} {Action : Type v} {M : System State Action}

/-- No action is possible. -/
def Halted (M : System State Action) (s : State) : Prop := ∀ a, M.step s a = none

theorem Halted.not_enabled {s : State} (h : M.Halted s) (a : Action) : ¬ M.Enabled s a := by
  rw [Enabled, h a]
  exact Bool.false_ne_true

section Measures
variable {I : State → Prop} {s s' : State} {as : List Action}
  (preserve : ∀ s a s', I s → M.step s a = some s' → I s')
include preserve

/-- A measure that every step lowers by one says how long a run is. -/
theorem length_run_eq {μ : State → ℤ}
    (lower : ∀ s a s', I s → M.step s a = some s' → μ s' + 1 = μ s)
    (hs : I s) (h : M.run s as = some s') : as.length + μ s' = μ s := by
  induction as generalizing s with
  | nil => simp [Option.some.inj h]
  | cons a as ih =>
    obtain ⟨t, ht, hrun⟩ := (M.run_cons).mp h
    have hrest := ih (preserve s a t hs ht) hrun
    have hlower := lower s a t hs ht
    rw [List.length_cons]
    omega

/-- Some actions raise the measure again by a fixed amount. -/
theorem length_run_le_refund {μ : State → ℕ} {c : ℕ} {refunded : Action → Bool}
    (lower : ∀ s a s', I s → M.step s a = some s' →
      μ s' + 1 ≤ μ s + if refunded a then c else 0)
    (hs : I s) (h : M.run s as = some s') :
    as.length + μ s' ≤ μ s + c * as.countP refunded := by
  induction as generalizing s with
  | nil => simp [Option.some.inj h]
  | cons a as ih =>
    obtain ⟨t, ht, hrun⟩ := (M.run_cons).mp h
    have hrest := ih (preserve s a t hs ht) hrun
    have hlower := lower s a t hs ht
    rw [List.length_cons, List.countP_cons, Nat.mul_add]
    split at hlower
    · rename_i hrefunded
      rw [if_pos hrefunded, Nat.mul_one]
      omega
    · rename_i hrefunded
      rw [if_neg hrefunded, Nat.mul_zero]
      omega

end Measures

/-- Where some allowed action is possible until a goal is met, and each lowers a measure, the
goal can be reached by allowed actions alone. -/
theorem exists_run_to {I goal : State → Prop} {allowed : Action → Prop} {μ : State → ℕ}
    (preserve : ∀ s a s', I s → allowed a → M.step s a = some s' → I s')
    (lower : ∀ s a s', I s → allowed a → M.step s a = some s' → μ s' < μ s)
    (progress : ∀ s, I s → ¬ goal s → ∃ a, allowed a ∧ M.Enabled s a) {s : State} (hs : I s) :
    ∃ as s', (∀ a ∈ as, allowed a) ∧ M.run s as = some s' ∧ goal s' := by
  induction hn : μ s using Nat.strongRecOn generalizing s with
  | ind n ih =>
    by_cases hgoal : goal s
    · exact ⟨[], s, by simp, rfl, hgoal⟩
    · obtain ⟨a, hallowed, henabled⟩ := progress s hs hgoal
      obtain ⟨t, ht⟩ := Option.isSome_iff_exists.mp henabled
      obtain ⟨as, s', has, hrun, hgoal'⟩ :=
        ih (μ t) (hn ▸ lower s a t hs hallowed ht) (preserve s a t hs hallowed ht) rfl
      exact ⟨a :: as, s', List.forall_mem_cons.mpr ⟨hallowed, has⟩,
        (M.run_cons).mpr ⟨t, ht, hrun⟩, hgoal'⟩

end System

end LinuxTemplates.TransitionSystems
