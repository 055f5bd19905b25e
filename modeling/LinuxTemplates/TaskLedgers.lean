import LinuxTemplates.TransitionSystems
import Mathlib.Algebra.BigOperators.Group.Finset.Basic
import Mathlib.Algebra.BigOperators.Group.Finset.Piecewise
import Mathlib.Data.Fintype.BigOperators

/-!
# Ledgers of tasks that finish and are collected

The abstract meaning of a reaping loop: every task of a finite family first runs,
then finishes at a time of its own, and is collected once. The ledger logs the
collections. The tally of an indexed family counts the indices whose value satisfies
a predicate; it is what the counters of such a loop stand for.
-/

namespace LinuxTemplates.TaskLedgers
open TransitionSystems

universe u v

section Tallies
variable {ι : Type u} {α : Type v} [Fintype ι]

/-- Number of members of a finite family that satisfy a decidable predicate. -/
def tally (f : ι → α) (P : α → Prop) [DecidablePred P] : ℕ :=
  ∑ i, if P (f i) then 1 else 0

variable {f : ι → α} {P : α → Prop} [DecidablePred P]

theorem tally_eq_card : tally f P = (Finset.univ.filter (fun i => P (f i))).card := by
  rw [tally, Finset.card_filter]

/-- Changing one member moves the tally by that member only. -/
theorem tally_update [DecidableEq ι] (f : ι → α) (P : α → Prop) [DecidablePred P] (i : ι)
    (a : α) :
    tally (Function.update f i a) P + (if P (f i) then 1 else 0) =
      tally f P + (if P a then 1 else 0) := by
  have hupd : ∀ j, (if P (Function.update f i a j) then 1 else 0) =
      Function.update (fun j => if P (f j) then 1 else 0) i (if P a then 1 else 0) j := by
    intro j
    rcases eq_or_ne j i with rfl | hne
    · simp
    · simp [hne]
  have hsplit := Finset.add_sum_erase Finset.univ (fun j => if P (f j) then 1 else 0)
    (Finset.mem_univ i)
  simp only [tally, hupd]
  rw [Finset.sum_update_of_mem (Finset.mem_univ i), Finset.sdiff_singleton_eq_erase]
  omega

/-- Sum of the weights of a finite family. -/
def load (f : ι → α) (w : α → ℕ) : ℕ := ∑ i, w (f i)

/-- Changing one member moves the load by that member only. -/
theorem load_update [DecidableEq ι] (f : ι → α) (w : α → ℕ) (i : ι) (a : α) :
    load (Function.update f i a) w + w (f i) = load f w + w a := by
  have hupd : ∀ j, w (Function.update f i a j) =
      Function.update (fun j => w (f j)) i (w a) j := by
    intro j
    rcases eq_or_ne j i with rfl | hne
    · rw [Function.update_self, Function.update_self]
    · rw [Function.update_of_ne hne, Function.update_of_ne hne]
  have hsplit := Finset.add_sum_erase Finset.univ (fun j => w (f j)) (Finset.mem_univ i)
  simp only [load, hupd]
  rw [Finset.sum_update_of_mem (Finset.mem_univ i), Finset.sdiff_singleton_eq_erase]
  omega

theorem load_const (a : α) (w : α → ℕ) :
    load (fun _ : ι => a) w = Fintype.card ι * w a := by
  rw [load, Finset.sum_const, Finset.card_univ]
  rfl

theorem tally_pos_iff : 0 < tally f P ↔ ∃ i, P (f i) := by
  rw [tally_eq_card, Finset.card_pos]
  simp [Finset.Nonempty]

theorem tally_eq_zero_iff : tally f P = 0 ↔ ∀ i, ¬ P (f i) := by
  rw [tally_eq_card, Finset.card_eq_zero, Finset.filter_eq_empty_iff]
  simp

theorem tally_le_card : tally f P ≤ Fintype.card ι := by
  rw [tally_eq_card]
  exact Finset.card_le_univ _

theorem tally_eq_card_of_forall (h : ∀ i, P (f i)) : tally f P = Fintype.card ι := by
  rw [tally_eq_card, Finset.filter_true_of_mem (fun i _ => h i), Finset.card_univ]

theorem tally_add_tally_not (f : ι → α) (P : α → Prop) [DecidablePred P] :
    tally f P + tally f (fun a => ¬ P a) = Fintype.card ι := by
  simp only [tally_eq_card]
  exact Finset.card_filter_add_card_filter_not _

end Tallies

inductive Phase | running | finished | collected
  deriving DecidableEq, Repr

/-- The phases of all tasks and the tasks collected so far, in order. -/
@[ext] structure Ledger (ι : Type u) where
  phase : ι → Phase
  log : List ι

inductive Event (ι : Type u) | finish (i : ι) | collect (i : ι)

variable {ι : Type u} [DecidableEq ι]

/-- A running task may finish; a finished one may be collected. -/
def post (L : Ledger ι) : Event ι → Option (Ledger ι)
  | .finish i => if L.phase i = .running then
      some { L with phase := Function.update L.phase i .finished } else none
  | .collect i => if L.phase i = .finished then
      some ⟨Function.update L.phase i .collected, L.log ++ [i]⟩ else none

def ledgers (ι : Type u) [DecidableEq ι] : System (Ledger ι) (Event ι) where
  init L := (∀ i, L.phase i = .running) ∧ L.log = []
  step := post

theorem post_cases {L L' : Ledger ι} {e : Event ι} (h : post L e = some L') :
    (∃ i, e = .finish i ∧ L.phase i = .running ∧
      L' = { L with phase := Function.update L.phase i .finished }) ∨
    (∃ i, e = .collect i ∧ L.phase i = .finished ∧
      L' = ⟨Function.update L.phase i .collected, L.log ++ [i]⟩) := by
  cases e with
  | finish i =>
    by_cases hp : L.phase i = .running
    · exact .inl ⟨i, rfl, hp, by simpa [post, hp] using h.symm⟩
    · simp [post, hp] at h
  | collect i =>
    by_cases hp : L.phase i = .finished
    · exact .inr ⟨i, rfl, hp, by simpa [post, hp] using h.symm⟩
    · simp [post, hp] at h

/-- The log names exactly the collected tasks, each once. -/
structure Balanced (L : Ledger ι) : Prop where
  nodup : L.log.Nodup
  mem_log : ∀ i, i ∈ L.log ↔ L.phase i = .collected

theorem balanced_invariant : (ledgers ι).Invariant Balanced where
  init L hi := ⟨by simp [hi.2], by simp [hi.1, hi.2]⟩
  step L e L' hb h := by
    rcases post_cases h with ⟨i, -, hp, rfl⟩ | ⟨i, -, hp, rfl⟩
    · refine ⟨hb.nodup, fun j => ?_⟩
      rcases eq_or_ne j i with rfl | hne
      · simp [hb.mem_log, hp]
      · simp [hb.mem_log, hne]
    · have hi : i ∉ L.log := by simp [hb.mem_log, hp]
      refine ⟨List.nodup_append.mpr ⟨hb.nodup, List.nodup_singleton i, ?_⟩, fun j => ?_⟩
      · intro a ha b hmem
        exact fun hab => hi (List.mem_singleton.mp hmem ▸ hab ▸ ha)
      · rcases eq_or_ne j i with rfl | hne
        · simp
        · simp [hb.mem_log, hne]

theorem balanced_of_reachable {L : Ledger ι} (h : (ledgers ι).Reachable L) : Balanced L :=
  balanced_invariant.reachable h

section Counting
variable [Fintype ι]

/-- The log is as long as there are collected tasks. -/
theorem Balanced.length_log {L : Ledger ι} (h : Balanced L) :
    L.log.length = tally L.phase (· = .collected) := by
  rw [tally_eq_card, ← List.toFinset_card_of_nodup h.nodup]
  congr 1
  ext i
  simp [h.mem_log]

/-- Tasks still outstanding and tasks collected make up the family. -/
theorem Balanced.outstanding_add_length {L : Ledger ι} (h : Balanced L) :
    tally L.phase (· ≠ .collected) + L.log.length = Fintype.card ι := by
  rw [h.length_log, Nat.add_comm]
  exact tally_add_tally_not L.phase (· = .collected)

/-- With nothing outstanding every task has been collected exactly once. -/
theorem Balanced.count_eq_one {L : Ledger ι} (h : Balanced L)
    (hz : tally L.phase (· ≠ .collected) = 0) (i : ι) : L.log.count i = 1 := by
  have hc : L.phase i = .collected := not_not.mp (tally_eq_zero_iff.mp hz i)
  exact List.count_eq_one_of_mem h.nodup ((h.mem_log i).mpr hc)

end Counting

end LinuxTemplates.TaskLedgers
