import Mathlib.Data.List.Basic
import Mathlib.Data.List.Induction
import Mathlib.Logic.Relation

/-!
# Transition systems driven by explicit actions

A system is a set of initial states and a guarded step function. An action names
who moves next and fixes every choice that the scheduler or the environment makes;
`step s a = none` says that the action is blocked in `s`. Interleavings are action
lists, so every schedule can be executed.
-/

namespace LinuxTemplates.TransitionSystems

universe u v w x

/-- Initial states and a guarded step function. -/
structure System (State : Type u) (Action : Type v) where
  init : State → Prop
  step : State → Action → Option State

namespace System
variable {State : Type u} {Action : Type v} (M : System State Action)

/-- States that some interleaving reaches from an initial state. -/
inductive Reachable : State → Prop
  | init {s : State} (h : M.init s) : Reachable s
  | step {s s' : State} {a : Action} (hr : Reachable s) (hs : M.step s a = some s') :
      Reachable s'

/-- An action is enabled when it is not blocked. -/
def Enabled (s : State) (a : Action) : Prop := (M.step s a).isSome = true

instance (s : State) (a : Action) : Decidable (M.Enabled s a) :=
  inferInstanceAs (Decidable ((M.step s a).isSome = true))

/-- Executes a schedule, stopping with `none` at the first blocked action. -/
def run (s : State) : List Action → Option State
  | [] => some s
  | a :: as => (M.step s a).bind (fun s' => run s' as)

@[simp] theorem run_nil (s : State) : M.run s [] = some s := rfl

theorem run_cons {s s' : State} {a : Action} {as : List Action} :
    M.run s (a :: as) = some s' ↔ ∃ t, M.step s a = some t ∧ M.run t as = some s' := by
  simp [run, Option.bind_eq_some_iff]

theorem run_append_iff {s s' : State} {as bs : List Action} :
    M.run s (as ++ bs) = some s' ↔ ∃ t, M.run s as = some t ∧ M.run t bs = some s' := by
  induction as generalizing s with
  | nil => simp
  | cons a as ih =>
    rw [List.cons_append, run_cons]
    constructor
    · rintro ⟨u, hu, hrun⟩
      obtain ⟨t, ht, hs⟩ := ih.mp hrun
      exact ⟨t, (M.run_cons).mpr ⟨u, hu, ht⟩, hs⟩
    · rintro ⟨t, ht, hs⟩
      obtain ⟨u, hu, hrun⟩ := (M.run_cons).mp ht
      exact ⟨u, hu, ih.mpr ⟨t, hrun, hs⟩⟩

theorem run_append {s t s' : State} {as bs : List Action} (h : M.run s as = some t)
    (h' : M.run t bs = some s') : M.run s (as ++ bs) = some s' :=
  (M.run_append_iff).mpr ⟨t, h, h'⟩

theorem Reachable.run {M : System State Action} {s s' : State} {as : List Action}
    (hr : M.Reachable s) (h : M.run s as = some s') : M.Reachable s' := by
  induction as generalizing s with
  | nil => simpa using (Option.some.inj h) ▸ hr
  | cons a as ih =>
    obtain ⟨t, ht, hs⟩ := (M.run_cons).mp h
    exact ih (hr.step ht) hs

/-- The state a schedule ends in, when none of its actions is blocked. -/
def after (s : State) (as : List Action) (h : (M.run s as).isSome = true) : State :=
  (M.run s as).get h

theorem run_after {s : State} {as : List Action} (h : (M.run s as).isSome = true) :
    M.run s as = some (M.after s as h) := (Option.some_get h).symm

theorem reachable_after {s : State} (hi : M.init s) (as : List Action)
    (h : (M.run s as).isSome = true) : M.Reachable (M.after s as h) :=
  (Reachable.init hi).run (Option.some_get h).symm

/-- What an observer of the steps notes along a schedule. -/
def history {O : Type w} (obs : State → State → List O) (s : State) : List Action → List O
  | [] => []
  | a :: as => match M.step s a with
    | none => []
    | some t => obs s t ++ history obs t as

/-- Holds initially and survives every step. -/
structure Invariant (I : State → Prop) : Prop where
  init : ∀ s, M.init s → I s
  step : ∀ s a s', I s → M.step s a = some s' → I s'

variable {M}

theorem Invariant.reachable {I : State → Prop} (h : M.Invariant I) {s : State}
    (hr : M.Reachable s) : I s := by
  induction hr with
  | init hi => exact h.init _ hi
  | step hr hs ih => exact h.step _ _ _ ih hs

/-- What the steps of some actions keep a run of these actions keeps. -/
theorem run_preserves_of {I : State → Prop} {allowed : Action → Prop}
    (preserve : ∀ s a s', I s → allowed a → M.step s a = some s' → I s') {s s' : State}
    {as : List Action} (has : ∀ a ∈ as, allowed a) (hs : I s) (h : M.run s as = some s') :
    I s' := by
  induction as generalizing s with
  | nil => exact (Option.some.inj h) ▸ hs
  | cons a as ih =>
    obtain ⟨t, ht, hrun⟩ := (M.run_cons).mp h
    obtain ⟨ha, has⟩ := List.forall_mem_cons.mp has
    exact ih has (preserve s a t hs ha ht) hrun

theorem run_preserves {I : State → Prop}
    (preserve : ∀ s a s', I s → M.step s a = some s' → I s') {s s' : State} {as : List Action}
    (hs : I s) (h : M.run s as = some s') : I s' :=
  run_preserves_of (fun s a s' hi _ => preserve s a s' hi) (fun _ _ => True.intro) hs h

/-- A relation between the notes taken so far and the state. -/
theorem history_invariant {O : Type w} (obs : State → State → List O)
    (I : List O → State → Prop)
    (preserve : ∀ notes s a t, I notes s → M.step s a = some t → I (notes ++ obs s t) t)
    {notes : List O} {s s' : State} {as : List Action} (hs : I notes s)
    (h : M.run s as = some s') : I (notes ++ M.history obs s as) s' := by
  induction as generalizing notes s with
  | nil =>
    obtain rfl := Option.some.inj h
    rwa [history, List.append_nil]
  | cons a as ih =>
    obtain ⟨t, ht, hrun⟩ := (M.run_cons).mp h
    rw [history, ht, ← List.append_assoc]
    exact ih (preserve notes s a t hs ht) hrun

/-- What holds of each entry of a record and of those before it, when the record has one more. -/
theorem splits_append {O : Type w} {P : List O → O → Prop} {notes : List O} {x : O}
    (h : ∀ before y after, notes = before ++ y :: after → P before y) (hx : P notes x) :
    ∀ before y after, notes ++ [x] = before ++ y :: after → P before y := by
  intro before y after heq
  rcases List.eq_nil_or_concat after with rfl | ⟨after, z, rfl⟩
  · obtain ⟨rfl, hxy⟩ := List.append_inj' heq rfl
    obtain rfl := List.singleton_inj.mp hxy
    exact hx
  · rw [List.concat_eq_append, ← List.cons_append, ← List.append_assoc] at heq
    obtain ⟨rfl, -⟩ := List.append_inj' heq rfl
    exact h before y after rfl

/-- A value that just the steps with `P` keep is the same all along a run if and only if all
of its steps have `P`. -/
theorem run_keeps_iff {V : Type w} {value : State → V} {P : State → Action → Prop}
    (keeps : ∀ s a s', M.step s a = some s' → (value s' = value s ↔ P s a))
    {s s' : State} {as : List Action} (h : M.run s as = some s') :
    (∀ done rest t, as = done ++ rest → M.run s done = some t → value t = value s) ↔
      ∀ done a rest t, as = done ++ a :: rest → M.run s done = some t → P t a := by
  constructor
  · rintro hsame done a rest t rfl hrun
    obtain ⟨u, hu, hrest⟩ := (M.run_append_iff).mp h
    obtain rfl := Option.some.inj (hrun.symm.trans hu)
    obtain ⟨v, hstep, -⟩ := (M.run_cons).mp hrest
    have hbefore := hsame done (a :: rest) t rfl hrun
    have hafter := hsame (done ++ [a]) rest v (List.append_cons done a rest)
      (M.run_append hrun ((M.run_cons).mpr ⟨v, hstep, rfl⟩))
    exact (keeps t a v hstep).mp (hafter.trans hbefore.symm)
  · intro hsteps done
    -- the last step of the part already done
    induction done using List.reverseRecOn with
    | nil =>
      intro rest t _ hrun
      rw [Option.some.inj hrun]
    | append_singleton done a ih =>
      intro rest t has hrun
      rw [← List.append_cons] at has
      obtain ⟨u, hu, hlast⟩ := (M.run_append_iff).mp hrun
      obtain ⟨v, hstep, hnil⟩ := (M.run_cons).mp hlast
      obtain rfl := Option.some.inj hnil
      have hvalue := (keeps u a v hstep).mpr (hsteps done a rest u has hu)
      exact hvalue.trans (ih (a :: rest) u has hu)

/-- The counted actions of a run are paid for by the measure; the others are free. -/
theorem run_countP_le {I : State → Prop} {μ : State → ℕ} {counted : Action → Bool}
    (preserve : ∀ s a s', I s → M.step s a = some s' → I s')
    (pay : ∀ s a s', I s → M.step s a = some s' →
      μ s' + (if counted a then 1 else 0) ≤ μ s)
    {s s' : State} {as : List Action} (hs : I s) (h : M.run s as = some s') :
    as.countP counted + μ s' ≤ μ s := by
  induction as generalizing s with
  | nil => simp [Option.some.inj h]
  | cons a as ih =>
    obtain ⟨t, ht, hrun⟩ := (M.run_cons).mp h
    have hrest := ih (preserve s a t hs ht) hrun
    have hpay := pay s a t hs ht
    rw [List.countP_cons]
    omega

/-- The counted actions of a run show in a measure that each of them raises. -/
theorem countP_le_run {I : State → Prop} {μ : State → ℕ} {counted : Action → Bool}
    (preserve : ∀ s a s', I s → M.step s a = some s' → I s')
    (earn : ∀ s a s', I s → M.step s a = some s' →
      μ s + (if counted a then 1 else 0) ≤ μ s')
    {s s' : State} {as : List Action} (hs : I s) (h : M.run s as = some s') :
    μ s + as.countP counted ≤ μ s' := by
  induction as generalizing s with
  | nil => simp [Option.some.inj h]
  | cons a as ih =>
    obtain ⟨t, ht, hrun⟩ := (M.run_cons).mp h
    have hrest := ih (preserve s a t hs ht) hrun
    have hearn := earn s a t hs ht
    rw [List.countP_cons]
    omega

/-- A measure that every step lowers bounds the length of a run. -/
theorem length_run_le {I : State → Prop} {μ : State → ℕ}
    (preserve : ∀ s a s', I s → M.step s a = some s' → I s')
    (lower : ∀ s a s', I s → M.step s a = some s' → μ s' < μ s)
    {s s' : State} {as : List Action} (hs : I s) (h : M.run s as = some s') :
    as.length ≤ μ s := by
  have hpay : ∀ s a s', I s → M.step s a = some s' →
      μ s' + (if (fun _ : Action => true) a = true then 1 else 0) ≤ μ s := lower
  have hpaid := run_countP_le preserve hpay hs h
  rw [List.countP_true] at hpaid
  omega

end System

/-- Every reachable step of `C` is, seen through `abs`, a step of `D` or no change. -/
structure Refines {S : Type u} {A : Type v} {T : Type w} {B : Type x}
    (C : System S A) (D : System T B) (abs : S → T) : Prop where
  init : ∀ s, C.init s → D.init (abs s)
  step : ∀ s a s', C.Reachable s → C.step s a = some s' →
    abs s' = abs s ∨ ∃ b, D.step (abs s) b = some (abs s')

theorem Refines.reachable {S : Type u} {A : Type v} {T : Type w} {B : Type x}
    {C : System S A} {D : System T B} {abs : S → T} (h : Refines C D abs) {s : S}
    (hr : C.Reachable s) : D.Reachable (abs s) := by
  induction hr with
  | init hi => exact .init (h.init _ hi)
  | step hr hs ih =>
    rcases h.step _ _ _ hr hs with he | ⟨b, hb⟩
    · exact he ▸ ih
    · exact ih.step hb

end LinuxTemplates.TransitionSystems
