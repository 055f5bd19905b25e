import LinuxTemplates.PipeSync
import LinuxTemplates.RunLengths
import Mathlib.Algebra.GroupWithZero.Nat

/-!
# Every run of `pipe_sync.cpp` ends

Each child takes at most five steps and each `fork` one. The parent waits in `read` only for
children that can go on.
-/

namespace LinuxTemplates.PipeSync
open TransitionSystems
open PipeTransfer (Ends help)

variable {s s' : State}

def ParentPc.weight : ParentPc → ℕ
  | .checkArgs => 6
  | .pipe => 5
  | .fork => 4
  | .closeWrite => 3
  | .read => 2
  | .printReadErr | .printExit => 1
  | .exited _ => 0

def ChildPc.weight : ChildPc → ℕ
  | .closeRead => 5
  | .sleep => 4
  | .printClosing => 3
  | .closeWrite => 2
  | .printExiting => 1
  | .exited _ | .died => 0

/-- A child that is still to be forked costs its fork too. -/
def State.weight (s : State) : ℕ :=
  s.parent.weight + 6 * (s.args.length - s.children.length) +
    (s.children.map (fun c => c.pc.weight)).sum

/-- One member of a list becomes lighter. -/
theorem sum_set_lt {α : Type*} {w : α → ℕ} {l : List α} {i : ℕ} {a a' : α} (h : l[i]? = some a)
    (hlt : w a' < w a) : ((l.set i a').map w).sum < (l.map w).sum := by
  induction l generalizing i with
  | nil => simp at h
  | cons b l ih =>
    cases i with
    | zero =>
      obtain rfl := Option.some.inj h
      simpa using hlt
    | succ i =>
      have hrest := ih (i := i) (by simpa using h)
      simpa using hrest

theorem Child.step_weight {c c' : Child} (h : c.step = some c') : c'.pc.weight < c.pc.weight := by
  obtain ⟨pc, ends⟩ := c
  cases pc <;> simp only [Child.step, Option.some.injEq, reduceCtorEq] at h
  case closeRead | closeWrite =>
    subst h
    dsimp only
    split <;> simp [ChildPc.weight]
  all_goals
    subst h
    simp [ChildPc.weight]

theorem Child.die_weight {c c' : Child} (h : c.die = some c') : c'.pc.weight < c.pc.weight := by
  obtain rfl := Child.die_eq h
  obtain ⟨pc, ends⟩ := c
  cases pc <;> simp [Child.die, ChildPc.terminated, ChildPc.weight] at h ⊢

theorem child_weight {i : ℕ} {move : Child → Option Child}
    (hmove : ∀ c c', move c = some c' → c'.pc.weight < c.pc.weight)
    (h : child s i move = some s') : s'.weight < s.weight := by
  unfold child at h
  split at h
  · cases h
  · rename_i c hc
    obtain ⟨c', hc', rfl⟩ := Option.map_eq_some_iff.mp h
    have hsum := sum_set_lt (w := fun c : Child => c.pc.weight) hc (hmove c c' hc')
    simp only [State.weight, List.length_set]
    omega

theorem parent_weight (h : parent s = some s') : s'.weight < s.weight := by
  cases hp : s.parent with
  | exited => simp [parent, hp] at h
  | checkArgs =>
    simp only [parent, hp, Option.some.injEq] at h
    subst h
    simp only [State.weight, hp]
    split <;> simp only [ParentPc.weight] <;> omega
  | pipe | printReadErr | printExit =>
    simp only [parent, hp, Option.some.injEq] at h
    subst h
    simp only [State.weight, hp, ParentPc.weight]
    omega
  | fork =>
    simp only [parent, hp] at h
    split at h <;> simp only [Option.some.injEq] at h <;> subst h
    · simp only [State.weight, hp, List.length_append, List.length_singleton, List.map_append,
        List.map_singleton, List.sum_append, List.sum_singleton, ChildPc.weight]
      omega
    · simp only [State.weight, hp, ParentPc.weight]
      omega
  | closeWrite =>
    simp only [parent, hp] at h
    split at h <;> simp only [Option.some.injEq] at h <;> subst h <;>
      simp only [State.weight, hp, ParentPc.weight] <;> omega
  | read =>
    simp only [parent, hp] at h
    obtain ⟨ret, -, rfl⟩ := Option.map_eq_some_iff.mp h
    simp only [State.weight, hp]
    split <;> simp only [ParentPc.weight] <;> omega

theorem step_weight {a : Action} (h : program.step s a = some s') : s'.weight < s.weight := by
  cases a with
  | parent => exact parent_weight h
  | pipeFails =>
    simp only [program, step, pipeFails, Option.ite_none_right_eq_some, Option.some.injEq] at h
    obtain ⟨hp, rfl⟩ := h
    simp only [State.weight, hp, ParentPc.weight]
    omega
  | child i => exact child_weight (fun _ _ => Child.step_weight) h
  | die i => exact child_weight (fun _ _ => Child.die_weight) h

/-! ## The end of a run -/

theorem Child.step_isSome {c : Child} (h : c.pc.terminated = false) : c.step.isSome = true := by
  obtain ⟨pc, ends⟩ := c
  cases pc <;> simp_all [Child.step, ChildPc.terminated]

theorem child_enabled {c : Child} (hc : c ∈ s.children) (h : c.pc.terminated = false) :
    ∃ i, program.Enabled s (.child i) := by
  obtain ⟨i, hi⟩ := List.mem_iff_getElem?.mp hc
  exact ⟨i, by simp [System.Enabled, program, step, child, hi, Child.step_isSome h]⟩

/-- The `read` waits for a child that has not released the write end. -/
theorem parent_enabled (hi : Inv s) (hexit : ∀ ret, s.parent ≠ .exited ret)
    (hall : ∀ c ∈ s.children, c.pc.terminated = true) : program.Enabled s .parent := by
  by_cases hpc : s.parent = .read
  · have hparent := hi.parent
    rw [ParentOk, hpc] at hparent
    have hreleased : ∀ c ∈ s.children, c.pc.released = true :=
      fun c hc => ChildPc.released_of_terminated (hall c hc)
    have hw : s.hasWriter = false := (hasWriter_iff hi).mpr ⟨by rw [hparent.1], hreleased⟩
    have hread : s.read = some 0 := by
      rw [read_eq hi hpc, hw]
      rfl
    simp [System.Enabled, program, step, parent, hpc, hread]
  · exact parent_isSome hpc hexit

/-- Nobody is left who could take a step. -/
def State.Over (s : State) : Prop :=
  (∃ ret, s.parent = .exited ret) ∧ ∀ c ∈ s.children, c.pc.terminated = true

theorem Child.step_none {c : Child} (h : c.pc.terminated = true) : c.step = none := by
  obtain ⟨pc, ends⟩ := c
  cases pc <;> simp_all [Child.step, ChildPc.terminated]

theorem Inv.halted_iff (hi : Inv s) : program.Halted s ↔ s.Over := by
  constructor
  · intro hhalted
    have hall : ∀ c ∈ s.children, c.pc.terminated = true := by
      intro c hc
      by_contra hrunning
      obtain ⟨i, henabled⟩ := child_enabled hc (by simpa using hrunning)
      exact hhalted.not_enabled _ henabled
    refine ⟨?_, hall⟩
    by_contra hexit
    exact hhalted.not_enabled _ (parent_enabled hi (not_exists.mp hexit) hall)
  · rintro ⟨⟨ret, hpc⟩, hall⟩ a
    have hnone : ∀ i, (∀ move : Child → Option Child,
        (∀ c, c.pc.terminated = true → move c = none) → child s i move = none) := by
      intro i move hmove
      unfold child
      split
      · rfl
      · rename_i c hc
        rw [hmove c (hall c (List.mem_of_getElem? hc))]
        rfl
    cases a with
    | parent => simp [program, step, PipeSync.parent, hpc]
    | pipeFails => simp [program, step, pipeFails, hpc]
    | child i => exact hnone i _ (fun c => Child.step_none)
    | die i => exact hnone i _ (fun c hc => by simp [Child.die, hc])

theorem step_args {a : Action} (h : program.step s a = some s') : s'.args = s.args := by
  have hchild : ∀ {i move}, child s i move = some s' → s'.args = s.args := by
    intro i move h
    unfold child at h
    split at h
    · cases h
    · obtain ⟨c', -, rfl⟩ := Option.map_eq_some_iff.mp h
      rfl
  cases a with
  | parent =>
    simp only [program, step, parent] at h
    split at h
    case h_3 | h_4 => split at h <;> exact (Option.some.inj h) ▸ rfl
    case h_5 =>
      obtain ⟨ret, -, rfl⟩ := Option.map_eq_some_iff.mp h
      rfl
    case h_8 => cases h
    all_goals exact (Option.some.inj h) ▸ rfl
  | pipeFails =>
    simp only [program, step, pipeFails, Option.ite_none_right_eq_some, Option.some.injEq] at h
    exact h.2 ▸ rfl
  | child i => exact hchild h
  | die i => exact hchild h

/-- A parent that gives up has not forked anybody. -/
def Alone (s : State) : Prop := s.parent = .exited (-1) → s.children = []

theorem parent_alone (hi : Inv s) (h : parent s = some s') : Alone s' := by
  have hparent := hi.parent
  unfold ParentOk at hparent
  cases hpc : s.parent <;> simp only [hpc] at hparent <;> simp only [parent, hpc] at h
  case checkArgs =>
    obtain rfl := Option.some.inj h
    exact fun _ => hparent.1
  case fork =>
    split at h <;> obtain rfl := Option.some.inj h <;> exact fun hexit => by simp at hexit
  case closeWrite =>
    rw [hparent.1, if_pos rfl] at h
    obtain rfl := Option.some.inj h
    exact fun hexit => by simp at hexit
  case read =>
    obtain ⟨ret, -, rfl⟩ := Option.map_eq_some_iff.mp h
    intro hexit
    dsimp only at hexit
    split at hexit <;> cases hexit
  case exited => cases h
  all_goals
    obtain rfl := Option.some.inj h
    exact fun hexit => by simp at hexit

theorem child_alone {i : ℕ} {move : Child → Option Child} (ha : Alone s)
    (h : child s i move = some s') : Alone s' := by
  unfold child at h
  split at h
  · cases h
  · rename_i c hc
    obtain ⟨c', -, rfl⟩ := Option.map_eq_some_iff.mp h
    intro hexit
    rw [ha hexit] at hc
    cases hc

theorem step_alone {a : Action} (hi : Inv s) (ha : Alone s) (h : program.step s a = some s') :
    Alone s' := by
  cases a with
  | parent => exact parent_alone hi h
  | pipeFails =>
    have hparent := hi.parent
    simp only [program, step, pipeFails, Option.ite_none_right_eq_some, Option.some.injEq] at h
    obtain ⟨hpc, rfl⟩ := h
    rw [ParentOk, hpc] at hparent
    exact fun _ => hparent.1
  | child i => exact child_alone ha h
  | die i => exact child_alone ha h

/-- A run has at most six steps for each child and six more. Nothing more is possible just when
the parent has exited and each child has exited or died; the parent has then read the end of file
behind all of its children, or has exited before it forked any. -/
theorem sync_ends {args : List (List UInt8)} {as : List Action}
    (hrun : program.run (start args) as = some s) :
    as.length ≤ 6 * args.length + 6 ∧ (program.Halted s ↔ s.Over) ∧
    (program.Halted s → (s.parent = .exited 0 ∧ s.children.length = args.length) ∨
      (s.parent = .exited (-1) ∧ s.children = [])) := by
  have hi : Inv s := inv.reachable ((System.Reachable.init (M := program) ⟨args, rfl⟩).run hrun)
  have hargs : s.args = args := System.run_preserves (I := fun s => s.args = args)
    (fun _ _ _ h hs => (step_args hs).trans h) rfl hrun
  have halone : Inv s ∧ Alone s := System.run_preserves (I := fun s => Inv s ∧ Alone s)
    (fun _ _ _ h hs => ⟨step_inv h.1 hs, step_alone h.1 h.2 hs⟩)
    ⟨inv_start args, fun hexit => by cases hexit⟩ hrun
  refine ⟨?_, hi.halted_iff, fun hhalted => ?_⟩
  · have hle := System.length_run_le (I := fun _ => True) (fun _ _ _ _ _ => True.intro)
      (fun _ _ _ _ hs => step_weight hs) True.intro hrun
    have hstart : (start args).weight = 6 + 6 * args.length := rfl
    omega
  · obtain ⟨⟨ret, hpc⟩, -⟩ := hi.halted_iff.mp hhalted
    have hparent := hi.parent
    rw [ParentOk, hpc] at hparent
    rcases hparent with ⟨rfl, -⟩ | ⟨rfl, -, hlength, -⟩
    · exact .inr ⟨hpc, halone.2 hpc⟩
    · exact .inl ⟨hpc, hargs ▸ hlength⟩

/-- The parent exits too. -/
def killedThrough : List Action := killed ++ [.parent]

def killedEnd : State := program.after (start [[49], [50]]) killedThrough (by decide)

theorem run_killed : program.run (start [[49], [50]]) killedThrough = some killedEnd :=
  System.run_after _ _

theorem sync_ends_killed :
    killedThrough.length ≤ 6 * 2 + 6 ∧ program.Halted killedEnd ∧
      killedEnd.parent = .exited 0 ∧ killedEnd.children.length = 2 := by
  obtain ⟨hlength, hiff, hend⟩ := sync_ends run_killed
  have hhalted : program.Halted killedEnd := hiff.mpr ⟨⟨0, by decide⟩, by decide⟩
  rcases hend hhalted with hzero | ⟨hfailed, -⟩
  · exact ⟨hlength, hhalted, hzero⟩
  · exact absurd hfailed (by decide)

end LinuxTemplates.PipeSync
