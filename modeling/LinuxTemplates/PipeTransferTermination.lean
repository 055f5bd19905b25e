import LinuxTemplates.PipeTransfer
import LinuxTemplates.RunLengths

/-!
# Every run of `pipe.cpp` ends

A byte costs at most three steps: the pipe takes it up, the child reads it and writes it out.
-/

namespace LinuxTemplates.PipeTransfer
open TransitionSystems FifoChannels

def ParentPc.weight (arg : List UInt8) : ParentPc → ℕ
  | .checkArgs => 13 + 3 * arg.length
  | .pipe => 12 + 3 * arg.length
  | .fork => 11 + 3 * arg.length
  | .closeRead => 5 + 3 * arg.length
  | .write rest => 4 + 3 * rest.length
  | .closeWrite => 3
  | .wait => 2
  | .printExit => 1
  | .exited _ | .sigpipe => 0

def ChildPc.weight : ChildPc → ℕ
  | .closeWrite | .write _ => 5
  | .read => 4
  | .writeNewline => 3
  | .closeRead => 2
  | .printExit => 1
  | .absent | .exited _ => 0

def State.weight (s : State) : ℕ :=
  s.parent.weight s.arg + s.child.weight + 2 * s.pipe.queue.length

variable {s s' : State}

theorem parent_weight (hi : Inv s) (h : parent s = some s') : s'.weight < s.weight := by
  have hpar := hi.parent
  cases hp : s.parent with
  | exited | sigpipe => simp [parent, hp] at h
  | checkArgs =>
    simp only [parent, hp, Option.some.injEq] at h
    subst h
    by_cases harg : s.arg = help <;>
      simp only [State.weight, hp, harg, if_true, if_false, ParentPc.weight] <;> omega
  | fork =>
    simp only [parent, hp, Option.some.injEq] at h
    simp only [ParentOk, hp] at hpar
    subst h
    simp only [State.weight, hp, hpar.2.1, ParentPc.weight, ChildPc.weight]
    omega
  | pipe | closeRead | closeWrite | printExit =>
    simp only [parent, hp, Option.some.injEq] at h
    subst h
    simp only [State.weight, hp, ParentPc.weight]
    omega
  | write rest =>
    simp only [parent, hp] at h
    split at h
    · simp only [Option.some.injEq] at h
      subst h
      simp only [State.weight, hp, ParentPc.weight]
      omega
    · simp only [Option.ite_none_right_eq_some, Option.some.injEq] at h
      obtain ⟨-, rfl⟩ := h
      simp only [State.weight, hp, ParentPc.weight]
      omega
  | wait =>
    simp only [parent, hp] at h
    split at h <;> simp only [Option.some.injEq, reduceCtorEq] at h
    subst h
    simp only [State.weight, hp, ParentPc.weight]
    omega

theorem take_weight {k : ℕ} (h : take s k = some s') : s'.weight < s.weight := by
  cases hp : s.parent <;> simp only [take, hp, reduceCtorEq] at h
  rename_i rest
  simp only [Option.ite_none_right_eq_some, Option.some.injEq] at h
  obtain ⟨⟨-, hpos, hle, -⟩, rfl⟩ := h
  simp only [State.weight, hp, ParentPc.weight, List.length_drop, Channel.send_queue,
    List.length_append, List.length_take]
  omega

theorem child_weight (h : child s = some s') : s'.weight < s.weight := by
  cases hc : s.child with
  | absent | exited => simp [child, hc] at h
  | read =>
    simp only [child, hc, Option.ite_none_right_eq_some, Option.some.injEq] at h
    obtain ⟨-, rfl⟩ := h
    simp only [State.weight, hc, ChildPc.weight]
    omega
  | closeWrite | write | writeNewline | closeRead | printExit =>
    simp only [child, hc, Option.some.injEq] at h
    subst h
    simp only [State.weight, hc, ChildPc.weight]
    omega

theorem fetch_weight {k : ℕ} (h : fetch s k = some s') : s'.weight < s.weight := by
  cases hc : s.child <;> simp only [fetch, hc, reduceCtorEq] at h
  simp only [Option.ite_none_right_eq_some, Option.some.injEq] at h
  obtain ⟨⟨hpos, -, hle⟩, rfl⟩ := h
  simp only [State.weight, hc, ChildPc.weight, Channel.receive_queue, List.length_drop]
  omega

theorem step_weight {a : Action} (hi : Inv s) (h : program.step s a = some s') :
    s'.weight < s.weight := by
  cases a with
  | parent => exact parent_weight hi h
  | take k => exact take_weight h
  | child => exact child_weight h
  | fetch k => exact fetch_weight h

/-- Both processes have exited, or there has only been one. -/
def State.Over (s : State) : Prop :=
  (s.parent = .exited (-1) ∧ s.child = .absent) ∨ (s.parent = .exited 0 ∧ s.child = .exited 0)

theorem Inv.halted_iff (hi : Inv s) : program.Halted s ↔ s.Over := by
  constructor
  · intro hhalted
    have hend : ∃ ret, s.parent = .exited ret := by
      by_contra hne
      obtain ⟨a, ha⟩ := not_stuck hi (.inl (not_exists.mp hne))
      exact hhalted.not_enabled a ha
    obtain ⟨ret, hp⟩ := hend
    have hpar := hi.parent
    simp only [ParentOk, hp] at hpar
    rcases hpar with ⟨rfl, hc, -⟩ | ⟨rfl, -, hc, -⟩
    · exact .inl ⟨hp, hc⟩
    · exact .inr ⟨hp, hc⟩
  · rintro (⟨hp, hc⟩ | ⟨hp, hc⟩) a <;>
      cases a <;> simp [program, step, PipeTransfer.parent, PipeTransfer.child, take, fetch, hp, hc]

/-- The argument has not been looked at, or it is the reason why the parent has exited. -/
def Looked (s : State) : Prop := s.parent = .checkArgs ∨ (s.parent = .exited (-1) ↔ s.arg = help)

theorem parent_looked (h : Looked s) (hs : parent s = some s') :
    Looked s' ∧ s'.arg = s.arg := by
  cases hp : s.parent with
  | exited | sigpipe => simp [parent, hp] at hs
  | checkArgs =>
    simp only [parent, hp, Option.some.injEq] at hs
    subst hs
    refine ⟨.inr ?_, rfl⟩
    by_cases harg : s.arg = help <;> simp [harg]
  | pipe | fork | closeRead | closeWrite | printExit =>
    simp only [parent, hp, Option.some.injEq] at hs
    simp only [Looked, hp, reduceCtorEq, false_or, false_iff] at h
    subst hs
    exact ⟨.inr (by simp [h]), rfl⟩
  | write rest =>
    simp only [parent, hp] at hs
    simp only [Looked, hp, reduceCtorEq, false_or, false_iff] at h
    split at hs
    · simp only [Option.some.injEq] at hs
      subst hs
      exact ⟨.inr (by simp [h]), rfl⟩
    · simp only [Option.ite_none_right_eq_some, Option.some.injEq] at hs
      obtain ⟨-, rfl⟩ := hs
      exact ⟨.inr (by simp [h]), rfl⟩
  | wait =>
    simp only [parent, hp] at hs
    simp only [Looked, hp, reduceCtorEq, false_or, false_iff] at h
    split at hs <;> simp only [Option.some.injEq, reduceCtorEq] at hs
    subst hs
    exact ⟨.inr (by simp [h]), rfl⟩

theorem take_looked {k : ℕ} (h : Looked s) (hs : take s k = some s') :
    Looked s' ∧ s'.arg = s.arg := by
  cases hp : s.parent <;> simp only [take, hp, reduceCtorEq] at hs
  simp only [Option.ite_none_right_eq_some, Option.some.injEq] at hs
  simp only [Looked, hp, reduceCtorEq, false_or, false_iff] at h
  obtain ⟨-, rfl⟩ := hs
  exact ⟨.inr (by simp [h]), rfl⟩

theorem child_same (hs : child s = some s') : s'.parent = s.parent ∧ s'.arg = s.arg := by
  cases hc : s.child <;> simp only [child, hc, Option.some.injEq, Option.ite_none_right_eq_some,
    reduceCtorEq] at hs
  case read => exact hs.2 ▸ ⟨rfl, rfl⟩
  all_goals exact hs ▸ ⟨rfl, rfl⟩

theorem fetch_same {k : ℕ} (hs : fetch s k = some s') :
    s'.parent = s.parent ∧ s'.arg = s.arg := by
  cases hc : s.child <;> simp only [fetch, hc, reduceCtorEq] at hs
  simp only [Option.ite_none_right_eq_some, Option.some.injEq] at hs
  exact hs.2 ▸ ⟨rfl, rfl⟩

theorem step_looked {a : Action} (h : Looked s) (hs : program.step s a = some s') :
    Looked s' ∧ s'.arg = s.arg := by
  have hsame : s'.parent = s.parent ∧ s'.arg = s.arg → Looked s' ∧ s'.arg = s.arg := by
    rintro ⟨hparent, harg⟩
    rw [Looked, hparent, harg]
    exact ⟨h, rfl⟩
  cases a with
  | parent => exact parent_looked h hs
  | take k => exact take_looked h hs
  | child => exact hsame (child_same hs)
  | fetch k => exact hsame (fetch_same hs)

/-- A run has at most three steps for each byte and thirteen more. When nothing more is possible
the parent has refused the argument, or both processes have exited and the child has written all
of the argument and a newline. -/
theorem transfer_ends {cap : ℕ} {arg : List UInt8} {as : List Action} (hcap : 1 ≤ cap)
    (hrun : program.run (start cap arg) as = some s) :
    as.length ≤ 3 * arg.length + 13 ∧
    (program.Halted s → (arg = help ∧ s.parent = .exited (-1) ∧ s.out = []) ∨
      (arg ≠ help ∧ s.parent = .exited 0 ∧ s.child = .exited 0 ∧ s.out = arg ++ [newline])) := by
  have hreach : program.Reachable (start cap arg) := .init ⟨cap, arg, hcap, rfl⟩
  have hi := inv_of_reachable (hreach.run hrun)
  have hpreserve : ∀ s a s', (Looked s ∧ s.arg = arg) → program.step s a = some s' →
      Looked s' ∧ s'.arg = arg := fun _ _ _ h hs =>
    ⟨(step_looked h.1 hs).1, (step_looked h.1 hs).2.trans h.2⟩
  obtain ⟨hlooked, harg⟩ := System.run_preserves hpreserve ⟨.inl rfl, rfl⟩ hrun
  refine ⟨?_, fun hhalted => ?_⟩
  · have hle := System.length_run_le inv_invariant.step (fun _ _ _ h hs => step_weight h hs)
      (inv_of_reachable hreach) hrun
    have hstart : (start cap arg).weight = 13 + 3 * arg.length := rfl
    omega
  · have hch := hi.child
    rcases hi.halted_iff.mp hhalted with ⟨hp, hc⟩ | ⟨hp, hc⟩
    · simp only [Looked, hp, reduceCtorEq, false_or, true_iff] at hlooked
      simp only [ChildOk, hc] at hch
      exact .inl ⟨harg.symm.trans hlooked, hp, hch.2⟩
    · simp only [Looked, hp, reduceCtorEq, false_or] at hlooked
      simp only [ChildOk, hc] at hch
      refine .inr ⟨fun hhelp => ?_, hp, hc, harg ▸ hch.2.1⟩
      have hbad := hlooked.mpr (harg.trans hhelp)
      simp at hbad

def fullEnd : State := program.after (start 1 [111, 107]) fullSchedule (by decide)

theorem run_full : program.run (start 1 [111, 107]) fullSchedule = some fullEnd :=
  System.run_after _ _

theorem transfer_ends_full :
    fullSchedule.length ≤ 3 * 2 + 13 ∧ program.Halted fullEnd ∧
      fullEnd.out = [111, 107] ++ [newline] := by
  obtain ⟨hlength, hend⟩ := transfer_ends (Nat.le_refl 1) run_full
  have hreach : program.Reachable (start 1 [111, 107]) := .init ⟨1, _, Nat.le_refl 1, rfl⟩
  have hhalted : program.Halted fullEnd :=
    (inv_of_reachable (hreach.run run_full)).halted_iff.mpr (.inr ⟨by decide, by decide⟩)
  rcases hend hhalted with ⟨-, hrefused, -⟩ | ⟨-, -, -, hout⟩
  · exact absurd hrefused (by decide)
  · exact ⟨hlength, hhalted, hout⟩

end LinuxTemplates.PipeTransfer
