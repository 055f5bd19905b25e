import LinuxTemplates.ProcessHandshake

/-!
# Exit functions and output of `process.cpp`

The parent's exit functions run in the reverse order of their registration, the child's do not
run at all, and what the child has left in its buffer is lost.
-/

namespace LinuxTemplates.ProcessProgram
open TransitionSystems StdioStreams

def State.parentExited (s : State) : Bool :=
  match s.parent with
  | .exited _ => true
  | _ => false

def State.childOver (s : State) : Bool :=
  match s.child with
  | .ended _ | .killed => true
  | _ => false

/-- The streams have been used as the log of lines says. -/
structure OutputOk (env : Env) (s : State) : Prop where
  log : s.io.log = s.said.map (fun x => (x.1, (env.text x.2).toList))
  parentOver : Party.parent ∈ s.io.ended ↔ s.parentExited = true
  childOver : Party.child ∈ s.io.ended ↔ s.childOver = true
  exits : s.io.exits = if s.parentExited then [.parent] else []

variable {env : Env} {s s' : State}

/-! ## Lines -/

theorem endsLine_literal (text : String) (h : text.toList.getLast? = some '\n') :
    env.stdout.EndsLine text.toList := Settings.endsLine_of_getLast? h rfl

theorem endsLine_text (line : Line) : env.stdout.EndsLine (env.text line).toList := by
  cases line with
  | forkErr => exact endsLine_literal "fork() err\n" (by decide)
  | killErr => exact endsLine_literal "kill() err\n" (by decide)
  | suspendErr => exact endsLine_literal "sigsuspend() err\n" (by decide)
  | started | about | waiting | got => exact (endsLine_literal _ (by decide)).prepend _
  | registerErr f =>
    cases f with
    | onExit arg => exact endsLine_literal "on_exit() err\n" (by decide)
    | atExit1 | atExit2 => exact endsLine_literal "atexit() err\n" (by decide)
  | called f status =>
    cases f with
    | onExit arg => exact (endsLine_literal _ (by decide)).prepend _
    | atExit1 => exact endsLine_literal "atexit function_1 called\n" (by decide)
    | atExit2 => exact endsLine_literal "atexit function_2 called\n" (by decide)

/-! ## What a step does to the streams -/

/-- A line by a process that is not over. -/
theorem OutputOk.say (h : OutputOk env s) (p : Party) (line : Line)
    (hsaid : s'.said = s.said ++ [(p, line)])
    (hio : s'.io = s.io.print env.stdout p (env.text line).toList)
    (hparent : s'.parentExited = s.parentExited) (hchild : s'.childOver = s.childOver) :
    OutputOk env s' := by
  refine ⟨?_, ?_, ?_, ?_⟩
  · rw [hio, hsaid, print_log, h.log, List.map_append]
    rfl
  · rw [hio, hparent, print_ended, h.parentOver]
  · rw [hio, hchild, print_ended, h.childOver]
  · rw [hio, hparent, print_exits, h.exits]

theorem OutputOk.quiet (h : OutputOk env s) (hsaid : s'.said = s.said) (hio : s'.io = s.io)
    (hparent : s'.parentExited = s.parentExited) (hchild : s'.childOver = s.childOver) :
    OutputOk env s' := by
  refine ⟨?_, ?_, ?_, ?_⟩
  · rw [hio, hsaid, h.log]
  · rw [hio, hparent, h.parentOver]
  · rw [hio, hchild, h.childOver]
  · rw [hio, hparent, h.exits]

theorem parent_notMem (h : OutputOk env s) (hexit : s.parentExited = false) :
    Party.parent ∉ s.io.ended := by
  rw [h.parentOver, hexit]
  exact Bool.false_ne_true

theorem child_notMem (h : OutputOk env s) (halive : s.childOver = false) :
    Party.child ∉ s.io.ended := by
  rw [h.childOver, halive]
  exact Bool.false_ne_true

theorem written_of_lines (h : OutputOk env s) (p : Party) :
    s.io.written p = ((s.lines p).map (fun line => (env.text line).toList)).flatten := by
  rw [Stdio.written, h.log, State.lines, List.filter_map, List.map_map, List.map_map]
  rfl

/-- Lines come from processes that are not over, and the one fork is that of `main`. -/
structure StreamStep (env : Env) (s s' : State) : Prop where
  output : OutputOk env s'
  moves : Moves env.stdout s.io s'.io
  inherited : s'.io.inherited = s.io.inherited ∨
    (s.parent = .fork ∧ s'.io = s.io.fork .parent .child)

theorem parent_moves (hi : Inv s) (h : OutputOk env s) {now : String}
    (hs : parent env s now = some s') : StreamStep env s s' := by
  have hparent := hi.parent
  unfold ParentOk at hparent
  unfold parent at hs
  cases hpc : s.parent with
  | suspended | exited ret | killed =>
    simp only [hpc] at hs
    cases hs
  | block | install | sigsuspend | handler | unmask =>
    simp only [hpc, Option.some.injEq] at hs
    subst hs
    exact ⟨h.quiet rfl rfl (by simp [State.parentExited, hpc]) rfl, .same rfl, .inl rfl⟩
  | resumed errno =>
    simp only [hpc] at hparent hs
    rw [if_neg (not_not.mpr hparent.1)] at hs
    obtain rfl := Option.some.inj hs
    exact ⟨h.quiet rfl rfl (by simp [State.parentExited, hpc]) rfl, .same rfl, .inl rfl⟩
  | register rest =>
    cases rest with
    | nil | cons f rest =>
      simp only [hpc, Option.some.injEq] at hs
      subst hs
      exact ⟨h.quiet rfl rfl (by simp [State.parentExited, hpc]) rfl, .same rfl, .inl rfl⟩
  | waiting | got | print =>
    simp only [hpc, Option.some.injEq] at hs
    have hp := parent_notMem h (by simp [State.parentExited, hpc])
    subst hs
    exact ⟨h.say .parent _ rfl rfl (by simp [State.parentExited, hpc]) rfl,
      .print .parent _ hp (endsLine_text _) rfl, .inl rfl⟩
  | fork =>
    simp only [hpc, Option.some.injEq] at hparent hs
    obtain ⟨hfresh, -⟩ := hparent
    have hp := parent_notMem h (by simp [State.parentExited, hpc])
    have hq := child_notMem h (by simp [State.childOver, hfresh.child])
    have hnew : s.io.written .child = [] := by
      have hchild := hi.child
      rw [ChildOk, hfresh.child] at hchild
      rw [written_of_lines h, hchild.2]
      rfl
    subst hs
    refine ⟨⟨h.log, ?_, ?_, ?_⟩, .fork .parent .child hp hq hnew rfl, .inr ⟨hpc, rfl⟩⟩
    · exact h.parentOver.trans (by simp [State.parentExited, hpc])
    · exact h.childOver.trans (by simp [State.childOver, hfresh.child])
    · exact h.exits.trans (by simp [State.parentExited, hpc])
  | exit ret =>
    simp only [hpc] at hs
    have hexit : s.parentExited = false := by simp [State.parentExited, hpc]
    have hp := parent_notMem h hexit
    cases hfuncs : s.exitFuncs .parent with
    | nil =>
      simp only [hfuncs, Option.some.injEq] at hs
      subst hs
      refine ⟨⟨h.log, ?_, ?_, ?_⟩, .exit .parent hp rfl, .inl rfl⟩
      · simp [State.parentExited]
      · refine Iff.trans ?_ h.childOver
        simp
      · rw [exit_exits, h.exits, hexit]
        rfl
    | cons f rest =>
      simp only [hfuncs, Option.some.injEq] at hs
      subst hs
      exact ⟨h.say .parent _ rfl rfl (by simp [State.parentExited, hpc]) rfl,
        .print .parent _ hp (endsLine_text _) rfl, .inl rfl⟩

/-- The child's end. -/
theorem OutputOk.abort (h : OutputOk env s) (hsaid : s'.said = s.said)
    (hio : s'.io = s.io.abort .child) (hparent : s'.parentExited = s.parentExited)
    (hchild : s'.childOver = true) : OutputOk env s' := by
  refine ⟨?_, ?_, ?_, ?_⟩
  · rw [hio, hsaid, abort_log, h.log]
  · rw [hio, hparent, abort_ended, ← h.parentOver]
    simp
  · rw [hio, hchild, abort_ended]
    simp
  · rw [hio, hparent, abort_exits, h.exits]

theorem child_moves (h : OutputOk env s) {now : String} (hs : child env s now = some s') :
    StreamStep env s s' := by
  unfold child at hs
  cases hpc : s.child with
  | absent | ended ret | killed =>
    simp only [hpc] at hs
    cases hs
  | register rest =>
    cases rest with
    | nil | cons f rest =>
      simp only [hpc, Option.some.injEq] at hs
      subst hs
      exact ⟨h.quiet rfl rfl rfl (by simp [State.childOver, hpc]), .same rfl, .inl rfl⟩
  | sleep =>
    simp only [hpc, Option.some.injEq] at hs
    subst hs
    exact ⟨h.quiet rfl rfl rfl (by simp [State.childOver, hpc]), .same rfl, .inl rfl⟩
  | kill =>
    simp only [hpc] at hs
    split at hs <;>
    · obtain rfl := Option.some.inj hs
      exact ⟨h.quiet rfl rfl rfl (by simp [State.childOver, hpc]), .same rfl, .inl rfl⟩
  | started | about | killErr =>
    simp only [hpc, Option.some.injEq] at hs
    have hp := child_notMem h (by simp [State.childOver, hpc])
    subst hs
    exact ⟨h.say .child _ rfl rfl rfl (by simp [State.childOver, hpc]),
      .print .child _ hp (endsLine_text _) rfl, .inl rfl⟩
  | exit ret =>
    simp only [hpc, Option.some.injEq] at hs
    subst hs
    exact ⟨h.abort rfl rfl rfl rfl, .abort .child rfl, .inl rfl⟩

theorem step_moves (hi : Inv s) (h : OutputOk env s) {a : Action}
    (hs : (program env).step s a = some s') : StreamStep env s s' := by
  cases a with
  | parent now => exact parent_moves hi h hs
  | child now => exact child_moves h hs
  | deliver =>
    obtain ⟨hpc, rfl⟩ := deliver_cases hi hs
    exact ⟨h.quiet rfl rfl (by simp [State.parentExited, hpc]) rfl, .same rfl, .inl rfl⟩
  | forkFails =>
    simp only [program, step, forkFails, Option.ite_none_right_eq_some, Option.some.injEq] at hs
    obtain ⟨hpc, rfl⟩ := hs
    exact ⟨h.quiet rfl rfl (by simp [State.parentExited, hpc]) rfl, .same rfl, .inl rfl⟩
  | registerFails p =>
    cases p with
    | parent =>
      simp only [program, step, registerFails] at hs
      split at hs
      · rename_i f rest hpc
        have hp := parent_notMem h (by simp [State.parentExited, hpc])
        obtain rfl := Option.some.inj hs
        exact ⟨h.say .parent _ rfl rfl (by simp [State.parentExited, hpc]) rfl,
          .print .parent _ hp (endsLine_text _) rfl, .inl rfl⟩
      · cases hs
    | child =>
      simp only [program, step, registerFails] at hs
      split at hs
      · rename_i f rest hpc
        have hp := child_notMem h (by simp [State.childOver, hpc])
        obtain rfl := Option.some.inj hs
        exact ⟨h.say .child _ rfl rfl rfl (by simp [State.childOver, hpc]),
          .print .child _ hp (endsLine_text _) rfl, .inl rfl⟩
      · cases hs
  | killChild =>
    simp only [program, step, killChild, Option.ite_none_right_eq_some, Option.some.injEq] at hs
    obtain ⟨-, rfl⟩ := hs
    exact ⟨h.abort rfl rfl rfl rfl, .abort .child rfl, .inl rfl⟩

theorem output_invariant (env : Env) :
    (program env).Invariant (fun s => Inv s ∧ OutputOk env s) where
  init s hinit := by
    refine ⟨(inv_invariant env).init s hinit, ?_⟩
    obtain ⟨blocked, rfl⟩ := hinit
    exact ⟨rfl, iff_of_false List.not_mem_nil Bool.false_ne_true,
      iff_of_false List.not_mem_nil Bool.false_ne_true, rfl⟩
  step s a s' hall hs :=
    ⟨(inv_invariant env).step s a s' hall.1 hs, (step_moves hall.1 hall.2 hs).output⟩

/-! ## What reaches the file -/

theorem immediate_of_reachable (hb : env.buffering ≠ .fullyBuffered)
    (h : (program env).Reachable s) : Immediate s.io := by
  induction h with
  | init hinit =>
    obtain ⟨blocked, rfl⟩ := hinit
    exact immediate_start
  | step hr hs ih =>
    obtain ⟨hi, ho⟩ := (output_invariant env).reachable hr
    exact (step_moves hi ho hs).moves.immediate hb ih

/-- A full buffer holds what its process has printed; nothing was printed before the fork. -/
theorem held_of_reachable (hb : env.buffering = .fullyBuffered)
    (h : (program env).Reachable s) (hfits : s.io.volume ≤ env.capacity) :
    Deferred s.io ∧ ∀ p, s.io.inherited p = [] := by
  induction h with
  | init hinit =>
    obtain ⟨blocked, rfl⟩ := hinit
    exact ⟨deferred_start, fun _ => rfl⟩
  | @step s s' a hr hs ih =>
    obtain ⟨hi, ho⟩ := (output_invariant env).reachable hr
    have hstep := step_moves hi ho hs
    obtain ⟨hdeferred, hinherited⟩ := ih (hstep.moves.volume_le.trans hfits)
    refine ⟨hstep.moves.deferred hb hfits hdeferred, fun p => ?_⟩
    rcases hstep.inherited with heq | ⟨hpc, heq⟩
    · rw [heq, hinherited]
    · have hparent := hi.parent
      rw [ParentOk, hpc] at hparent
      have hp := parent_notMem ho (by simp [State.parentExited, hpc])
      have hempty : s.io.pending .parent = [] := by
        rw [hdeferred.pending .parent hp, Stdio.carried, hinherited, written_of_lines ho,
          hparent.1.lines]
        rfl
      rw [heq, fork_inherited, hempty]
      rcases eq_or_ne p .child with rfl | hne
      · exact Function.update_self Party.child [] s.io.inherited
      · rw [Function.update_of_ne hne, hinherited]

/-! ## The end of the parent -/

/-- When the parent has returned, the functions that it registered have run, the last one first,
each once and with the status 0, behind the line about the signal; after a failed fork there is
nothing but the message. No exit function ever runs in the child. -/
theorem exit_functions {ret : ℤ} (h : (program env).Reachable s) (hexit : s.parent = .exited ret) :
    ((ret = -1 ∧ s.lines .parent = [.forkErr] ∧ s.lines .child = []) ∨
      (ret = 0 ∧ ∃ now now' reg errs, Registered reg errs ∧ s.lines .parent =
        .waiting now :: errs ++ .got now' :: reg.reverse.map (fun f => .called f 0))) ∧
    ∀ f status, .called f status ∉ s.lines .child := by
  have hi := inv_of_reachable h
  have hparent := hi.parent
  have hchild := hi.child
  rw [ParentOk, hexit] at hparent
  constructor
  · rcases hparent with ⟨hfuncs, ⟨hret, -, done, now, now', reg, errs, hreg, hlines, hdone⟩ |
      ⟨hret, habsent, hlines⟩⟩
    · rw [hfuncs, List.append_nil] at hdone
      exact .inr ⟨hret, now, now', reg, errs, hreg, hdone ▸ hlines⟩
    · rw [ChildOk, habsent] at hchild
      exact .inl ⟨hret, hlines, hchild.2⟩
  · exact fun f status => hchild.not_called f status

/-- Without full buffering the file has all lines in the order in which they were printed. In a
full buffer that is large enough only the lines of the parent reach it: those of the child are
lost with its `_exit`. -/
theorem lines_file {ret : ℤ} (h : (program env).Reachable s) (hexit : s.parent = .exited ret) :
    (env.buffering ≠ .fullyBuffered →
      s.io.file = (s.said.map (fun x => (env.text x.2).toList)).flatten) ∧
    (env.buffering = .fullyBuffered → s.io.volume ≤ env.capacity →
      s.io.file = ((s.lines .parent).map (fun line => (env.text line).toList)).flatten) := by
  obtain ⟨-, ho⟩ := (output_invariant env).reachable h
  refine ⟨fun hb => ?_, fun hb hfits => ?_⟩
  · rw [(immediate_of_reachable hb h).file, ho.log, List.map_map]
    rfl
  · obtain ⟨hdeferred, hinherited⟩ := held_of_reachable hb h hfits
    have hexited : s.parentExited = true := by rw [State.parentExited, hexit]
    rw [hdeferred.file, ho.exits, hexited, if_pos rfl, List.map_singleton, List.flatten_singleton,
      Stdio.carried, hinherited, List.nil_append, written_of_lines ho]

section Demo

/-- The output goes to a file; the third registration of the parent fails. -/
def fileEnv : Env := ⟨100, 101, .fullyBuffered, 1024⟩

def failedSchedule : List Action :=
  List.replicate 6 (.parent "") ++ [.registerFails .parent] ++ List.replicate 10 (.child "") ++
    [.parent "", .deliver] ++ List.replicate 7 (.parent "")

/-- Where that run ends. -/
def failedEnd : State := (program fileEnv).after (start false) failedSchedule (by decide)

theorem reachable_failedEnd : (program fileEnv).Reachable failedEnd :=
  (program fileEnv).reachable_after ⟨false, rfl⟩ failedSchedule (by decide)

theorem failedEnd_exited : failedEnd.parent = .exited 0 := by decide

theorem exit_functions_failed :
    ∃ now now' reg errs, Registered reg errs ∧ failedEnd.lines .parent =
      .waiting now :: errs ++ .got now' :: reg.reverse.map (fun f => .called f 0) := by
  rcases (exit_functions reachable_failedEnd failedEnd_exited).1 with ⟨hret, -⟩ | ⟨-, hlines⟩
  · cases hret
  · exact hlines

theorem lines_file_failed : failedEnd.io.file =
    ("[]:100 Parent wait for a signal...\natexit() err\n[]:100 Parent get a signal...\n" ++
      "atexit function_1 called\non_exit function called: status=0, arg=10\n").toList := by
  have hfile := (lines_file reachable_failedEnd failedEnd_exited).2 rfl (by decide +kernel)
  rw [hfile]
  decide +kernel

end Demo

end LinuxTemplates.ProcessProgram
