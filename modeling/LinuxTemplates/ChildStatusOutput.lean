import LinuxTemplates.ChildStatusReports

/-!
# What `child_status.cpp` leaves in its output file

On a terminal every line appears when it is printed. In a file a buffer is written out at the
exit of its process, and the child's buffer begins with what the parent had printed before
the fork: the usage line then comes twice.
-/

namespace LinuxTemplates.ChildStatus
open TransitionSystems StdioStreams WaitStatuses WaitStatusPrinter
open PipeTransfer (help)

def Env.usageText (env : Env) : List Char :=
  if env.args.head? = some help then env.usage.toList else []

/-- The lines about an event. -/
def Env.reportText (env : Env) (e : ChildEvent) : List Char :=
  (env.header (waitStatus e)).toList ++ (line env.strsignal e).toList

def Env.reportTexts (env : Env) (es : List ChildEvent) : List Char :=
  (es.map env.reportText).flatten

/-- What the parent has printed at each program point. -/
def State.parentText (env : Env) (s : State) : List Char :=
  match s.parent with
  | .usage => []
  | .fork | .printErr _ | .printPid => env.usageText
  | .waitpid | .test _ => env.usageText ++ env.pid.toList ++ env.reportTexts s.reports.reported
  | .printHeader _ =>
    env.usageText ++ env.pid.toList ++ env.reportTexts s.reports.reported.dropLast
  | .printStatus status => env.usageText ++ env.pid.toList ++
      env.reportTexts s.reports.reported.dropLast ++ (env.header status).toList
  | .leave ret | .exited ret =>
    if ret = 0 then env.usageText ++ env.pid.toList ++ env.reportTexts s.reports.reported
    else env.usageText ++ "fork() err\n".toList

/-- The child came to its end by `exit`. -/
def State.childExited (s : State) : Bool := s.reports.events.any fun
  | .exited _ => true
  | _ => false

def State.parentExited (s : State) : Bool :=
  match s.parent with
  | .exited _ => true
  | _ => false

/-- What the child has printed. -/
def ChildText (env : Env) (s : State) : Prop :=
  match s.child with
  | .absent | .print => s.io.written .child = []
  | .exit | .pause => s.io.written .child = env.started.toList
  | .ended | .reaped => s.childExited = true → s.io.written .child = env.started.toList

structure OutputOk (env : Env) (s : State) : Prop where
  parentText : s.io.written .parent = s.parentText env
  childText : ChildText env s
  parentOver : Party.parent ∈ s.io.ended ↔ s.parentExited = true
  childOver : Party.child ∈ s.io.ended ↔ s.child = .ended ∨ s.child = .reaped
  exits : s.io.exits = (if s.childExited then [.child] else []) ++
    if s.parentExited then [.parent] else []

variable {env : Env} {s s' : State}

/-! ## Lines -/

theorem endsLine_newline : env.stdout.EndsLine "\n".toList := ⟨[], '\n', rfl, rfl⟩

theorem endsLine_usage : env.stdout.EndsLine env.usage.toList :=
  Settings.EndsLine.prepend ⟨" [exit-status]".toList, '\n', by decide, rfl⟩ _

theorem endsLine_started : env.stdout.EndsLine env.started.toList :=
  Settings.EndsLine.prepend ⟨" started...".toList, '\n', by decide, rfl⟩ _

theorem endsLine_pid : env.stdout.EndsLine env.pid.toList := endsLine_newline.prepend _

theorem endsLine_header (status : Int32) : env.stdout.EndsLine (env.header status).toList :=
  Settings.EndsLine.prepend ⟨[')'], '\n', by decide, rfl⟩ _

theorem endsLine_forkErr : env.stdout.EndsLine "fork() err\n".toList :=
  ⟨"fork() err".toList, '\n', by decide, rfl⟩

theorem endsLine_printWaitStatus (status : Int32) :
    env.stdout.EndsLine (printWaitStatus env.strsignal none status).toList := by
  rw [printWaitStatus]
  refine Settings.EndsLine.prepend ?_ _
  split
  · exact endsLine_newline.prepend _
  · split
    · exact endsLine_newline.prepend _
    · split
      · exact Settings.EndsLine.prepend ⟨[')'], '\n', by decide, rfl⟩ _
      · split
        · exact ⟨"Child continued".toList, '\n', by decide, rfl⟩
        · exact endsLine_newline.prepend _

/-! ## What has been printed -/

theorem reportTexts_concat (es : List ChildEvent) (e : ChildEvent) :
    env.reportTexts (es ++ [e]) = env.reportTexts es ++ env.reportText e := by
  simp [Env.reportTexts]

theorem ChildText.frame (h : ChildText env s) (hio : s'.io.written .child = s.io.written .child)
    (hevents : s'.reports.events = s.reports.events)
    (hchild : s'.child = s.child ∨ (s.child = .ended ∧ s'.child = .reaped)) : ChildText env s' := by
  have hexited : s'.childExited = s.childExited := by
    rw [State.childExited, State.childExited, hevents]
  unfold ChildText at h ⊢
  rw [hio, hexited]
  rcases hchild with hc | ⟨hc, hc'⟩
  · rwa [hc]
  · rw [hc']
    rw [hc] at h
    exact h

/-- A step of the parent that prints nothing. -/
theorem OutputOk.quiet (h : OutputOk env s) (hio : s'.io = s.io)
    (hevents : s'.reports.events = s.reports.events)
    (htext : s'.parentText env = s.parentText env)
    (hchild : s'.child = s.child ∨ (s.child = .ended ∧ s'.child = .reaped))
    (hexit : s'.parentExited = s.parentExited) : OutputOk env s' := by
  have hexited : s'.childExited = s.childExited := by
    rw [State.childExited, State.childExited, hevents]
  refine ⟨?_, h.childText.frame (by rw [hio]) hevents hchild, ?_, ?_, ?_⟩
  · rw [hio, htext, h.parentText]
  · rw [hio, hexit, h.parentOver]
  · rw [hio, h.childOver]
    rcases hchild with hc | ⟨hc, hc'⟩
    · rw [hc]
    · exact iff_of_true (.inl hc) (.inr hc')
  · rw [hio, hexited, hexit, h.exits]

/-- A line printed by the parent. -/
theorem OutputOk.parentSays (h : OutputOk env s) {text : List Char}
    (hio : s'.io = s.io.print env.stdout .parent text) (hchild : s'.child = s.child)
    (hreports : s'.reports = s.reports) (htext : s'.parentText env = s.parentText env ++ text)
    (hexit : s'.parentExited = s.parentExited) : OutputOk env s' := by
  have hexited : s'.childExited = s.childExited := by
    rw [State.childExited, State.childExited, hreports]
  refine ⟨?_, h.childText.frame ?_ (by rw [hreports]) (.inl hchild), ?_, ?_, ?_⟩
  · rw [hio, written_print, if_pos rfl, htext, h.parentText]
  · rw [hio, written_print, if_neg (by decide), List.append_nil]
  · rw [hio, print_ended, hexit, h.parentOver]
  · rw [hio, print_ended, hchild, h.childOver]
  · rw [hio, print_exits, hexited, hexit, h.exits]

theorem parent_output (hi : Inv env s) (h : OutputOk env s) (hs : parent env s = some s') :
    OutputOk env s' := by
  have hparent := hi.parent
  unfold ParentOk at hparent
  unfold parent at hs
  cases hpc : s.parent with
  | usage =>
    simp only [hpc] at hs
    obtain rfl := Option.some.inj hs
    by_cases hhelp : env.args.head? = some help
    · rw [if_pos hhelp]
      refine h.parentSays rfl rfl rfl ?_ ?_
      · simp [State.parentText, hpc, Env.usageText, hhelp]
      · simp [State.parentExited, hpc]
    · rw [if_neg hhelp]
      refine h.quiet rfl rfl ?_ (.inl rfl) ?_
      · simp [State.parentText, hpc, Env.usageText, hhelp]
      · simp [State.parentExited, hpc]
  | fork =>
    simp only [hpc] at hparent hs
    obtain rfl := Option.some.inj hs
    have hchild := h.childText
    have hover := h.childOver
    rw [ChildText, hparent] at hchild
    rw [hparent] at hover
    refine ⟨?_, hchild, ?_, ?_, ?_⟩
    · exact h.parentText.trans (by simp [State.parentText, hpc])
    · exact h.parentOver.trans (by simp [State.parentExited, hpc])
    · exact hover.trans (by simp)
    · refine h.exits.trans ?_
      simp [State.parentExited, hpc, State.childExited]
  | printErr line =>
    simp only [hpc] at hparent hs
    obtain ⟨rfl, -⟩ := hparent
    obtain rfl := Option.some.inj hs
    refine h.parentSays rfl rfl rfl ?_ ?_
    · simp [State.parentText, hpc]
    · simp [State.parentExited, hpc]
  | printPid =>
    simp only [hpc] at hparent hs
    obtain rfl := Option.some.inj hs
    refine h.parentSays rfl rfl rfl ?_ ?_
    · simp [State.parentText, hpc, State.say, hparent.2, Env.reportTexts]
    · simp [State.parentExited, hpc]
  | waitpid =>
    simp only [hpc] at hparent hs
    rw [waitpid, if_neg (not_or.mpr hparent)] at hs
    obtain ⟨⟨e, reports⟩, htake, rfl⟩ := Option.map_eq_some_iff.mp hs
    obtain ⟨hun, hevents, -, hreported⟩ := Reports.take_cases htake
    refine h.quiet rfl hevents ?_ ?_ ?_
    · simp [State.parentText, hpc, hreported]
    · dsimp only
      split
      · rename_i hends
        have hc := hi.child
        unfold ChildOk at hc
        cases hchild : s.child with
        | absent => exact absurd hchild hparent.1
        | reaped => exact absurd hchild hparent.2
        | ended => exact .inr ⟨rfl, rfl⟩
        | print | exit | pause =>
          simp only [hchild] at hc
          rw [hc e (unreported_mem hun)] at hends
          cases hends
      · exact .inl rfl
    · simp [State.parentExited, hpc]
  | printHeader status =>
    simp only [hpc] at hparent hs
    obtain rfl := Option.some.inj hs
    refine h.parentSays rfl rfl rfl ?_ ?_
    · simp [State.parentText, hpc, State.say]
    · simp [State.parentExited, hpc]
  | printStatus status =>
    simp only [hpc] at hparent hs
    obtain ⟨e, hlast, hstatus, -⟩ := hparent
    obtain ⟨reported, hreported⟩ := List.getLast?_eq_some_iff.mp hlast
    have hreport : env.reportText e = (env.header status).toList ++
        (printWaitStatus env.strsignal none status).toList := by
      rw [Env.reportText, hstatus, printWaitStatus_packed env.strsignal none (word_waitStatus e),
        Option.getD_none, String.empty_append]
    obtain rfl := Option.some.inj hs
    refine h.parentSays rfl rfl rfl ?_ ?_
    · simp only [State.parentText, hpc, State.say, hreported, reportTexts_concat, hreport,
        List.dropLast_concat, List.append_assoc]
    · simp [State.parentExited, hpc]
  | test status =>
    simp only [hpc] at hs
    obtain rfl := Option.some.inj hs
    -- whether the loop is left
    generalize (wIfExited status || wIfSignaled status) = ended
    refine h.quiet rfl rfl ?_ (.inl rfl) ?_
    · cases ended <;> simp [State.parentText, hpc]
    · cases ended <;> simp [State.parentExited, hpc]
  | leave ret =>
    simp only [hpc] at hs
    obtain rfl := Option.some.inj hs
    have hover := h.parentOver
    have hexits := h.exits
    simp only [State.parentExited, hpc, Bool.false_eq_true, if_false, List.append_nil] at hover hexits
    refine ⟨?_, h.childText, ?_, ?_, ?_⟩
    · refine h.parentText.trans ?_
      rw [State.parentText, hpc]
      rfl
    · simp [State.parentExited]
    · simpa using h.childOver
    · rw [exit_exits, hexits]
      rfl
  | exited ret =>
    simp only [hpc] at hs
    cases hs

theorem any_of_lasting {es : List ChildEvent} (h : Lasting es) :
    es.any (fun
      | .exited _ => true
      | _ => false) = false := by
  rw [List.any_eq_false]
  intro e he
  have hends := h e he
  cases e with
  | exited code => cases hends
  | killed | stopped | continued => exact Bool.false_ne_true

/-- While the child is alive neither process has exited. -/
theorem alive_running (hi : Inv env s) (halive : s.child.alive = true) :
    s.childExited = false ∧ s.parentExited = false := by
  obtain ⟨habsent, hreaped⟩ := ChildPc.ne_of_alive halive
  have hc := hi.child
  have hparent := hi.parent
  constructor
  · apply any_of_lasting
    unfold ChildOk at hc
    cases hpc : s.child <;> simp only [hpc] at hc halive <;> first | exact hc | cases halive
  · unfold ParentOk at hparent
    unfold State.parentExited
    cases hpc : s.parent with
    | exited ret =>
      simp only [hpc] at hparent
      rcases hparent with ⟨-, hchild⟩ | ⟨-, hchild⟩
      · exact absurd hchild habsent
      · exact absurd hchild hreaped
    | _ => rfl

theorem child_output (hi : Inv env s) (h : OutputOk env s) (hs : child env s = some s') :
    OutputOk env s' := by
  have htext := h.childText
  unfold ChildText at htext
  unfold child at hs
  split at hs
  · cases hs
  · cases hpc : s.child with
    | print =>
      simp only [hpc] at hs htext
      have hover := h.childOver
      rw [hpc] at hover
      obtain rfl := Option.some.inj hs
      refine ⟨?_, ?_, h.parentOver, hover.trans ?_, h.exits⟩
      · rw [State.say, written_print, if_neg (by decide), List.append_nil]
        exact h.parentText
      · have hnew : (s.io.print env.stdout .child env.started.toList).written .child =
            env.started.toList := by
          rw [written_print, if_pos rfl, htext, List.nil_append]
        unfold ChildText
        dsimp only
        split_ifs
        · exact hnew
        · exact hnew
      · dsimp only
        split_ifs <;> simp
    | exit =>
      simp only [hpc] at hs htext
      obtain ⟨arg, -, rfl⟩ := Option.map_eq_some_iff.mp hs
      obtain ⟨hchild, hparent⟩ := alive_running hi (by rw [hpc]; rfl)
      have hexits := h.exits
      have hexited : (s.happen (.exited (DecimalStrings.atoi arg).toInt8.toUInt8)).childExited = true := by
        simp [State.childExited, State.happen]
      refine ⟨h.parentText, fun _ => htext, ?_, ?_, ?_⟩
      · refine Iff.trans ?_ h.parentOver
        simp
      · simp
      · rw [hchild, hparent] at hexits
        rw [exit_exits, hexits]
        exact (congrArg₂ (fun b c => (if b then [Party.child] else []) ++ if c then [.parent] else [])
          hexited hparent).symm
    | absent | pause | ended | reaped =>
      simp only [hpc] at hs
      cases hs

/-- A signal that leaves the child alive. -/
theorem OutputOk.signal (h : OutputOk env s) {e : ChildEvent} (hexit : ∀ code, e ≠ .exited code)
    (stopped : Bool) : OutputOk env { s.happen e with childStopped := stopped } := by
  have hexited : (s.happen e).childExited = s.childExited := by
    cases e with
    | exited code => exact absurd rfl (hexit code)
    | killed | stopped | continued => simp [State.childExited, State.happen]
  refine ⟨h.parentText, ?_, h.parentOver, h.childOver, ?_⟩
  · have htext := h.childText
    unfold ChildText at htext ⊢
    cases hpc : s.child <;> simp only [hpc, State.happen] at htext ⊢ <;> first
      | exact htext
      | exact fun hc => htext (hexited.symm.trans hc)
  · have hexits := h.exits
    rw [← hexited] at hexits
    exact hexits

theorem output_invariant (env : Env) :
    (program env).Invariant (fun s => Inv env s ∧ OutputOk env s) where
  init s := by
    rintro rfl
    refine ⟨(inv_invariant env).init start rfl, rfl, rfl, ?_, ?_, rfl⟩
    · exact iff_of_false List.not_mem_nil Bool.false_ne_true
    · exact iff_of_false List.not_mem_nil (by simp [start])
  step s a s' hall hs := by
    obtain ⟨hi, h⟩ := hall
    refine ⟨(inv_invariant env).step s a s' hi hs, ?_⟩
    cases a with
    | parent => exact parent_output hi h hs
    | forkFails =>
      simp only [program, step, forkFails] at hs
      split at hs
      · rename_i hpc
        obtain rfl := Option.some.inj hs
        refine h.quiet rfl rfl ?_ (.inl rfl) ?_
        · simp [State.parentText, hpc]
        · simp [State.parentExited, hpc]
      · cases hs
    | child => exact child_output hi h hs
    | stop sig =>
      simp only [program, step, stop, Option.ite_none_right_eq_some, Option.some.injEq] at hs
      exact hs.2 ▸ h.signal (e := .stopped sig) (by simp) true
    | cont =>
      simp only [program, step, cont, Option.ite_none_right_eq_some, Option.some.injEq] at hs
      exact hs.2 ▸ h.signal (e := .continued) (by simp) false
    | kill sig coreDump =>
      simp only [program, step, kill, Option.ite_none_right_eq_some, Option.some.injEq] at hs
      obtain ⟨halive, rfl⟩ := hs
      obtain ⟨hchild, hparent⟩ := alive_running hi halive
      have hsignal := h.signal (e := .killed sig coreDump) (by simp) s.childStopped
      have hexited : (s.happen (.killed sig coreDump)).childExited = false := by
        rw [← hchild]
        simp [State.childExited, State.happen]
      refine ⟨hsignal.parentText, fun hc => ?_, ?_, ?_, hsignal.exits⟩
      · rw [← Bool.not_eq_false] at hc
        exact absurd hexited hc
      · refine Iff.trans ?_ h.parentOver
        simp
      · simp

/-! ## What reaches the file -/

/-- What a step does to the output. -/
inductive OutputStep (env : Env) (s s' : State) : Prop
  | same (hio : s'.io = s.io)
  | print (p : Party) (text : List Char) (hp : p ∉ s.io.ended) (htext : env.stdout.EndsLine text)
      (hio : s'.io = s.io.print env.stdout p text)
  | fork (hpc : s.parent = .fork) (hio : s'.io = s.io.fork .parent .child)
  | exit (p : Party) (hp : p ∉ s.io.ended) (hio : s'.io = s.io.exit p)
  | abort (hio : s'.io = s.io.abort .child)

theorem parent_notMem (h : OutputOk env s) (hexit : s.parentExited = false) :
    Party.parent ∉ s.io.ended := by
  rw [h.parentOver, hexit]
  exact Bool.false_ne_true

theorem child_notMem (h : OutputOk env s) (hc : s.child ≠ .ended) (hc' : s.child ≠ .reaped) :
    Party.child ∉ s.io.ended := by
  rw [h.childOver, not_or]
  exact ⟨hc, hc'⟩

theorem outputStep (hi : Inv env s) (h : OutputOk env s) {a : Action}
    (hs : step env s a = some s') : OutputStep env s s' := by
  have hparent := hi.parent
  unfold ParentOk at hparent
  cases a with
  | parent =>
    simp only [step, parent] at hs
    cases hpc : s.parent with
    | exited ret =>
      simp only [hpc] at hs
      cases hs
    | waitpid =>
      simp only [hpc, waitpid] at hs hparent
      rw [if_neg (not_or.mpr hparent)] at hs
      obtain ⟨x, -, rfl⟩ := Option.map_eq_some_iff.mp hs
      exact .same rfl
    | usage =>
      have hp := parent_notMem h (by simp [State.parentExited, hpc])
      simp only [hpc] at hs
      obtain rfl := Option.some.inj hs
      split_ifs
      · exact .print .parent _ hp endsLine_usage rfl
      · exact .same rfl
    | fork =>
      simp only [hpc] at hs
      obtain rfl := Option.some.inj hs
      exact .fork hpc rfl
    | test status =>
      simp only [hpc] at hs
      obtain rfl := Option.some.inj hs
      exact .same rfl
    | printErr line =>
      have hp := parent_notMem h (by simp [State.parentExited, hpc])
      simp only [hpc] at hs hparent
      obtain rfl := hparent.1
      obtain rfl := Option.some.inj hs
      exact .print .parent _ hp endsLine_forkErr rfl
    | printPid =>
      have hp := parent_notMem h (by simp [State.parentExited, hpc])
      simp only [hpc] at hs
      obtain rfl := Option.some.inj hs
      exact .print .parent _ hp endsLine_pid rfl
    | printHeader status =>
      have hp := parent_notMem h (by simp [State.parentExited, hpc])
      simp only [hpc] at hs
      obtain rfl := Option.some.inj hs
      exact .print .parent _ hp (endsLine_header status) rfl
    | printStatus status =>
      have hp := parent_notMem h (by simp [State.parentExited, hpc])
      simp only [hpc] at hs
      obtain rfl := Option.some.inj hs
      exact .print .parent _ hp (endsLine_printWaitStatus status) rfl
    | leave ret =>
      have hp := parent_notMem h (by simp [State.parentExited, hpc])
      simp only [hpc] at hs
      obtain rfl := Option.some.inj hs
      exact .exit .parent hp rfl
  | forkFails =>
    simp only [step, forkFails] at hs
    split at hs
    · obtain rfl := Option.some.inj hs
      exact .same rfl
    · cases hs
  | child =>
    simp only [step, child, Option.ite_none_left_eq_some] at hs
    obtain ⟨-, hs⟩ := hs
    cases hpc : s.child with
    | print =>
      have hp := child_notMem h (by simp [hpc]) (by simp [hpc])
      simp only [hpc] at hs
      obtain rfl := Option.some.inj hs
      exact .print .child _ hp endsLine_started rfl
    | exit =>
      have hp := child_notMem h (by simp [hpc]) (by simp [hpc])
      simp only [hpc] at hs
      obtain ⟨arg, -, rfl⟩ := Option.map_eq_some_iff.mp hs
      exact .exit .child hp rfl
    | absent | pause | ended | reaped =>
      simp only [hpc] at hs
      cases hs
  | stop sig =>
    simp only [step, stop, Option.ite_none_right_eq_some, Option.some.injEq] at hs
    exact .same (hs.2 ▸ rfl)
  | cont =>
    simp only [step, cont, Option.ite_none_right_eq_some, Option.some.injEq] at hs
    exact .same (hs.2 ▸ rfl)
  | kill sig coreDump =>
    simp only [step, kill, Option.ite_none_right_eq_some, Option.some.injEq] at hs
    exact .abort (hs.2 ▸ rfl)

theorem OutputStep.moves (h : OutputStep env s s') (hi : Inv env s) (ho : OutputOk env s) :
    Moves env.stdout s.io s'.io := by
  cases h with
  | same hio => exact .same hio
  | print p text hp htext hio => exact .print p text hp htext hio
  | fork hpc hio =>
    have hparent := hi.parent
    have hchild := ho.childText
    rw [ParentOk, hpc] at hparent
    rw [ChildText, hparent] at hchild
    have hp := parent_notMem ho (by simp [State.parentExited, hpc])
    have hq := child_notMem ho (by simp [hparent]) (by simp [hparent])
    exact .fork .parent .child hp hq hchild hio
  | exit p hp hio => exact .exit p hp hio
  | abort hio => exact .abort .child hio

/-- On a terminal, and without a buffer, every line is in the file once it is printed. -/
theorem immediate_of_reachable (hb : env.buffering ≠ .fullyBuffered)
    (h : (program env).Reachable s) : Immediate s.io := by
  have hall : Immediate s.io ∧ Inv env s ∧ OutputOk env s := by
    induction h with
    | init hinit => exact ⟨hinit ▸ immediate_start, (output_invariant env).init _ hinit⟩
    | step hr hs ih =>
      obtain ⟨him, hi, ho⟩ := ih
      exact ⟨((outputStep hi ho hs).moves hi ho).immediate hb him,
        (output_invariant env).step _ _ _ ⟨hi, ho⟩ hs⟩
  exact hall.1

/-- What a full buffer holds, and what the child's began with. -/
structure Held (env : Env) (s : State) : Prop where
  deferred : Deferred s.io
  parent : s.io.inherited .parent = []
  child : s.child ≠ .absent → s.io.inherited .child = env.usageText

/-- Only the fork makes a child. -/
theorem absent_step {a : Action} (hs : step env s a = some s') (hc : s.child = .absent) :
    s'.child = .absent ∨ (s.parent = .fork ∧ s'.io = s.io.fork .parent .child) := by
  have hdead : s.child.alive = false := by rw [hc]; rfl
  cases a with
  | parent =>
    simp only [step, parent] at hs
    cases hpc : s.parent with
    | fork =>
      simp only [hpc] at hs
      obtain rfl := Option.some.inj hs
      exact .inr ⟨rfl, rfl⟩
    | exited ret =>
      simp only [hpc] at hs
      cases hs
    | waitpid =>
      simp only [hpc, waitpid, hc, true_or, if_true] at hs
      obtain rfl := Option.some.inj hs
      exact .inl rfl
    | usage =>
      simp only [hpc] at hs
      obtain rfl := Option.some.inj hs
      left
      split_ifs
      · exact hc
      · exact hc
    | test | printErr | printPid | printHeader | printStatus | leave =>
      simp only [hpc] at hs
      obtain rfl := Option.some.inj hs
      exact .inl hc
  | forkFails =>
    simp only [step, forkFails] at hs
    split at hs
    · obtain rfl := Option.some.inj hs
      exact .inl hc
    · cases hs
  | child => simp [step, child, hc] at hs
  | stop sig => simp [step, stop, hdead] at hs
  | cont => simp [step, cont, hdead] at hs
  | kill sig coreDump => simp [step, kill, hdead] at hs

/-- The child's buffer begins as the parent's buffer is at the fork. -/
theorem Held.forked (h : Held env s) (ho : OutputOk env s) (hpc : s.parent = .fork)
    (hio : s'.io = s.io.fork .parent .child) : s'.io.inherited .child = env.usageText := by
  have hp := parent_notMem ho (by simp [State.parentExited, hpc])
  rw [hio, fork_inherited, Function.update_self, h.deferred.pending .parent hp, Stdio.carried,
    h.parent, List.nil_append, ho.parentText, State.parentText, hpc]

/-- A step that is no fork. -/
theorem Held.keep (h : Held env s) (ho : OutputOk env s) {a : Action}
    (hs : step env s a = some s') (hdeferred : Deferred s'.io)
    (hin : s'.io.inherited = s.io.inherited) : Held env s' := by
  refine ⟨hdeferred, by rw [hin, h.parent], fun hc => ?_⟩
  by_cases habsent : s.child = .absent
  · rcases absent_step hs habsent with hc' | ⟨hpc, hio⟩
    · exact absurd hc' hc
    · exact h.forked ho hpc hio
  · rw [hin, h.child habsent]

theorem held_step (hb : env.buffering = .fullyBuffered) (hi : Inv env s) (ho : OutputOk env s)
    (h : Held env s) {a : Action} (hs : step env s a = some s')
    (hfits : s'.io.volume ≤ env.capacity) : Held env s' := by
  have hstep := outputStep hi ho hs
  have hdeferred := (hstep.moves hi ho).deferred hb hfits h.deferred
  cases hstep with
  | fork hpc hio =>
    refine ⟨hdeferred, ?_, fun _ => h.forked ho hpc hio⟩
    rw [hio, fork_inherited, Function.update_of_ne (by decide), h.parent]
  | same hio => exact h.keep ho hs hdeferred (by rw [hio])
  | print p text _ _ hio => exact h.keep ho hs hdeferred (by rw [hio]; rfl)
  | exit p _ hio => exact h.keep ho hs hdeferred (by rw [hio]; rfl)
  | abort hio => exact h.keep ho hs hdeferred (by rw [hio]; rfl)

theorem held_of_reachable (hb : env.buffering = .fullyBuffered)
    (h : (program env).Reachable s) (hfits : s.io.volume ≤ env.capacity) : Held env s := by
  induction h with
  | init hinit =>
    rw [hinit]
    exact ⟨deferred_start, rfl, fun hc => absurd rfl hc⟩
  | step hr hs ih =>
    obtain ⟨hi, ho⟩ := (output_invariant env).reachable hr
    exact held_step hb hi ho (ih (((outputStep hi ho hs).moves hi ho).volume_le.trans hfits)) hs hfits

/-- At the end the parent has reported its own and its child's lines in order. Without full
buffering all lines are in the file in the order in which they were printed. In a full buffer
that is large enough they stay until the exits: a child that exits writes the parent's usage
line once more, and the lines of a child that is killed are lost. -/
theorem output_file (h : (program env).Reachable s) (hexit : s.parent = .exited 0) :
    s.io.written .parent =
      env.usageText ++ env.pid.toList ++ env.reportTexts s.reports.reported ∧
    (env.buffering ≠ .fullyBuffered → s.io.file = (s.io.log.map Prod.snd).flatten) ∧
    (env.buffering = .fullyBuffered → s.io.volume ≤ env.capacity → s.io.file =
      (if s.childExited then env.usageText ++ env.started.toList else []) ++
        (env.usageText ++ env.pid.toList ++ env.reportTexts s.reports.reported)) := by
  obtain ⟨hi, ho⟩ := (output_invariant env).reachable h
  have hwritten : s.io.written .parent =
      env.usageText ++ env.pid.toList ++ env.reportTexts s.reports.reported := by
    rw [ho.parentText, State.parentText, hexit]
    exact if_pos rfl
  refine ⟨hwritten, fun hb => (immediate_of_reachable hb h).file, fun hb hfits => ?_⟩
  have hheld := held_of_reachable hb h hfits
  have hparent := hi.parent
  have hchild := ho.childText
  rw [ParentOk, hexit] at hparent
  have hreaped : s.child = .reaped := by
    rcases hparent with ⟨hret, -⟩ | ⟨-, hc⟩
    · cases hret
    · exact hc
  have hexited : s.parentExited = true := by rw [State.parentExited, hexit]
  rw [ChildText, hreaped] at hchild
  rw [hheld.deferred.file, ho.exits, hexited, if_pos rfl, List.map_append, List.flatten_append,
    List.map_singleton, List.flatten_singleton, Stdio.carried, hheld.parent, List.nil_append,
    hwritten]
  congr 1
  split
  · rename_i hc
    have hnot : s.child ≠ .absent := by
      simp [hreaped]
    rw [List.map_singleton, List.flatten_singleton, Stdio.carried, hheld.child hnot, hchild hc]
  · rfl

section Demo

/-- The output goes to a file and the argument is `--help`. -/
def helpEnv : Env := ⟨"child_status", [help], fun _ => "", 100, 101, .fullyBuffered, 1024⟩

def helpSchedule : List Action :=
  [.parent, .parent, .child, .child] ++ List.replicate 6 .parent

theorem output_file_help :
    ((program helpEnv).after start helpSchedule (by decide)).io.file =
      (helpEnv.usageText ++ helpEnv.started.toList) ++ (helpEnv.usageText ++ helpEnv.pid.toList ++
        helpEnv.reportTexts [.exited 0]) :=
  (output_file ((program helpEnv).reachable_after rfl helpSchedule (by decide)) rfl).2.2 rfl
    (by decide +kernel)

end Demo

end LinuxTemplates.ChildStatus
