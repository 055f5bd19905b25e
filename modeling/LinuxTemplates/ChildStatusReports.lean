import LinuxTemplates.ChildStatusProgram

/-!
# What the parent of `child_status.cpp` reports

Reports come in the order of the events and none comes twice; an event that is not reported
was replaced by a later one. The loop is left with the report of the child's end, and
`waitpid` never finds that there is no child.
-/

namespace LinuxTemplates.ChildStatus
open TransitionSystems StdioStreams WaitStatuses WaitStatusPrinter
open DecimalStrings (atoi)

/-- None of the events ends the child. -/
def Lasting (es : List ChildEvent) : Prop := ∀ e ∈ es, e.ends = false

/-- The last of the events, and no other, ends the child. -/
def Ending (es : List ChildEvent) : Prop := ∃ before e, es = before ++ [e] ∧ Lasting before ∧ e.ends = true

def ChildOk (s : State) : Prop :=
  match s.child with
  | .absent => s.reports.events = [] ∧ s.reports.reported = [] ∧ s.reports.unreported = none
  | .print | .exit | .pause => Lasting s.reports.events
  | .ended => Ending s.reports.events ∧ s.reports.unreported = s.reports.events.getLast?
  | .reaped => Ending s.reports.events ∧ s.reports.unreported = none

/-- What has been reported at each program point of the parent. -/
def ParentOk (s : State) : Prop :=
  match s.parent with
  | .usage | .fork => s.child = .absent
  | .printErr line => line = "fork() err\n" ∧ s.child = .absent
  | .printPid => (s.child ≠ .absent ∧ s.child ≠ .reaped) ∧ s.reports.reported = []
  | .waitpid => s.child ≠ .absent ∧ s.child ≠ .reaped
  | .printHeader status | .printStatus status | .test status => ∃ e,
    s.reports.reported.getLast? = some e ∧ status = waitStatus e ∧
      (s.child = .reaped ↔ e.ends = true) ∧ s.child ≠ .absent
  | .leave ret | .exited ret => (ret = -1 ∧ s.child = .absent) ∨ (ret = 0 ∧ s.child = .reaped)

/-- What the child exits with. -/
def CodesOk (env : Env) (s : State) : Prop :=
  ∀ code, .exited code ∈ s.reports.events →
    ∃ arg rest, env.args = arg :: rest ∧ code = (atoi arg).toInt8.toUInt8

structure Inv (env : Env) (s : State) : Prop where
  parent : ParentOk s
  child : ChildOk s
  codes : CodesOk env s

variable {env : Env} {s s' : State}

theorem ChildPc.ne_of_alive {pc : ChildPc} (h : pc.alive = true) :
    pc ≠ .absent ∧ pc ≠ .reaped := by
  constructor <;> rintro rfl <;> cases h

theorem lasting_append {es : List ChildEvent} {e : ChildEvent} (h : Lasting es)
    (he : e.ends = false) : Lasting (es ++ [e]) := by
  intro e' he'
  rcases List.mem_append.mp he' with hmem | hmem
  · exact h e' hmem
  · exact List.mem_singleton.mp hmem ▸ he

theorem Lasting.sublist {es es' : List ChildEvent} (h : Lasting es) (hs : es'.Sublist es) :
    Lasting es' := fun e he => h e (hs.subset he)

theorem unreported_mem {e : ChildEvent} (h : s.reports.unreported = some e) :
    e ∈ s.reports.events := by
  apply s.reports.sublist.subset
  rw [h]
  exact List.mem_append_right _ List.mem_cons_self

/-! ## What has been reported -/

theorem reported_lasting (h : ChildOk s) (hne : s.child ≠ .reaped) :
    Lasting s.reports.reported := by
  have hsub := s.reports.sublist
  have hleft : s.reports.reported.Sublist s.reports.events :=
    (List.sublist_append_left _ _).trans hsub
  unfold ChildOk at h
  cases hc : s.child with
  | absent =>
    simp only [hc] at h
    rw [h.2.1]
    exact fun e he => absurd he List.not_mem_nil
  | print | exit | pause =>
    simp only [hc] at h
    exact h.sublist hleft
  | ended =>
    simp only [hc] at h
    obtain ⟨⟨before, e, hevents, hbefore, -⟩, hlast⟩ := h
    rw [hlast, hevents, List.getLast?_concat, Option.toList_some,
      List.append_sublist_append_right] at hsub
    exact hbefore.sublist hsub
  | reaped => exact absurd hc hne

/-- The report of the child's end is the last one. -/
theorem reported_ending (h : ChildOk s) (hc : s.child = .reaped) : Ending s.reports.reported := by
  have hsub := s.reports.sublist
  have hlast := s.reports.last
  rw [ChildOk, hc] at h
  obtain ⟨⟨before, e, hevents, hbefore, hends⟩, hnone⟩ := h
  rw [hnone, Option.toList_none, List.append_nil] at hsub hlast
  rw [hevents, List.getLast?_concat] at hlast
  obtain ⟨reported, hreported⟩ := List.getLast?_eq_some_iff.mp hlast
  rw [hreported, hevents, List.append_sublist_append_right] at hsub
  exact ⟨reported, e, hreported, hbefore.sublist hsub, hends⟩

/-! ## Steps -/

theorem ParentOk.frame (h : ParentOk s) (hp : s'.parent = s.parent)
    (hr : s'.reports.reported = s.reports.reported)
    (habsent : s'.child = .absent ↔ s.child = .absent)
    (hreaped : s'.child = .reaped ↔ s.child = .reaped) : ParentOk s' := by
  unfold ParentOk at h ⊢
  rw [hp]
  cases hpc : s.parent <;> simp only [hpc] at h ⊢ <;>
    simpa only [hr, habsent, hreaped, ne_eq] using h

/-- An event happens to a child that is alive. -/
theorem Inv.happen (h : Inv env s) {e : ChildEvent} (halive : s.child.alive = true)
    (hr : s'.reports = s.reports.happen e) (hp : s'.parent = s.parent)
    (hchild : if e.ends then s'.child = .ended else s'.child = s.child)
    (hcode : ∀ code, e = .exited code →
      ∃ arg rest, env.args = arg :: rest ∧ code = (atoi arg).toInt8.toUInt8) : Inv env s' := by
  have hlasting : Lasting s.reports.events := by
    have hc := h.child
    unfold ChildOk at hc
    cases hpc : s.child <;> simp only [hpc] at hc halive <;> first | exact hc | cases halive
  have hold := ChildPc.ne_of_alive halive
  have hnew : s'.child ≠ .absent ∧ s'.child ≠ .reaped := by
    split at hchild
    · rw [hchild]
      exact ⟨nofun, nofun⟩
    · rw [hchild]
      exact hold
  refine ⟨h.parent.frame hp (by rw [hr, Reports.happen_reported]) ?_ ?_, ?_, fun code hmem => ?_⟩
  · exact iff_of_false hnew.1 hold.1
  · exact iff_of_false hnew.2 hold.2
  · unfold ChildOk
    rw [hr, Reports.happen_events, Reports.happen_unreported]
    split at hchild
    · rename_i hends
      simp only [hchild]
      exact ⟨⟨s.reports.events, e, rfl, hlasting, hends⟩, List.getLast?_concat.symm⟩
    · rename_i hends
      have happend := lasting_append hlasting (eq_false_of_ne_true hends)
      rw [hchild]
      cases hpc : s.child <;> simp only [hpc] at halive ⊢ <;>
        first | exact happend | cases halive
  · rw [hr, Reports.happen_events] at hmem
    rcases List.mem_append.mp hmem with hmem | hmem
    · exact h.codes code hmem
    · exact hcode code (List.mem_singleton.mp hmem).symm

theorem waitpid_inv (h : Inv env s) (hpc : s.parent = .waitpid) (hs : waitpid s = some s') :
    Inv env s' := by
  have hparent := h.parent
  rw [ParentOk, hpc] at hparent
  obtain ⟨habsent, hreaped⟩ := hparent
  rw [waitpid, if_neg (not_or.mpr ⟨habsent, hreaped⟩)] at hs
  obtain ⟨⟨e, reports⟩, htake, rfl⟩ := Option.map_eq_some_iff.mp hs
  obtain ⟨hun, hevents, hnone, hreported⟩ := Reports.take_cases htake
  have hc := h.child
  have hlast : reports.reported.getLast? = some e := by
    rw [hreported, List.getLast?_concat]
  refine ⟨⟨e, hlast, rfl, ?_, ?_⟩, ?_, ?_⟩
  · dsimp only
    split
    · rename_i hends
      exact iff_of_true rfl hends
    · rename_i hends
      exact iff_of_false hreaped hends
  · dsimp only
    split
    · exact nofun
    · exact habsent
  · unfold ChildOk at hc ⊢
    dsimp only
    cases hpc : s.child with
    | absent => exact absurd hpc habsent
    | reaped => exact absurd hpc hreaped
    | print | exit | pause =>
      simp only [hpc] at hc
      have hends : e.ends = false := hc e (unreported_mem hun)
      simp only [hends, Bool.false_eq_true, if_false]
      rwa [hevents]
    | ended =>
      simp only [hpc] at hc
      obtain ⟨⟨before, e', heq, hbefore, hends⟩, hslot⟩ := hc
      rw [hun, heq, List.getLast?_concat] at hslot
      obtain rfl := Option.some.inj hslot
      simp only [hends, if_true]
      exact ⟨⟨before, e, hevents.trans heq, hbefore, hends⟩, hnone⟩
  · intro code hmem
    exact h.codes code (hevents ▸ hmem)

theorem parent_inv (h : Inv env s) (hs : parent env s = some s') : Inv env s' := by
  have hparent := h.parent
  unfold ParentOk at hparent
  unfold parent at hs
  cases hpc : s.parent with
  | usage =>
    simp only [hpc] at hparent hs
    obtain rfl := Option.some.inj hs
    split
    · exact ⟨hparent, h.child, h.codes⟩
    · exact ⟨hparent, h.child, h.codes⟩
  | fork =>
    simp only [hpc] at hparent hs
    obtain rfl := Option.some.inj hs
    have hc := h.child
    rw [ChildOk, hparent] at hc
    refine ⟨⟨⟨nofun, nofun⟩, hc.2.1⟩, fun e he => ?_, h.codes⟩
    rw [hc.1] at he
    exact absurd he List.not_mem_nil
  | printErr line =>
    simp only [hpc] at hparent hs
    obtain rfl := Option.some.inj hs
    exact ⟨.inl ⟨rfl, hparent.2⟩, h.child, h.codes⟩
  | printPid =>
    simp only [hpc] at hparent hs
    obtain rfl := Option.some.inj hs
    exact ⟨hparent.1, h.child, h.codes⟩
  | waitpid =>
    simp only [hpc] at hs
    exact waitpid_inv h hpc hs
  | printHeader status =>
    simp only [hpc] at hparent hs
    obtain rfl := Option.some.inj hs
    exact ⟨hparent, h.child, h.codes⟩
  | printStatus status =>
    simp only [hpc] at hparent hs
    obtain rfl := Option.some.inj hs
    exact ⟨hparent, h.child, h.codes⟩
  | test status =>
    simp only [hpc] at hparent hs
    obtain ⟨e, -, rfl, hreaped, habsent⟩ := hparent
    obtain rfl := Option.some.inj hs
    refine ⟨?_, h.child, h.codes⟩
    rw [ends_waitStatus]
    unfold ParentOk
    cases hends : e.ends with
    | true => exact .inr ⟨rfl, hreaped.mpr hends⟩
    | false => exact ⟨habsent, fun hc => Bool.false_ne_true (hends ▸ hreaped.mp hc)⟩
  | leave ret =>
    simp only [hpc] at hparent hs
    obtain rfl := Option.some.inj hs
    exact ⟨hparent, h.child, h.codes⟩
  | exited ret =>
    simp only [hpc] at hs
    cases hs

theorem child_inv (h : Inv env s) (hs : child env s = some s') : Inv env s' := by
  unfold child at hs
  split at hs
  · cases hs
  · cases hpc : s.child with
    | print =>
      simp only [hpc] at hs
      obtain rfl := Option.some.inj hs
      have hc := h.child
      rw [ChildOk, hpc] at hc
      have hold := ChildPc.ne_of_alive (show s.child.alive = true by rw [hpc]; rfl)
      have hnew := ChildPc.ne_of_alive
        (show (if env.args = [] then ChildPc.pause else .exit).alive = true by split <;> rfl)
      refine ⟨h.parent.frame rfl rfl (iff_of_false hnew.1 hold.1) (iff_of_false hnew.2 hold.2),
        ?_, h.codes⟩
      · unfold ChildOk
        dsimp only
        split_ifs
        · exact hc
        · exact hc
    | exit =>
      simp only [hpc] at hs
      obtain ⟨arg, harg, rfl⟩ := Option.map_eq_some_iff.mp hs
      obtain ⟨rest, hargs⟩ := List.head?_eq_some_iff.mp harg
      refine h.happen (by rw [hpc]; rfl) rfl rfl rfl (fun code hcode => ?_)
      exact ⟨arg, rest, hargs, (ChildEvent.exited.inj hcode).symm⟩
    | absent | pause | ended | reaped =>
      simp only [hpc] at hs
      cases hs

theorem inv_invariant (env : Env) : (program env).Invariant (Inv env) where
  init s := by
    rintro rfl
    exact ⟨rfl, ⟨rfl, rfl, rfl⟩, fun code hmem => absurd hmem List.not_mem_nil⟩
  step s a s' h hs := by
    cases a with
    | parent => exact parent_inv h hs
    | forkFails =>
      simp only [program, step, forkFails] at hs
      split at hs
      · rename_i hpc
        have hparent := h.parent
        rw [ParentOk, hpc] at hparent
        obtain rfl := Option.some.inj hs
        exact ⟨⟨rfl, hparent⟩, h.child, h.codes⟩
      · cases hs
    | child => exact child_inv h hs
    | stop sig =>
      simp only [program, step, stop, Option.ite_none_right_eq_some, Option.some.injEq] at hs
      obtain ⟨⟨halive, -⟩, rfl⟩ := hs
      exact h.happen halive rfl rfl rfl nofun
    | cont =>
      simp only [program, step, cont, Option.ite_none_right_eq_some, Option.some.injEq] at hs
      obtain ⟨⟨halive, -⟩, rfl⟩ := hs
      exact h.happen halive rfl rfl rfl nofun
    | kill sig coreDump =>
      simp only [program, step, kill, Option.ite_none_right_eq_some, Option.some.injEq] at hs
      obtain ⟨halive, rfl⟩ := hs
      exact h.happen halive rfl rfl rfl nofun

theorem inv_of_reachable (h : (program env).Reachable s) : Inv env s :=
  (inv_invariant env).reachable h

/-! ## Progress -/

/-- The parent waits only for a child that is alive and of which everything is reported. -/
theorem parent_enabled (h : Inv env s) (hexit : ∀ ret, s.parent ≠ .exited ret)
    (hquiet : s.child.alive = true → s.reports.unreported ≠ none) :
    (program env).Enabled s .parent := by
  have hparent := h.parent
  have hc := h.child
  unfold ParentOk at hparent
  unfold ChildOk at hc
  change (parent env s).isSome = true
  unfold parent
  cases hpc : s.parent with
  | exited ret => exact absurd hpc (hexit ret)
  | waitpid =>
    simp only [hpc] at hparent
    have hsome : s.reports.unreported ≠ none := by
      cases hchild : s.child with
      | absent => exact absurd hchild hparent.1
      | reaped => exact absurd hchild hparent.2
      | print | exit | pause => exact hquiet (by rw [hchild]; rfl)
      | ended =>
        simp only [hchild] at hc
        obtain ⟨⟨before, e, heq, -, -⟩, hslot⟩ := hc
        rw [hslot, heq, List.getLast?_concat]
        exact Option.some_ne_none e
    dsimp only
    rw [waitpid, if_neg (not_or.mpr hparent), Option.isSome_map, Reports.take_isSome]
    exact Option.isSome_iff_ne_none.mpr hsome
  | usage | fork | printErr | printPid | printHeader | printStatus | test | leave => rfl

def ParentPc.weight : ParentPc → ℕ
  | .exited _ => 0
  | .leave _ => 1
  | .printErr _ => 2
  | .waitpid => 3
  | .printPid | .test _ => 4
  | .fork | .printStatus _ => 5
  | .usage | .printHeader _ => 6

/-- What is left to do for the parent of a child that is no more. -/
def State.weight (s : State) : ℕ :=
  s.parent.weight + if s.reports.unreported.isSome then 6 else 0

def State.Over (env : Env) (s : State) : Prop := Inv env s ∧ (s.child = .ended ∨ s.child = .reaped)

theorem waitpid_weight (hover : s.Over env) (hpc : s.parent = .waitpid)
    (hs : waitpid s = some s') : s'.Over env ∧ s'.weight < s.weight := by
  obtain ⟨h, hchild⟩ := hover
  have hinv := waitpid_inv h hpc hs
  have hparent := h.parent
  rw [ParentOk, hpc] at hparent
  rw [waitpid, if_neg (not_or.mpr hparent)] at hs
  obtain ⟨⟨e, reports⟩, htake, rfl⟩ := Option.map_eq_some_iff.mp hs
  obtain ⟨hun, -, hnone, -⟩ := Reports.take_cases htake
  refine ⟨⟨hinv, ?_⟩, ?_⟩
  · dsimp only
    split
    · exact .inr rfl
    · exact hchild
  · simp [State.weight, hpc, hun, hnone, ParentPc.weight]

/-- After the child's end only the parent moves, and it comes to its own end. -/
theorem step_weight (hover : s.Over env) {a : Action} (hs : (program env).step s a = some s') :
    s'.Over env ∧ s'.weight < s.weight := by
  obtain ⟨h, hchild⟩ := hover
  have hinv := (inv_invariant env).step s a s' h hs
  have hdead : s.child.alive = false := by
    rcases hchild with hc | hc <;> rw [hc] <;> rfl
  have habsent : s.child ≠ .absent := by
    rcases hchild with hc | hc <;> rw [hc] <;> exact nofun
  have hparent := h.parent
  unfold ParentOk at hparent
  cases a with
  | parent =>
    cases hpc : s.parent with
    | waitpid =>
      refine waitpid_weight ⟨h, hchild⟩ hpc ?_
      simpa only [program, step, parent, hpc] using hs
    | usage | fork =>
      simp only [hpc] at hparent
      exact absurd hparent habsent
    | printErr line =>
      simp only [hpc] at hparent
      exact absurd hparent.2 habsent
    | test status =>
      simp only [program, step, parent, hpc, Option.some.injEq] at hs
      subst hs
      refine ⟨⟨hinv, hchild⟩, ?_⟩
      simp only [State.weight, hpc]
      cases wIfExited status || wIfSignaled status <;> simp [ParentPc.weight]
    | printPid | printHeader status | printStatus status | leave ret =>
      simp only [program, step, parent, hpc, Option.some.injEq] at hs
      subst hs
      exact ⟨⟨hinv, hchild⟩, by simp [State.weight, hpc, ParentPc.weight, State.say]⟩
    | exited ret =>
      simp only [program, step, parent, hpc] at hs
      cases hs
  | forkFails =>
    simp only [program, step, forkFails] at hs
    split at hs
    · rename_i hpc
      simp only [hpc] at hparent
      exact absurd hparent habsent
    · cases hs
  | child =>
    simp only [program, step, child, Option.ite_none_left_eq_some] at hs
    obtain ⟨-, hs⟩ := hs
    rcases hchild with hc | hc <;> simp only [hc] at hs <;> cases hs
  | stop sig => simp [program, step, stop, hdead] at hs
  | cont => simp [program, step, cont, hdead] at hs
  | kill sig coreDump => simp [program, step, kill, hdead] at hs

theorem run_length_le (hover : s.Over env) {as : List Action}
    (hrun : (program env).run s as = some s') : as.length ≤ s.weight :=
  System.length_run_le (I := State.Over env) (fun _ _ _ ht hs => (step_weight ht hs).1)
    (fun _ _ _ ht hs => (step_weight ht hs).2) hover hrun

/-- In every run: `waitpid` does not fail, the loop goes on while what was reported does not end
the child and is left with the report that does, the code reported for an exit is the
argument's, the parent waits only for a child that is alive, and when the child is no more it
ends after a few steps. -/
theorem reports_faithful (h : (program env).Reachable s) :
    (∀ line, s.parent = .printErr line → line = "fork() err\n") ∧
    s.reports.reported.Sublist s.reports.events ∧
    (s.parent = .waitpid → Lasting s.reports.reported) ∧
    (∀ ret, s.parent = .exited ret → (ret = -1 ∧ s.reports.events = []) ∨
      (ret = 0 ∧ Ending s.reports.reported ∧
        s.reports.reported.getLast? = s.reports.events.getLast?)) ∧
    (∀ code, .exited code ∈ s.reports.events →
      ∃ arg rest, env.args = arg :: rest ∧ code = (atoi arg).toInt8.toUInt8) ∧
    ((∀ ret, s.parent ≠ .exited ret) →
      (program env).Enabled s .parent ∨ (s.child.alive = true ∧ s.reports.unreported = none)) ∧
    (s.child = .ended ∨ s.child = .reaped →
      ∀ as s', (program env).run s as = some s' → as.length ≤ 12) := by
  have hi := inv_of_reachable h
  have hparent := hi.parent
  unfold ParentOk at hparent
  refine ⟨fun line hpc => ?_, ?_, fun hpc => ?_, fun ret hpc => ?_, hi.codes, fun hexit => ?_,
    fun hchild as s' hrun => ?_⟩
  · simp only [hpc] at hparent
    exact hparent.1
  · exact (List.sublist_append_left _ _).trans s.reports.sublist
  · simp only [hpc] at hparent
    exact reported_lasting hi.child hparent.2
  · simp only [hpc] at hparent
    have hc := hi.child
    rcases hparent with ⟨hret, habsent⟩ | ⟨hret, hreaped⟩
    · rw [ChildOk, habsent] at hc
      exact .inl ⟨hret, hc.1⟩
    · have hlast := s.reports.last
      rw [ChildOk, hreaped] at hc
      rw [hc.2, Option.toList_none, List.append_nil] at hlast
      exact .inr ⟨hret, reported_ending hi.child hreaped, hlast⟩
  · by_cases hquiet : s.child.alive = true ∧ s.reports.unreported = none
    · exact .inr hquiet
    · exact .inl (parent_enabled hi hexit (fun halive hnone => hquiet ⟨halive, hnone⟩))
  · refine (run_length_le ⟨hi, hchild⟩ hrun).trans ?_
    have hpc : s.parent.weight ≤ 6 := by
      cases s.parent <;> simp [ParentPc.weight]
    rw [State.weight]
    split <;> omega

section Demo

def demoEnv : Env := ⟨"child_status", [], fun _ => "", 100, 101, .lineBuffered, 1024⟩

/-- The child is continued before its stop is reported, and killed in the end. -/
def killedSchedule : List Action :=
  [.parent, .parent, .child, .parent, .stop ⟨19, by decide, by decide⟩, .cont] ++
    List.replicate 4 .parent ++ [.kill ⟨15, by decide, by decide⟩ false] ++
    List.replicate 5 .parent

theorem reports_faithful_killed :
    ((program demoEnv).after start killedSchedule (by decide)).reports.reported =
        [.continued, .killed ⟨15, by decide, by decide⟩ false] ∧
      Ending ((program demoEnv).after start killedSchedule (by decide)).reports.reported := by
  have hfaithful := reports_faithful
    ((program demoEnv).reachable_after rfl killedSchedule (by decide))
  refine ⟨rfl, ?_⟩
  rcases hfaithful.2.2.2.1 0 rfl with ⟨hret, -⟩ | ⟨-, hending, -⟩
  · cases hret
  · exact hending

end Demo

end LinuxTemplates.ChildStatus
