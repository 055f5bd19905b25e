import LinuxTemplates.ProcessProgram

/-!
# No lost signal in `process.cpp`

SIGUSR1 is blocked from before the fork until `sigsuspend`, so the child's signal waits for the
parent whenever it comes, and it reaches the parent nowhere else.
-/

namespace LinuxTemplates.ProcessProgram
open TransitionSystems StdioStreams

/-- What a process has printed, in order. -/
def State.lines (s : State) (p : Party) : List Line :=
  (s.said.filter (fun x => x.1 = p)).map Prod.snd

/-- The functions registered, and the error message unless these are all. -/
def Registered (reg : List ExitFunc) (errs : List Line) : Prop :=
  ∃ rest, registerExitFunc = reg ++ rest ∧ errs = (rest.head?.map .registerErr).toList

/-- SIGUSR1 has been received, or is no longer waited for. -/
def ParentPc.woken : ParentPc → Bool
  | .handler | .resumed _ | .got | .unmask => true
  | .exit ret | .exited ret => ret = 0
  | _ => false

/-- Nothing has happened yet. -/
structure Fresh (s : State) : Prop where
  child : s.child = .absent
  lines : s.lines .parent = []
  exitFuncs : s.exitFuncs .parent = []

/-- SIGUSR1 has its handler and is blocked. -/
structure Armed (s : State) : Prop where
  child : s.child ≠ .absent
  installed : s.installed = true
  blocked : s.blocked = true

/-- The parent has registered its exit functions. -/
def Waits (s : State) : Prop :=
  ∃ now reg errs, Registered reg errs ∧ s.lines .parent = .waiting now :: errs ∧
    s.exitFuncs .parent = reg.reverse

/-- The parent has received its signal and run some exit functions. -/
def Runs (s : State) (done : List ExitFunc) : Prop :=
  ∃ now now' reg errs, Registered reg errs ∧
    s.lines .parent = .waiting now :: errs ++ .got now' :: done.map (fun f => .called f 0) ∧
    reg.reverse = done ++ s.exitFuncs .parent

def ParentOk (s : State) : Prop :=
  match s.parent with
  | .block => Fresh s
  | .install => Fresh s ∧ s.blocked = true
  | .fork => Fresh s ∧ s.installed = true ∧ s.blocked = true
  | .waiting => Armed s ∧ s.lines .parent = [] ∧ s.exitFuncs .parent = []
  | .register rest => Armed s ∧ ∃ now reg, registerExitFunc = reg ++ rest ∧
    s.lines .parent = [.waiting now] ∧ s.exitFuncs .parent = reg.reverse
  | .sigsuspend => Armed s ∧ Waits s
  | .suspended => s.child ≠ .absent ∧ s.installed = true ∧ s.blocked = false ∧
    s.suspendMask = true ∧ Waits s
  | .handler => Armed s ∧ s.suspendMask = true ∧ Waits s
  | .resumed errno => errno = EINTR ∧ Armed s ∧ Waits s
  | .got => Armed s ∧ Waits s
  | .unmask => Armed s ∧ Runs s []
  | .print line ret => line = .forkErr ∧ ret = -1 ∧ Fresh s
  | .exit ret => (ret = 0 ∧ s.child ≠ .absent ∧ ∃ done, Runs s done) ∨
    (ret = -1 ∧ s.child = .absent ∧ s.lines .parent = [.forkErr] ∧ s.exitFuncs .parent = [])
  | .exited ret => s.exitFuncs .parent = [] ∧
    ((ret = 0 ∧ s.child ≠ .absent ∧ ∃ done, Runs s done) ∨
    (ret = -1 ∧ s.child = .absent ∧ s.lines .parent = [.forkErr]))
  | .killed => False

/-- The child has registered its exit functions. -/
def Works (s : State) : Prop :=
  ∃ now reg errs, Registered reg errs ∧ s.lines .child = .started now :: errs

/-- The child has announced its signal. -/
def Announced (s : State) : Prop :=
  ∃ now now' reg errs, Registered reg errs ∧
    s.lines .child = .started now :: errs ++ [.about now']

def ChildOk (s : State) : Prop :=
  match s.child with
  | .absent | .started => s.sent = false ∧ s.lines .child = []
  | .register rest => s.sent = false ∧ ∃ now reg, registerExitFunc = reg ++ rest ∧
    s.lines .child = [.started now]
  | .sleep | .about => s.sent = false ∧ Works s
  | .kill => s.sent = false ∧ Announced s
  | .killErr => False
  | .exit ret | .ended ret => ret = 0 ∧ s.sent = true ∧ Announced s
  | .killed => ∃ now now' reg errs, Registered reg errs ∧
    s.lines .child <+: .started now :: errs ++ [.about now']

/-- Every `x` with `Q` stands behind some `y` with `P`. -/
def Preceded {α : Type*} (P Q : α → Prop) (l : List α) : Prop :=
  ∀ before x after, l = before ++ x :: after → Q x → ∃ y ∈ before, P y

def IsAbout (x : Party × Line) : Prop := ∃ now, x = (.child, .about now)

def IsGot (x : Party × Line) : Prop := ∃ now, x = (.parent, .got now)

structure Inv (s : State) : Prop where
  parent : ParentOk s
  child : ChildOk s
  sent_iff : s.sent = true ↔ s.pending = true ∨ s.parent.woken = true
  once : s.pending = true → s.parent.woken = false
  announced : s.sent = true → ∃ x ∈ s.said, IsAbout x
  order : Preceded IsAbout IsGot s.said

/-! ## One line more -/

theorem preceded_append {α : Type*} {P Q : α → Prop} {l : List α} {x : α} (h : Preceded P Q l)
    (hx : Q x → ∃ y ∈ l, P y) : Preceded P Q (l ++ [x]) :=
  System.splits_append h hx

variable {env : Env} {s s' : State}

theorem lines_say (env : Env) (p q : Party) (line : Line) :
    (s.say env p line).lines q = s.lines q ++ if p = q then [line] else [] := by
  simp only [State.lines, State.say, List.filter_append, List.map_append]
  congr 1
  by_cases h : p = q <;> simp [h]

@[simp] theorem lines_say_self (env : Env) (p : Party) (line : Line) :
    (s.say env p line).lines p = s.lines p ++ [line] := by
  rw [lines_say, if_pos rfl]

/-- What the child is in does not depend on the parent. -/
theorem ChildOk.frame (h : ChildOk s) (hchild : s'.child = s.child)
    (hlines : s'.lines .child = s.lines .child) (hsent : s'.sent = s.sent) : ChildOk s' := by
  unfold ChildOk Works Announced at h ⊢
  rwa [hchild, hlines, hsent]

/-- What the parent is in does not depend on the child once it has been forked. -/
theorem ParentOk.frame (h : ParentOk s) (hparent : s'.parent = s.parent)
    (hlines : s'.lines .parent = s.lines .parent)
    (hfuncs : s'.exitFuncs .parent = s.exitFuncs .parent) (hinstalled : s'.installed = s.installed)
    (hblocked : s'.blocked = s.blocked) (hmask : s'.suspendMask = s.suspendMask)
    (hold : s.child ≠ .absent) (hnew : s'.child ≠ .absent) : ParentOk s' := by
  have harmed : Armed s → Armed s' := fun ha =>
    ⟨hnew, hinstalled.trans ha.installed, hblocked.trans ha.blocked⟩
  have hwaits : Waits s → Waits s' := by
    unfold Waits
    rw [hlines, hfuncs]
    exact id
  have hruns : ∀ done, Runs s done → Runs s' done := by
    intro done
    unfold Runs
    rw [hlines, hfuncs]
    exact id
  unfold ParentOk at h ⊢
  rw [hparent]
  cases hpc : s.parent with
  | block | install | fork | print =>
    simp only [hpc] at h
    first
      | exact absurd h.child hold
      | exact absurd h.1.child hold
      | exact absurd h.2.2.child hold
  | waiting | register rest =>
    simp only [hpc] at h ⊢
    rw [hlines, hfuncs]
    exact ⟨harmed h.1, h.2⟩
  | sigsuspend | got =>
    simp only [hpc] at h
    exact ⟨harmed h.1, hwaits h.2⟩
  | suspended =>
    simp only [hpc] at h
    exact ⟨hnew, hinstalled.trans h.2.1, hblocked.trans h.2.2.1, hmask.trans h.2.2.2.1,
      hwaits h.2.2.2.2⟩
  | handler =>
    simp only [hpc] at h
    exact ⟨harmed h.1, hmask.trans h.2.1, hwaits h.2.2⟩
  | resumed errno =>
    simp only [hpc] at h
    exact ⟨h.1, harmed h.2.1, hwaits h.2.2⟩
  | unmask =>
    simp only [hpc] at h
    exact ⟨harmed h.1, hruns [] h.2⟩
  | exit ret =>
    simp only [hpc] at h
    rcases h with ⟨hret, -, done, hdone⟩ | ⟨-, habsent, -⟩
    · exact .inl ⟨hret, hnew, done, hruns done hdone⟩
    · exact absurd habsent hold
  | exited ret =>
    simp only [hpc] at h
    rcases h with ⟨hempty, ⟨hret, -, done, hdone⟩ | ⟨-, habsent, -⟩⟩
    · exact ⟨hfuncs.trans hempty, .inl ⟨hret, hnew, done, hruns done hdone⟩⟩
    · exact absurd habsent hold
  | killed =>
    simp only [hpc] at h

/-! ## What holds in every interleaving -/

/-- The parent goes on without a word. -/
theorem Inv.quiet (h : Inv s) (hparent : ParentOk s') (hchild : s'.child = s.child)
    (hsent : s'.sent = s.sent) (hpending : s'.pending = s.pending) (hsaid : s'.said = s.said)
    (hwoken : s'.parent.woken = s.parent.woken) : Inv s' := by
  refine ⟨hparent, h.child.frame hchild (by rw [State.lines, hsaid]; rfl) hsent, ?_, ?_, ?_, ?_⟩
  · rw [hsent, hpending, hwoken, h.sent_iff]
  · rw [hpending, hwoken]
    exact h.once
  · rw [hsent, hsaid]
    exact h.announced
  · rw [hsaid]
    exact h.order

/-- The parent says something. -/
theorem Inv.say (h : Inv s) (line : Line) (hgot : ∀ now, line = .got now → s.sent = true)
    (hparent : ParentOk s') (hchild : s'.child = s.child) (hsent : s'.sent = s.sent)
    (hpending : s'.pending = s.pending) (hsaid : s'.said = s.said ++ [(.parent, line)])
    (hwoken : s'.parent.woken = s.parent.woken) : Inv s' := by
  refine ⟨hparent, h.child.frame hchild (by simp [State.lines, hsaid]) hsent, ?_, ?_,
    fun hs => ?_, ?_⟩
  · rw [hsent, hpending, hwoken, h.sent_iff]
  · rw [hpending, hwoken]
    exact h.once
  · obtain ⟨x, hx, hann⟩ := h.announced (hsent ▸ hs)
    exact ⟨x, hsaid ▸ List.mem_append_left _ hx, hann⟩
  · rw [hsaid]
    refine preceded_append h.order (fun hx => ?_)
    obtain ⟨now, hx⟩ := hx
    exact h.announced (hgot now (congrArg Prod.snd hx))

theorem parent_inv (h : Inv s) {now : String} (hs : parent env s now = some s') : Inv s' := by
  have hparent := h.parent
  unfold ParentOk at hparent
  unfold parent at hs
  cases hpc : s.parent with
  | block =>
    simp only [hpc, Option.some.injEq] at hparent hs
    subst hs
    exact h.quiet ⟨⟨hparent.child, hparent.lines, hparent.exitFuncs⟩, rfl⟩ rfl rfl rfl rfl
      (by rw [hpc]; rfl)
  | install =>
    simp only [hpc, Option.some.injEq] at hparent hs
    obtain ⟨hfresh, hblocked⟩ := hparent
    subst hs
    exact h.quiet ⟨⟨hfresh.child, hfresh.lines, hfresh.exitFuncs⟩, rfl, hblocked⟩ rfl rfl rfl rfl
      (by rw [hpc]; rfl)
  | fork =>
    simp only [hpc, Option.some.injEq] at hparent hs
    obtain ⟨hfresh, hinstalled, hblocked⟩ := hparent
    have hchild := h.child
    rw [ChildOk, hfresh.child] at hchild
    subst hs
    refine ⟨⟨⟨nofun, hinstalled, hblocked⟩, hfresh.lines, ?_⟩, hchild, ?_, ?_, h.announced, h.order⟩
    · have hne : Party.parent ≠ .child := by decide
      have hsame := Function.update_of_ne hne (s.exitFuncs .parent) s.exitFuncs
      exact hsame.trans hfresh.exitFuncs
    · rw [h.sent_iff, hpc]
      rfl
    · intro hp
      rfl
  | waiting =>
    simp only [hpc, Option.some.injEq] at hparent hs
    obtain ⟨harmed, hlines, hfuncs⟩ := hparent
    subst hs
    refine h.say (.waiting now) nofun ⟨⟨harmed.child, harmed.installed, harmed.blocked⟩,
      now, [], rfl, ?_, hfuncs⟩ rfl rfl rfl rfl (by rw [hpc]; rfl)
    exact (lines_say_self env .parent _).trans (by rw [hlines]; rfl)
  | register rest =>
    simp only [hpc] at hparent
    obtain ⟨harmed, now', reg, hreg, hlines, hfuncs⟩ := hparent
    cases rest with
    | nil =>
      simp only [hpc, Option.some.injEq] at hs
      subst hs
      exact h.quiet ⟨⟨harmed.child, harmed.installed, harmed.blocked⟩, now', reg, [],
        ⟨[], hreg, rfl⟩, hlines, hfuncs⟩ rfl rfl rfl rfl (by rw [hpc]; rfl)
    | cons f rest =>
      simp only [hpc, Option.some.injEq] at hs
      subst hs
      refine h.quiet ⟨⟨harmed.child, harmed.installed, harmed.blocked⟩, now', reg ++ [f], ?_,
        hlines, ?_⟩ rfl rfl rfl rfl (by rw [hpc]; rfl)
      · rw [hreg, List.append_assoc]
        rfl
      · simp [State.atexit, hfuncs]
  | sigsuspend =>
    simp only [hpc, Option.some.injEq] at hparent hs
    obtain ⟨harmed, hwaits⟩ := hparent
    subst hs
    exact h.quiet ⟨harmed.child, harmed.installed, rfl, harmed.blocked, hwaits⟩ rfl rfl rfl rfl
      (by rw [hpc]; rfl)
  | suspended | exited ret | killed =>
    simp only [hpc] at hs
    cases hs
  | handler =>
    simp only [hpc, Option.some.injEq] at hparent hs
    obtain ⟨harmed, hmask, hwaits⟩ := hparent
    subst hs
    exact h.quiet ⟨rfl, ⟨harmed.child, harmed.installed, hmask⟩, hwaits⟩ rfl rfl rfl rfl
      (by rw [hpc]; rfl)
  | resumed errno =>
    simp only [hpc] at hparent hs
    obtain ⟨herr, harmed, hwaits⟩ := hparent
    rw [if_neg (not_not.mpr herr)] at hs
    obtain rfl := Option.some.inj hs
    exact h.quiet ⟨⟨harmed.child, harmed.installed, harmed.blocked⟩, hwaits⟩ rfl rfl rfl rfl
      (by rw [hpc]; rfl)
  | got =>
    simp only [hpc, Option.some.injEq] at hparent hs
    obtain ⟨harmed, now', reg, errs, hreg, hlines, hfuncs⟩ := hparent
    have hsent : s.sent = true := h.sent_iff.mpr (.inr (by rw [hpc]; rfl))
    subst hs
    refine h.say (.got now) (fun _ _ => hsent) ⟨⟨harmed.child, harmed.installed,
      harmed.blocked⟩, now', now, reg, errs, hreg, ?_, hfuncs.symm⟩ rfl rfl rfl rfl
      (by rw [hpc]; rfl)
    exact (lines_say_self env .parent _).trans (by rw [hlines]; rfl)
  | unmask =>
    simp only [hpc, Option.some.injEq] at hparent hs
    obtain ⟨harmed, hruns⟩ := hparent
    subst hs
    exact h.quiet (.inl ⟨rfl, harmed.child, [], hruns⟩) rfl rfl rfl rfl (by rw [hpc]; rfl)
  | print line ret =>
    simp only [hpc, Option.some.injEq] at hparent hs
    obtain ⟨rfl, rfl, hfresh⟩ := hparent
    subst hs
    refine h.say .forkErr nofun (.inr ⟨rfl, hfresh.child, ?_, hfresh.exitFuncs⟩)
      rfl rfl rfl rfl (by rw [hpc]; rfl)
    exact (lines_say_self env .parent _).trans (by rw [hfresh.lines]; rfl)
  | exit ret =>
    simp only [hpc] at hparent hs
    cases hfuncs : s.exitFuncs .parent with
    | nil =>
      simp only [hfuncs, Option.some.injEq] at hs
      subst hs
      refine h.quiet ⟨hfuncs, ?_⟩ rfl rfl rfl rfl (by rw [hpc]; rfl)
      rcases hparent with hleft | ⟨hret, habsent, hlines, -⟩
      · exact .inl hleft
      · exact .inr ⟨hret, habsent, hlines⟩
    | cons f rest =>
      simp only [hfuncs, Option.some.injEq] at hs
      subst hs
      rcases hparent with ⟨rfl, hchild, done, now', now'', reg, errs, hreg, hlines, hdone⟩ |
        ⟨-, -, -, hempty⟩
      · refine h.say (.called f 0) nofun (.inl ⟨rfl, hchild, done ++ [f], now', now'', reg,
          errs, hreg, ?_, ?_⟩) rfl rfl rfl rfl (by rw [hpc])
        · refine (lines_say_self env .parent _).trans ?_
          rw [hlines, List.map_append, List.append_assoc]
          rfl
        · have hrest := Function.update_self Party.parent rest s.exitFuncs
          rw [hdone, hfuncs, List.append_assoc]
          exact congrArg (fun x => done ++ f :: x) hrest.symm
      · rw [hfuncs] at hempty
        cases hempty

/-- The child moves, with a line or without. -/
theorem Inv.childMoves (h : Inv s) (hold : s.child ≠ .absent) (hchild : ChildOk s')
    (hnew : s'.child ≠ .absent) (hparent : s'.parent = s.parent)
    (hfuncs : s'.exitFuncs .parent = s.exitFuncs .parent) (hinstalled : s'.installed = s.installed)
    (hblocked : s'.blocked = s.blocked) (hmask : s'.suspendMask = s.suspendMask)
    (hsent : s'.sent = s.sent) (hpending : s'.pending = s.pending)
    (hsaid : s'.said = s.said ∨ ∃ line, s'.said = s.said ++ [(.child, line)]) : Inv s' := by
  have hlines : s'.lines .parent = s.lines .parent := by
    rcases hsaid with heq | ⟨line, heq⟩ <;> simp [State.lines, heq]
  have hsub : ∀ x ∈ s.said, x ∈ s'.said := by
    intro x hx
    rcases hsaid with heq | ⟨line, heq⟩
    · exact heq ▸ hx
    · exact heq ▸ List.mem_append_left _ hx
  refine ⟨h.parent.frame hparent hlines hfuncs hinstalled hblocked hmask hold hnew, hchild,
    ?_, ?_, fun hs => ?_, ?_⟩
  · rw [hsent, hpending, hparent, h.sent_iff]
  · rw [hpending, hparent]
    exact h.once
  · obtain ⟨x, hx, hann⟩ := h.announced (hsent ▸ hs)
    exact ⟨x, hsub x hx, hann⟩
  · rcases hsaid with heq | ⟨line, heq⟩
    · exact heq ▸ h.order
    · rw [heq]
      exact preceded_append h.order (fun ⟨_, hx⟩ => Party.noConfusion (congrArg Prod.fst hx))

theorem child_inv (h : Inv s) {now : String} (hs : child env s now = some s') : Inv s' := by
  have hchild := h.child
  unfold ChildOk at hchild
  unfold child at hs
  cases hpc : s.child with
  | absent | ended ret | killed =>
    simp only [hpc] at hs
    cases hs
  | started =>
    simp only [hpc, Option.some.injEq] at hchild hs
    obtain ⟨hsent, hlines⟩ := hchild
    subst hs
    refine h.childMoves (by rw [hpc]; nofun) ⟨hsent, now, [], rfl, ?_⟩ nofun rfl rfl rfl rfl rfl
      rfl rfl (.inr ⟨_, rfl⟩)
    exact (lines_say_self env .child _).trans (by rw [hlines]; rfl)
  | register rest =>
    simp only [hpc] at hchild
    obtain ⟨hsent, now', reg, hreg, hlines⟩ := hchild
    cases rest with
    | nil =>
      simp only [hpc, Option.some.injEq] at hs
      subst hs
      exact h.childMoves (by rw [hpc]; nofun) ⟨hsent, now', reg, [], ⟨[], hreg, rfl⟩, hlines⟩ nofun
        rfl rfl rfl rfl rfl rfl rfl (.inl rfl)
    | cons f rest =>
      simp only [hpc, Option.some.injEq] at hs
      subst hs
      refine h.childMoves (by rw [hpc]; nofun) ⟨hsent, now', reg ++ [f], ?_, hlines⟩ nofun
        rfl ?_ rfl rfl rfl rfl rfl (.inl rfl)
      · rw [hreg, List.append_assoc]
        rfl
      · have hne : Party.parent ≠ .child := by decide
        exact Function.update_of_ne hne (f :: s.exitFuncs .child) s.exitFuncs
  | sleep =>
    simp only [hpc, Option.some.injEq] at hchild hs
    subst hs
    exact h.childMoves (by rw [hpc]; nofun) hchild nofun rfl rfl rfl rfl rfl rfl rfl (.inl rfl)
  | about =>
    simp only [hpc, Option.some.injEq] at hchild hs
    obtain ⟨hsent, now', reg, errs, hreg, hlines⟩ := hchild
    subst hs
    refine h.childMoves (by rw [hpc]; nofun) ⟨hsent, now', now, reg, errs, hreg, ?_⟩ nofun
      rfl rfl rfl rfl rfl rfl rfl (.inr ⟨_, rfl⟩)
    exact (lines_say_self env .child _).trans (by rw [hlines])
  | kill =>
    simp only [hpc] at hchild hs
    obtain ⟨hsent, hann⟩ := hchild
    -- without a signal sent the parent cannot have come to its end
    have hgone : s.parent.gone = false := by
      have hparent := h.parent
      have hwoken : ¬ s.parent.woken = true := fun hw => by
        rw [h.sent_iff.mpr (.inr hw)] at hsent
        cases hsent
      unfold ParentOk at hparent
      cases hp : s.parent with
      | exited ret =>
        simp only [hp] at hparent
        rcases hparent.2 with ⟨rfl, -⟩ | ⟨-, habsent, -⟩
        · exact absurd (by rw [hp]; rfl) hwoken
        · rw [hpc] at habsent
          cases habsent
      | killed => simp only [hp] at hparent
      | _ => rfl
    have hnone : s.pending = false ∧ s.parent.woken = false := by
      have hnot := (not_iff_not.mpr h.sent_iff).mp (by rw [hsent]; exact Bool.false_ne_true)
      rw [not_or, Bool.not_eq_true, Bool.not_eq_true] at hnot
      exact hnot
    rw [hgone, if_neg Bool.false_ne_true] at hs
    obtain rfl := Option.some.inj hs
    have hframe : ParentOk { s with child := .exit 0, pending := true, sent := true } :=
      h.parent.frame rfl rfl rfl rfl rfl rfl (by rw [hpc]; nofun) nofun
    refine ⟨hframe, ⟨rfl, rfl, hann⟩, iff_of_true rfl (.inl rfl), fun _ => hnone.2, fun _ => ?_,
      h.order⟩
    obtain ⟨now', now'', reg, errs, -, hlines⟩ := hann
    have hmem : Line.about now'' ∈ s.lines .child := by simp [hlines]
    obtain ⟨x, hx, hxeq⟩ := List.mem_map.mp hmem
    obtain ⟨hx, hparty⟩ := List.mem_filter.mp hx
    exact ⟨x, hx, now'', Prod.ext (of_decide_eq_true hparty) hxeq⟩
  | killErr =>
    simp only [hpc] at hchild
  | exit ret =>
    simp only [hpc, Option.some.injEq] at hchild hs
    subst hs
    exact h.childMoves (by rw [hpc]; nofun) hchild nofun rfl rfl rfl rfl rfl rfl rfl (.inl rfl)

/-- The signal is received in `sigsuspend` only. -/
theorem suspended_of_deliverable (h : Inv s) (hpending : s.pending = true)
    (hblocked : s.blocked = false) (hgone : s.parent.gone = false) :
    s.parent = .suspended ∧ s.installed = true := by
  have hparent := h.parent
  have hsent := h.sent_iff.mpr (.inl hpending)
  have hold : s.child ≠ .absent := by
    intro habsent
    have hchild := h.child
    rw [ChildOk, habsent, hsent] at hchild
    cases hchild.1
  have hwoken := h.once hpending
  have harmed : ¬ Armed s := fun ha => by
    rw [ha.blocked] at hblocked
    cases hblocked
  unfold ParentOk at hparent
  cases hpc : s.parent with
  | suspended =>
    simp only [hpc] at hparent
    exact ⟨rfl, hparent.2.1⟩
  | exited ret =>
    rw [hpc] at hgone
    cases hgone
  | exit ret =>
    simp only [hpc] at hparent
    rcases hparent with ⟨rfl, -⟩ | ⟨-, habsent, -⟩
    · rw [hpc] at hwoken
      cases hwoken
    · exact absurd habsent hold
  | block =>
    simp only [hpc] at hparent
    exact absurd hparent.child hold
  | install | fork =>
    simp only [hpc] at hparent
    exact absurd hparent.1.child hold
  | print line ret =>
    simp only [hpc] at hparent
    exact absurd hparent.2.2.child hold
  | waiting | register rest | sigsuspend | handler | got | unmask =>
    simp only [hpc] at hparent
    exact absurd hparent.1 harmed
  | resumed errno =>
    simp only [hpc] at hparent
    exact absurd hparent.2.1 harmed
  | killed => simp only [hpc] at hparent

theorem deliver_cases (h : Inv s) (hs : deliver s = some s') : s.parent = .suspended ∧
    s' = { s with pending := false, parent := .handler, blocked := true } := by
  simp only [deliver, Option.ite_none_right_eq_some] at hs
  obtain ⟨⟨hpending, hblocked, hgone⟩, hs⟩ := hs
  obtain ⟨hpc, hinstalled⟩ := suspended_of_deliverable h hpending hblocked hgone
  rw [if_neg (by rw [hinstalled]; decide), if_pos hpc] at hs
  exact ⟨hpc, (Option.some.inj hs).symm⟩

theorem deliver_inv (h : Inv s) (hs : deliver s = some s') : Inv s' := by
  have hpending : s.pending = true := by
    simp only [deliver, Option.ite_none_right_eq_some] at hs
    exact hs.1.1
  obtain ⟨hpc, rfl⟩ := deliver_cases h hs
  have hparent := h.parent
  rw [ParentOk, hpc] at hparent
  obtain ⟨hold, hinstalled, -, hmask, hwaits⟩ := hparent
  refine ⟨⟨⟨hold, hinstalled, rfl⟩, hmask, hwaits⟩, h.child.frame rfl rfl rfl, ?_, nofun,
    h.announced, h.order⟩
  exact iff_of_true (h.sent_iff.mpr (.inl hpending)) (.inr rfl)

theorem registerFails_inv (h : Inv s) {p : Party} (hs : registerFails env s p = some s') :
    Inv s' := by
  cases p with
  | parent =>
    simp only [registerFails] at hs
    split at hs
    · rename_i f rest hpc
      have hparent := h.parent
      rw [ParentOk, hpc] at hparent
      obtain ⟨harmed, now, reg, hreg, hlines, hfuncs⟩ := hparent
      obtain rfl := Option.some.inj hs
      refine h.say (.registerErr f) nofun ⟨⟨harmed.child, harmed.installed, harmed.blocked⟩, now,
        reg, [.registerErr f], ⟨f :: rest, hreg, rfl⟩, ?_, hfuncs⟩ rfl rfl rfl rfl (by rw [hpc]; rfl)
      exact (lines_say_self env .parent _).trans (by rw [hlines]; rfl)
    · cases hs
  | child =>
    simp only [registerFails] at hs
    split at hs
    · rename_i f rest hpc
      have hchild := h.child
      rw [ChildOk, hpc] at hchild
      obtain ⟨hsent, now, reg, hreg, hlines⟩ := hchild
      obtain rfl := Option.some.inj hs
      refine h.childMoves (by rw [hpc]; nofun) ⟨hsent, now, reg, [.registerErr f],
        ⟨f :: rest, hreg, rfl⟩, ?_⟩ nofun rfl rfl rfl rfl rfl rfl rfl (.inr ⟨_, rfl⟩)
      exact (lines_say_self env .child _).trans (by rw [hlines]; rfl)
    · cases hs

/-- What the child has printed, wherever it is. -/
theorem ChildOk.lines_prefix (h : ChildOk s) : ∃ now now' reg errs, Registered reg errs ∧
    s.lines .child <+: .started now :: errs ++ [.about now'] := by
  have hall : Registered registerExitFunc [] := ⟨[], rfl, rfl⟩
  unfold ChildOk at h
  cases hpc : s.child with
  | absent | started =>
    simp only [hpc] at h
    exact ⟨"", "", _, [], hall, h.2 ▸ List.nil_prefix⟩
  | register rest =>
    simp only [hpc] at h
    obtain ⟨-, now, reg, -, hlines⟩ := h
    exact ⟨now, "", _, [], hall, hlines ▸ ⟨[.about ""], rfl⟩⟩
  | sleep | about =>
    simp only [hpc] at h
    obtain ⟨-, now, reg, errs, hreg, hlines⟩ := h
    exact ⟨now, "", reg, errs, hreg, hlines ▸ List.prefix_append _ _⟩
  | kill =>
    simp only [hpc] at h
    obtain ⟨-, now, now', reg, errs, hreg, hlines⟩ := h
    exact ⟨now, now', reg, errs, hreg, hlines ▸ List.prefix_rfl⟩
  | killErr => simp only [hpc] at h
  | exit ret | ended ret =>
    simp only [hpc] at h
    obtain ⟨-, -, now, now', reg, errs, hreg, hlines⟩ := h
    exact ⟨now, now', reg, errs, hreg, hlines ▸ List.prefix_rfl⟩
  | killed =>
    simp only [hpc] at h
    exact h

theorem Registered.called_notMem {reg : List ExitFunc} {errs : List Line} (h : Registered reg errs)
    (f : ExitFunc) (status : ℤ) : .called f status ∉ errs := by
  obtain ⟨rest, -, rfl⟩ := h
  cases rest <;> simp

/-- The child calls no exit function. -/
theorem ChildOk.not_called (h : ChildOk s) (f : ExitFunc) (status : ℤ) :
    .called f status ∉ s.lines .child := by
  obtain ⟨now, now', reg, errs, hreg, hpre⟩ := h.lines_prefix
  intro hmem
  have hin := hpre.subset hmem
  simp [hreg.called_notMem] at hin

theorem inv_invariant (env : Env) : (program env).Invariant Inv where
  init s := by
    rintro ⟨blocked, rfl⟩
    refine ⟨⟨rfl, rfl, rfl⟩, ⟨rfl, rfl⟩, by simp [start, ParentPc.woken], nofun, nofun, ?_⟩
    intro before x after heq
    exact absurd heq.symm (by simp [start])
  step s a s' h hs := by
    cases a with
    | parent now => exact parent_inv h hs
    | child now => exact child_inv h hs
    | deliver => exact deliver_inv h hs
    | forkFails =>
      simp only [program, step, forkFails, Option.ite_none_right_eq_some, Option.some.injEq] at hs
      obtain ⟨hpc, rfl⟩ := hs
      have hparent := h.parent
      rw [ParentOk, hpc] at hparent
      obtain ⟨hfresh, -⟩ := hparent
      exact h.quiet ⟨rfl, rfl, hfresh.child, hfresh.lines, hfresh.exitFuncs⟩ rfl rfl rfl rfl
        (by rw [hpc]; rfl)
    | registerFails p => exact registerFails_inv h hs
    | killChild =>
      simp only [program, step, killChild, Option.ite_none_right_eq_some, Option.some.injEq] at hs
      obtain ⟨halive, rfl⟩ := hs
      refine h.childMoves (fun hc => ?_) h.child.lines_prefix nofun rfl rfl rfl rfl rfl rfl
        rfl (.inl rfl)
      rw [hc] at halive
      cases halive

theorem inv_of_reachable (h : (program env).Reachable s) : Inv s := (inv_invariant env).reachable h

/-! ## Progress -/

theorem child_enabled (halive : s.child.alive = true) (now : String) :
    (program env).Enabled s (.child now) := by
  change (child env s now).isSome = true
  unfold child
  cases hpc : s.child with
  | absent | ended ret | killed =>
    rw [hpc] at halive
    cases halive
  | register rest => cases rest <;> rfl
  | kill => cases s.parent.gone <;> rfl
  | started | sleep | about | killErr | exit => rfl

theorem parent_enabled (h : Inv s) (hexit : ∀ ret, s.parent ≠ .exited ret)
    (hsuspended : s.parent ≠ .suspended) (now : String) :
    (program env).Enabled s (.parent now) := by
  have hparent := h.parent
  unfold ParentOk at hparent
  change (parent env s now).isSome = true
  unfold parent
  cases hpc : s.parent with
  | suspended => exact absurd hpc hsuspended
  | exited ret => exact absurd hpc (hexit ret)
  | killed => simp only [hpc] at hparent
  | register rest => cases rest <;> rfl
  | resumed errno =>
    dsimp only
    split <;> rfl
  | exit ret => cases hfuncs : s.exitFuncs .parent <;> simp
  | block | install | fork | waiting | sigsuspend | handler | got | unmask | print => rfl

/-- A parent that sleeps with no signal pending has not been sent one. -/
theorem not_sent (h : Inv s) (hpc : s.parent = .suspended) (hpending : s.pending = false) :
    s.sent = false := by
  rw [← Bool.not_eq_true, h.sent_iff, hpending, hpc]
  exact not_or.mpr ⟨Bool.false_ne_true, Bool.false_ne_true⟩

/-- The program comes to rest when both processes are over, and also when the child has been
killed before it could send its signal. -/
theorem stuck_iff (h : Inv s) : (∀ a, ¬ (program env).Enabled s a) ↔
    s.child.alive = false ∧ ((∃ ret, s.parent = .exited ret) ∨
      (s.parent = .suspended ∧ s.child = .killed ∧ s.sent = false)) := by
  constructor
  · intro hstuck
    have hdead : s.child.alive = false := by
      by_contra halive
      exact hstuck (.child "") (child_enabled (by simpa using halive) "")
    refine ⟨hdead, ?_⟩
    by_cases hexit : ∃ ret, s.parent = .exited ret
    · exact .inl hexit
    · right
      have hpc : s.parent = .suspended := by
        by_contra hne
        exact hstuck (.parent "") (parent_enabled h (not_exists.mp hexit) hne "")
      have hparent := h.parent
      rw [ParentOk, hpc] at hparent
      obtain ⟨hold, hinstalled, hblocked, -⟩ := hparent
      have hpending : s.pending = false := by
        by_contra hp
        have hp : s.pending = true := by simpa using hp
        exact hstuck .deliver (by
          simp [System.Enabled, program, step, deliver, hp, hblocked, hinstalled, hpc,
            ParentPc.gone])
      have hsent := not_sent h hpc hpending
      refine ⟨hpc, ?_, hsent⟩
      have hchild := h.child
      unfold ChildOk at hchild
      cases hc : s.child with
      | killed => rfl
      | absent => exact absurd hc hold
      | ended ret =>
        simp only [hc] at hchild
        rw [hsent] at hchild
        cases hchild.2.1
      | started | register | sleep | about | kill | killErr | exit =>
        rw [hc] at hdead
        cases hdead
  · rintro ⟨hdead, hparent⟩ a
    have hchild : ∀ now, child env s now = none := by
      intro now
      unfold child
      cases hc : s.child with
      | absent | ended ret | killed => rfl
      | started | register | sleep | about | kill | killErr | exit =>
        rw [hc] at hdead
        cases hdead
    have hfails : registerFails env s .child = none := by
      cases hc : s.child with
      | register rest =>
        rw [hc] at hdead
        cases hdead
      | _ => simp [registerFails, hc]
    change ¬ (step env s a).isSome = true
    rw [Option.not_isSome_iff_eq_none]
    cases a with
    | child now => exact hchild now
    | killChild => simp [step, killChild, hdead]
    | registerFails p =>
      cases p with
      | child => exact hfails
      | parent => rcases hparent with ⟨ret, hpc⟩ | ⟨hpc, -⟩ <;> simp [step, registerFails, hpc]
    | forkFails => rcases hparent with ⟨ret, hpc⟩ | ⟨hpc, -⟩ <;> simp [step, forkFails, hpc]
    | parent now => rcases hparent with ⟨ret, hpc⟩ | ⟨hpc, -⟩ <;> simp [step, parent, hpc]
    | deliver =>
      rcases hparent with ⟨ret, hpc⟩ | ⟨hpc, -, hsent⟩
      · simp [step, deliver, hpc, ParentPc.gone]
      · have hpending : s.pending = false := by
          by_contra hp
          rw [h.sent_iff.mpr (.inl (by simpa using hp))] at hsent
          cases hsent
        simp [step, deliver, hpending]

def ParentPc.weight : ParentPc → ℕ
  | .block => 20
  | .install => 19
  | .fork => 18
  | .waiting => 17
  | .register rest => 8 + 2 * rest.length
  | .sigsuspend => 7
  | .suspended => 6
  | .handler => 5
  | .resumed _ => 4
  | .got => 3
  | .unmask | .print _ _ => 2
  | .exit _ => 1
  | .exited _ | .killed => 0

def ChildPc.weight : ChildPc → ℕ
  | .absent => 12
  | .started => 11
  | .register rest => 6 + rest.length
  | .sleep => 5
  | .about => 4
  | .kill => 3
  | .killErr => 2
  | .exit _ => 1
  | .ended _ | .killed => 0

/-- What is left to do; a registered function is still to be called. -/
def State.weight (s : State) : ℕ :=
  s.parent.weight + s.child.weight + (s.exitFuncs .parent).length

theorem parent_weight (h : Inv s) {now : String} (hs : parent env s now = some s') :
    s'.weight < s.weight := by
  have hparent := h.parent
  unfold ParentOk at hparent
  unfold parent at hs
  cases hpc : s.parent with
  | suspended | exited ret | killed =>
    simp only [hpc] at hs
    cases hs
  | fork =>
    simp only [hpc, Option.some.injEq] at hparent hs
    have hfuncs := hparent.1.exitFuncs
    subst hs
    simp [State.weight, hpc, ParentPc.weight, ChildPc.weight, hparent.1.child, hfuncs]
  | register rest =>
    cases rest with
    | nil =>
      simp only [hpc, Option.some.injEq] at hs
      subst hs
      simp [State.weight, hpc, ParentPc.weight]
    | cons f rest =>
      simp only [hpc, Option.some.injEq] at hs
      subst hs
      simp only [State.weight, hpc, ParentPc.weight, State.atexit, Function.update_self,
        List.length_cons]
      omega
  | resumed errno =>
    simp only [hpc] at hparent hs
    rw [if_neg (not_not.mpr hparent.1)] at hs
    obtain rfl := Option.some.inj hs
    simp [State.weight, hpc, ParentPc.weight]
  | exit ret =>
    simp only [hpc] at hs
    cases hfuncs : s.exitFuncs .parent with
    | nil =>
      simp only [hfuncs, Option.some.injEq] at hs
      subst hs
      simp [State.weight, hpc, ParentPc.weight]
    | cons f rest =>
      simp only [hfuncs, Option.some.injEq] at hs
      subst hs
      simp [State.weight, hpc, hfuncs, State.say]
  | block | install | waiting | sigsuspend | handler | got | unmask | print =>
    simp only [hpc, Option.some.injEq] at hs
    subst hs
    simp [State.weight, hpc, ParentPc.weight, State.say, registerExitFunc]

theorem child_weight {now : String} (hs : child env s now = some s') : s'.weight < s.weight := by
  unfold child at hs
  cases hpc : s.child with
  | absent | ended ret | killed =>
    simp only [hpc] at hs
    cases hs
  | register rest =>
    cases rest with
    | nil =>
      simp only [hpc, Option.some.injEq] at hs
      subst hs
      simp [State.weight, hpc, ChildPc.weight]
    | cons f rest =>
      simp only [hpc, Option.some.injEq] at hs
      subst hs
      simp [State.weight, hpc, ChildPc.weight, State.atexit]
  | kill =>
    simp only [hpc] at hs
    split at hs <;>
    · obtain rfl := Option.some.inj hs
      simp [State.weight, hpc, ChildPc.weight]
  | started | sleep | about | killErr | exit =>
    simp only [hpc, Option.some.injEq] at hs
    subst hs
    simp [State.weight, hpc, ChildPc.weight, State.say, registerExitFunc]

theorem step_weight (h : Inv s) {a : Action} (hs : (program env).step s a = some s') :
    s'.weight < s.weight := by
  cases a with
  | parent now => exact parent_weight h hs
  | child now => exact child_weight hs
  | deliver =>
    obtain ⟨hpc, rfl⟩ := deliver_cases h hs
    simp [State.weight, hpc, ParentPc.weight]
  | forkFails =>
    simp only [program, step, forkFails, Option.ite_none_right_eq_some, Option.some.injEq] at hs
    obtain ⟨hpc, rfl⟩ := hs
    simp [State.weight, hpc, ParentPc.weight]
  | registerFails p =>
    cases p with
    | parent =>
      simp only [program, step, registerFails] at hs
      split at hs
      · rename_i f rest hpc
        obtain rfl := Option.some.inj hs
        simp only [State.weight, hpc, ParentPc.weight, State.say, List.length_cons]
        omega
      · cases hs
    | child =>
      simp only [program, step, registerFails] at hs
      split at hs
      · rename_i f rest hpc
        obtain rfl := Option.some.inj hs
        simp only [State.weight, hpc, ChildPc.weight, State.say, List.length_cons]
        omega
      · cases hs
  | killChild =>
    simp only [program, step, killChild, Option.ite_none_right_eq_some, Option.some.injEq] at hs
    obtain ⟨halive, rfl⟩ := hs
    have hpos : 0 < s.child.weight := by
      cases hpc : s.child with
      | absent | ended ret | killed =>
        rw [hpc] at halive
        cases halive
      | started | register | sleep | about | kill | killErr | exit =>
        simp only [ChildPc.weight]
        omega
    change s.parent.weight + 0 + (s.exitFuncs .parent).length <
      s.parent.weight + s.child.weight + (s.exitFuncs .parent).length
    omega

/-- In every run SIGUSR1 is delivered in `sigsuspend` only and never kills the parent, `kill` and
`sigsuspend` do not fail, the parent gets its signal after the child has announced it and is never
asleep when one has been sent and is not pending; a run has at most 32 steps, and where it cannot
go on both processes are over or the child was killed before it sent the signal. -/
theorem handshake {blocked : Bool} {as : List Action}
    (hrun : (program env).run (start blocked) as = some s) :
    (∀ s', deliver s = some s' → s.parent = .suspended ∧ s'.parent = .handler) ∧
    s.parent ≠ .killed ∧ s.child ≠ .killErr ∧
    (∀ line ret, s.parent = .print line ret → line = .forkErr) ∧
    Preceded IsAbout IsGot s.said ∧
    (s.parent = .suspended → s.sent = true → s.pending = true) ∧
    as.length ≤ 32 ∧
    ((∀ a, ¬ (program env).Enabled s a) ↔ s.child.alive = false ∧
      ((∃ ret, s.parent = .exited ret) ∨
        (s.parent = .suspended ∧ s.child = .killed ∧ s.sent = false))) := by
  have hinit : (program env).init (start blocked) := ⟨blocked, rfl⟩
  have h := inv_of_reachable ((System.Reachable.init hinit).run hrun)
  have hparent := h.parent
  have hchild := h.child
  refine ⟨fun s' hs => ?_, fun hpc => ?_, fun hpc => ?_, fun line ret hpc => ?_, h.order,
    fun hpc hsent => ?_, ?_, stuck_iff h⟩
  · obtain ⟨hpc, rfl⟩ := deliver_cases h hs
    exact ⟨hpc, rfl⟩
  · rw [ParentOk, hpc] at hparent
    exact hparent
  · rw [ChildOk, hpc] at hchild
    exact hchild
  · rw [ParentOk, hpc] at hparent
    exact hparent.1
  · by_contra hp
    rw [not_sent h hpc (by simpa using hp)] at hsent
    cases hsent
  · have hlen := System.length_run_le (inv_invariant env).step
      (fun _ _ _ ht hs => step_weight ht hs) ((inv_invariant env).init _ hinit) hrun
    have hstart : (start blocked).weight = 32 := rfl
    omega

section Demo

def demoEnv : Env := ⟨100, 101, .lineBuffered, 1024⟩

/-- The child is done before the parent has begun to wait. -/
def earlySchedule : List Action :=
  List.replicate 3 (.parent "") ++ List.replicate 10 (.child "") ++
    List.replicate 7 (.parent "") ++ [.deliver] ++ List.replicate 9 (.parent "")

theorem handshake_early : earlySchedule.length ≤ 32 ∧ Preceded IsAbout IsGot
    ((program demoEnv).after (start false) earlySchedule (by decide)).said := by
  have hrun : ((program demoEnv).run (start false) earlySchedule).isSome = true := by decide
  have hall := handshake ((program demoEnv).run_after hrun)
  exact ⟨hall.2.2.2.2.2.2.1, hall.2.2.2.2.1⟩

end Demo

end LinuxTemplates.ProcessProgram
