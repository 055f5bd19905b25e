import LinuxTemplates.PipeTransfer

/-!
# `pipe_sync.cpp`: the parent waits on a pipe for all of its children

Every process that is forked holds the ends its parent held. Nothing is ever written:
the parent's `read` returns when the last descriptor on the write end is gone. Each
child may die at any moment.
-/

namespace LinuxTemplates.PipeSync
open TransitionSystems
open PipeTransfer (Ends help)

inductive ParentPc
  | checkArgs | pipe | fork | closeWrite | read | printReadErr | printExit | exited (ret : ℤ)
  deriving DecidableEq, Repr

inductive ChildPc
  | closeRead | sleep | printClosing | closeWrite | printExiting | exited (ret : ℤ) | died
  deriving DecidableEq, Repr

def ChildPc.terminated : ChildPc → Bool
  | .exited _ | .died => true
  | _ => false

/-- The child has closed the write end, or is no more. -/
def ChildPc.released : ChildPc → Bool
  | .printExiting => true
  | pc => pc.terminated

structure Child where
  pc : ChildPc
  ends : Ends
  deriving DecidableEq, Repr

/-- `args` are the sleep times; `readRet` is what the parent's `read` has returned. -/
structure State where
  args : List (List UInt8)
  queue : List UInt8
  parentEnds : Ends
  parent : ParentPc
  readRet : Option ℤ
  children : List Child

def State.hasWriter (s : State) : Bool := s.parentEnds.wr || s.children.any (·.ends.wr)

/-- `read(fd[0], &dummy, 1)`; `none` while it blocks. -/
def State.read (s : State) : Option ℤ :=
  if s.parentEnds.rd = false then some (-1)
  else if s.queue ≠ [] then some 1
  else if s.hasWriter then none
  else some 0

/-- One step of the parent; every `fork` succeeds. -/
def parent (s : State) : Option State :=
  match s.parent with
  | .checkArgs => some { s with
      parent := if s.args = [] ∨ s.args.head? = some help then .exited (-1) else .pipe }
  | .pipe => some { s with parent := .fork, parentEnds := ⟨true, true⟩ }
  | .fork =>
    if s.children.length < s.args.length then
      some { s with children := s.children ++ [⟨.closeRead, s.parentEnds⟩] }
    else some { s with parent := .closeWrite }
  | .closeWrite =>
    if s.parentEnds.wr then
      some { s with parent := .read, parentEnds := { s.parentEnds with wr := false } }
    else some { s with parent := .exited (-1), parentEnds := ⟨false, false⟩ }
  | .read => s.read.map (fun ret =>
      { s with readRet := some ret, parent := if ret ≠ 0 then .printReadErr else .printExit })
  | .printReadErr => some { s with parent := .exited (-1), parentEnds := ⟨false, false⟩ }
  | .printExit => some { s with parent := .exited 0, parentEnds := ⟨false, false⟩ }
  | .exited _ => none

def pipeFails (s : State) : Option State :=
  if s.parent = .pipe then some { s with parent := .exited (-1) } else none

/-- One step of a child; the sleep may last any time. -/
def Child.step (c : Child) : Option Child :=
  match c.pc with
  | .closeRead => some
      (if c.ends.rd then ⟨.sleep, { c.ends with rd := false }⟩ else ⟨.exited (-1), ⟨false, false⟩⟩)
  | .sleep => some { c with pc := .printClosing }
  | .printClosing => some { c with pc := .closeWrite }
  | .closeWrite => some
      (if c.ends.wr then ⟨.printExiting, { c.ends with wr := false }⟩
      else ⟨.exited (-1), ⟨false, false⟩⟩)
  | .printExiting => some ⟨.exited 0, ⟨false, false⟩⟩
  | .exited _ | .died => none

/-- A sudden death; the kernel closes what the child had open. -/
def Child.die (c : Child) : Option Child :=
  if c.pc.terminated then none else some ⟨.died, ⟨false, false⟩⟩

def child (s : State) (i : ℕ) (move : Child → Option Child) : Option State :=
  match s.children[i]? with
  | none => none
  | some c => (move c).map (fun c' => { s with children := s.children.set i c' })

inductive Action | parent | pipeFails | child (i : ℕ) | die (i : ℕ)
  deriving DecidableEq, Repr

def step (s : State) : Action → Option State
  | .parent => parent s
  | .pipeFails => pipeFails s
  | .child i => child s i Child.step
  | .die i => child s i Child.die

def start (args : List (List UInt8)) : State :=
  ⟨args, [], ⟨false, false⟩, .checkArgs, none, []⟩

/-- All runs, with any number of arguments. -/
def program : System State Action where
  init s := ∃ args, s = start args
  step := step

/-! ## Who holds the write end -/

/-- The ends that a child holds at each of its program points. -/
def Child.Ok (c : Child) : Prop :=
  match c.pc with
  | .closeRead => c.ends = ⟨true, true⟩
  | .sleep | .printClosing | .closeWrite => c.ends = ⟨false, true⟩
  | .printExiting | .died => c.ends = ⟨false, false⟩
  | .exited ret => ret = 0 ∧ c.ends = ⟨false, false⟩

theorem Child.Ok.released_iff {c : Child} (h : c.Ok) : c.pc.released = true ↔ c.ends.wr = false := by
  obtain ⟨pc, ends⟩ := c
  cases pc <;> simp_all [Child.Ok, ChildPc.released, ChildPc.terminated]

theorem Child.Ok.step {c c' : Child} (h : c.Ok) (hs : c.step = some c') : c'.Ok := by
  obtain ⟨pc, ends⟩ := c
  cases pc with
  | closeRead =>
    obtain rfl : ends = ⟨true, true⟩ := h
    obtain rfl := Option.some.inj hs
    rfl
  | sleep | printClosing =>
    obtain rfl := Option.some.inj hs
    exact h
  | closeWrite =>
    obtain rfl : ends = ⟨false, true⟩ := h
    obtain rfl := Option.some.inj hs
    rfl
  | printExiting =>
    obtain rfl := Option.some.inj hs
    exact ⟨rfl, rfl⟩
  | exited ret => cases hs
  | died => cases hs

/-- A child that has released the write end does not get it back. -/
theorem Child.Ok.step_released {c c' : Child} (h : c.Ok) (hs : c.step = some c')
    (hrel : c.pc.released = true) : c'.pc.released = true := by
  obtain ⟨pc, ends⟩ := c
  cases pc with
  | printExiting =>
    obtain rfl := Option.some.inj hs
    rfl
  | exited ret => cases hs
  | died => cases hs
  | closeRead | sleep | printClosing | closeWrite => cases hrel

theorem Child.die_eq {c c' : Child} (hs : c.die = some c') : c' = ⟨.died, ⟨false, false⟩⟩ := by
  unfold Child.die at hs
  split at hs
  · cases hs
  · exact (Option.some.inj hs).symm

/-- Every child has released the write end. -/
def State.Released (s : State) : Prop :=
  s.children.length = s.args.length ∧ ∀ c ∈ s.children, c.pc.released = true

/-- What the parent holds, and how many children it has, at each of its program points. -/
def ParentOk (s : State) : Prop :=
  match s.parent with
  | .checkArgs | .pipe => s.children = [] ∧ s.readRet = none
  | .fork => s.parentEnds = ⟨true, true⟩ ∧ s.children.length ≤ s.args.length ∧ s.readRet = none
  | .closeWrite =>
    s.parentEnds = ⟨true, true⟩ ∧ s.children.length = s.args.length ∧ s.readRet = none
  | .read => s.parentEnds = ⟨true, false⟩ ∧ s.children.length = s.args.length ∧ s.readRet = none
  | .printReadErr => False
  | .printExit => s.readRet = some 0 ∧ s.Released
  | .exited ret => (ret = -1 ∧ s.readRet = none) ∨ (ret = 0 ∧ s.readRet = some 0 ∧ s.Released)

structure Inv (s : State) : Prop where
  queue : s.queue = []
  parent : ParentOk s
  children : ∀ c ∈ s.children, c.Ok

theorem hasWriter_iff {s : State} (h : Inv s) : s.hasWriter = false ↔
    s.parentEnds.wr = false ∧ ∀ c ∈ s.children, c.pc.released = true := by
  rw [State.hasWriter, Bool.or_eq_false_iff, List.any_eq_false]
  apply and_congr_right
  intro _
  apply forall₂_congr
  intro c hc
  rw [(h.children c hc).released_iff, Bool.not_eq_true]

/-- The `read` returns 0 once every child has released the write end, and blocks before. -/
theorem read_eq {s : State} (h : Inv s) (hpc : s.parent = .read) :
    s.read = if s.hasWriter then none else some 0 := by
  have hparent := h.parent
  rw [ParentOk, hpc] at hparent
  obtain ⟨hends, -, -⟩ := hparent
  have hrd : s.parentEnds.rd ≠ false := by
    simp [hends]
  rw [State.read, if_neg hrd, h.queue, if_neg (not_not.mpr rfl)]

theorem read_eq_some {s : State} {ret : ℤ} (h : Inv s) (hpc : s.parent = .read)
    (hret : s.read = some ret) : ret = 0 ∧ s.Released := by
  have hparent := h.parent
  rw [ParentOk, hpc] at hparent
  rw [read_eq h hpc] at hret
  split at hret
  · cases hret
  · rename_i hw
    obtain rfl := Option.some.inj hret
    exact ⟨rfl, hparent.2.1, ((hasWriter_iff h).mp (Bool.not_eq_true _ ▸ hw)).2⟩

theorem inv_start (args : List (List UInt8)) : Inv (start args) :=
  ⟨rfl, ⟨rfl, rfl⟩, fun _ hc => absurd hc List.not_mem_nil⟩

theorem parent_inv {s s' : State} (h : Inv s) (hs : parent s = some s') : Inv s' := by
  have hparent := h.parent
  unfold ParentOk at hparent
  unfold parent at hs
  cases hpc : s.parent with
  | checkArgs =>
    simp only [hpc] at hparent hs
    obtain rfl := Option.some.inj hs
    refine ⟨h.queue, ?_, h.children⟩
    unfold ParentOk
    split_ifs
    · exact .inl ⟨rfl, hparent.2⟩
    · exact hparent
  | pipe =>
    simp only [hpc] at hparent hs
    obtain rfl := Option.some.inj hs
    refine ⟨h.queue, ⟨rfl, ?_, hparent.2⟩, h.children⟩
    rw [hparent.1]
    exact Nat.zero_le _
  | fork =>
    simp only [hpc] at hparent hs
    obtain ⟨hends, hle, hret⟩ := hparent
    split at hs
    · rename_i hlt
      obtain rfl := Option.some.inj hs
      refine ⟨h.queue, ?_, ?_⟩
      · simp only [ParentOk, List.length_append, List.length_singleton]
        exact ⟨hends, hlt, hret⟩
      · intro c hc
        rcases List.mem_append.mp hc with hold | hnew
        · exact h.children c hold
        · obtain rfl := List.mem_singleton.mp hnew
          exact hends
    · rename_i hge
      obtain rfl := Option.some.inj hs
      exact ⟨h.queue, ⟨hends, le_antisymm hle (not_lt.mp hge), hret⟩, h.children⟩
  | closeWrite =>
    simp only [hpc] at hparent hs
    obtain ⟨hends, hlen, hret⟩ := hparent
    rw [hends, if_pos rfl] at hs
    obtain rfl := Option.some.inj hs
    exact ⟨h.queue, ⟨rfl, hlen, hret⟩, h.children⟩
  | read =>
    simp only [hpc] at hs
    obtain ⟨ret, hread, rfl⟩ := Option.map_eq_some_iff.mp hs
    obtain ⟨rfl, hrel⟩ := read_eq_some h hpc hread
    exact ⟨h.queue, ⟨rfl, hrel⟩, h.children⟩
  | printReadErr => simp only [hpc] at hparent
  | printExit =>
    simp only [hpc] at hparent hs
    obtain rfl := Option.some.inj hs
    exact ⟨h.queue, .inr ⟨rfl, hparent⟩, h.children⟩
  | exited ret =>
    simp only [hpc] at hs
    cases hs

/-- The parent's part of the invariant only looks at how many children there are and
whether they have all released the write end. -/
theorem ParentOk.set_children {s : State} {children : List Child} (h : ParentOk s)
    (hne : s.children ≠ []) (hlen : children.length = s.children.length)
    (hrel : s.Released → ∀ c ∈ children, c.pc.released = true) :
    ParentOk { s with children := children } := by
  have hreleased : s.Released → State.Released { s with children := children } :=
    fun hall => ⟨hlen.trans hall.1, hrel hall⟩
  unfold ParentOk at h ⊢
  cases hpc : s.parent with
  | checkArgs | pipe =>
    simp only [hpc] at h
    exact absurd h.1 hne
  | fork | closeWrite | read =>
    simp only [hpc] at h
    exact ⟨h.1, hlen.symm ▸ h.2.1, h.2.2⟩
  | printReadErr => simp only [hpc] at h
  | printExit =>
    simp only [hpc] at h
    exact ⟨h.1, hreleased h.2⟩
  | exited ret =>
    simp only [hpc] at h
    exact h.imp id (fun hall => ⟨hall.1, hall.2.1, hreleased hall.2.2⟩)

/-- A step of one child: it keeps to its ends and does not take the write end back. -/
theorem child_inv {s s' : State} {i : ℕ} {move : Child → Option Child} (h : Inv s)
    (hok : ∀ c c', c.Ok → move c = some c' →
      c'.Ok ∧ (c.pc.released = true → c'.pc.released = true))
    (hs : child s i move = some s') : Inv s' := by
  unfold child at hs
  split at hs
  · cases hs
  · rename_i c hc
    obtain ⟨c', hmove, rfl⟩ := Option.map_eq_some_iff.mp hs
    have hmem : c ∈ s.children := List.mem_of_getElem? hc
    obtain ⟨hc', hrel⟩ := hok c c' (h.children c hmem) hmove
    refine ⟨h.queue, ?_, ?_⟩
    · apply h.parent.set_children (List.ne_nil_of_mem hmem) List.length_set
      intro hall d hd
      rcases List.mem_or_eq_of_mem_set hd with hold | rfl
      · exact hall.2 d hold
      · exact hrel (hall.2 c hmem)
    · intro d hd
      rcases List.mem_or_eq_of_mem_set hd with hold | rfl
      · exact h.children d hold
      · exact hc'

theorem step_inv {s s' : State} {a : Action} (h : Inv s) (hs : step s a = some s') : Inv s' := by
  cases a with
  | parent => exact parent_inv h hs
  | pipeFails =>
    have hparent := h.parent
    simp only [step, pipeFails] at hs
    split at hs
    · rename_i hpc
      rw [ParentOk, hpc] at hparent
      obtain rfl := Option.some.inj hs
      exact ⟨h.queue, .inl ⟨rfl, hparent.2⟩, h.children⟩
    · cases hs
  | child i =>
    exact child_inv h (fun c c' hok hc => ⟨hok.step hc, hok.step_released hc⟩) hs
  | die i =>
    refine child_inv h (fun c c' _ hc => ?_) hs
    obtain rfl := Child.die_eq hc
    exact ⟨rfl, fun _ => rfl⟩

theorem inv : program.Invariant Inv where
  init := by
    rintro _ ⟨args, rfl⟩
    exact inv_start args
  step _ _ _ h hs := step_inv h hs

/-! ## The barrier -/

/-- What the pipe is for: the `read` has returned only if every child has released the
write end, it has then returned 0, and children that are gone do not keep the parent, which
goes on and exits with 0 only behind such a `read`. -/
structure Synchronised (s : State) : Prop where
  returned : ∀ ret, s.readRet = some ret → ret = 0 ∧ s.Released
  announced : s.parent = .printExit ∨ s.parent = .exited 0 → s.readRet = some 0 ∧ s.Released
  noError : s.parent ≠ .printReadErr
  unblocked : (∀ c ∈ s.children, c.pc.terminated = true) →
    program.Enabled s .parent ∨ ∃ ret, s.parent = .exited ret

theorem ChildPc.released_of_terminated {pc : ChildPc} (h : pc.terminated = true) :
    pc.released = true := by
  cases pc <;> first | rfl | cases h

theorem ParentOk.returned {s : State} {ret : ℤ} (h : ParentOk s) (hret : s.readRet = some ret) :
    ret = 0 ∧ s.Released := by
  unfold ParentOk at h
  cases hpc : s.parent with
  | checkArgs | pipe =>
    simp only [hpc, hret] at h
    cases h.2
  | fork | closeWrite | read =>
    simp only [hpc, hret] at h
    cases h.2.2
  | printReadErr => simp only [hpc] at h
  | printExit =>
    simp only [hpc, hret, Option.some_inj] at h
    exact h
  | exited code =>
    simp only [hpc, hret, Option.some_inj] at h
    rcases h with ⟨-, hnone⟩ | ⟨-, hzero⟩
    · cases hnone
    · exact hzero

theorem ParentOk.announced {s : State} (h : ParentOk s)
    (hpc : s.parent = .printExit ∨ s.parent = .exited 0) : s.readRet = some 0 ∧ s.Released := by
  rcases hpc with hpc | hpc
  · rwa [ParentOk, hpc] at h
  · rw [ParentOk, hpc] at h
    rcases h with ⟨hret, -⟩ | ⟨-, hread⟩
    · cases hret
    · exact hread

/-- Only the `read` can block. -/
theorem parent_isSome {s : State} (hread : s.parent ≠ .read)
    (hexit : ∀ ret, s.parent ≠ .exited ret) : (parent s).isSome = true := by
  unfold parent
  cases hpc : s.parent with
  | read => exact absurd hpc hread
  | exited ret => exact absurd hpc (hexit ret)
  | fork | closeWrite => dsimp only; split <;> rfl
  | checkArgs | pipe | printReadErr | printExit => rfl

theorem synchronised {s : State} (hr : program.Reachable s) : Synchronised s := by
  have h := inv.reachable hr
  refine ⟨fun ret hret => h.parent.returned hret, h.parent.announced, fun hpc => ?_,
    fun hall => ?_⟩
  · have hparent := h.parent
    rwa [ParentOk, hpc] at hparent
  · by_cases hexit : ∃ ret, s.parent = .exited ret
    · exact .inr hexit
    · left
      by_cases hpc : s.parent = .read
      · have hparent := h.parent
        rw [ParentOk, hpc] at hparent
        have hw : s.hasWriter = false := (hasWriter_iff h).mpr
          ⟨congrArg Ends.wr hparent.1, fun c hc => ChildPc.released_of_terminated (hall c hc)⟩
        have hread := read_eq h hpc
        rw [hw, if_neg Bool.false_ne_true] at hread
        simp [System.Enabled, program, step, parent, hpc, hread]
      · exact parent_isSome hpc (not_exists.mp hexit)

/-- Two children, of which the second is killed in its sleep. -/
def killed : List Action :=
  [.parent, .parent, .parent, .child 0, .child 0, .parent, .child 0, .child 1, .child 0,
    .parent, .parent, .die 1, .parent, .child 0]

theorem synchronised_killed : Synchronised (program.after (start [[49], [50]]) killed (by decide)) :=
  synchronised (program.reachable_after ⟨_, rfl⟩ killed (by decide))

end LinuxTemplates.PipeSync
