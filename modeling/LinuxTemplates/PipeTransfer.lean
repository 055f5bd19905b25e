import LinuxTemplates.TransitionSystems
import LinuxTemplates.FifoChannels

/-!
# The pipe between parent and child in `pipe.cpp`

The parent writes its argument into a pipe of bounded capacity, the child copies the
pipe to its standard output until end of file and then adds a newline. A pipe end is
open while some process holds a descriptor on it. A blocking write is taken up in
pieces of any size that fits, and a read returns any number of bytes between one and
what is queued, at most `BUF_SIZE`.
-/

namespace LinuxTemplates.PipeTransfer
open TransitionSystems FifoChannels

def BUF_SIZE : ℕ := 10

/-- The bytes of the option that asks for the usage text. -/
def help : List UInt8 := [45, 45, 104, 101, 108, 112]

def newline : UInt8 := 10

/-- Which of the descriptors `fd[0]` and `fd[1]` a process holds. -/
structure Ends where
  rd : Bool
  wr : Bool
  deriving DecidableEq, Repr

inductive ParentPc
  | checkArgs | pipe | fork | closeRead | write (rest : List UInt8) | closeWrite | wait
  | printExit | exited (ret : ℤ) | sigpipe
  deriving DecidableEq, Repr

inductive ChildPc
  | absent | closeWrite | read | write (buf : List UInt8) | writeNewline | closeRead
  | printExit | exited (ret : ℤ)
  deriving DecidableEq, Repr

/-- `out` is what the child has passed to `write` on its standard output. -/
structure State where
  cap : ℕ
  arg : List UInt8
  pipe : Channel UInt8
  parentEnds : Ends
  childEnds : Ends
  parent : ParentPc
  child : ChildPc
  out : List UInt8

def State.hasReader (s : State) : Bool := s.parentEnds.rd || s.childEnds.rd
def State.hasWriter (s : State) : Bool := s.parentEnds.wr || s.childEnds.wr

/-- One step of the parent, or of the whole program before the fork. -/
def parent (s : State) : Option State :=
  match s.parent with
  | .checkArgs => some { s with parent := if s.arg = help then .exited (-1) else .pipe }
  | .pipe => some { s with parent := .fork, parentEnds := ⟨true, true⟩ }
  | .fork => some { s with parent := .closeRead, child := .closeWrite, childEnds := s.parentEnds }
  | .closeRead =>
    some { s with parent := .write s.arg, parentEnds := { s.parentEnds with rd := false } }
  | .write rest =>
    if s.hasReader = false then some { s with parent := .sigpipe }
    else if rest = [] then some { s with parent := .closeWrite } else none
  | .closeWrite =>
    some { s with parent := .wait, parentEnds := { s.parentEnds with wr := false } }
  | .wait => match s.child with
    | .exited _ => some { s with parent := .printExit }
    | _ => none
  | .printExit => some { s with parent := .exited 0, parentEnds := ⟨false, false⟩ }
  | .exited _ | .sigpipe => none

/-- The pipe takes up the next `k` bytes of the parent's blocked write. -/
def take (s : State) (k : ℕ) : Option State :=
  match s.parent with
  | .write rest =>
    if s.hasReader ∧ 0 < k ∧ k ≤ rest.length ∧ s.pipe.queue.length + k ≤ s.cap then
      some { s with parent := .write (rest.drop k), pipe := s.pipe.send (rest.take k) }
    else none
  | _ => none

/-- One step of the child other than a read that returns data. -/
def child (s : State) : Option State :=
  match s.child with
  | .absent | .exited _ => none
  | .closeWrite => some { s with child := .read, childEnds := { s.childEnds with wr := false } }
  | .read => if s.pipe.queue = [] ∧ s.hasWriter = false then some { s with child := .writeNewline }
    else none
  | .write buf => some { s with child := .read, out := s.out ++ buf }
  | .writeNewline => some { s with child := .closeRead, out := s.out ++ [newline] }
  | .closeRead =>
    some { s with child := .printExit, childEnds := { s.childEnds with rd := false } }
  | .printExit => some { s with child := .exited 0, childEnds := ⟨false, false⟩ }

/-- The child's read returns `k` bytes. -/
def fetch (s : State) (k : ℕ) : Option State :=
  match s.child with
  | .read => if 0 < k ∧ k ≤ BUF_SIZE ∧ k ≤ s.pipe.queue.length then
      some { s with child := .write (s.pipe.queue.take k), pipe := s.pipe.receive k }
    else none
  | _ => none

inductive Action | parent | take (k : ℕ) | child | fetch (k : ℕ)
  deriving DecidableEq, Repr

def step (s : State) : Action → Option State
  | .parent => parent s
  | .take k => take s k
  | .child => child s
  | .fetch k => fetch s k

def start (cap : ℕ) (arg : List UInt8) : State :=
  ⟨cap, arg, .empty, ⟨false, false⟩, ⟨false, false⟩, .checkArgs, .absent, []⟩

/-- All runs with one argument, over a pipe of at least one byte. -/
def program : System State Action where
  init s := ∃ cap arg, 1 ≤ cap ∧ s = start cap arg
  step := step

/-! ## What holds in every interleaving -/

/-- Descriptors held and bytes sent at each program point of the parent. -/
def ParentOk (s : State) : Prop :=
  match s.parent with
  | .checkArgs | .pipe => s.child = .absent ∧ s.pipe.sent = []
  | .fork => s.parentEnds = ⟨true, true⟩ ∧ s.child = .absent ∧ s.pipe.sent = []
  | .closeRead => s.parentEnds = ⟨true, true⟩ ∧ s.child ≠ .absent ∧ s.pipe.sent = []
  | .write rest => s.parentEnds = ⟨false, true⟩ ∧ s.child ≠ .absent ∧ s.pipe.sent ++ rest = s.arg
  | .closeWrite => s.parentEnds = ⟨false, true⟩ ∧ s.child ≠ .absent ∧ s.pipe.sent = s.arg
  | .wait => s.parentEnds = ⟨false, false⟩ ∧ s.child ≠ .absent ∧ s.pipe.sent = s.arg
  | .printExit => s.parentEnds = ⟨false, false⟩ ∧ s.child = .exited 0 ∧ s.pipe.sent = s.arg
  | .exited ret => (ret = -1 ∧ s.child = .absent ∧ s.pipe.sent = []) ∨
    (ret = 0 ∧ s.parentEnds = ⟨false, false⟩ ∧ s.child = .exited 0 ∧ s.pipe.sent = s.arg)
  | .sigpipe => False

/-- Descriptors held and bytes passed on at each program point of the child. -/
def ChildOk (s : State) : Prop :=
  match s.child with
  | .absent => s.pipe.received = [] ∧ s.out = []
  | .closeWrite => s.childEnds = ⟨true, true⟩ ∧ s.pipe.received = [] ∧ s.out = []
  | .read => s.childEnds = ⟨true, false⟩ ∧ s.out = s.pipe.received
  | .write buf => s.childEnds = ⟨true, false⟩ ∧ s.out ++ buf = s.pipe.received
  | .writeNewline => s.childEnds = ⟨true, false⟩ ∧ s.out = s.arg ∧ s.parentEnds.wr = false
  | .closeRead =>
    s.childEnds = ⟨true, false⟩ ∧ s.out = s.arg ++ [newline] ∧ s.parentEnds.wr = false
  | .printExit => s.out = s.arg ++ [newline] ∧ s.parentEnds.wr = false
  | .exited ret => ret = 0 ∧ s.out = s.arg ++ [newline] ∧ s.parentEnds.wr = false

structure Inv (s : State) : Prop where
  cap_pos : 1 ≤ s.cap
  parent : ParentOk s
  child : ChildOk s

/-- Until the parent closes its write end the child keeps its read end. -/
theorem Inv.hasReader {s : State} (hi : Inv s) {rest : List UInt8}
    (hp : s.parent = .write rest) : s.hasReader = true := by
  have hpar := hi.parent
  have hch := hi.child
  simp only [ParentOk, hp] at hpar
  cases hc : s.child <;> simp_all [ChildOk, State.hasReader]

theorem parent_inv {s s' : State} (hi : Inv s) (h : parent s = some s') : Inv s' := by
  have hpar := hi.parent
  have hch := hi.child
  cases hp : s.parent with
  | checkArgs =>
    simp only [parent, hp, Option.some.injEq] at h
    simp only [ParentOk, hp] at hpar
    subst h
    refine ⟨hi.cap_pos, ?_, hch⟩
    by_cases harg : s.arg = help <;> simp [ParentOk, harg, hpar]
  | pipe =>
    simp only [parent, hp, Option.some.injEq] at h
    simp only [ParentOk, hp] at hpar
    subst h
    refine ⟨hi.cap_pos, by simp [ParentOk, hpar], ?_⟩
    simpa [ChildOk, hpar.1] using hch
  | fork =>
    simp only [parent, hp, Option.some.injEq] at h
    simp only [ParentOk, hp] at hpar
    subst h
    refine ⟨hi.cap_pos, by simp [ParentOk, hpar], ?_⟩
    simpa [ChildOk, hpar.2.1, hpar.1] using hch
  | closeRead =>
    simp only [parent, hp, Option.some.injEq] at h
    simp only [ParentOk, hp] at hpar
    subst h
    exact ⟨hi.cap_pos, by simp [ParentOk, hpar], hch⟩
  | write rest =>
    simp only [parent, hp, hi.hasReader hp, Bool.true_eq_false, if_false] at h
    simp only [ParentOk, hp] at hpar
    by_cases hr : rest = []
    · simp only [hr, if_true, Option.some.injEq] at h
      subst h
      refine ⟨hi.cap_pos, ?_, hch⟩
      simpa [ParentOk, hr] using hpar
    · simp [hr] at h
  | closeWrite =>
    simp only [parent, hp, Option.some.injEq] at h
    simp only [ParentOk, hp] at hpar
    subst h
    refine ⟨hi.cap_pos, by simp [ParentOk, hpar], ?_⟩
    cases hc : s.child <;> simp_all [ChildOk]
  | wait =>
    simp only [ParentOk, hp] at hpar
    cases hc : s.child <;> simp only [parent, hp, hc, reduceCtorEq, Option.some.injEq] at h
    subst h
    simp only [ChildOk, hc] at hch
    refine ⟨hi.cap_pos, ?_, ?_⟩
    · simp [ParentOk, hpar, hch]
    · simpa [ChildOk, hc] using hch
  | printExit =>
    simp only [parent, hp, Option.some.injEq] at h
    simp only [ParentOk, hp] at hpar
    subst h
    refine ⟨hi.cap_pos, by simp [ParentOk, hpar], ?_⟩
    simpa [ChildOk, hpar] using hch
  | exited ret => simp [parent, hp] at h
  | sigpipe => simp [parent, hp] at h

theorem take_inv {s s' : State} {k : ℕ} (hi : Inv s) (h : take s k = some s') : Inv s' := by
  have hpar := hi.parent
  cases hp : s.parent <;> simp only [take, hp, reduceCtorEq] at h
  rename_i rest
  split at h
  · simp only [Option.some.injEq] at h
    simp only [ParentOk, hp] at hpar
    subst h
    refine ⟨hi.cap_pos, ?_, hi.child⟩
    simpa [ParentOk, List.append_assoc] using hpar
  · cases h

/-- At end of file the whole argument has come through. -/
theorem Inv.received_of_eof {s : State} (hi : Inv s) (hc : s.child = .read)
    (hq : s.pipe.queue = []) (hw : s.parentEnds.wr = false) : s.pipe.received = s.arg := by
  have hpar := hi.parent
  have hr := s.pipe.received_eq_sent hq
  cases hp : s.parent <;> simp_all [ParentOk]

theorem child_inv {s s' : State} (hi : Inv s) (h : child s = some s') : Inv s' := by
  have hpar := hi.parent
  have hch := hi.child
  -- The parent's assertions mention the child only as being absent or exited.
  have hkeep : ∀ c ends out, s.child ≠ .absent → (∀ ret, s.child ≠ .exited ret) →
      c ≠ ChildPc.absent →
      ParentOk { s with child := c, childEnds := ends, out := out } := by
    intro c ends out ha he hc
    cases hp : s.parent <;> simp_all [ParentOk]
  cases hc : s.child with
  | absent => simp [child, hc] at h
  | exited => simp [child, hc] at h
  | read =>
    simp only [ChildOk, hc] at hch
    by_cases heof : s.pipe.queue = [] ∧ s.hasWriter = false
    · simp only [child, hc, heof, and_self, if_true, Option.some.injEq] at h
      have hw : s.parentEnds.wr = false := by
        have hn := heof.2
        simp only [State.hasWriter, Bool.or_eq_false_iff] at hn
        exact hn.1
      have harg := hi.received_of_eof hc heof.1 hw
      subst h
      refine ⟨hi.cap_pos, hkeep _ _ _ (by simp [hc]) (by simp [hc]) (by simp), ?_⟩
      simp [ChildOk, hch, harg, hw]
    · simp [child, hc, heof] at h
  | closeWrite | write | writeNewline | closeRead | printExit =>
    simp only [child, hc, Option.some.injEq] at h
    simp only [ChildOk, hc] at hch
    subst h
    exact ⟨hi.cap_pos, hkeep _ _ _ (by simp [hc]) (by simp [hc]) (by simp), by simp [ChildOk, hch]⟩

theorem fetch_inv {s s' : State} {k : ℕ} (hi : Inv s) (h : fetch s k = some s') : Inv s' := by
  have hpar := hi.parent
  have hch := hi.child
  cases hc : s.child <;> simp only [fetch, hc, reduceCtorEq] at h
  split at h
  · simp only [Option.some.injEq] at h
    simp only [ChildOk, hc] at hch
    subst h
    refine ⟨hi.cap_pos, ?_, by simp [ChildOk, hch]⟩
    cases hp : s.parent <;> simp_all [ParentOk]
  · cases h

theorem inv_invariant : program.Invariant Inv where
  init s := by
    rintro ⟨cap, arg, hcap, rfl⟩
    exact ⟨hcap, by simp [ParentOk, start], by simp [ChildOk, start]⟩
  step s a s' hi h := by
    cases a with
    | parent => exact parent_inv hi h
    | take k => exact take_inv hi h
    | child => exact child_inv hi h
    | fetch k => exact fetch_inv hi h

theorem inv_of_reachable {s : State} (h : program.Reachable s) : Inv s :=
  inv_invariant.reachable h

/-! ## Exact transfer and no deadlock -/

theorem Inv.sent_prefix {s : State} (hi : Inv s) : s.pipe.sent <+: s.arg := by
  have hpar := hi.parent
  cases hp : s.parent <;> simp only [ParentOk, hp] at hpar
  case write rest => exact ⟨rest, hpar.2.2⟩
  case exited ret => rcases hpar with h | h <;> simp [h]
  all_goals simp [hpar]

/-- Before end of file the output is a prefix of what came through the pipe. -/
theorem Inv.out_prefix {s : State} (hi : Inv s) : s.out <+: s.arg ++ [newline] := by
  have hch := hi.child
  have hrec : s.pipe.received <+: s.arg ++ [newline] :=
    (s.pipe.received_prefix.trans hi.sent_prefix).trans (List.prefix_append _ _)
  cases hc : s.child <;> simp only [ChildOk, hc] at hch
  case write buf => exact (hch.2 ▸ List.prefix_append s.out buf).trans hrec
  case read => exact hch.2 ▸ hrec
  all_goals simp [hch]

/-- The child moves whenever the pipe holds data or has lost its writers. -/
theorem child_enabled {s : State} (hi : Inv s) (ha : s.child ≠ .absent)
    (he : ∀ ret, s.child ≠ .exited ret)
    (hr : s.pipe.queue ≠ [] ∨ s.parentEnds.wr = false) : ∃ a, program.Enabled s a := by
  have hch := hi.child
  cases hc : s.child with
  | absent => exact absurd hc ha
  | exited ret => exact absurd hc (he ret)
  | closeWrite | write | writeNewline | closeRead | printExit =>
    exact ⟨.child, by simp [System.Enabled, program, step, child, hc]⟩
  | read =>
    simp only [ChildOk, hc] at hch
    by_cases hq : s.pipe.queue = []
    · have hw : s.parentEnds.wr = false := hr.resolve_left (fun h => h hq)
      exact ⟨.child, by simp [System.Enabled, program, step, child, hc, hq, State.hasWriter, hw, hch]⟩
    · have hlen : 1 ≤ s.pipe.queue.length := List.length_pos_iff.mpr hq
      exact ⟨.fetch 1, by simp [System.Enabled, program, step, fetch, hc, hlen, BUF_SIZE]⟩

theorem not_stuck {s : State} (hi : Inv s) (hne : (∀ ret, s.parent ≠ .exited ret) ∨
    (s.child ≠ .absent ∧ ∀ ret, s.child ≠ .exited ret)) : ∃ a, program.Enabled s a := by
  have hpar := hi.parent
  cases hp : s.parent with
  | checkArgs | pipe | fork | closeRead | closeWrite | printExit =>
    exact ⟨.parent, by simp [System.Enabled, program, step, parent, hp]⟩
  | sigpipe => simp [ParentOk, hp] at hpar
  | exited ret =>
    simp only [ParentOk, hp] at hpar
    rcases hne with hne | ⟨ha, he⟩
    · exact absurd hp (hne ret)
    · rcases hpar with h | h
      · exact absurd h.2.1 ha
      · exact absurd h.2.2.1 (he 0)
  | wait =>
    simp only [ParentOk, hp] at hpar
    by_cases he : ∃ ret, s.child = .exited ret
    · obtain ⟨ret, hc⟩ := he
      exact ⟨.parent, by simp [System.Enabled, program, step, parent, hp, hc]⟩
    · exact child_enabled hi hpar.2.1 (by simpa using he) (.inr (by simp [hpar]))
  | write rest =>
    have hread := hi.hasReader hp
    have hch := hi.child
    simp only [ParentOk, hp] at hpar
    by_cases hrest : rest = []
    · exact ⟨.parent, by simp [System.Enabled, program, step, parent, hp, hread, hrest]⟩
    · have hlen : 1 ≤ rest.length := List.length_pos_iff.mpr hrest
      by_cases hroom : s.pipe.queue.length + 1 ≤ s.cap
      · exact ⟨.take 1, by simp [System.Enabled, program, step, take, hp, hread, hlen, hroom]⟩
      · -- A full pipe is not empty, so the child can read.
        have hcap := hi.cap_pos
        have hq : s.pipe.queue ≠ [] := List.length_pos_iff.mp (by omega)
        refine child_enabled hi hpar.2.1 (fun ret hc => ?_) (.inl hq)
        simp [ChildOk, hc, hpar.1] at hch

/-- The child never writes anything but a prefix of the argument and a newline, has
written exactly that when it exits, and the two processes never block each other. -/
theorem pipe_transfer {s : State} (h : program.Reachable s) :
    s.out <+: s.arg ++ [newline] ∧
    (∀ ret, s.child = .exited ret → s.out = s.arg ++ [newline]) ∧
    ((∀ ret, s.parent ≠ .exited ret) ∨ (s.child ≠ .absent ∧ ∀ ret, s.child ≠ .exited ret) →
      ∃ a, program.Enabled s a) := by
  have hi := inv_of_reachable h
  refine ⟨hi.out_prefix, fun ret hc => ?_, not_stuck hi⟩
  have hch := hi.child
  simp only [ChildOk, hc] at hch
  exact hch.2.1

/-- A one-byte pipe: the second byte is taken up after the child has read the first. -/
def fullSchedule : List Action :=
  List.replicate 4 .parent ++ [.take 1, .child, .fetch 1, .take 1, .child, .parent, .parent,
    .fetch 1] ++ List.replicate 5 .child ++ List.replicate 2 .parent

theorem pipe_transfer_full :
    (program.after (start 1 [111, 107]) fullSchedule (by decide)).out = [111, 107, newline] :=
  (pipe_transfer (program.reachable_after ⟨1, _, by decide, rfl⟩ fullSchedule (by decide))).2.1 0
    (by decide)

end LinuxTemplates.PipeTransfer
