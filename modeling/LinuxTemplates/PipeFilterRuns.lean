import LinuxTemplates.PipeFilterInvariant

/-!
# Runs of the filter

No process is ever stuck for good: `ls` waits only for room, `wc` only for data or for
the last writer to go, and the parent for its children. Every run is finite.
-/

namespace LinuxTemplates.PipeFilter
open TransitionSystems FifoChannels DescriptorTables

universe u

variable {F : Type u} [DecidableEq F] {σ : Setup F} {s s' : State F}

/-! ## Progress -/

theorem child1_enabled_setup (h : Inv σ s) {stage : Stage} (hc : s.child1 = .setup stage) :
    (program σ).Enabled s .child1 := by
  have h1 := h.child1
  rw [hc] at h1
  by_cases hexec : stage = .exec
  · subst hexec
    simp [System.Enabled, program, step, child1, hc]
  · obtain ⟨next, table, hnext, -⟩ :=
      redirect_eq_some σ.piped_writeEnd σ.piped_readEnd σ.ne.symm h1.1 hexec
    simp [System.Enabled, program, step, child1, hc, hnext]

theorem child2_enabled_setup (h : Inv σ s) {stage : Stage} (hc : s.child2 = .setup stage) :
    (program σ).Enabled s .child2 := by
  have h2 := h.child2
  rw [hc] at h2
  by_cases hexec : stage = .exec
  · subst hexec
    simp [System.Enabled, program, step, child2, hc]
  · obtain ⟨next, table, hnext, -⟩ :=
      redirect_eq_some σ.piped_readEnd σ.piped_writeEnd σ.ne h2 hexec
    simp [System.Enabled, program, step, child2, hc, hnext]

/-- `ls` can write as long as there is room. -/
theorem write_enabled (h : Inv σ s) {b : UInt8} {rest : List UInt8}
    (hc : s.child1 = .ls (b :: rest)) (hroom : s.pipe.queue.length < σ.cap) :
    (program σ).Enabled s (.write 1) := by
  have h1 := h.child1
  rw [hc] at h1
  have hlookup := (Setup.StageOk1.exec h1.1).1.lookup
  have hroom' : s.pipe.queue.length + 1 ≤ σ.cap := hroom
  simp [System.Enabled, program, step, write, hc, hlookup, holds_readEnd h hc, hroom']

/-- `wc` can read as long as there is data, and sees the end of the file once there is no
writer. -/
theorem wc_enabled (h : Inv σ s) (hc : s.child2 = .wc)
    (hready : s.pipe.queue ≠ [] ∨ ¬ s.Holds .writeEnd) : ∃ a, (program σ).Enabled s a := by
  have h2 := h.child2
  rw [hc] at h2
  have hlookup := (Setup.StageOk2.exec h2).1.lookup
  by_cases hqueue : s.pipe.queue = []
  · have hwriter := hready.resolve_left (not_not.mpr hqueue)
    exact ⟨.child2, by simp [System.Enabled, program, step, child2, hc, hlookup, hqueue, hwriter]⟩
  · have hlen : 1 ≤ s.pipe.queue.length := List.length_pos_iff.mpr hqueue
    exact ⟨.read 1, by simp [System.Enabled, program, step, read, hc, hlookup, hlen]⟩

/-- The first child has ended, can go on, or has something to write. -/
theorem child1_progress (h : Inv σ s) (hne : s.child1 ≠ .absent) : s.child1.terminated = true ∨
    (program σ).Enabled s .child1 ∨ ∃ b rest, s.child1 = .ls (b :: rest) := by
  cases hc : s.child1 with
  | absent => exact absurd hc hne
  | setup stage => exact .inr (.inl (child1_enabled_setup h hc))
  | ls rest =>
    cases rest with
    | nil => exact .inr (.inl (by simp [System.Enabled, program, step, child1, hc]))
    | cons b rest => exact .inr (.inr ⟨b, rest, rfl⟩)
  | exited ret | sigpipe => exact .inl rfl

/-- The second child has ended, can go on, or reads. -/
theorem child2_progress (h : Inv σ s) (hne : s.child2 ≠ .absent) : s.child2.terminated = true ∨
    (program σ).Enabled s .child2 ∨ s.child2 = .wc := by
  cases hc : s.child2 with
  | absent => exact absurd hc hne
  | setup stage => exact .inr (.inl (child2_enabled_setup h hc))
  | wc => exact .inr (.inr rfl)
  | exited ret => exact .inl rfl

/-- With both children forked and the parent's write end closed, the children get on until
they have both terminated. -/
theorem children_progress (h : Inv σ s) (hne1 : s.child1 ≠ .absent) (hne2 : s.child2 ≠ .absent)
    (hclosed : ¬ s.table.Holds .writeEnd) :
    (s.child1.terminated = true ∧ s.child2.terminated = true) ∨
      ∃ a, (program σ).Enabled s a := by
  rcases child2_progress h hne2 with hterm2 | hrun2 | hwc
  · rcases child1_progress h hne1 with hterm1 | hrun1 | ⟨b, rest, hls⟩
    · exact .inl ⟨hterm1, hterm2⟩
    · exact .inr ⟨.child1, hrun1⟩
    · exact (exited_of_ls h hls (child2_ended h hterm2).1).elim
  · exact .inr ⟨.child2, hrun2⟩
  · right
    rcases child1_progress h hne1 with hterm1 | hrun1 | ⟨b, rest, hls⟩
    · refine wc_enabled h hwc (.inr ?_)
      have h2 := h.child2
      rw [hwc] at h2
      rintro (hheld | hheld | hheld)
      · exact hclosed hheld
      · exact Table.not_holds_empty _ ((child1_ended h hterm1).2 ▸ hheld)
      · exact (Setup.StageOk2.exec h2).2 hheld
    · exact ⟨.child1, hrun1⟩
    · by_cases hroom : s.pipe.queue.length < σ.cap
      · exact ⟨.write 1, write_enabled h hls hroom⟩
      · -- the pipe is full
        have hpos := σ.cap_pos
        refine wc_enabled h hwc (.inl fun hnil => ?_)
        rw [hnil, List.length_nil] at hroom
        exact hroom hpos

/-- Every process has ended. -/
def Finished (s : State F) : Prop :=
  (∃ ret, s.parent = .exited ret) ∧ s.child1.terminated = true ∧ s.child2.terminated = true

/-- While the parent waits, it or one of its children can go on. -/
theorem wait_progress (h : Inv σ s) (hne1 : s.child1 ≠ .absent) (hne2 : s.child2 ≠ .absent)
    (hclosed : ¬ s.table.Holds .writeEnd) (hreaped : s.reaped < 2)
    (hwait : s.reaped < s.terminated → (program σ).Enabled s .parent) :
    ∃ a, (program σ).Enabled s a := by
  rcases children_progress h hne1 hne2 hclosed with ⟨ht1, ht2⟩ | hsome
  · have hboth : s.terminated = 2 := by rw [State.terminated, ht1, ht2]; rfl
    exact ⟨.parent, hwait (hboth ▸ hreaped)⟩
  · exact hsome

theorem progress (h : Inv σ s) : Finished s ∨ ∃ a, (program σ).Enabled s a := by
  have hp := h.parent
  cases hpc : s.parent with
  | pipe | fork1 | fork2 =>
    exact .inr ⟨.parent, by simp [System.Enabled, program, step, parent, hpc]⟩
  | close0 | close1 =>
    refine .inr ⟨.parent, ?_⟩
    simp only [System.Enabled, program, step, parent, hpc]
    split <;> rfl
  | wait1 =>
    rw [hpc] at hp
    obtain ⟨htable, hne1, hne2, hr⟩ := hp
    refine .inr (wait_progress h hne1 hne2 (htable ▸ σ.closed_writeEnd) (by omega) fun hlt => ?_)
    simp [System.Enabled, program, step, parent, hpc, State.wait, hlt]
  | wait2 =>
    rw [hpc] at hp
    obtain ⟨htable, hne1, hne2, hr⟩ := hp
    refine .inr (wait_progress h hne1 hne2 (htable ▸ σ.closed_writeEnd) (by omega) fun hlt => ?_)
    simp [System.Enabled, program, step, parent, hpc, State.wait, hlt]
  | exited ret =>
    rw [hpc] at hp
    exact .inl ⟨⟨ret, hpc⟩, hp.2.1, hp.2.2.1⟩

/-! ## Termination -/

def Stage.remaining : Stage → ℕ
  | .closeOther => 3
  | .dup2 => 2
  | .closeOwn => 1
  | .exec => 0

def ParentPc.remaining : ParentPc → ℕ
  | .pipe => 7
  | .fork1 => 6
  | .fork2 => 5
  | .close0 => 4
  | .close1 => 3
  | .wait1 => 2
  | .wait2 => 1
  | .exited _ => 0

/-- Every byte still to be written costs a write and a read. -/
def Child1Pc.remaining (n : ℕ) : Child1Pc → ℕ
  | .absent => 2 * n + 5
  | .setup stage => 2 * n + 2 + stage.remaining
  | .ls rest => 2 * rest.length + 1
  | .exited _ | .sigpipe => 0

def Child2Pc.remaining : Child2Pc → ℕ
  | .absent => 5
  | .setup stage => 2 + stage.remaining
  | .wc => 1
  | .exited _ => 0

def remaining (σ : Setup F) (s : State F) : ℕ :=
  s.parent.remaining + s.child1.remaining σ.output.length + s.child2.remaining +
    s.pipe.queue.length

theorem redirect_remaining {File : Type u} {own other std : ℕ} {t t' : Table File}
    {stage stage' : Stage} (h : redirect own other std t stage = some (stage', t')) :
    stage'.remaining < stage.remaining := by
  cases stage with
  | closeOther =>
    obtain ⟨_, -, heq⟩ := Option.map_eq_some_iff.mp h
    obtain ⟨rfl, -⟩ := Prod.mk.inj heq
    split <;> decide
  | dup2 =>
    obtain ⟨_, -, heq⟩ := Option.map_eq_some_iff.mp h
    obtain ⟨rfl, -⟩ := Prod.mk.inj heq
    decide
  | closeOwn =>
    obtain ⟨_, -, heq⟩ := Option.map_eq_some_iff.mp h
    obtain ⟨rfl, -⟩ := Prod.mk.inj heq
    decide
  | exec => cases h

omit [DecidableEq F] in
theorem parent_remaining (h : Inv σ s) (hs : parent σ s = some s') :
    remaining σ s' < remaining σ s := by
  have hp := h.parent
  unfold parent at hs
  cases hpc : s.parent with
  | pipe =>
    simp only [hpc] at hs
    obtain rfl := Option.some.inj hs
    simp only [remaining, hpc, ParentPc.remaining]
    omega
  | fork1 =>
    simp only [hpc] at hs
    rw [hpc] at hp
    obtain rfl := Option.some.inj hs
    simp only [remaining, hpc, hp.2.1, ParentPc.remaining, Child1Pc.remaining, Stage.remaining]
    omega
  | fork2 =>
    simp only [hpc] at hs
    rw [hpc] at hp
    obtain rfl := Option.some.inj hs
    simp only [remaining, hpc, hp.2.2.1, ParentPc.remaining, Child2Pc.remaining, Stage.remaining]
    omega
  | close0 | close1 =>
    simp only [hpc] at hs
    split at hs <;>
      · obtain rfl := Option.some.inj hs
        simp only [remaining, State.exitParent, hpc, ParentPc.remaining]
        omega
  | wait1 | wait2 =>
    simp only [hpc, State.wait] at hs
    split_ifs at hs <;>
      · obtain rfl := Option.some.inj hs
        simp only [remaining, State.exitParent, hpc, ParentPc.remaining]
        omega
  | exited ret =>
    simp only [hpc] at hs
    cases hs

theorem child1_remaining (hs : child1 σ s = some s') : remaining σ s' < remaining σ s := by
  unfold child1 at hs
  split at hs
  · cases hs
  · cases hs
  · cases hs
  · rename_i hc1
    obtain rfl := Option.some.inj hs
    simp only [remaining, hc1, Child1Pc.remaining, Stage.remaining]
    omega
  · rename_i stage _ hc1
    split at hs
    · obtain rfl := Option.some.inj hs
      simp only [remaining, State.exitChild1, hc1, Child1Pc.remaining]
      omega
    · rename_i hnext
      have hlt := redirect_remaining hnext
      obtain rfl := Option.some.inj hs
      simp only [remaining, hc1, Child1Pc.remaining]
      omega
  · rename_i hc1
    obtain rfl := Option.some.inj hs
    simp only [remaining, State.exitChild1, hc1, Child1Pc.remaining]
    omega
  · rename_i hc1
    split at hs
    · obtain rfl := Option.some.inj hs
      simp only [remaining, State.exitChild1, hc1, Child1Pc.remaining]
      omega
    · split at hs
      · cases hs
      · obtain rfl := Option.some.inj hs
        simp only [remaining, hc1, Child1Pc.remaining]
        omega
    · obtain rfl := Option.some.inj hs
      simp only [remaining, hc1, Child1Pc.remaining, List.length_cons, List.length_nil]
      omega

theorem write_remaining {k : ℕ} (hs : write σ s k = some s') : remaining σ s' < remaining σ s := by
  unfold write at hs
  split at hs
  · rename_i rest hc1
    split at hs
    · rename_i hwrite
      obtain ⟨-, -, hpos, hle, -⟩ := hwrite
      obtain rfl := Option.some.inj hs
      simp only [remaining, hc1, Child1Pc.remaining, Channel.send_queue, List.length_append,
        List.length_take, List.length_drop]
      omega
    · cases hs
  · cases hs

theorem child2_remaining (hs : child2 σ s = some s') : remaining σ s' < remaining σ s := by
  unfold child2 at hs
  split at hs
  · cases hs
  · cases hs
  · rename_i hc2
    obtain rfl := Option.some.inj hs
    simp only [remaining, hc2, Child2Pc.remaining, Stage.remaining]
    omega
  · rename_i stage _ hc2
    split at hs
    · obtain rfl := Option.some.inj hs
      simp only [remaining, State.exitChild2, hc2, Child2Pc.remaining]
      omega
    · rename_i hnext
      have hlt := redirect_remaining hnext
      obtain rfl := Option.some.inj hs
      simp only [remaining, hc2, Child2Pc.remaining]
      omega
  · rename_i hc2
    split_ifs at hs <;>
      · obtain rfl := Option.some.inj hs
        simp only [remaining, State.exitChild2, hc2, Child2Pc.remaining]
        omega

theorem read_remaining {k : ℕ} (hs : read s k = some s') : remaining σ s' < remaining σ s := by
  unfold read at hs
  split at hs
  · split at hs
    · rename_i hread
      obtain ⟨-, hpos, hle⟩ := hread
      obtain rfl := Option.some.inj hs
      simp only [remaining, Channel.receive_queue, List.length_drop]
      omega
    · cases hs
  · cases hs

theorem step_remaining {a : Action} (h : Inv σ s) (hs : (program σ).step s a = some s') :
    remaining σ s' < remaining σ s := by
  cases a with
  | parent => exact parent_remaining h hs
  | child1 => exact child1_remaining hs
  | write k => exact write_remaining hs
  | child2 => exact child2_remaining hs
  | read k => exact read_remaining hs

/-- No run is longer than its output and the three programs allow. -/
theorem run_length_le {as : List Action} (h : (program σ).run (start σ) as = some s) :
    as.length ≤ 2 * σ.output.length + 17 := by
  have hle : as.length ≤ remaining σ (start σ) :=
    System.length_run_le (inv σ).step (fun _ _ _ hi hs => step_remaining hi hs) (inv_start σ) h
  have hstart : remaining σ (start σ) = 7 + (2 * σ.output.length + 5) + 5 + 0 := rfl
  omega

/-! ## The filter -/

/-- The plumbing at each `exec` and at the first `wait`, the rest of the tables, and the
output of `ls` arriving at `wc` as a whole, followed by end of file. -/
structure Filters (σ : Setup F) (s : State F) : Prop where
  exec1 : s.child1 = .setup .exec →
    s.table1.OnlyAt .writeEnd STDOUT_FILENO ∧ ¬ s.table1.Holds .readEnd
  exec2 : s.child2 = .setup .exec →
    s.table2.OnlyAt .readEnd STDIN_FILENO ∧ ¬ s.table2.Holds .writeEnd
  wait1 : s.parent = .wait1 → ¬ s.table.Holds .readEnd ∧ ¬ s.table.Holds .writeEnd
  untouched : ∀ fd, fd ≠ STDIN_FILENO → fd ≠ STDOUT_FILENO → fd ≠ σ.fd0 → fd ≠ σ.fd1 →
    Untouched σ s fd
  reads : s.input <+: σ.output
  parentEnds : ∀ ret, s.parent = .exited ret → ret = 0
  child1Ends : s.child1.terminated = true → s.child1 = .exited 0
  child2Ends : s.child2.terminated = true → s.child2 = .exited 0 ∧ s.input = σ.output
  progress : Finished s ∨ ∃ a, (program σ).Enabled s a

/-- Every run filters, and no run goes on for ever. -/
theorem filters {as : List Action} (h : (program σ).run (start σ) as = some s) :
    Filters σ s ∧ as.length ≤ 2 * σ.output.length + 17 := by
  have hinv := (inv σ).reachable ((System.Reachable.init rfl).run h)
  have h1 := hinv.child1
  have h2 := hinv.child2
  have hp := hinv.parent
  refine ⟨⟨fun hc => ?_, fun hc => ?_, fun hc => ?_, fun fd hin hout h0 h1 =>
    untouched h0 h1 hinv hin hout, ?_, fun ret hc => ?_,
    fun hterm => (child1_ended hinv hterm).1, child2_ended hinv, progress hinv⟩, run_length_le h⟩
  · rw [hc] at h1
    exact Setup.StageOk1.exec h1.1
  · rw [hc] at h2
    exact Setup.StageOk2.exec h2
  · rw [hc] at hp
    rw [hp.1]
    exact ⟨σ.closed_readEnd, σ.closed_writeEnd⟩
  · have hreceived := s.pipe.received_prefix
    rw [← hinv.input] at hreceived
    exact hreceived.trans (sent_begins_output hinv)
  · rw [hc] at hp
    exact hp.2.2.2

/-- Standard output is closed at the start, and the pipe takes its place. -/
def closedStdout : Setup ℕ where
  table := (AList.insert 0 (.other 0) ∅).insert 2 (.other 2)
  fd0 := 1
  fd1 := 3
  output := [97, 10, 98, 10]
  cap := 3
  noReadEnd := by decide
  noWriteEnd := by decide
  free0 := by decide
  free1 := by decide
  ne := by decide
  cap_pos := by decide

/-- `ls` fills the pipe before the second child exists. -/
def earlyWrite : List Action :=
  [.parent, .parent, .child1, .child1, .child1, .child1, .write 3, .parent, .child2, .child2,
    .parent, .child2, .child2, .read 2, .write 1, .child1, .parent, .parent, .read 2, .child2,
    .parent]

theorem filters_earlyWrite :
    Filters closedStdout ((program closedStdout).after (start closedStdout) earlyWrite
      (by decide)) ∧ earlyWrite.length ≤ 2 * closedStdout.output.length + 17 :=
  filters (Option.some_get _).symm

end LinuxTemplates.PipeFilter
