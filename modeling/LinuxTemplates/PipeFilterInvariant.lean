import LinuxTemplates.PipeFilterRedirection

/-!
# The invariant of the filter

What each process has open at each of its program points, and how far the output of `ls`
has got.
-/

namespace LinuxTemplates.PipeFilter
open TransitionSystems FifoChannels DescriptorTables

universe u

variable {F : Type u} {σ : Setup F}

namespace Setup

/-- The table that `pipe` leaves. -/
def piped (σ : Setup F) : Table (File F) :=
  (σ.table.insert σ.fd0 .readEnd).insert σ.fd1 .writeEnd

theorem piped_readEnd (σ : Setup F) : Table.OnlyAt σ.piped .readEnd σ.fd0 :=
  (Table.onlyAt_insert σ.noReadEnd).insert σ.ne (by simp)

theorem piped_writeEnd (σ : Setup F) : Table.OnlyAt σ.piped .writeEnd σ.fd1 :=
  Table.onlyAt_insert (Table.not_holds_insert σ.noWriteEnd (by simp))

theorem piped_lookup (σ : Setup F) {fd : ℕ} (h0 : fd ≠ σ.fd0) (h1 : fd ≠ σ.fd1) :
    σ.piped.lookup fd = σ.table.lookup fd :=
  (AList.lookup_insert_ne h1).trans (AList.lookup_insert_ne h0)

/-- The parent's table once it has closed both ends. -/
def closed (σ : Setup F) : Table (File F) := (σ.piped.erase σ.fd0).erase σ.fd1

theorem closed_readEnd (σ : Setup F) : ¬ σ.closed.Holds .readEnd :=
  Table.not_holds_erase σ.piped_readEnd.not_holds_erase

theorem closed_writeEnd (σ : Setup F) : ¬ σ.closed.Holds .writeEnd :=
  (σ.piped_writeEnd.erase σ.ne.symm).not_holds_erase

/-- The table of the first child at the stages of its redirection. -/
def StageOk1 (σ : Setup F) : Stage → Table (File F) → Prop :=
  StageOk σ.fd1 σ.fd0 STDOUT_FILENO .writeEnd σ.piped

/-- The table of the second child at the stages of its redirection. -/
def StageOk2 (σ : Setup F) : Stage → Table (File F) → Prop :=
  StageOk σ.fd0 σ.fd1 STDIN_FILENO .readEnd σ.piped

variable {table : Table (File F)} {stage : Stage}

theorem StageOk1.holds (h : σ.StageOk1 stage table) : table.Holds .writeEnd := by
  rw [h.1]
  exact stage_holds σ.piped_writeEnd σ.ne.symm

theorem StageOk2.holds (h : σ.StageOk2 stage table) : table.Holds .readEnd := by
  rw [h.1]
  exact stage_holds σ.piped_readEnd σ.ne

theorem StageOk1.exec (h : σ.StageOk1 .exec table) :
    table.OnlyAt .writeEnd STDOUT_FILENO ∧ ¬ table.Holds .readEnd := by
  rw [h.1]
  exact ⟨exec_onlyAt σ.piped_writeEnd σ.ne.symm, exec_not_holds σ.piped_readEnd (by simp)⟩

theorem StageOk2.exec (h : σ.StageOk2 .exec table) :
    table.OnlyAt .readEnd STDIN_FILENO ∧ ¬ table.Holds .writeEnd := by
  rw [h.1]
  exact ⟨exec_onlyAt σ.piped_readEnd σ.ne, exec_not_holds σ.piped_writeEnd (by simp)⟩

end Setup

/-! ## The parts of the invariant -/

/-- What the parent has open, and which children there are. -/
def ParentOk (σ : Setup F) (pc : ParentPc) (table : Table (File F)) (child1 : Child1Pc)
    (child2 : Child2Pc) (reaped : ℕ) : Prop :=
  match pc with
  | .pipe => table = σ.table ∧ child1 = .absent ∧ child2 = .absent ∧ reaped = 0
  | .fork1 => table = σ.piped ∧ child1 = .absent ∧ child2 = .absent ∧ reaped = 0
  | .fork2 => table = σ.piped ∧ child1 ≠ .absent ∧ child2 = .absent ∧ reaped = 0
  | .close0 => table = σ.piped ∧ child1 ≠ .absent ∧ child2 ≠ .absent ∧ reaped = 0
  | .close1 => table = σ.piped.erase σ.fd0 ∧ child1 ≠ .absent ∧ child2 ≠ .absent ∧ reaped = 0
  | .wait1 => table = σ.closed ∧ child1 ≠ .absent ∧ child2 ≠ .absent ∧ reaped = 0
  | .wait2 => table = σ.closed ∧ child1 ≠ .absent ∧ child2 ≠ .absent ∧ reaped = 1
  | .exited ret => table = ∅ ∧ child1.terminated = true ∧ child2.terminated = true ∧ ret = 0

/-- What the first child has open, and what it has written. -/
def Child1Ok (σ : Setup F) (pc : Child1Pc) (table : Table (File F)) (sent : List UInt8) : Prop :=
  match pc with
  | .absent => table = ∅ ∧ sent = []
  | .setup stage => σ.StageOk1 stage table ∧ sent = []
  | .ls rest => σ.StageOk1 .exec table ∧ sent ++ rest = σ.output
  | .exited ret => table = ∅ ∧ sent = σ.output ∧ ret = 0
  | .sigpipe => False

/-- What the second child has open, and that it has missed nothing. -/
def Child2Ok (σ : Setup F) (pc : Child2Pc) (table : Table (File F)) (input : List UInt8) : Prop :=
  match pc with
  | .absent => table = ∅
  | .setup stage => σ.StageOk2 stage table
  | .wc => σ.StageOk2 .exec table
  | .exited ret => table = ∅ ∧ input = σ.output ∧ ret = 0

structure Inv (σ : Setup F) (s : State F) : Prop where
  parent : ParentOk σ s.parent s.table s.child1 s.child2 s.reaped
  child1 : Child1Ok σ s.child1 s.table1 s.pipe.sent
  child2 : Child2Ok σ s.child2 s.table2 s.input
  input : s.input = s.pipe.received

theorem inv_start (σ : Setup F) : Inv σ (start σ) :=
  ⟨⟨rfl, rfl, rfl, rfl⟩, ⟨rfl, rfl⟩, rfl, rfl⟩

section Frames
variable {pc : ParentPc} {table : Table (File F)} {c1 c1' : Child1Pc} {c2 c2' : Child2Pc} {n : ℕ}

theorem ParentOk.set_child1 (h : ParentOk σ pc table c1 c2 n) (hc : c1 ≠ .absent)
    (hc' : c1' ≠ .absent) (hterm : c1.terminated = true → c1'.terminated = true) :
    ParentOk σ pc table c1' c2 n := by
  cases pc with
  | pipe | fork1 => exact absurd h.2.1 hc
  | fork2 | close0 | close1 | wait1 | wait2 => exact ⟨h.1, hc', h.2.2⟩
  | exited ret => exact ⟨h.1, hterm h.2.1, h.2.2⟩

theorem ParentOk.set_child2 (h : ParentOk σ pc table c1 c2 n) (hc : c2 ≠ .absent)
    (hc' : c2' ≠ .absent) (hterm : c2.terminated = true → c2'.terminated = true) :
    ParentOk σ pc table c1 c2' n := by
  cases pc with
  | pipe | fork1 | fork2 => exact absurd h.2.2.1 hc
  | close0 | close1 | wait1 | wait2 => exact ⟨h.1, h.2.1, hc', h.2.2.2⟩
  | exited ret => exact ⟨h.1, h.2.1, hterm h.2.2.1, h.2.2.2⟩

/-- Without a second child the parent still has both ends. -/
theorem ParentOk.holds_of_absent (h : ParentOk σ pc table c1 .absent n) (hc : c1 ≠ .absent) :
    table = σ.piped := by
  cases pc with
  | pipe | fork1 => exact absurd h.2.1 hc
  | fork2 => exact h.1
  | close0 | close1 | wait1 | wait2 => exact absurd rfl h.2.2.1
  | exited ret => cases h.2.2.1

theorem ParentOk.child1_ne (h : ParentOk σ pc table c1 c2 n) (hc : c2 ≠ .absent) :
    c1 ≠ .absent := by
  cases pc with
  | pipe | fork1 | fork2 => exact absurd h.2.2.1 hc
  | close0 | close1 | wait1 | wait2 => exact h.2.1
  | exited ret =>
    rintro rfl
    cases h.2.1

end Frames

/-! ## What the invariant says -/

variable {s s' : State F}

/-- Descriptors that are neither standard nor the pipe's are those of the start, in every
process that has not ended. -/
structure Untouched (σ : Setup F) (s : State F) (fd : ℕ) : Prop where
  parent : (∀ ret, s.parent ≠ .exited ret) → s.table.lookup fd = σ.table.lookup fd
  child1 : s.child1 ≠ .absent → s.child1.terminated = false →
    s.table1.lookup fd = σ.table.lookup fd
  child2 : s.child2 ≠ .absent → s.child2.terminated = false →
    s.table2.lookup fd = σ.table.lookup fd

section Untouched
variable {fd : ℕ} (h0 : fd ≠ σ.fd0) (h1 : fd ≠ σ.fd1)
include h0 h1

theorem parent_lookup (h : Inv σ s) (hrun : ∀ ret, s.parent ≠ .exited ret) :
    s.table.lookup fd = σ.table.lookup fd := by
  have hp := h.parent
  have hpiped := σ.piped_lookup h0 h1
  have herase : (σ.piped.erase σ.fd0).lookup fd = σ.table.lookup fd :=
    (AList.lookup_erase_ne h0).trans hpiped
  cases hpc : s.parent with
  | pipe =>
    rw [hpc] at hp
    rw [hp.1]
  | fork1 | fork2 | close0 =>
    rw [hpc] at hp
    rw [hp.1, hpiped]
  | close1 =>
    rw [hpc] at hp
    rw [hp.1, herase]
  | wait1 | wait2 =>
    rw [hpc] at hp
    rw [hp.1]
    exact (AList.lookup_erase_ne h1).trans herase
  | exited ret => exact absurd hpc (hrun ret)

theorem child1_lookup (h : Inv σ s) (hout : fd ≠ STDOUT_FILENO) (hne : s.child1 ≠ .absent)
    (hrun : s.child1.terminated = false) : s.table1.lookup fd = σ.table.lookup fd := by
  have hc := h.child1
  have hstage : ∀ stage, σ.StageOk1 stage s.table1 →
      s.table1.lookup fd = σ.table.lookup fd := by
    intro stage hstage
    rw [hstage.1, stage_lookup hout h1 h0, σ.piped_lookup h0 h1]
  cases hpc : s.child1 with
  | absent => exact absurd hpc hne
  | setup stage =>
    rw [hpc] at hc
    exact hstage stage hc.1
  | ls rest =>
    rw [hpc] at hc
    exact hstage .exec hc.1
  | exited ret | sigpipe =>
    rw [hpc] at hrun
    cases hrun

theorem child2_lookup (h : Inv σ s) (hin : fd ≠ STDIN_FILENO) (hne : s.child2 ≠ .absent)
    (hrun : s.child2.terminated = false) : s.table2.lookup fd = σ.table.lookup fd := by
  have hc := h.child2
  have hstage : ∀ stage, σ.StageOk2 stage s.table2 →
      s.table2.lookup fd = σ.table.lookup fd := by
    intro stage hstage
    rw [hstage.1, stage_lookup hin h0 h1, σ.piped_lookup h0 h1]
  cases hpc : s.child2 with
  | absent => exact absurd hpc hne
  | setup stage =>
    rw [hpc] at hc
    exact hstage stage hc
  | wc =>
    rw [hpc] at hc
    exact hstage .exec hc
  | exited ret =>
    rw [hpc] at hrun
    cases hrun

theorem untouched (h : Inv σ s) (hin : fd ≠ STDIN_FILENO) (hout : fd ≠ STDOUT_FILENO) :
    Untouched σ s fd where
  parent := parent_lookup h0 h1 h
  child1 := child1_lookup h0 h1 h hout
  child2 := child2_lookup h0 h1 h hin

end Untouched

/-- `ls` ends after all of its output, and closes everything. -/
theorem child1_ended (h : Inv σ s) (hterm : s.child1.terminated = true) :
    s.child1 = .exited 0 ∧ s.table1 = ∅ := by
  have h1 := h.child1
  cases hc : s.child1 with
  | absent | setup stage | ls rest =>
    rw [hc] at hterm
    cases hterm
  | exited ret =>
    rw [hc] at h1
    rw [h1.2.2]
    exact ⟨rfl, h1.1⟩
  | sigpipe =>
    rw [hc] at h1
    exact h1.elim

/-- `wc` ends with all of the output. -/
theorem child2_ended (h : Inv σ s) (hterm : s.child2.terminated = true) :
    s.child2 = .exited 0 ∧ s.input = σ.output := by
  have h2 := h.child2
  cases hc : s.child2 with
  | absent | setup stage | wc =>
    rw [hc] at hterm
    cases hterm
  | exited ret =>
    rw [hc] at h2
    rw [h2.2.2]
    exact ⟨rfl, h2.2.1⟩

theorem sent_begins_output (h : Inv σ s) : s.pipe.sent <+: σ.output := by
  have h1 := h.child1
  cases hc1 : s.child1 with
  | absent | setup stage =>
    rw [hc1] at h1
    rw [h1.2]
    exact List.nil_prefix
  | ls rest =>
    rw [hc1] at h1
    exact ⟨rest, h1.2⟩
  | exited ret =>
    rw [hc1] at h1
    rw [h1.2.1]
  | sigpipe =>
    rw [hc1] at h1
    exact h1.elim

/-- `wc` does not end before `ls` has written everything. -/
theorem exited_of_ls (h : Inv σ s) {b : UInt8} {rest : List UInt8} {ret : ℤ}
    (hls : s.child1 = .ls (b :: rest)) (hwc : s.child2 = .exited ret) : False := by
  have h1 := h.child1
  have h2 := h.child2
  rw [hls] at h1
  rw [hwc] at h2
  have hlen := congrArg List.length s.pipe.conserved
  rw [← h.input, h2.2.1, ← h1.2] at hlen
  simp only [List.length_append, List.length_cons] at hlen
  omega

/-- While `ls` has something to write, somebody can still read it. -/
theorem holds_readEnd (h : Inv σ s) {b : UInt8} {rest : List UInt8}
    (hls : s.child1 = .ls (b :: rest)) : s.Holds .readEnd := by
  have h2 := h.child2
  cases hc2 : s.child2 with
  | absent =>
    left
    have hparent := h.parent
    rw [hls, hc2] at hparent
    rw [hparent.holds_of_absent (by simp)]
    exact σ.piped_readEnd.holds
  | setup stage =>
    rw [hc2] at h2
    exact .inr (.inr (Setup.StageOk2.holds h2))
  | wc =>
    rw [hc2] at h2
    exact .inr (.inr (Setup.StageOk2.holds h2))
  | exited ret => exact (exited_of_ls h hls hc2).elim

/-- End of file comes after all of the output. -/
theorem input_of_eof (h : Inv σ s) (hwc : s.child2 = .wc) (hqueue : s.pipe.queue = [])
    (hwriter : ¬ s.Holds .writeEnd) : s.input = σ.output := by
  have h1 := h.child1
  have hopen : ∀ stage, ¬ σ.StageOk1 stage s.table1 :=
    fun stage hstage => hwriter (.inr (.inl hstage.holds))
  cases hc1 : s.child1 with
  | absent =>
    have hparent := h.parent
    rw [hwc, hc1] at hparent
    exact absurd rfl (hparent.child1_ne (by simp))
  | setup stage =>
    rw [hc1] at h1
    exact absurd h1.1 (hopen stage)
  | ls rest =>
    rw [hc1] at h1
    exact absurd h1.1 (hopen .exec)
  | exited ret =>
    rw [hc1] at h1
    rw [h.input, s.pipe.received_eq_sent hqueue, h1.2.1]
  | sigpipe =>
    rw [hc1] at h1
    exact h1.elim

/-! ## What each step preserves -/

theorem forked_eq (h1 : s.child1 ≠ .absent) (h2 : s.child2 ≠ .absent) : s.forked = 2 := by
  rw [State.forked, if_neg h1, if_neg h2]

theorem terminated_of_lt (h : 1 < s.terminated) :
    s.child1.terminated = true ∧ s.child2.terminated = true := by
  rw [State.terminated] at h
  cases h1 : s.child1.terminated <;> cases h2 : s.child2.terminated <;> simp_all

theorem parent_inv (h : Inv σ s) (hs : parent σ s = some s') : Inv σ s' := by
  have hp := h.parent
  unfold parent at hs
  cases hpc : s.parent with
  | pipe =>
    simp only [hpc] at hs
    rw [hpc] at hp
    obtain ⟨htable, hc1, hc2, hr⟩ := hp
    obtain rfl := Option.some.inj hs
    exact ⟨⟨by rw [htable]; rfl, hc1, hc2, hr⟩, h.child1, h.child2, h.input⟩
  | fork1 =>
    simp only [hpc] at hs
    rw [hpc] at hp
    obtain ⟨htable, hc1, hc2, hr⟩ := hp
    obtain rfl := Option.some.inj hs
    have h1 := h.child1
    rw [hc1] at h1
    refine ⟨⟨htable, by simp, hc2, hr⟩, ⟨⟨htable, fun _ => .inl rfl⟩, h1.2⟩, h.child2, h.input⟩
  | fork2 =>
    simp only [hpc] at hs
    rw [hpc] at hp
    obtain ⟨htable, hc1, hc2, hr⟩ := hp
    obtain rfl := Option.some.inj hs
    exact ⟨⟨htable, hc1, by simp, hr⟩, h.child1, ⟨htable, fun _ => .inl rfl⟩, h.input⟩
  | close0 =>
    simp only [hpc] at hs
    rw [hpc] at hp
    obtain ⟨htable, hc⟩ := hp
    rw [htable, Table.close_eq σ.piped_readEnd] at hs
    obtain rfl := Option.some.inj hs
    exact ⟨⟨rfl, hc⟩, h.child1, h.child2, h.input⟩
  | close1 =>
    simp only [hpc] at hs
    rw [hpc] at hp
    obtain ⟨htable, hc⟩ := hp
    rw [htable, Table.close_eq (σ.piped_writeEnd.erase σ.ne.symm)] at hs
    obtain rfl := Option.some.inj hs
    exact ⟨⟨rfl, hc⟩, h.child1, h.child2, h.input⟩
  | wait1 =>
    simp only [hpc] at hs
    rw [hpc] at hp
    obtain ⟨htable, hc1, hc2, hr⟩ := hp
    simp only [State.wait, hr, forked_eq hc1 hc2] at hs
    split at hs
    · obtain rfl := Option.some.inj hs
      exact ⟨⟨htable, hc1, hc2, rfl⟩, h.child1, h.child2, h.input⟩
    · cases hs
  | wait2 =>
    simp only [hpc] at hs
    rw [hpc] at hp
    obtain ⟨htable, hc1, hc2, hr⟩ := hp
    simp only [State.wait, hr, forked_eq hc1 hc2] at hs
    split at hs
    · rename_i hterm
      obtain rfl := Option.some.inj hs
      obtain ⟨ht1, ht2⟩ := terminated_of_lt hterm
      exact ⟨⟨rfl, ht1, ht2, rfl⟩, h.child1, h.child2, h.input⟩
    · cases hs
  | exited ret =>
    simp only [hpc] at hs
    cases hs

/-- A step of the first child, whatever it does to the pipe. -/
theorem Inv.set_child1 (h : Inv σ s) {c : Child1Pc} {table : Table (File F)} {pipe : Channel UInt8}
    (hold : s.child1 ≠ .absent) (hrun : s.child1.terminated = false) (hc : c ≠ .absent)
    (hreceived : pipe.received = s.pipe.received) (hok : Child1Ok σ c table pipe.sent) :
    Inv σ { s with child1 := c, table1 := table, pipe := pipe } where
  parent := h.parent.set_child1 hold hc (fun hterm => by rw [hrun] at hterm; cases hterm)
  child1 := hok
  child2 := h.child2
  input := h.input.trans hreceived.symm

/-- A step of the second child other than a read. -/
theorem Inv.set_child2 (h : Inv σ s) {c : Child2Pc} {table : Table (File F)}
    (hold : s.child2 ≠ .absent) (hrun : s.child2.terminated = false) (hc : c ≠ .absent)
    (hok : Child2Ok σ c table s.input) : Inv σ { s with child2 := c, table2 := table } where
  parent := h.parent.set_child2 hold hc (fun hterm => by rw [hrun] at hterm; cases hterm)
  child1 := h.child1
  child2 := hok
  input := h.input

variable [DecidableEq F]

theorem child1_inv (h : Inv σ s) (hs : child1 σ s = some s') : Inv σ s' := by
  have h1 := h.child1
  unfold child1 at hs
  cases hc1 : s.child1 with
  | absent | exited ret | sigpipe =>
    simp only [hc1] at hs
    cases hs
  | setup stage =>
    have hmove : ∀ {c table}, c ≠ .absent → Child1Ok σ c table s.pipe.sent →
        Inv σ { s with child1 := c, table1 := table } := fun hc hok =>
      h.set_child1 (by simp [hc1]) (by simp [hc1, Child1Pc.terminated]) hc rfl hok
    rw [hc1] at h1
    obtain ⟨hstage, hsent⟩ := h1
    by_cases hexec : stage = .exec
    · subst hexec
      simp only [hc1] at hs
      obtain rfl := Option.some.inj hs
      exact hmove (by simp) ⟨hstage, by rw [hsent]; rfl⟩
    · obtain ⟨next, table, hnext, hok⟩ :=
        redirect_eq_some σ.piped_writeEnd σ.piped_readEnd σ.ne.symm hstage hexec
      simp only [hc1, hnext] at hs
      obtain rfl := Option.some.inj hs
      exact hmove (by simp) ⟨hok, hsent⟩
  | ls rest =>
    rw [hc1] at h1
    obtain ⟨hstage, hsent⟩ := h1
    cases rest with
    | nil =>
      simp only [hc1] at hs
      obtain rfl := Option.some.inj hs
      rw [List.append_nil] at hsent
      exact h.set_child1 (by simp [hc1]) (by simp [hc1, Child1Pc.terminated]) (by simp) rfl
        ⟨rfl, hsent, rfl⟩
    | cons b rest =>
      simp only [hc1, hstage.exec.1.lookup, if_pos (holds_readEnd h hc1)] at hs
      cases hs

theorem write_inv {k : ℕ} (h : Inv σ s) (hs : write σ s k = some s') : Inv σ s' := by
  have h1 := h.child1
  unfold write at hs
  split at hs
  · rename_i rest hc1
    rw [hc1] at h1
    obtain ⟨hstage, hsent⟩ := h1
    split at hs
    · obtain rfl := Option.some.inj hs
      refine h.set_child1 (by simp [hc1]) (by simp [hc1, Child1Pc.terminated]) (by simp) rfl
        ⟨hstage, ?_⟩
      rw [Channel.send_sent, List.append_assoc, List.take_append_drop, hsent]
    · cases hs
  · cases hs

theorem child2_inv (h : Inv σ s) (hs : child2 σ s = some s') : Inv σ s' := by
  have h2 := h.child2
  unfold child2 at hs
  cases hc2 : s.child2 with
  | absent | exited ret =>
    simp only [hc2] at hs
    cases hs
  | setup stage =>
    have hmove : ∀ {c table}, c ≠ .absent → Child2Ok σ c table s.input →
        Inv σ { s with child2 := c, table2 := table } :=
      h.set_child2 (by simp [hc2]) (by simp [hc2, Child2Pc.terminated])
    rw [hc2] at h2
    by_cases hexec : stage = .exec
    · subst hexec
      simp only [hc2] at hs
      obtain rfl := Option.some.inj hs
      exact hmove (by simp) h2
    · obtain ⟨next, table, hnext, hok⟩ :=
        redirect_eq_some σ.piped_readEnd σ.piped_writeEnd σ.ne h2 hexec
      simp only [hc2, hnext] at hs
      obtain rfl := Option.some.inj hs
      exact hmove (by simp) hok
  | wc =>
    rw [hc2] at h2
    simp only [hc2, (Setup.StageOk2.exec h2).1.lookup, if_true] at hs
    split at hs
    · rename_i heof
      obtain rfl := Option.some.inj hs
      exact h.set_child2 (by simp [hc2]) (by simp [hc2, Child2Pc.terminated]) (by simp)
        ⟨rfl, input_of_eof h hc2 heof.1 heof.2, rfl⟩
    · cases hs

theorem read_inv {k : ℕ} (h : Inv σ s) (hs : read s k = some s') : Inv σ s' := by
  have h2 := h.child2
  unfold read at hs
  split at hs
  · rename_i hc2
    rw [hc2] at h2
    split at hs
    · obtain rfl := Option.some.inj hs
      refine ⟨h.parent, h.child1, ?_, ?_⟩
      · rw [hc2]
        exact h2
      · rw [Channel.receive_received, h.input]
    · cases hs
  · cases hs

theorem inv (σ : Setup F) : (program σ).Invariant (Inv σ) where
  init := by
    rintro _ rfl
    exact inv_start σ
  step _ a _ h hs := match a with
    | .parent => parent_inv h hs
    | .child1 => child1_inv h hs
    | .write _ => write_inv h hs
    | .child2 => child2_inv h hs
    | .read _ => read_inv h hs

end LinuxTemplates.PipeFilter
