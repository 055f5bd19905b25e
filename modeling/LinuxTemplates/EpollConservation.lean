import LinuxTemplates.EpollInvariant

/-!
# Conservation and single closing in `epoll.cpp`

The program refines the ledger whose tasks are the FIFOs: a FIFO finishes when it is
hung up and drained, and closing its descriptor collects it.
-/

namespace LinuxTemplates.EpollProgram
open TransitionSystems TaskLedgers FifoChannels

variable {N : ℕ} {s s' : State N}

/-! ## Steps of the ledger -/

theorem phase_eq_collected_iff (i : Fin N) : s.phase i = .collected ↔ i ∈ s.closes := by
  by_cases hc : i ∈ s.closes
  · simp [State.phase, hc]
  · by_cases hd : (s.fifo i).drained <;> simp [State.phase, hc, hd]

theorem ledger_frame (hc : s'.closes = s.closes)
    (hd : ∀ i, (s'.fifo i).drained ↔ (s.fifo i).drained) : s'.ledger = s.ledger := by
  ext1
  · funext i
    simp [State.ledger, State.phase, hc, hd]
  · exact hc

/-- A FIFO that was not drained before the step may be drained after it. -/
theorem ledger_advance {i : Fin N} {f : Fifo} (hcl : i ∉ s.closes)
    (hrun : ¬ (s.fifo i).drained) (hf : s'.fifo = Function.update s.fifo i f)
    (hc : s'.closes = s.closes) :
    s'.ledger = s.ledger ∨ ∃ b, (ledgers (Fin N)).step s.ledger b = some s'.ledger := by
  by_cases hd : f.drained
  · have hphase : s.ledger.phase i = .running := by simp [State.ledger, State.phase, hcl, hrun]
    refine .inr ⟨.finish i, ?_⟩
    simp only [ledgers, post, hphase, if_true, Option.some.injEq]
    ext1
    · funext j
      rcases eq_or_ne j i with rfl | hne
      · simp [State.ledger, State.phase, hc, hf, hcl, hd]
      · simp [State.ledger, State.phase, hc, hf, hne]
    · exact hc.symm
  · refine .inl (ledger_frame hc fun j => ?_)
    rcases eq_or_ne j i with rfl | hne
    · simp [hf, hd, hrun]
    · simp [hf, hne]

theorem main_ledger (hi : Inv s) (h : main (fun i => i) s = some s') :
    s'.ledger = s.ledger ∨ ∃ b, (ledgers (Fin N)).step s.ledger b = some s'.ledger := by
  have hm := hi.mainOk
  cases hpc : s.main with
  | epollWait | returned => simp [main, hpc] at h
  | readErr | closeErr => simp [MainOk, hpc] at hm
  | epollCreate | setOpenFds | whileTest | closeEpfd =>
    simp only [main, hpc, Option.some.injEq] at h
    exact .inl (h ▸ rfl)
  | openLoop idx =>
    simp only [main, hpc] at h
    split at h
    · rename_i hidx
      simp only [Option.ite_none_left_eq_some, Option.some.injEq] at h
      obtain ⟨-, rfl⟩ := h
      refine .inl (ledger_frame rfl fun j => ?_)
      rcases eq_or_ne j ⟨idx, hidx⟩ with rfl | hne
      · simp [Fifo.drained]
      · simp [hne]
    · exact .inl ((Option.some.inj h) ▸ rfl)
  | handle events =>
    cases events with
    | nil =>
      simp only [main, hpc, Option.some.injEq] at h
      exact .inl (h ▸ rfl)
    | cons e rest =>
      simp only [MainOk, hpc, List.mem_cons, forall_eq_or_imp] at hm
      have hcur := hm.2.2.1
      by_cases hin : e.epollin = true
      · simp [main, hpc, hin, hcur.notClosed, hcur.data hin] at h
      · obtain ⟨hev, hup, hq⟩ := hcur.hangup (by simpa using hin)
        simp only [main, hpc, hin, hev, hcur.notClosed, Bool.false_eq_true, if_false, true_or,
          if_true, Option.some.injEq] at h
        subst h
        have hd : (s.fifo e.fd).drained := ⟨hup, hq⟩
        have hphase : s.ledger.phase e.fd = .finished := by
          simp [State.ledger, State.phase, hcur.notClosed, hd]
        refine .inr ⟨.collect e.fd, ?_⟩
        simp only [ledgers, post, hphase, if_true, Option.some.injEq]
        ext1
        · funext j
          rcases eq_or_ne j e.fd with rfl | hne <;> simp [State.ledger, State.phase, *]
        · rfl

theorem refines_ledger : Refines (program N) (ledgers (Fin N)) State.ledger where
  init s := by
    rintro rfl
    exact ⟨fun i => by simp [State.ledger, State.phase, start, Fifo.drained], rfl⟩
  step s a s' hr h := by
    have hi := inv_of_reachable hr
    have hopen : ∀ i, (s.fifo i).hup = false → i ∉ s.closes := by
      intro i hup hc
      have hd := (hi.drained i hc).1
      simp [hup] at hd
    cases a with
    | main => exact main_ledger hi h
    | wait batch =>
      simp only [program, step, wait, Option.ite_none_right_eq_some, Option.some.injEq] at h
      exact .inl (h.2 ▸ rfl)
    | interrupt =>
      simp only [program, step, interrupt, Option.ite_none_right_eq_some, Option.some.injEq] at h
      exact .inl (h.2 ▸ rfl)
    | read k =>
      have hread : EpollProgram.read (fun i => i) s k = some s' := h
      obtain ⟨e, rest, -, -, hcl, hk, hlen, rfl⟩ := read_cases hread
      refine ledger_advance hcl (fun hd => ?_) rfl rfl
      simp only [State.unread, hd.2, List.length_nil] at hlen
      omega
    | write i bs =>
      simp only [program, step, write, Option.ite_none_right_eq_some, Option.some.injEq] at h
      obtain ⟨⟨hup, -⟩, rfl⟩ := h
      exact ledger_advance (hopen i hup) (by simp [Fifo.drained, hup]) rfl rfl
    | hangup i =>
      simp only [program, step, hangup, Option.ite_none_right_eq_some, Option.some.injEq] at h
      obtain ⟨⟨-, hup⟩, rfl⟩ := h
      exact ledger_advance (hopen i hup) (by simp [Fifo.drained, hup]) rfl rfl

theorem balanced_of_program (h : (program N).Reachable s) : Balanced s.ledger :=
  balanced_of_reachable (refines_ledger.reachable h)

/-! ## Conservation -/

/-- `main` has set `num_open_fds`. -/
def MainPc.counting : MainPc N → Bool
  | .epollCreate | .openLoop _ | .setOpenFds => false
  | .returned ret => decide (ret = 0)
  | _ => true

/-- `main` has left its loop. -/
def MainPc.leftLoop : MainPc N → Bool
  | .closeEpfd | .returned _ => true
  | _ => false

theorem Inv.counted (hi : Inv s) (hc : s.main.counting = true) :
    s.numOpenFds + s.closes.length = N := by
  have hm := hi.mainOk
  cases hpc : s.main with
  | epollCreate | openLoop | setOpenFds => simp [hpc, MainPc.counting] at hc
  | readErr | closeErr => simp [MainOk, hpc] at hm
  | whileTest => simpa only [MainOk, hpc] using hm
  | epollWait | handle | closeEpfd =>
    simp only [MainOk, hpc] at hm
    exact hm.1
  | returned ret =>
    simp only [hpc, MainPc.counting, decide_eq_true_eq] at hc
    simp only [MainOk, hpc, hc] at hm
    rcases hm with ⟨hneg, -⟩ | ⟨-, hn, -⟩
    · omega
    · exact hn

theorem card_openFds (hb : Balanced s.ledger) : s.openFds.card + s.closes.length = N := by
  have ho := hb.outstanding_add_length
  rw [tally_eq_card, Fintype.card_fin] at ho
  simpa [State.ledger, State.openFds, phase_eq_collected_iff] using ho

theorem all_closed_iff : (∀ i, i ∈ s.closes) ↔ s.openFds.card = 0 := by
  simp [State.openFds, Finset.card_eq_zero, Finset.filter_eq_empty_iff]

theorem all_closed_of_leftLoop (hi : Inv s) (hb : Balanced s.ledger)
    (hl : s.main.leftLoop = true) : ∀ i, i ∈ s.closes := by
  have hm := hi.mainOk
  have hcard := card_openFds hb
  rw [all_closed_iff]
  cases hpc : s.main <;> simp only [hpc, MainPc.leftLoop, Bool.false_eq_true] at hl
  all_goals simp only [MainOk, hpc] at hm
  all_goals omega

theorem numOpenFds_eq (hi : Inv s) (hb : Balanced s.ledger) (hc : s.main.counting = true) :
    s.numOpenFds = s.openFds.card := by
  have hn := hi.counted hc
  have hcard := card_openFds hb
  omega

theorem Inv.handled_open (hi : Inv s) {e : EpollEvent N} {rest : List (EpollEvent N)}
    (hpc : s.main = .handle (e :: rest)) : e.fd ∉ s.closes := by
  have hm := hi.mainOk
  simp only [MainOk, hpc] at hm
  exact (hm.2.2 e List.mem_cons_self).notClosed

theorem Inv.no_error (hi : Inv s) : s.main ≠ .readErr ∧ s.main ≠ .closeErr := by
  have hm := hi.mainOk
  constructor <;> intro hpc <;> simp only [MainOk, hpc] at hm

/-- The loop test is left exactly when nothing is open. -/
theorem whileTest_leaves (hi : Inv s) (hb : Balanced s.ledger) (hpc : s.main = .whileTest) :
    ∃ s', (program N).step s .main = some s' ∧
      (s'.main.leftLoop = true ↔ ∀ i, i ∈ s.closes) := by
  have hn := numOpenFds_eq hi hb (by simp [hpc, MainPc.counting])
  refine ⟨_, by simp only [program, step, main, hpc]; rfl, ?_⟩
  rw [all_closed_iff]
  by_cases hpos : s.numOpenFds > 0
  · simp only [hpos, if_true, MainPc.leftLoop, Bool.false_eq_true, false_iff]
    omega
  · simp only [hpos, if_false, MainPc.leftLoop, true_iff]
    omega

/-- Once nothing is open the loop goes to its test and to no other `epoll_wait`. -/
theorem ends_of_all_closed (hi : Inv s) (hb : Balanced s.ledger) (hc : s.main.counting = true)
    (hl : s.main.leftLoop = false) (hall : ∀ i, i ∈ s.closes) :
    s.main = .handle [] ∨ s.main = .whileTest := by
  have hm := hi.mainOk
  have hz := all_closed_iff.mp hall
  have hn := numOpenFds_eq hi hb hc
  cases hpc : s.main with
  | epollCreate | openLoop | setOpenFds => simp [hpc, MainPc.counting] at hc
  | closeEpfd | returned => simp [hpc, MainPc.leftLoop] at hl
  | readErr => exact absurd hpc hi.no_error.1
  | closeErr => exact absurd hpc hi.no_error.2
  | whileTest => exact .inr rfl
  | epollWait =>
    simp only [MainOk, hpc] at hm
    omega
  | handle events =>
    cases events with
    | nil => exact .inl rfl
    | cons e rest => exact absurd (hall e.fd) (hi.handled_open hpc)

/-- In every schedule of writes, hang-ups and `epoll_wait` batches: what is printed for a
FIFO is a prefix of what was written to it; `num_open_fds` counts the descriptors not yet
closed; none is closed twice, nor read or closed when it is closed; a closed one has had
all its bytes printed; and the loop ends exactly when all are closed. -/
theorem fifos_conserved (h : (program N).Reachable s) :
    (∀ i, s.printed i <+: (s.fifo i).bytes.sent) ∧
    (s.main.counting = true → s.numOpenFds = s.openFds.card) ∧
    s.closes.Nodup ∧
    (∀ e rest, s.main = .handle (e :: rest) → e.fd ∉ s.closes) ∧
    (s.main ≠ .readErr ∧ s.main ≠ .closeErr) ∧
    (∀ i ∈ s.closes, (s.fifo i).hup = true ∧ s.printed i = (s.fifo i).bytes.sent) ∧
    (s.main.leftLoop = true → ∀ i, i ∈ s.closes) ∧
    (s.main = .whileTest → ∃ s', (program N).step s .main = some s' ∧
      (s'.main.leftLoop = true ↔ ∀ i, i ∈ s.closes)) ∧
    (s.main.counting = true → s.main.leftLoop = false → (∀ i, i ∈ s.closes) →
      s.main = .handle [] ∨ s.main = .whileTest) := by
  have hi := inv_of_reachable h
  have hb := balanced_of_program h
  refine ⟨?_, numOpenFds_eq hi hb, hb.nodup, fun _ _ => hi.handled_open, hi.no_error, ?_,
    all_closed_of_leftLoop hi hb, whileTest_leaves hi hb, ends_of_all_closed hi hb⟩
  · intro i
    rw [hi.printed]
    exact (s.fifo i).bytes.received_prefix
  · intro i hc
    obtain ⟨hup, hq⟩ := hi.drained i hc
    refine ⟨hup, ?_⟩
    rw [hi.printed]
    exact (s.fifo i).bytes.received_eq_sent hq

/-- Two FIFOs; the second hangs up between `epoll_wait` and the read of its last byte. -/
def hangupSchedule (i j : Fin N) : List (Action N) :=
  List.replicate 6 .main ++ [.write i [104, 105], .write j [10], .wait [j, i], .hangup j,
    .read 1, .read 1, .main, .main, .interrupt, .main, .wait [i, j], .read 1, .main, .main, .main,
    .hangup i, .wait [i], .main, .main, .main, .main]

theorem fifos_conserved_hangup :
    ((program 2).after (start 2) (hangupSchedule 0 1) (by decide)).printed 0 =
      (((program 2).after (start 2) (hangupSchedule 0 1) (by decide)).fifo 0).bytes.sent :=
  ((fifos_conserved ((program 2).reachable_after rfl (hangupSchedule 0 1) (by decide))).2.2.2.2.2.1 0
    (by decide)).2

end LinuxTemplates.EpollProgram
