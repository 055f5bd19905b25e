import LinuxTemplates.AddrinfoServerProgram

/-!
# The service loop of the second server `main`

Every path through the loop body closes the descriptor it accepted, and only a failing
`accept` or a failing `close` after a handled request leads out of the loop.
-/

namespace LinuxTemplates.AddrinfoServer
open TransitionSystems ReadlineProgram
open InternetSocketServer (DATA_MAX_SIZE EBADF ok)

theorem modify_last {α : Type} (old : List α) (c : α) (f : α → α) :
    (old ++ [c]).modify old.length f = old ++ [f c] := by
  induction old with
  | nil => rfl
  | cons a old ih => simp [ih]

variable {s s' : State} {old : List Connection} {c : Connection}

theorem getElem?_current (hc : s.conns = old ++ [c]) (hfd : s.acceptFd = old.length) :
    s.conns[s.acceptFd]? = some c := by
  simp [hc, hfd]

theorem onFd_conns (hc : s.conns = old ++ [c]) (hfd : s.acceptFd = old.length)
    (f : Connection → Connection) : (s.onFd f).conns = old ++ [f c] := by
  simp only [State.onFd, hc, hfd]
  exact modify_last old c f

theorem done_append (hold : ∀ d ∈ old, Done d) (hdone : Done c) : ∀ d ∈ old ++ [c], Done d := by
  intro d hd
  rcases List.mem_append.mp hd with hd | hd
  · exact hold d hd
  · exact List.mem_singleton.mp hd ▸ hdone

/-! ## One step -/

theorem main_ok (hm : MainOk s) (h : main s = some s') : MainOk s' := by
  cases hpc : s.main with
  | readline =>
    simp only [MainOk, Serving, CurrentOk, hpc] at hm
    obtain ⟨hig, old, c, hc, hfd, hold, h0, hr, ha⟩ := hm
    simp only [main, hpc] at h
    split at h
    · cases h
    · rename_i call hcall
      obtain rfl := Option.some.inj h
      by_cases hle : Int32.ofInt call.ret ≤ 0
      · have hnot : ¬ 0 < Int32.ofInt call.ret := Int32.not_lt.mpr hle
        simp only [MainOk, hle, if_true]
        exact ⟨hig, old, _, onFd_conns hc hfd _, hfd, hold, h0, by simp [hr], ha, hnot⟩
      · have hlt : 0 < Int32.ofInt call.ret := Int32.not_le.mp hle
        simp only [MainOk, hle, if_false]
        exact ⟨hig, old, _, onFd_conns hc hfd _, hfd, hold, h0, by simp [hr], ha, hlt⟩
  | closeEarly =>
    simp only [MainOk, Serving, CurrentOk, hpc] at hm
    obtain ⟨hig, old, c, hc, hfd, hold, h0, hr, ha, hle⟩ := hm
    simp only [main, hpc, Option.some.injEq] at h
    subst h
    refine ⟨?_, hig⟩
    rw [onFd_conns hc hfd]
    exact done_append hold ⟨by simp [h0], s.reqLen, hr, by simp [ha, hle]⟩
  | seqNum =>
    simp only [MainOk, Serving, CurrentOk, hpc] at hm
    obtain ⟨hig, old, c, hc, hfd, hold, h0, hcur⟩ := hm
    simp only [main, hpc, Option.some.injEq] at h
    subst h
    exact ⟨hig, old, c, hc, hfd, hold, h0, hcur⟩
  | signal | setup | accept | write | close | returned | killed => simp [main, hpc] at h

/-- The answer is attempted, however `write` comes out. -/
theorem answered_ok (hm : MainOk s) (hpc : s.main = .write)
    (reply : List UInt8 → List UInt8) :
    MainOk { s.onFd (fun conn =>
      { conn with acks := conn.acks + 1, reply := reply conn.reply }) with main := .seqNum } := by
  simp only [MainOk, Serving, CurrentOk, hpc] at hm
  obtain ⟨hig, old, c, hc, hfd, hold, h0, hr, ha, hlt⟩ := hm
  exact ⟨hig, old, _, onFd_conns hc hfd _, hfd, hold, h0, hr, by simp [ha], hlt⟩

theorem close_ok (hm : MainOk s) {success : Bool} (h : close s success = some s') : MainOk s' := by
  simp only [close, Option.ite_none_right_eq_some, Option.some.injEq] at h
  obtain ⟨⟨hpc, -⟩, rfl⟩ := h
  simp only [MainOk, Serving, CurrentOk, hpc] at hm
  obtain ⟨hig, old, c, hc, hfd, hold, h0, hr, ha, hlt⟩ := hm
  have hdone :
      ∀ d ∈ (s.onFd (fun conn => { conn with closes := conn.closes + 1 })).conns, Done d := by
    rw [onFd_conns hc hfd]
    exact done_append hold ⟨by simp [h0], s.reqLen, hr, by simp [ha, hlt]⟩
  cases success with
  | true => exact ⟨hdone, hig⟩
  | false => exact hdone

theorem accept_ok (hm : MainOk s) {input : Descriptor} (h : accept s input = some s') :
    MainOk s' := by
  simp only [accept, Option.ite_none_right_eq_some, Option.some.injEq] at h
  obtain ⟨hpc, rfl⟩ := h
  simp only [MainOk, hpc] at hm
  exact ⟨hm.2, s.conns, _, rfl, rfl, hm.1, rfl, rfl, rfl⟩

theorem mainOk_invariant (seqNum : UInt32) (reqData : Buffer) :
    (program seqNum reqData).Invariant MainOk where
  init s := by
    rintro rfl
    rfl
  step s a s' hm h := by
    cases a with
    | main => exact main_ok hm h
    | signal success =>
      simp only [program, step, signal, Option.ite_none_right_eq_some, Option.some.injEq] at h
      obtain ⟨hpc, rfl⟩ := h
      simp only [MainOk, hpc] at hm
      cases success <;> simp [MainOk, hm]
    | setup success =>
      simp only [program, step, setup, Option.ite_none_right_eq_some, Option.some.injEq] at h
      obtain ⟨hpc, rfl⟩ := h
      simp only [MainOk, hpc] at hm
      cases success <;> simp [MainOk, hm]
    | accept input => exact accept_ok hm h
    | acceptFails =>
      simp only [program, step, acceptFails, Option.ite_none_right_eq_some, Option.some.injEq] at h
      obtain ⟨hpc, rfl⟩ := h
      simp only [MainOk, hpc] at hm
      exact hm.1
    | write ret =>
      simp only [program, step, write, Option.ite_none_right_eq_some, Option.some.injEq] at h
      obtain ⟨⟨hpc, -⟩, rfl⟩ := h
      exact answered_ok hm hpc (· ++ ok.take ret.toNat)
    | writePeerClosed =>
      simp only [program, step, writePeerClosed, Option.ite_none_right_eq_some,
        Option.some.injEq] at h
      obtain ⟨⟨hpc, -⟩, rfl⟩ := h
      have hig : s.sigpipeIgnored = true := by
        simp only [MainOk, hpc] at hm
        exact hm.1
      rw [hig]
      exact answered_ok hm hpc id
    | close success => exact close_ok hm h

theorem mainOk_of_reachable {seqNum : UInt32} {reqData : Buffer}
    (h : (program seqNum reqData).Reachable s) : MainOk s :=
  (mainOk_invariant seqNum reqData).reachable h

/-! ## Descriptors over a whole run -/

/-- A step opens one connection, uses the one being served, or touches none. -/
theorem step_conns {a : Action} (h : step s a = some s') :
    s'.conns = s.conns ∨ (∃ input, s'.conns = s.conns ++ [.accepted input]) ∨
      (s.main.usesFd = true ∧ ∃ f, s'.conns = (s.onFd f).conns) := by
  cases a with
  | main =>
    simp only [step, main] at h
    split at h
    · rename_i hpc
      split at h
      · cases h
      · obtain rfl := Option.some.inj h
        exact .inr (.inr ⟨by rw [hpc]; rfl, _, rfl⟩)
    · rename_i hpc
      obtain rfl := Option.some.inj h
      exact .inr (.inr ⟨by rw [hpc]; rfl, _, rfl⟩)
    · obtain rfl := Option.some.inj h
      exact .inl rfl
    · cases h
  | accept input =>
    simp only [step, accept, Option.ite_none_right_eq_some, Option.some.injEq] at h
    exact .inr (.inl ⟨input, by rw [← h.2]⟩)
  | signal | setup | acceptFails =>
    simp only [step, signal, setup, acceptFails, Option.ite_none_right_eq_some,
      Option.some.injEq] at h
    exact .inl (by rw [← h.2])
  | write | writePeerClosed | close =>
    simp only [step, write, writePeerClosed, close, Option.ite_none_right_eq_some,
      Option.some.injEq] at h
    exact .inr (.inr ⟨by rw [h.1.1]; rfl, _, by rw [← h.2]⟩)

theorem Serving.of_usesFd (hm : MainOk s) (hu : s.main.usesFd = true) : Serving s := by
  cases hpc : s.main <;> simp only [hpc, MainPc.usesFd, Bool.false_eq_true] at hu
  all_goals simpa only [MainOk, hpc] using hm

theorem closed_untouched (hm : MainOk s) {a : Action} (h : step s a = some s') {i : ℕ}
    (hc : s.conns[i]? = some c) (hclosed : c.closes ≠ 0) : s'.conns[i]? = some c := by
  rcases step_conns h with he | ⟨input, he⟩ | ⟨hu, f, he⟩
  · rw [he, hc]
  · rw [he, List.getElem?_append_left (List.getElem?_eq_some_iff.mp hc).1, hc]
  · obtain ⟨-, old, d, hconns, hfd, -, h0, -⟩ := Serving.of_usesFd hm hu
    have hne : s.acceptFd ≠ i := by
      rintro rfl
      rw [getElem?_current hconns hfd] at hc
      obtain rfl := Option.some.inj hc
      exact hclosed h0
    simp [he, State.onFd, hne, hc]

/-- What holds of every connection at every point of the run. -/
theorem connection_cases (hm : MainOk s) (hc : c ∈ s.conns) :
    Done c ∨ (c.closes = 0 ∧ CurrentOk s.reqLen c s.main) := by
  have hserving : Serving s → Done c ∨ (c.closes = 0 ∧ CurrentOk s.reqLen c s.main) := by
    rintro ⟨-, old, d, hconns, -, hold, h0, hcur⟩
    rw [hconns, List.mem_append, List.mem_singleton] at hc
    rcases hc with hc | rfl
    · exact .inl (hold c hc)
    · exact .inr ⟨h0, hcur⟩
  cases hpc : s.main <;> simp only [MainOk, hpc] at hm
  case signal => simp [hm] at hc
  case setup => simp [hm.1] at hc
  case accept => exact .inl (hm.1 c hc)
  case returned => exact .inl (hm c hc)
  all_goals exact hpc ▸ hserving hm

theorem Done.ack (h : Done c) : c.acks ≤ 1 ∧ (c.acks = 1 ↔ ∃ r, c.readlines = [r] ∧ 0 < r) := by
  obtain ⟨-, r, hr, ha⟩ := h
  by_cases hpos : 0 < r <;> simp [hr, ha, hpos]

theorem CurrentOk.ack {reqLen : Int32} {pc : MainPc} (h : CurrentOk reqLen c pc) :
    c.acks ≤ 1 ∧ (c.acks = 1 → ∃ r, c.readlines = [r] ∧ 0 < r) := by
  cases pc <;> simp only [CurrentOk] at h
  case readline | closeEarly | write => simp [h]
  all_goals exact ⟨Nat.le_of_eq h.2.1, fun _ => ⟨reqLen, h.1, h.2.2⟩⟩

/-! ## Results of `Readline` -/

theorem Reads.frame {c' : Connection} (h : Reads c) (hstream : c'.stream = c.stream)
    (hinput : c'.input = c.input) (hreadlines : c'.readlines = c.readlines) : Reads c' := by
  constructor
  · rw [hreadlines, hinput, hstream]
    exact h.fresh
  · rw [hreadlines, hinput, hstream]
    exact h.results

theorem reads_onFd {f : Connection → Connection} (h : ∀ c ∈ s.conns, Reads c)
    (hf : ∀ c, s.conns[s.acceptFd]? = some c → Reads c → Reads (f c)) :
    ∀ c ∈ (s.onFd f).conns, Reads c := by
  intro c hc
  obtain ⟨i, hi⟩ := List.mem_iff_getElem?.mp hc
  rw [State.onFd, List.getElem?_modify] at hi
  obtain ⟨d, hd, hcd⟩ := Option.map_eq_some_iff.mp hi
  have hreads := h d (List.mem_of_getElem? hd)
  split at hcd
  · rename_i heq
    rw [← hcd]
    exact hf d (heq ▸ hd) hreads
  · rwa [← hcd]

/-- `Readline` is called once, on the input as it was accepted. -/
theorem main_reads (hm : MainOk s) (h : ∀ c ∈ s.conns, Reads c) (hs : main s = some s') :
    ∀ c ∈ s'.conns, Reads c := by
  simp only [main] at hs
  split at hs
  · rename_i hpc
    split at hs
    · cases hs
    · rename_i call hcall
      obtain rfl := Option.some.inj hs
      refine reads_onFd h fun c hc hreads => ?_
      simp only [MainOk, Serving, CurrentOk, hpc] at hm
      obtain ⟨-, old, d, hconns, hfd, -, h0, hr, -⟩ := hm
      rw [getElem?_current hconns hfd, Option.some.injEq] at hc
      subst hc
      have hdescriptor : s.descriptor = d.stream := by
        rw [State.descriptor, getElem?_current hconns hfd]
        simp [h0, hreads.fresh hr]
      rw [hdescriptor] at hcall
      constructor
      · simp
      · intro r hmem
        rw [hr, List.nil_append, List.mem_singleton] at hmem
        exact ⟨_, call, hcall, rfl, hmem⟩
  · obtain rfl := Option.some.inj hs
    exact reads_onFd h fun c _ hreads => hreads.frame rfl rfl rfl
  · obtain rfl := Option.some.inj hs
    exact h
  · cases hs

theorem step_reads (hm : MainOk s) (h : ∀ c ∈ s.conns, Reads c) {a : Action}
    (hs : step s a = some s') : ∀ c ∈ s'.conns, Reads c := by
  cases a with
  | main => exact main_reads hm h hs
  | accept input =>
    simp only [step, accept, Option.ite_none_right_eq_some, Option.some.injEq] at hs
    obtain ⟨-, rfl⟩ := hs
    intro c hc
    rcases List.mem_append.mp hc with hold | hnew
    · exact h c hold
    · rw [List.mem_singleton.mp hnew]
      exact ⟨fun _ => rfl, fun r hr => absurd hr List.not_mem_nil⟩
  | signal | setup | acceptFails =>
    simp only [step, signal, setup, acceptFails, Option.ite_none_right_eq_some,
      Option.some.injEq] at hs
    rw [← hs.2]
    exact h
  | write | writePeerClosed | close =>
    simp only [step, write, writePeerClosed, close, Option.ite_none_right_eq_some,
      Option.some.injEq] at hs
    rw [← hs.2]
    exact reads_onFd h fun c _ hreads => hreads.frame rfl rfl rfl

theorem reads_of_reachable {seqNum : UInt32} {reqData : Buffer}
    (h : (program seqNum reqData).Reachable s) : ∀ c ∈ s.conns, Reads c := by
  induction h with
  | init hi =>
    obtain rfl := hi
    exact fun c hc => absurd hc List.not_mem_nil
  | step hr hs ih => exact step_reads (mainOk_of_reachable hr) ih hs

/-- Only a call of `Readline` that does not return keeps the server from going on. -/
theorem served_progress (hm : MainOk s) (hreturned : ∀ ret, s.main ≠ .returned ret) :
    (∃ a s', step s a = some s') ∨ (s.main = .readline ∧
      ReadlineProgram.readline s.descriptor (some s.reqData) DATA_MAX_SIZE = none) := by
  cases hpc : s.main with
  | signal => exact .inl ⟨.signal true, by simp [step, signal, hpc]⟩
  | setup => exact .inl ⟨.setup true, by simp [step, setup, hpc]⟩
  | accept => exact .inl ⟨.accept ⟨[], .eof⟩, by simp [step, accept, hpc]⟩
  | readline =>
    cases hcall : ReadlineProgram.readline s.descriptor (some s.reqData) DATA_MAX_SIZE with
    | none => exact .inr ⟨rfl, rfl⟩
    | some call => exact .inl ⟨.main, by simp [step, main, hpc, hcall]⟩
  | closeEarly | seqNum => exact .inl ⟨.main, by simp [step, main, hpc]⟩
  | write => exact .inl ⟨.write (-1), by simp [step, write, hpc, ok]⟩
  | close => exact .inl ⟨.close false, by simp [step, close, hpc]⟩
  | returned ret => exact absurd hpc (hreturned ret)
  | killed => simp only [MainOk, hpc] at hm

theorem leaves_loop (hm : MainOk s) {a : Action} (h : step s a = some s')
    (hin : s.main.inLoop = true) (hout : s'.main.inLoop = false) :
    (s.main = .accept ∧ a = .acceptFails) ∨ (s.main = .close ∧ a = .close false) := by
  cases a with
  | main =>
    simp only [step, main] at h
    split at h
    · split at h
      · cases h
      · rename_i call hcall
        obtain rfl := Option.some.inj h
        by_cases hle : Int32.ofInt call.ret ≤ 0 <;> simp [hle, MainPc.inLoop] at hout
    · obtain rfl := Option.some.inj h
      cases hout
    · obtain rfl := Option.some.inj h
      cases hout
    · cases h
  | signal | setup =>
    simp only [step, signal, setup, Option.ite_none_right_eq_some] at h
    simp [h.1, MainPc.inLoop] at hin
  | accept | write =>
    simp only [step, accept, write, Option.ite_none_right_eq_some, Option.some.injEq] at h
    simp [← h.2, MainPc.inLoop] at hout
  | acceptFails =>
    simp only [step, acceptFails, Option.ite_none_right_eq_some] at h
    exact .inl ⟨h.1, rfl⟩
  | writePeerClosed =>
    simp only [step, writePeerClosed, Option.ite_none_right_eq_some, Option.some.injEq] at h
    have hig : s.sigpipeIgnored = true := by
      simp only [MainOk, h.1.1] at hm
      exact hm.1
    simp [← h.2, hig, MainPc.inLoop] at hout
  | close success =>
    simp only [step, close, Option.ite_none_right_eq_some, Option.some.injEq] at h
    cases success with
    | false => exact .inr ⟨h.1.1, rfl⟩
    | true => simp [← h.2, MainPc.inLoop] at hout

/-- In every run: before the next `accept` every descriptor has been closed exactly once;
a descriptor given to a call is the last one accepted and not closed; a closed one is
never touched again; "ok" is attempted once where `Readline` was positive and nowhere
else; and the loop is left only by a failing `accept` or a failing last `close`. The results of
`Readline` are those on the input accepted, and only a call of it keeps the server waiting. -/
theorem descriptors_straight {seqNum : UInt32} {reqData : Buffer}
    (h : (program seqNum reqData).Reachable s) :
    (s.main = .accept → ∀ c ∈ s.conns, c.closes = 1) ∧
    (s.main.usesFd = true → ∃ old c, s.conns = old ++ [c] ∧ s.acceptFd = old.length ∧
      c.closes = 0 ∧ ∀ d ∈ old, d.closes = 1) ∧
    (∀ a s', (program seqNum reqData).step s a = some s' → ∀ (i : ℕ) c, s.conns[i]? = some c →
      c.closes ≠ 0 → c.closes = 1 ∧ s'.conns[i]? = some c) ∧
    (∀ c ∈ s.conns, c.acks ≤ 1 ∧ (c.acks = 1 → ∃ r, c.readlines = [r] ∧ 0 < r) ∧
      (c.closes ≠ 0 → (c.acks = 1 ↔ ∃ r, c.readlines = [r] ∧ 0 < r))) ∧
    (∀ a s', (program seqNum reqData).step s a = some s' → s.main.inLoop = true →
      s'.main.inLoop = false →
      (s.main = .accept ∧ a = .acceptFails) ∨ (s.main = .close ∧ a = .close false)) ∧
    (∀ c ∈ s.conns, ∀ r ∈ c.readlines, ∃ buffer call, ReadlineProgram.readline c.stream
      (some buffer) DATA_MAX_SIZE = some call ∧ call.fd = c.input ∧ r = Int32.ofInt call.ret) ∧
    ((∀ ret, s.main ≠ .returned ret) → (∃ a s', (program seqNum reqData).step s a = some s') ∨
      (s.main = .readline ∧
        ReadlineProgram.readline s.descriptor (some s.reqData) DATA_MAX_SIZE = none)) := by
  have hm := mainOk_of_reachable h
  refine ⟨fun hpc c hc => ?_, fun hu => ?_, fun a s' hs i c hc hcl => ?_, fun c hc => ?_,
    fun a s' hs => leaves_loop hm hs, fun c hc => (reads_of_reachable h c hc).results,
    served_progress hm⟩
  · simp only [MainOk, hpc] at hm
    exact (hm.1 c hc).closes
  · obtain ⟨-, old, c, hconns, hfd, hold, h0, -⟩ := Serving.of_usesFd hm hu
    exact ⟨old, c, hconns, hfd, h0, fun d hd => (hold d hd).closes⟩
  · refine ⟨?_, closed_untouched hm hs hc hcl⟩
    rcases connection_cases hm (List.mem_of_getElem? hc) with hd | ⟨h0, -⟩
    · exact hd.closes
    · exact absurd h0 hcl
  · rcases connection_cases hm hc with hd | ⟨h0, hcur⟩
    · exact ⟨hd.ack.1, hd.ack.2.mp, fun _ => hd.ack.2⟩
    · exact ⟨hcur.ack.1, hcur.ack.2, fun hcl => absurd h0 hcl⟩

/-- A silent client, one that has gone when it is answered, and one that is served. -/
def troubledSchedule : List Action :=
  [.signal true, .setup true, .accept ⟨[], .eof⟩, .main, .main,
    .accept ⟨[.data 104, .data newline], .eof⟩, .main, .writePeerClosed, .main, .close true,
    .accept ⟨[.data 104], .eof⟩, .main, .write 2, .main, .close true]

def troubledEnd : State :=
  (program 7 ⟨fun _ => 0, []⟩).after (start 7 ⟨fun _ => 0, []⟩) troubledSchedule (by decide)

theorem descriptors_straight_troubled :
    troubledEnd.conns.length = 3 ∧ ∀ c ∈ troubledEnd.conns, c.closes = 1 :=
  ⟨by decide, (descriptors_straight ((program 7 ⟨fun _ => 0, []⟩).reachable_after rfl
    troubledSchedule (by decide))).1 (by decide)⟩

end LinuxTemplates.AddrinfoServer
