import LinuxTemplates.AddrinfoServerProgram
import Mathlib.Algebra.GroupWithZero.Nat

/-!
# The sequence number of the two servers

`seq_num` is declared without a value and the length of every request is added to it.
The numbers printed are therefore the sums of the lengths, moved by the content of the
stack at the start.
-/

namespace LinuxTemplates.SequenceNumbers
open TransitionSystems ReadlineProgram

universe u v

/-! ## Counters -/

/-- Where a server keeps its request lengths and its counter. `due` holds from the read
of a request until the request has been added. -/
structure Counter (State : Type u) where
  reading : State → Bool
  due : State → Bool
  reqLen : State → Int32
  seqNum : State → UInt32
  printed : State → List UInt32

section Counters
variable {State : Type u} {Action : Type v} {C : Counter State} {s s' : State}

/-- A positive result of `Readline`. -/
def Counter.request (C : Counter State) (s s' : State) : List ℕ :=
  if C.reading s = true ∧ 0 < C.reqLen s' then [(C.reqLen s').toInt.toNat] else []

/-- The counter with the request that is still to be added. -/
def Counter.total (C : Counter State) (s : State) : UInt32 :=
  C.seqNum s + if C.due s then (C.reqLen s).toUInt32 else 0

/-- A step reads a request, adds it and prints the sum, or does neither. -/
inductive Counter.Step (C : Counter State) (s s' : State) : Prop
  | read (hr : C.reading s = true) (hd : C.due s = false)
      (hd' : C.due s' = decide (0 < C.reqLen s')) (hn : C.seqNum s' = C.seqNum s)
      (hp : C.printed s' = C.printed s)
  | add (hr : C.reading s = false) (hd : C.due s = true) (hd' : C.due s' = false)
      (hn : C.seqNum s' = C.seqNum s + (C.reqLen s).toUInt32)
      (hp : C.printed s' = C.printed s ++ [C.seqNum s'])
  | keep (hr : C.reading s = false) (hd : C.due s' = C.due s) (hl : C.reqLen s' = C.reqLen s)
      (hn : C.seqNum s' = C.seqNum s) (hp : C.printed s' = C.printed s)

/-- Each number printed in a run is the sum, modulo 2^32, of the positive results of
`Readline` up to there. -/
def SumsPrinted (M : System State Action) (C : Counter State) : Prop :=
  ∀ s₀ as s a s' n, M.init s₀ → M.run s₀ as = some s → M.step s a = some s' →
    C.printed s' = C.printed s ++ [n] → n = UInt32.ofNat (M.history C.request s₀ as).sum

theorem toUInt32_of_pos {x : Int32} (hx : 0 < x) : x.toUInt32 = UInt32.ofNat x.toInt.toNat := by
  have hnat : x.toUInt32.toNat = x.toInt.toNat :=
    Int32.toNat_toUInt32_of_le (Int32.le_of_lt hx)
  rw [← hnat, UInt32.ofNat_toNat]

theorem Counter.total_step (h : C.Step s s') :
    C.total s' = C.total s + UInt32.ofNat (C.request s s').sum := by
  cases h with
  | read hr hd hd' hn hp =>
    by_cases hpos : 0 < C.reqLen s'
    · simp [Counter.total, Counter.request, hr, hd, hd', hn, hpos, toUInt32_of_pos hpos]
    · simp [Counter.total, Counter.request, hd, hd', hn, hpos]
  | add hr hd hd' hn hp => simp [Counter.total, Counter.request, hr, hd, hd', hn]
  | keep hr hd hl hn hp => simp [Counter.total, Counter.request, hr, hd, hl, hn]

theorem Counter.printed_step (h : C.Step s s') {n : UInt32}
    (hprint : C.printed s' = C.printed s ++ [n]) : n = C.total s := by
  cases h with
  | read hr hd hd' hn hp => simp [hp] at hprint
  | add hr hd hd' hn hp =>
    have heq : n = C.seqNum s' := by simpa [hp] using hprint.symm
    simp [heq, Counter.total, hd, hn]
  | keep hr hd hl hn hp => simp [hp] at hprint

variable {M : System State Action} {seqNum : UInt32}

/-- The numbers printed are off by the value that the counter started with. -/
theorem printed_eq (hinit : ∀ s, M.init s → C.total s = seqNum)
    (hstep : ∀ s a s', M.step s a = some s' → C.Step s s') {s₀ s s' : State} {as : List Action}
    {a : Action} {n : UInt32} (hs₀ : M.init s₀) (hrun : M.run s₀ as = some s)
    (hs : M.step s a = some s') (hn : C.printed s' = C.printed s ++ [n]) :
    n = seqNum + UInt32.ofNat (M.history C.request s₀ as).sum := by
  have hstart : C.total s₀ = seqNum + UInt32.ofNat ([] : List ℕ).sum := by
    simpa using hinit s₀ hs₀
  have htotal := System.history_invariant C.request
    (fun notes s => C.total s = seqNum + UInt32.ofNat notes.sum)
    (fun notes s a t hI ht => by
      rw [Counter.total_step (hstep s a t ht), hI, List.sum_append, UInt32.ofNat_add,
        UInt32.add_assoc]) hstart hrun
  rw [Counter.printed_step (hstep s a s' hs) hn, htotal, List.nil_append]

theorem sumsPrinted_iff (hinit : ∀ s, M.init s → C.total s = seqNum)
    (hstep : ∀ s a s', M.step s a = some s' → C.Step s s')
    (hprints : ∃ s₀ as s a s' n, M.init s₀ ∧ M.run s₀ as = some s ∧ M.step s a = some s' ∧
      C.printed s' = C.printed s ++ [n]) : SumsPrinted M C ↔ seqNum = 0 := by
  constructor
  · intro hsums
    obtain ⟨s₀, as, s, a, s', n, hs₀, hrun, hs, hn⟩ := hprints
    have heq := printed_eq hinit hstep hs₀ hrun hs hn
    rw [hsums s₀ as s a s' n hs₀ hrun hs hn] at heq
    exact UInt32.add_eq_right.mp heq.symm
  · rintro rfl s₀ as s a s' n hs₀ hrun hs hn
    rw [printed_eq hinit hstep hs₀ hrun hs hn, UInt32.zero_add]

end Counters

/-! ## The first `main` -/

section First
open InternetSocketServer

/-- The steps of the first `main`, and what its calls may do besides: any outcomes of the
reads, and failures of `accept`, `write` and `close`. -/
inductive FirstAction
  | main | accept (input : Descriptor) | acceptFails | writeShort (k : ℕ) | closeFails

def firstStep (s : State) : FirstAction → Option State
  | .main => main s
  | .accept input => if s.main = .accept then
      some { s with conns := s.conns ++ [⟨input, true, []⟩], acceptFd := s.conns.length,
                    main := .readline } else none
  | .acceptFails => if s.main = .accept then some { s with main := .returned (-1) } else none
  | .writeShort k => if s.main = .write ∧ k < ok.length then
      some { s.onFd (fun conn => { conn with reply := conn.reply ++ ok.take k }) with
        main := .seqNum } else none
  | .closeFails => if s.main = .close then
      some { s.onFd (fun conn => { conn with opened := false }) with main := .returned (-1) }
    else none

def firstMain (seqNum : UInt32) (reqData : Buffer) : System State FirstAction where
  init s := ∃ clients, s = start clients seqNum reqData
  step := firstStep

def firstCounter : Counter State where
  reading s := s.main = .readline
  due s := s.main = .write ∨ s.main = .seqNum
  reqLen := State.reqLen
  seqNum := State.seqNum
  printed := State.printed

theorem first_step {seqNum : UInt32} {reqData : Buffer} {s s' : State} {a : FirstAction}
    (h : (firstMain seqNum reqData).step s a = some s') : firstCounter.Step s s' := by
  cases a with
  | main =>
    simp only [firstMain, firstStep] at h
    cases hpc : s.main with
    | readline =>
      simp only [main, hpc] at h
      split at h
      · cases h
      · rename_i call hcall
        obtain rfl := Option.some.inj h
        refine .read (by simp [firstCounter, hpc]) (by simp [firstCounter, hpc]) ?_ rfl rfl
        by_cases hle : Int32.ofInt call.ret ≤ 0
        · simp [firstCounter, hle, Int32.not_lt.mpr hle]
        · simp [firstCounter, hle, Int32.not_le.mp hle]
    | seqNum =>
      simp only [main, hpc, Option.some.injEq] at h
      subst h
      exact .add (by simp [firstCounter, hpc]) (by simp [firstCounter, hpc])
        (by simp [firstCounter]) rfl rfl
    | accept | close =>
      simp only [main, hpc] at h
      split at h <;> simp only [Option.some.injEq, reduceCtorEq] at h
      all_goals
        subst h
        exact .keep (by simp [firstCounter, hpc]) (by simp [firstCounter, hpc]) rfl rfl rfl
    | write =>
      simp only [main, hpc, Option.some.injEq] at h
      subst h
      by_cases hopen : s.fdOpen = true
      · simp only [hopen, if_true]
        exact .keep (by simp [firstCounter, hpc]) (by simp [firstCounter, hpc]) rfl rfl rfl
      · simp only [hopen]
        exact .keep (by simp [firstCounter, hpc]) (by simp [firstCounter, hpc]) rfl rfl rfl
    | closeEarly =>
      simp only [main, hpc, Option.some.injEq] at h
      subst h
      exact .keep (by simp [firstCounter, hpc]) (by simp [firstCounter, hpc]) rfl rfl rfl
    | returned ret => simp [main, hpc] at h
  | accept | acceptFails | closeFails =>
    simp only [firstMain, firstStep, Option.ite_none_right_eq_some, Option.some.injEq] at h
    obtain ⟨hpc, rfl⟩ := h
    exact .keep (by simp [firstCounter, hpc]) (by simp [firstCounter, hpc]) rfl rfl rfl
  | writeShort k =>
    simp only [firstMain, firstStep, Option.ite_none_right_eq_some, Option.some.injEq] at h
    obtain ⟨⟨hpc, -⟩, rfl⟩ := h
    exact .keep (by simp [firstCounter, hpc]) (by simp [firstCounter, hpc]) rfl rfl rfl

/-- A client that sends a newline only. -/
def newlineClient : Descriptor := ⟨[.data newline], .eof⟩

theorem readline_newlineClient (b : Buffer) :
    ∃ c, readline newlineClient (some b) DATA_MAX_SIZE = some c ∧ ¬ Int32.ofInt c.ret ≤ 0 :=
  ⟨_, readline_open [newline] b, mt (reqLen_le_zero_iff b [newline]).mp (by simp)⟩

theorem first_prints (seqNum : UInt32) (reqData : Buffer) :
    ∃ s₀ as s a s' n, (firstMain seqNum reqData).init s₀ ∧
      (firstMain seqNum reqData).run s₀ as = some s ∧
      (firstMain seqNum reqData).step s a = some s' ∧
      firstCounter.printed s' = firstCounter.printed s ++ [n] := by
  obtain ⟨c, hc, hle⟩ := readline_newlineClient reqData
  obtain ⟨s₁, h₁, hfd, hb, hpc₁⟩ : ∃ s', firstStep (start [] seqNum reqData) (.accept newlineClient) =
      some s' ∧ s'.descriptor = newlineClient ∧ s'.reqData = reqData ∧ s'.main = .readline :=
    ⟨_, rfl, rfl, rfl, rfl⟩
  obtain ⟨s₂, h₂, hpc₂⟩ : ∃ s', main s₁ = some s' ∧ s'.main = .write := by
    simp only [main, hpc₁, hfd, hb, hc, hle, if_false]
    exact ⟨_, rfl, rfl⟩
  obtain ⟨s₃, h₃, hpc₃⟩ : ∃ s', main s₂ = some s' ∧ s'.main = .seqNum := by
    simp only [main, hpc₂]
    exact ⟨_, rfl, rfl⟩
  obtain ⟨s₄, h₄, hn⟩ : ∃ s', main s₃ = some s' ∧
      s'.printed = s₃.printed ++ [s₃.seqNum + s₃.reqLen.toUInt32] := by
    simp only [main, hpc₃]
    exact ⟨_, rfl, rfl⟩
  have hrun : (firstMain seqNum reqData).run (start [] seqNum reqData)
      [.accept newlineClient, .main, .main] = some s₃ := by
    simp only [System.run_cons, System.run_nil]
    exact ⟨s₁, h₁, s₂, h₂, s₃, h₃, rfl⟩
  exact ⟨_, _, s₃, .main, s₄, _, ⟨[], rfl⟩, hrun, h₄, hn⟩

end First

/-! ## The second `main` -/

section Second
open AddrinfoServer

/-- A process killed by SIGPIPE still owes the addition. -/
def secondCounter : Counter State where
  reading s := s.main = .readline
  due s := s.main = .write ∨ s.main = .seqNum ∨ s.main = .killed
  reqLen := State.reqLen
  seqNum := State.seqNum
  printed := State.printed

theorem second_step {seqNum : UInt32} {reqData : Buffer} {s s' : State} {a : Action}
    (h : (program seqNum reqData).step s a = some s') : secondCounter.Step s s' := by
  cases a with
  | main =>
    simp only [program, step] at h
    cases hpc : s.main with
    | readline =>
      simp only [main, hpc] at h
      split at h
      · cases h
      · rename_i call hcall
        obtain rfl := Option.some.inj h
        refine .read (by simp [secondCounter, hpc]) (by simp [secondCounter, hpc]) ?_ rfl rfl
        by_cases hle : Int32.ofInt call.ret ≤ 0
        · simp [secondCounter, hle, Int32.not_lt.mpr hle]
        · simp [secondCounter, hle, Int32.not_le.mp hle]
    | seqNum =>
      simp only [main, hpc, Option.some.injEq] at h
      subst h
      exact .add (by simp [secondCounter, hpc]) (by simp [secondCounter, hpc])
        (by simp [secondCounter]) rfl rfl
    | closeEarly =>
      simp only [main, hpc, Option.some.injEq] at h
      subst h
      exact .keep (by simp [secondCounter, hpc]) (by simp [secondCounter, hpc]) rfl rfl rfl
    | signal | setup | accept | write | close | returned | killed => simp [main, hpc] at h
  | accept | acceptFails =>
    simp only [program, step, accept, acceptFails, Option.ite_none_right_eq_some,
      Option.some.injEq] at h
    obtain ⟨hpc, rfl⟩ := h
    exact .keep (by simp [secondCounter, hpc]) (by simp [secondCounter, hpc]) rfl rfl rfl
  | signal success | setup success =>
    simp only [program, step, signal, setup, Option.ite_none_right_eq_some, Option.some.injEq] at h
    obtain ⟨hpc, rfl⟩ := h
    exact .keep (by simp [secondCounter, hpc]) (by cases success <;> simp [secondCounter, hpc])
      rfl rfl rfl
  | write ret =>
    simp only [program, step, write, Option.ite_none_right_eq_some, Option.some.injEq] at h
    obtain ⟨⟨hpc, -⟩, rfl⟩ := h
    exact .keep (by simp [secondCounter, hpc]) (by simp [secondCounter, hpc]) rfl rfl rfl
  | writePeerClosed =>
    simp only [program, step, writePeerClosed, Option.ite_none_right_eq_some, Option.some.injEq] at h
    obtain ⟨⟨hpc, -⟩, rfl⟩ := h
    exact .keep (by simp [secondCounter, hpc])
      (by cases hig : s.sigpipeIgnored <;> simp [secondCounter, hpc]) rfl rfl rfl
  | close success =>
    simp only [program, step, close, Option.ite_none_right_eq_some, Option.some.injEq] at h
    obtain ⟨⟨hpc, -⟩, rfl⟩ := h
    exact .keep (by simp [secondCounter, hpc]) (by cases success <;> simp [secondCounter, hpc])
      rfl rfl rfl

theorem second_prints (seqNum : UInt32) (reqData : Buffer) :
    ∃ s₀ as s a s' n, (program seqNum reqData).init s₀ ∧
      (program seqNum reqData).run s₀ as = some s ∧
      (program seqNum reqData).step s a = some s' ∧
      secondCounter.printed s' = secondCounter.printed s ++ [n] := by
  obtain ⟨c, hc, hle⟩ := readline_newlineClient reqData
  obtain ⟨s₁, h₁, hfd, hb, hpc₁⟩ : ∃ s', (program seqNum reqData).run (start seqNum reqData)
      [.signal true, .setup true, .accept newlineClient] = some s' ∧
      s'.descriptor = newlineClient ∧ s'.reqData = reqData ∧ s'.main = .readline :=
    ⟨_, rfl, rfl, rfl, rfl⟩
  obtain ⟨s₂, h₂, hpc₂⟩ : ∃ s', main s₁ = some s' ∧ s'.main = .write := by
    simp only [main, hpc₁, hfd, hb, hc, hle, if_false]
    exact ⟨_, rfl, rfl⟩
  obtain ⟨s₃, h₃, hpc₃⟩ : ∃ s', write s₂ (-1) = some s' ∧ s'.main = .seqNum := by
    simp [write, hpc₂]
  obtain ⟨s₄, h₄, hn⟩ : ∃ s', main s₃ = some s' ∧
      s'.printed = s₃.printed ++ [s₃.seqNum + s₃.reqLen.toUInt32] := by
    simp only [main, hpc₃]
    exact ⟨_, rfl, rfl⟩
  have hrun : (program seqNum reqData).run (start seqNum reqData)
      ([.signal true, .setup true, .accept newlineClient] ++ [.main, .write (-1)]) = some s₃ := by
    apply System.run_append _ h₁
    simp only [System.run_cons, System.run_nil]
    exact ⟨s₂, h₂, s₃, h₃, rfl⟩
  exact ⟨_, _, s₃, .main, s₄, _, rfl, hrun, h₄, hn⟩

end Second

theorem first_sumsPrinted_iff (seqNum : UInt32) (reqData : Buffer) :
    SumsPrinted (firstMain seqNum reqData) firstCounter ↔ seqNum = 0 := by
  apply sumsPrinted_iff _ (fun _ _ _ h => first_step h) (first_prints seqNum reqData)
  rintro s ⟨clients, rfl⟩
  simp [Counter.total, firstCounter, InternetSocketServer.start]

theorem second_sumsPrinted_iff (seqNum : UInt32) (reqData : Buffer) :
    SumsPrinted (AddrinfoServer.program seqNum reqData) secondCounter ↔ seqNum = 0 := by
  apply sumsPrinted_iff _ (fun _ _ _ h => second_step h) (second_prints seqNum reqData)
  rintro s rfl
  simp [Counter.total, secondCounter, AddrinfoServer.start]

/-- The numbers of either server are the sums of its requests in every run exactly when
the memory of `seq_num` happens to hold 0. -/
theorem sequence_numbers_iff (seqNum : UInt32) (reqData : Buffer) :
    (SumsPrinted (firstMain seqNum reqData) firstCounter ↔ seqNum = 0) ∧
      (SumsPrinted (AddrinfoServer.program seqNum reqData) secondCounter ↔ seqNum = 0) :=
  ⟨first_sumsPrinted_iff seqNum reqData, second_sumsPrinted_iff seqNum reqData⟩

theorem not_sums_printed :
    ¬ SumsPrinted (firstMain 1 ⟨fun _ => 0, []⟩) firstCounter ∧
      ¬ SumsPrinted (AddrinfoServer.program 1 ⟨fun _ => 0, []⟩) secondCounter := by
  rw [first_sumsPrinted_iff, second_sumsPrinted_iff]
  decide

end LinuxTemplates.SequenceNumbers
