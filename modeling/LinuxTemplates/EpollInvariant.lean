import LinuxTemplates.EpollProgram

/-!
# The invariant of the event loop of `epoll.cpp`

An event taken by `epoll_wait` is still true when the loop reaches it: bytes leave a
FIFO only through the loop, a hang-up is for good and a batch names a FIFO once.
-/

namespace LinuxTemplates.EpollProgram
open TransitionSystems TaskLedgers FifoChannels CStrings

variable {N : ℕ} {s s' : State N}

/-! ## Frames -/

@[simp] theorem setFifo_self (s : State N) (i : Fin N) (f : Fifo) :
    (s.setFifo i f).fifo i = f := by
  simp [State.setFifo]

@[simp] theorem setFifo_other (s : State N) {i j : Fin N} (f : Fifo) (h : j ≠ i) :
    (s.setFifo i f).fifo j = s.fifo j := by
  simp [State.setFifo, h]

theorem Current.frame {e : EpollEvent N} (h : Current s e) (hc : s'.closes = s.closes)
    (hf : s'.fifo e.fd = s.fifo e.fd) : Current s' e := by
  refine ⟨hc ▸ h.notClosed, fun hin => ?_, fun hin => ?_⟩
  · simpa only [State.unread, hf] using h.data hin
  · simpa only [State.unread, hf] using h.hangup hin

/-- The assertion of `main` survives an action of a writer. -/
theorem MainOk.frame (hm : MainOk s) (hpc : s'.main = s.main) (hc : s'.closes = s.closes)
    (hn : s'.numOpenFds = s.numOpenFds) (ho : ∀ i, (s'.fifo i).opened = (s.fifo i).opened)
    (he : ∀ e, Current s e → Current s' e) : MainOk s' := by
  simp only [MainOk, hpc, hc, hn, ho]
  simp only [MainOk] at hm
  cases h : s.main with
  | handle events =>
    simp only [h] at hm
    exact ⟨hm.1, hm.2.1, fun e hmem => he e (hm.2.2 e hmem)⟩
  | readErr | closeErr => simp only [h] at hm
  | _ => simpa only [h] using hm

theorem printfBytes_of_nulFree {buf : List UInt8} (k : ℕ) (h : 0 ∉ buf) :
    printfBytes k buf = buf.take k :=
  upToNul_of_nulFree (fun hmem => h (List.mem_of_mem_take hmem))

/-- A step that replaces one FIFO only has to account for that one. -/
theorem Inv.update {i : Fin N} {f : Fifo} (hi : Inv s)
    (hf : s'.fifo = Function.update s.fifo i f)
    (hp : s'.printed = Function.update s.printed i f.bytes.received)
    (hc : s'.closes = s.closes) (hm : MainOk s') (hnul : 0 ∉ f.bytes.queue)
    (hopen : f.opened = false → f.hup = false)
    (hdrained : i ∈ s.closes → f.hup = true ∧ f.bytes.queue = []) : Inv s' := by
  refine ⟨hm, fun j => ?_, fun j => ?_, fun j => ?_, fun j => ?_⟩
  all_goals
    simp only [State.unread, hf, hp, hc]
    rcases eq_or_ne j i with rfl | hne
  · simp
  · simp [hne, hi.printed]
  · simpa using hnul
  · simpa [hne, State.unread] using hi.nulFree j
  · simpa using hopen
  · simpa [hne] using hi.unopened j
  · simpa using hdrained
  · simpa [hne, State.unread] using hi.drained j

/-- A step that touches no FIFO and closes nothing only has to meet its assertion. -/
theorem Inv.goto (hi : Inv s) (hf : s'.fifo = s.fifo) (hp : s'.printed = s.printed)
    (hc : s'.closes = s.closes) (hm : MainOk s') : Inv s' := by
  refine ⟨hm, ?_, ?_, ?_, ?_⟩
  · simpa only [hp, hf] using hi.printed
  · simpa only [State.unread, hf] using hi.nulFree
  · simpa only [hf] using hi.unopened
  · simpa only [State.unread, hf, hc] using hi.drained

theorem Inv.printed_update (hi : Inv s) {i : Fin N} {r : List UInt8}
    (hr : r = (s.fifo i).bytes.received) : s.printed = Function.update s.printed i r := by
  rw [hr, ← hi.printed, Function.update_eq_self]

/-! ## Writers -/

theorem write_inv {i : Fin N} {bs : List UInt8} (hi : Inv s) (h : write s i bs = some s') :
    Inv s' := by
  simp only [write, Option.ite_none_right_eq_some, Option.some.injEq] at h
  obtain ⟨⟨hup, hnul⟩, rfl⟩ := h
  have hq := hi.nulFree i
  simp only [State.unread] at hq
  refine hi.update rfl (hi.printed_update rfl) rfl ?_ (by simp [hq, hnul]) (by simp [hup]) ?_
  · refine hi.mainOk.frame rfl rfl rfl (fun j => ?_) (fun e he => ?_)
    · rcases eq_or_ne j i with rfl | hne <;> simp [*]
    · rcases eq_or_ne e.fd i with heq | hne
      · refine ⟨he.notClosed, fun hin => ?_, fun hin => ?_⟩
        · have hd := he.data hin
          simp only [State.unread, heq] at hd
          simp [State.unread, heq, hd]
        · have hh := (he.hangup hin).2.1
          simp [heq, hup] at hh
      · exact he.frame rfl (setFifo_other s _ hne)
  · intro hc
    have hd := (hi.drained i hc).1
    simp [hup] at hd

theorem hangup_inv {i : Fin N} (hi : Inv s) (h : hangup s i = some s') : Inv s' := by
  simp only [hangup, Option.ite_none_right_eq_some, Option.some.injEq] at h
  obtain ⟨⟨hopen, hup⟩, rfl⟩ := h
  refine hi.update rfl (hi.printed_update rfl) rfl ?_ (hi.nulFree i) (by simp [hopen]) ?_
  · refine hi.mainOk.frame rfl rfl rfl (fun j => ?_) (fun e he => ?_)
    · rcases eq_or_ne j i with rfl | hne <;> simp [*]
    · rcases eq_or_ne e.fd i with heq | hne
      · refine ⟨he.notClosed, fun hin => ?_, fun hin => ?_⟩
        · simpa [State.unread, heq] using he.data hin
        · have hg := he.hangup hin
          simp only [State.unread, heq] at hg
          simp [State.unread, heq, hg.1, hg.2.2]
      · exact he.frame rfl (setFifo_other s _ hne)
  · intro hc
    exact ⟨rfl, (hi.drained i hc).2⟩

/-! ## The loop -/

theorem wait_inv {batch : List (Fin N)} (hi : Inv s)
    (h : wait (fun i => i) s batch = some s') : Inv s' := by
  simp only [wait, Option.ite_none_right_eq_some, Option.some.injEq] at h
  obtain ⟨⟨hpc, -, -, hnd, hready⟩, rfl⟩ := h
  have hm := hi.mainOk
  simp only [MainOk, hpc] at hm
  refine hi.goto rfl rfl rfl ⟨hm.1, ?_, ?_⟩
  · simpa [State.event, Function.comp_def] using hnd
  · intro e he
    obtain ⟨i, hib, rfl⟩ := List.mem_map.mp he
    obtain ⟨-, hcl, hr⟩ := hready i hib
    refine ⟨hcl, fun hin => ?_, fun hin => ?_⟩
    · exact of_decide_eq_true hin
    · have hq : s.unread i = [] := by simpa [State.event] using hin
      have hh : (s.fifo i).hup = true := hr.resolve_left (fun hne => hne hq)
      exact ⟨hh, hh, hq⟩

theorem interrupt_inv (hi : Inv s) (h : interrupt s = some s') : Inv s' := by
  simp only [interrupt, Option.ite_none_right_eq_some, Option.some.injEq] at h
  obtain ⟨hpc, rfl⟩ := h
  have hm := hi.mainOk
  simp only [MainOk, hpc] at hm
  exact hi.goto rfl rfl rfl hm.1

theorem read_cases {file : Files N} {k : ℕ} (h : read file s k = some s') :
    ∃ e rest, s.main = .handle (e :: rest) ∧ e.epollin = true ∧ e.fd ∉ s.closes ∧ 0 < k ∧
      k ≤ (s.unread (file e.fd)).length ∧
      s' = { s.setFifo (file e.fd)
          { s.fifo (file e.fd) with bytes := (s.fifo (file e.fd)).bytes.receive k } with
        main := .handle rest
        printed := Function.update s.printed (file e.fd)
          (s.printed (file e.fd) ++ printfBytes k (s.unread (file e.fd))) } := by
  simp only [read] at h
  split at h
  · rename_i e rest hpc
    simp only [Option.ite_none_right_eq_some, Option.some.injEq] at h
    obtain ⟨⟨hin, hcl, hk, -, hlen⟩, rfl⟩ := h
    exact ⟨e, rest, hpc, hin, hcl, hk, hlen, rfl⟩
  · cases h

theorem read_inv {k : ℕ} (hi : Inv s) (h : read (fun i => i) s k = some s') : Inv s' := by
  obtain ⟨e, rest, hpc, hin, hcl, hk, hlen, rfl⟩ := read_cases h
  have hm := hi.mainOk
  simp only [MainOk, hpc, List.map_cons, List.nodup_cons, List.mem_cons, forall_eq_or_imp] at hm
  obtain ⟨hn, ⟨hfresh, hnd⟩, -, hrest⟩ := hm
  refine hi.update rfl ?_ rfl ⟨hn, hnd, fun e' he' => ?_⟩ ?_ (hi.unopened e.fd)
    (fun hc => absurd hc hcl)
  · rw [printfBytes_of_nulFree k (hi.nulFree e.fd), hi.printed]
    rfl
  · have hne : e'.fd ≠ e.fd := fun heq => hfresh (heq ▸ List.mem_map_of_mem he')
    exact (hrest e' he').frame rfl (setFifo_other s _ hne)
  · exact fun hmem => hi.nulFree e.fd (List.mem_of_mem_drop hmem)

theorem main_inv (hi : Inv s) (h : main (fun i => i) s = some s') : Inv s' := by
  have hm := hi.mainOk
  cases hpc : s.main with
  | epollCreate =>
    simp only [main, hpc, Option.some.injEq] at h
    simp only [MainOk, hpc] at hm
    subst h
    refine hi.goto rfl rfl rfl ?_
    by_cases hN : N = 0
    · simp [MainOk, hN]
    · simpa [MainOk, hN] using hm
  | openLoop idx =>
    simp only [MainOk, hpc] at hm
    simp only [main, hpc] at h
    split at h
    · rename_i hidx
      simp only [Option.ite_none_left_eq_some, Option.some.injEq, Bool.not_eq_true] at h
      obtain ⟨hup, rfl⟩ := h
      refine hi.update rfl (hi.printed_update rfl) rfl ⟨fun j => ?_, hm.2⟩ (hi.nulFree _)
        (by simp) (by simp [hm.2])
      rcases eq_or_ne j ⟨idx, hidx⟩ with rfl | hne
      · simp
      · have hv : j.val ≠ idx := fun heq => hne (Fin.ext heq)
        simp only [State.setFifo, Function.update_of_ne hne, hm.1]
        omega
    · rename_i hidx
      obtain rfl := Option.some.inj h
      refine hi.goto rfl rfl rfl ⟨fun i => (hm.1 i).mpr (by omega), hm.2⟩
  | setOpenFds =>
    simp only [main, hpc, Option.some.injEq] at h
    simp only [MainOk, hpc] at hm
    subst h
    exact hi.goto rfl rfl rfl (by simp [MainOk, hm.2])
  | whileTest =>
    simp only [main, hpc, Option.some.injEq] at h
    simp only [MainOk, hpc] at hm
    subst h
    refine hi.goto rfl rfl rfl ?_
    by_cases hpos : s.numOpenFds > 0
    · simpa [MainOk, hpos] using hm
    · simpa [MainOk, hpos] using ⟨hm, by omega⟩
  | epollWait => simp [main, hpc] at h
  | handle events =>
    cases events with
    | nil =>
      simp only [main, hpc, Option.some.injEq] at h
      simp only [MainOk, hpc] at hm
      subst h
      exact hi.goto rfl rfl rfl hm.1
    | cons e rest =>
      simp only [MainOk, hpc, List.map_cons, List.nodup_cons, List.mem_cons,
        forall_eq_or_imp] at hm
      obtain ⟨hn, ⟨hfresh, hnd⟩, hcur, hrest⟩ := hm
      by_cases hin : e.epollin = true
      · have hne := hcur.data hin
        simp [main, hpc, hin, hcur.notClosed, hne] at h
      · obtain ⟨hev, hup, hq⟩ := hcur.hangup (by simpa using hin)
        simp only [main, hpc, hin, hev, hcur.notClosed, Bool.false_eq_true, if_false, true_or,
          if_true, Option.some.injEq] at h
        subst h
        refine ⟨⟨?_, hnd, ?_⟩, hi.printed, hi.nulFree, hi.unopened, ?_⟩
        · simp only [List.length_append, List.length_singleton]
          omega
        · intro e' he'
          have hne : e'.fd ≠ e.fd := fun heq => hfresh (heq ▸ List.mem_map_of_mem he')
          have hc' := hrest e' he'
          exact ⟨by simp [hc'.notClosed, hne], hc'.data, hc'.hangup⟩
        · intro j hj
          rcases List.mem_append.mp hj with hj | hj
          · exact hi.drained j hj
          · obtain rfl := List.mem_singleton.mp hj
            exact ⟨hup, hq⟩
  | readErr | closeErr => simp [MainOk, hpc] at hm
  | closeEpfd =>
    simp only [main, hpc, Option.some.injEq] at h
    simp only [MainOk, hpc] at hm
    subst h
    exact hi.goto rfl rfl rfl (.inr ⟨rfl, hm⟩)
  | returned ret => simp [main, hpc] at h

theorem inv_invariant : (program N).Invariant Inv where
  init s := by
    rintro rfl
    refine ⟨?_, ?_, ?_, ?_, ?_⟩ <;> simp [MainOk, start, State.unread]
  step s a s' hi h := by
    cases a with
    | main => exact main_inv hi h
    | wait batch => exact wait_inv hi h
    | interrupt => exact interrupt_inv hi h
    | read k => exact read_inv hi h
    | write i bs => exact write_inv hi h
    | hangup i => exact hangup_inv hi h

theorem inv_of_reachable (h : (program N).Reachable s) : Inv s :=
  inv_invariant.reachable h

end LinuxTemplates.EpollProgram
