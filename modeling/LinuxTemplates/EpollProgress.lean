import LinuxTemplates.EpollConservation
import Mathlib.Algebra.Order.BigOperators.Group.Finset

/-!
# Progress of the event loop of `epoll.cpp`

The loop on descriptors of any kind, several of which may be open on one file. What a
descriptor reports once its input is at the end depends on its file: a FIFO reports EPOLLHUP,
a hung-up terminal EPOLLIN as well. The loop closes a descriptor only on a report without
EPOLLIN, and a report of input is stale once another descriptor has read the input.
-/

namespace LinuxTemplates.EpollProgram
open TransitionSystems FifoChannels

/-- The events of one report. -/
structure Flags where
  epollin : Bool
  epollhup : Bool
  epollerr : Bool
  deriving DecidableEq, Repr

/-- The file of each descriptor, and what may be reported of a file at the end of its input,
which is never nothing. -/
structure Descriptors (N : ℕ) where
  file : Files N
  atEnd : Fin N → Flags → Bool
  reported : ∀ i, ∃ f, atEnd i f = true
  flagged : ∀ i f, atEnd i f = true → f.epollin = true ∨ f.epollhup = true ∨ f.epollerr = true

variable {N : ℕ}

def EpollEvent.flags (e : EpollEvent N) : Flags := ⟨e.epollin, e.epollhup, e.epollerr⟩

/-- A true report of a descriptor: EPOLLIN for unread bytes, or one for its end. -/
def Descriptors.Reports (D : Descriptors N) (s : State N) (e : EpollEvent N) : Prop :=
  (e.epollin = true ∧ s.unread (D.file e.fd) ≠ []) ∨
    ((s.fifo (D.file e.fd)).drained ∧ D.atEnd (D.file e.fd) e.flags = true)

instance (D : Descriptors N) (s : State N) (e : EpollEvent N) : Decidable (D.Reports s e) :=
  inferInstanceAs (Decidable ((_ ∧ _) ∨ (_ ∧ _)))

/-- `epoll_wait` returns a batch of reports. -/
def report (D : Descriptors N) (s : State N) (events : List (EpollEvent N)) : Option (State N) :=
  if s.main = .epollWait ∧ events ≠ [] ∧ events.length ≤ MAX_EVENTS ∧
      (events.map (·.fd)).Nodup ∧ ∀ e ∈ events, e.fd ∉ s.closes ∧ D.Reports s e then
    some { s with main := .handle events }
  else none

/-- Input arrives on file `i`. -/
def arrive (s : State N) (i : Fin N) (bs : List UInt8) : Option (State N) :=
  if (s.fifo i).hup = false then
    some (s.setFifo i { s.fifo i with bytes := (s.fifo i).bytes.send bs })
  else none

inductive LoopAction (N : ℕ)
  | main | report (events : List (EpollEvent N)) | interrupt | read (k : ℕ)
  | arrive (i : Fin N) (bs : List UInt8) | finish (i : Fin N)

def loopStep (D : Descriptors N) (s : State N) : LoopAction N → Option (State N)
  | .main => main D.file s
  | .report events => report D s events
  | .interrupt => interrupt s
  | .read k => read D.file s k
  | .arrive i bs => arrive s i bs
  | .finish i => hangup s i

/-- All descriptors are open and registered. -/
def loopStart (N : ℕ) : State N :=
  ⟨fun _ => ⟨.empty, false, true⟩, fun _ => [], [], 0, .setOpenFds⟩

/-- The loop on `N` descriptors that epoll has accepted. -/
def loop (D : Descriptors N) : System (State N) (LoopAction N) where
  init s := s = loopStart N
  step := loopStep D

/-! ## Progress -/

/-- The event is dealt with: bytes are delivered, or the descriptor is closed. -/
def Advances (D : Descriptors N) (s s' : State N) (i : Fin N) : Prop :=
  (s.fifo (D.file i)).bytes.received.length < (s'.fifo (D.file i)).bytes.received.length ∨
    (s'.closes = s.closes ++ [i] ∧ s'.numOpenFds = s.numOpenFds - 1)

/-- The events handled by a step. -/
def handled (s s' : State N) : List (EpollEvent N) :=
  match s.main, s'.main with
  | .handle (e :: rest), .handle rest' => if rest' = rest then [e] else []
  | _, _ => []

/-- All inputs are at their end. -/
def Ended (D : Descriptors N) (s : State N) : Prop := ∀ i, (s.fifo (D.file i)).hup = true

/-- Every event handled makes progress, and once all inputs are at their end every run
handles finitely many events and never stops short of the end of the loop. -/
structure Progresses (D : Descriptors N) : Prop where
  event : ∀ s, (loop D).Reachable s → ∀ a s' e, (loop D).step s a = some s' →
    e ∈ handled s s' → Advances D s s' e.fd
  bounded : ∀ s, (loop D).Reachable s → Ended D s →
    ∃ bound, ∀ as s', (loop D).run s as = some s' → ((loop D).history handled s as).length ≤ bound
  live : ∀ s, (loop D).Reachable s → Ended D s → s.main.leftLoop = false →
    ∃ a s', (loop D).step s a = some s' ∧ a ≠ .interrupt

/-! ## What holds in every run -/

/-- A report of the current batch is still true when the loop reaches it. -/
structure Standing (D : Descriptors N) (s : State N) (e : EpollEvent N) : Prop where
  notClosed : e.fd ∉ s.closes
  reports : D.Reports s e

def LoopMainOk (D : Descriptors N) (s : State N) : Prop :=
  match s.main with
  | .epollCreate | .openLoop _ | .readErr | .closeErr => False
  | .setOpenFds => s.closes = []
  | .whileTest => s.numOpenFds + s.closes.length = N
  | .epollWait => s.numOpenFds + s.closes.length = N ∧ 0 < s.numOpenFds
  | .handle events => s.numOpenFds + s.closes.length = N ∧ (events.map (·.fd)).Nodup ∧
    ∀ e ∈ events, Standing D s e
  | .closeEpfd | .returned _ => True

structure LoopInv (D : Descriptors N) (s : State N) : Prop where
  mainOk : LoopMainOk D s
  opened : ∀ i, (s.fifo i).opened = true
  nodup : s.closes.Nodup

section Invariant
variable {D : Descriptors N} {s s' : State N}

/-- Input and its end leave a standing report standing. -/
theorem Standing.frame {e : EpollEvent N} (h : Standing D s e) (hc : s'.closes = s.closes)
    (hin : s.unread (D.file e.fd) ≠ [] → s'.unread (D.file e.fd) ≠ [])
    (hend : (s.fifo (D.file e.fd)).drained → (s'.fifo (D.file e.fd)).drained) :
    Standing D s' e := by
  refine ⟨hc ▸ h.notClosed, ?_⟩
  rcases h.reports with ⟨hi, hq⟩ | ⟨hd, hf⟩
  · exact .inl ⟨hi, hin hq⟩
  · exact .inr ⟨hend hd, hf⟩

theorem LoopMainOk.frame (hm : LoopMainOk D s) (hpc : s'.main = s.main)
    (hc : s'.closes = s.closes) (hn : s'.numOpenFds = s.numOpenFds)
    (he : ∀ e, Standing D s e → Standing D s' e) : LoopMainOk D s' := by
  simp only [LoopMainOk, hpc, hc, hn]
  simp only [LoopMainOk] at hm
  cases h : s.main with
  | handle events =>
    simp only [h] at hm
    exact ⟨hm.1, hm.2.1, fun e hmem => he e (hm.2.2 e hmem)⟩
  | epollCreate | openLoop | readErr | closeErr => simp only [h] at hm
  | setOpenFds | whileTest | epollWait => simpa only [h] using hm
  | closeEpfd | returned => trivial

/-- A step that changes one input only. -/
theorem LoopInv.input {i : Fin N} {f : Fifo} (hi : LoopInv D s) (ho : f.opened = true)
    (hin : s.unread i ≠ [] → f.bytes.queue ≠ []) (hend : (s.fifo i).drained → f.drained) :
    LoopInv D (s.setFifo i f) := by
  refine ⟨hi.mainOk.frame rfl rfl rfl fun e he => ?_, fun j => ?_, hi.nodup⟩
  · rcases eq_or_ne (D.file e.fd) i with heq | hne
    · refine he.frame rfl ?_ ?_ <;> simp only [State.unread, heq, setFifo_self]
      · exact hin
      · exact hend
    · refine he.frame rfl ?_ ?_ <;> simp [State.unread, hne]
  · rcases eq_or_ne j i with rfl | hne
    · simpa using ho
    · simpa [hne] using hi.opened j

/-- The rest of a batch once its first event has been handled. -/
theorem LoopMainOk.rest {e : EpollEvent N} {rest : List (EpollEvent N)} (hm : LoopMainOk D s)
    (hpc : s.main = .handle (e :: rest)) :
    Standing D s e ∧ (rest.map (·.fd)).Nodup ∧ ∀ x ∈ rest, Standing D s x ∧ x.fd ≠ e.fd := by
  simp only [LoopMainOk, hpc, List.map_cons, List.nodup_cons] at hm
  obtain ⟨-, ⟨hne, hnd⟩, hall⟩ := hm
  refine ⟨hall e List.mem_cons_self, hnd, fun x hx => ⟨hall x (List.mem_cons_of_mem e hx), ?_⟩⟩
  intro heq
  exact hne (heq ▸ List.mem_map_of_mem hx)

/-- A report without EPOLLIN is one for the end. -/
theorem Standing.closing {e : EpollEvent N} (h : Standing D s e) (hin : e.epollin = false) :
    e.epollhup = true ∨ e.epollerr = true := by
  rcases h.reports with ⟨hi, -⟩ | ⟨-, hf⟩
  · simp [hin] at hi
  · rcases D.flagged _ _ hf with h | h
    · simp [EpollEvent.flags, hin] at h
    · exact h

theorem loop_main_inv (hi : LoopInv D s) (h : main D.file s = some s') : LoopInv D s' := by
  have hm := hi.mainOk
  cases hpc : s.main with
  | epollCreate | openLoop | readErr | closeErr => simp only [LoopMainOk, hpc] at hm
  | epollWait | returned => simp [main, hpc] at h
  | setOpenFds =>
    simp only [main, hpc, Option.some.injEq] at h
    simp only [LoopMainOk, hpc] at hm
    subst h
    exact ⟨by simp [LoopMainOk, hm], hi.opened, hi.nodup⟩
  | whileTest =>
    simp only [main, hpc, Option.some.injEq] at h
    simp only [LoopMainOk, hpc] at hm
    subst h
    refine ⟨?_, hi.opened, hi.nodup⟩
    by_cases hpos : s.numOpenFds > 0 <;> simp [LoopMainOk, hpos, hm]
  | closeEpfd =>
    simp only [main, hpc, Option.some.injEq] at h
    subst h
    exact ⟨trivial, hi.opened, hi.nodup⟩
  | handle events =>
    cases events with
    | nil =>
      simp only [main, hpc, Option.some.injEq] at h
      simp only [LoopMainOk, hpc] at hm
      subst h
      exact ⟨hm.1, hi.opened, hi.nodup⟩
    | cons e rest =>
      obtain ⟨he, hnd, hrest⟩ := hm.rest hpc
      simp only [LoopMainOk, hpc] at hm
      by_cases hin : e.epollin = true
      · simp only [main, hpc, hin, he.notClosed, if_true, if_false,
          Option.ite_none_right_eq_some, Option.some.injEq] at h
        obtain ⟨-, rfl⟩ := h
        exact ⟨⟨hm.1, hnd, fun x hx => (hrest x hx).1.frame rfl id id⟩, hi.opened, hi.nodup⟩
      · have hend := he.closing (by simpa using hin)
        simp only [main, hpc, hin, hend, he.notClosed, if_true, if_false, Bool.false_eq_true,
          Option.some.injEq] at h
        subst h
        refine ⟨⟨?_, hnd, fun x hx => ⟨?_, (hrest x hx).1.reports⟩⟩, hi.opened, ?_⟩
        · simp only [List.length_append, List.length_singleton]
          push_cast
          omega
        · simp [(hrest x hx).1.notClosed, (hrest x hx).2]
        · have hne : ∀ i ∈ s.closes, i ≠ e.fd := fun i hmem heq => he.notClosed (heq ▸ hmem)
          simpa [List.nodup_append, hi.nodup] using hne

/-- No other descriptor loses the input that a read takes. -/
theorem loop_read_inv (hfile : Function.Injective D.file) {k : ℕ} (hi : LoopInv D s)
    (h : read D.file s k = some s') : LoopInv D s' := by
  have hm := hi.mainOk
  obtain ⟨e, rest, hpc, -, -, -, -, rfl⟩ := read_cases h
  obtain ⟨-, hnd, hrest⟩ := hm.rest hpc
  simp only [LoopMainOk, hpc] at hm
  refine ⟨⟨hm.1, hnd, fun x hx => ?_⟩, fun j => ?_, hi.nodup⟩
  · obtain ⟨hx', hne⟩ := hrest x hx
    have hfiles : D.file x.fd ≠ D.file e.fd := fun heq => hne (hfile heq)
    refine hx'.frame rfl ?_ ?_ <;> simp [State.unread, State.setFifo, hfiles]
  · rcases eq_or_ne j (D.file e.fd) with rfl | hne
    · simpa using hi.opened (D.file e.fd)
    · simpa [hne] using hi.opened j

theorem loopInv_invariant (hfile : Function.Injective D.file) :
    (loop D).Invariant (LoopInv D) where
  init s := by
    rintro rfl
    exact ⟨rfl, fun _ => rfl, List.nodup_nil⟩
  step s a s' hi h := by
    cases a with
    | main => exact loop_main_inv hi h
    | read k => exact loop_read_inv hfile hi h
    | report events =>
      simp only [loop, loopStep, report, Option.ite_none_right_eq_some, Option.some.injEq] at h
      obtain ⟨⟨hpc, -, -, hnd, hrep⟩, rfl⟩ := h
      have hm := hi.mainOk
      simp only [LoopMainOk, hpc] at hm
      exact ⟨⟨hm.1, hnd, fun e he => ⟨(hrep e he).1, (hrep e he).2⟩⟩, hi.opened, hi.nodup⟩
    | interrupt =>
      simp only [loop, loopStep, interrupt, Option.ite_none_right_eq_some, Option.some.injEq] at h
      obtain ⟨hpc, rfl⟩ := h
      have hm := hi.mainOk
      simp only [LoopMainOk, hpc] at hm
      exact ⟨hm.1, hi.opened, hi.nodup⟩
    | arrive i bs =>
      simp only [loop, loopStep, arrive, Option.ite_none_right_eq_some, Option.some.injEq] at h
      obtain ⟨hup, rfl⟩ := h
      refine hi.input (hi.opened i) (fun hq => ?_) (fun hd => ?_)
      · exact fun hnil => hq (List.append_eq_nil_iff.mp hnil).1
      · simp [Fifo.drained, hup] at hd
    | finish i =>
      simp only [loop, loopStep, hangup, Option.ite_none_right_eq_some, Option.some.injEq] at h
      obtain ⟨⟨hopen, -⟩, rfl⟩ := h
      exact hi.input hopen id (fun hd => ⟨rfl, hd.2⟩)

theorem loopInv_of_reachable (hfile : Function.Injective D.file) (h : (loop D).Reachable s) :
    LoopInv D s :=
  (loopInv_invariant hfile).reachable h

/-! ## When every report of an end closes -/

theorem mem_handled {e : EpollEvent N} (h : e ∈ handled s s') :
    ∃ rest, s.main = .handle (e :: rest) ∧ s'.main = .handle rest := by
  simp only [handled] at h
  split at h
  · rename_i x rest rest' hpc hpc'
    split at h
    · rename_i heq
      obtain rfl := List.mem_singleton.mp h
      exact ⟨rest, hpc, heq ▸ hpc'⟩
    · simp at h
  · simp at h

theorem advances_of_handled (hD : ∀ i f, D.atEnd (D.file i) f = true → f.epollin = false)
    (hi : LoopInv D s) {a : LoopAction N} (h : loopStep D s a = some s') {e : EpollEvent N}
    (he : e ∈ handled s s') : Advances D s s' e.fd := by
  obtain ⟨rest, hpc, hpc'⟩ := mem_handled he
  obtain ⟨hst, -, -⟩ := hi.mainOk.rest hpc
  cases a with
  | main =>
    simp only [loopStep] at h
    rcases hst.reports with ⟨hin, hq⟩ | ⟨-, hf⟩
    · simp [main, hpc, hin, hst.notClosed, hq] at h
    · have hin : e.epollin = false := hD _ _ hf
      simp only [main, hpc, hin, hst.closing hin, hst.notClosed, if_true, if_false,
        Bool.false_eq_true, Option.some.injEq] at h
      exact .inr (h ▸ ⟨rfl, rfl⟩)
  | read k =>
    obtain ⟨x, rest', hx, -, -, hk, hlen, rfl⟩ := read_cases h
    obtain ⟨rfl, rfl⟩ : x = e ∧ rest' = rest := by simpa [hpc] using hx.symm
    left
    simp only [State.unread] at hlen
    simp only [setFifo_self, Channel.receive_received, List.length_append, List.length_take]
    omega
  | report | interrupt =>
    simp only [loopStep, report, interrupt, Option.ite_none_right_eq_some] at h
    simp [hpc] at h
  | arrive i bs =>
    simp only [loopStep, arrive, Option.ite_none_right_eq_some, Option.some.injEq] at h
    have hsame : s'.main = s.main := h.2 ▸ rfl
    simp [hpc, hpc'] at hsame
  | finish i =>
    simp only [loopStep, hangup, Option.ite_none_right_eq_some, Option.some.injEq] at h
    have hsame : s'.main = s.main := h.2 ▸ rfl
    simp [hpc, hpc'] at hsame

/-! ## The measure of the loop -/

/-- Bytes to be delivered and descriptors to be closed. -/
def load (s : State N) : ℕ := ∑ i, (s.unread i).length + (N - s.closes.length)

/-- What any step does once all inputs are at their end. -/
structure Shrinks (s s' : State N) : Prop where
  hup : ∀ i, (s'.fifo i).hup = true
  sent : ∀ i, (s'.fifo i).bytes.sent = (s.fifo i).bytes.sent
  unread : ∀ i, (s'.unread i).length ≤ (s.unread i).length
  closes : s.closes.length ≤ s'.closes.length

theorem Shrinks.of_fifo (hup : ∀ i, (s.fifo i).hup = true) (hf : s'.fifo = s.fifo)
    (hc : s.closes.length ≤ s'.closes.length) : Shrinks s s' :=
  ⟨by simpa [hf] using hup, by simp [hf], by simp [State.unread, hf], hc⟩

theorem shrinks_of_step (hi : LoopInv D s) (hup : ∀ i, (s.fifo i).hup = true) {a : LoopAction N}
    (h : loopStep D s a = some s') : Shrinks s s' := by
  cases a with
  | main =>
    simp only [loopStep] at h
    have hm := hi.mainOk
    cases hpc : s.main with
    | epollCreate | openLoop | readErr | closeErr => simp only [LoopMainOk, hpc] at hm
    | epollWait | returned => simp [main, hpc] at h
    | setOpenFds | whileTest | closeEpfd =>
      simp only [main, hpc, Option.some.injEq] at h
      subst h
      exact .of_fifo hup rfl le_rfl
    | handle events =>
      cases events with
      | nil =>
        simp only [main, hpc, Option.some.injEq] at h
        subst h
        exact .of_fifo hup rfl le_rfl
      | cons e rest =>
        obtain ⟨he, -, -⟩ := hm.rest hpc
        by_cases hin : e.epollin = true
        · simp only [main, hpc, hin, he.notClosed, if_true, if_false,
            Option.ite_none_right_eq_some, Option.some.injEq] at h
          obtain ⟨-, rfl⟩ := h
          exact .of_fifo hup rfl le_rfl
        · have hend := he.closing (by simpa using hin)
          simp only [main, hpc, hin, hend, he.notClosed, if_true, if_false, Bool.false_eq_true,
            Option.some.injEq] at h
          subst h
          exact .of_fifo hup rfl (by simp)
  | read k =>
    obtain ⟨e, rest, -, -, -, -, -, rfl⟩ := read_cases h
    refine ⟨fun j => ?_, fun j => ?_, fun j => ?_, le_rfl⟩
    all_goals
      simp only [State.unread]
      rcases eq_or_ne j (D.file e.fd) with rfl | hne
    · simpa using hup (D.file e.fd)
    · simpa [hne] using hup j
    · simp
    · simp [hne]
    · simp
    · simp [hne]
  | report events =>
    simp only [loopStep, report, Option.ite_none_right_eq_some, Option.some.injEq] at h
    exact h.2 ▸ .of_fifo hup rfl le_rfl
  | interrupt =>
    simp only [loopStep, interrupt, Option.ite_none_right_eq_some, Option.some.injEq] at h
    exact h.2 ▸ .of_fifo hup rfl le_rfl
  | arrive i bs => simp [loopStep, arrive, hup] at h
  | finish i => simp [loopStep, hangup, hup] at h

theorem load_le (h : Shrinks s s') : load s' ≤ load s := by
  have hsum := Finset.sum_le_sum (fun i (_ : i ∈ Finset.univ) => h.unread i)
  have hc := h.closes
  simp only [load]
  omega

theorem load_lt (h : Shrinks s s') (hnd : s'.closes.Nodup) {i : Fin N} (ha : Advances D s s' i) :
    load s' < load s := by
  have hle : s'.closes.length ≤ N := by simpa using hnd.length_le_card
  have hc := h.closes
  rcases ha with hrec | ⟨hcl, -⟩
  · have hi : (s'.unread (D.file i)).length < (s.unread (D.file i)).length := by
      have h1 := congrArg List.length (s.fifo (D.file i)).bytes.conserved
      have h2 := congrArg List.length (s'.fifo (D.file i)).bytes.conserved
      have h3 := h.sent (D.file i)
      simp only [List.length_append] at h1 h2
      simp only [State.unread]
      rw [h3] at h2
      omega
    have hsum := Finset.sum_lt_sum (fun j (_ : j ∈ Finset.univ) => h.unread j)
      ⟨D.file i, Finset.mem_univ _, hi⟩
    simp only [load]
    omega
  · have hsum := Finset.sum_le_sum (fun j (_ : j ∈ Finset.univ) => h.unread j)
    have hlen : s'.closes.length = s.closes.length + 1 := by simp [hcl]
    simp only [load]
    omega

theorem length_handled_le (s s' : State N) : (handled s s').length ≤ 1 := by
  simp only [handled]
  split
  · split <;> simp
  · simp

/-- Each event handled is paid for by the load. -/
theorem handled_pays (hD : ∀ i f, D.atEnd (D.file i) f = true → f.epollin = false)
    (hi : LoopInv D s) (hi' : LoopInv D s') (hup : ∀ i, (s.fifo i).hup = true) {a : LoopAction N}
    (h : loopStep D s a = some s') : (handled s s').length + load s' ≤ load s := by
  have hs := shrinks_of_step hi hup h
  have hone := length_handled_le s s'
  cases hh : handled s s' with
  | nil => simpa using load_le hs
  | cons e rest =>
    have hlt := load_lt hs hi'.nodup (advances_of_handled hD hi h (hh ▸ List.mem_cons_self))
    rw [hh] at hone
    omega

theorem history_handled_le (hfile : Function.Injective D.file)
    (hD : ∀ i f, D.atEnd (D.file i) f = true → f.epollin = false) (hr : (loop D).Reachable s)
    (hup : ∀ i, (s.fifo i).hup = true) {as : List (LoopAction N)}
    (h : (loop D).run s as = some s') : ((loop D).history handled s as).length ≤ load s := by
  have hrun := System.history_invariant handled
    (fun notes t => (loop D).Reachable t ∧ (∀ i, (t.fifo i).hup = true) ∧
      notes.length + load t ≤ load s)
    (fun notes t a u ht hu => by
      obtain ⟨hrt, hupt, hle⟩ := ht
      have hit := loopInv_of_reachable hfile hrt
      have hpay := handled_pays hD hit (loopInv_of_reachable hfile (hrt.step hu)) hupt hu
      refine ⟨hrt.step hu, (shrinks_of_step hit hupt hu).hup, ?_⟩
      rw [List.length_append]
      omega)
    (show _ ∧ _ ∧ ([] : List (EpollEvent N)).length + load s ≤ load s from ⟨hr, hup, by simp⟩) h
  have hle := hrun.2.2
  rw [List.nil_append] at hle
  omega

/-! ## The loop never stops short -/

theorem exists_open (hn : s.numOpenFds + s.closes.length = N) (hpos : 0 < s.numOpenFds) :
    ∃ i, i ∉ s.closes := by
  by_contra hall
  have hsub : (Finset.univ : Finset (Fin N)) ⊆ s.closes.toFinset := by
    intro i _
    rw [List.mem_toFinset]
    exact not_not.mp (fun hc => hall ⟨i, hc⟩)
  have hcard := (Finset.card_le_card hsub).trans (List.toFinset_card_le s.closes)
  rw [Finset.card_univ, Fintype.card_fin] at hcard
  omega

/-- An open descriptor at the end of its input always has something to report. -/
theorem exists_report (D : Descriptors N) {i : Fin N} (hup : (s.fifo (D.file i)).hup = true) :
    ∃ e : EpollEvent N, e.fd = i ∧ D.Reports s e := by
  by_cases hq : s.unread (D.file i) = []
  · obtain ⟨f, hf⟩ := D.reported (D.file i)
    exact ⟨⟨i, f.epollin, f.epollhup, f.epollerr⟩, rfl, .inr ⟨⟨hup, hq⟩, hf⟩⟩
  · exact ⟨⟨i, true, true, false⟩, rfl, .inl ⟨rfl, hq⟩⟩

theorem loop_live (hi : LoopInv D s) (hup : Ended D s) (hl : s.main.leftLoop = false) :
    ∃ a s', (loop D).step s a = some s' ∧ a ≠ .interrupt := by
  have hm := hi.mainOk
  have hmain : (main D.file s).isSome = true →
      ∃ a s', (loop D).step s a = some s' ∧ a ≠ .interrupt := by
    intro h
    obtain ⟨s', hs'⟩ := Option.isSome_iff_exists.mp h
    exact ⟨.main, s', hs', by simp⟩
  cases hpc : s.main with
  | epollCreate | openLoop | readErr | closeErr => simp only [LoopMainOk, hpc] at hm
  | closeEpfd | returned => simp [hpc, MainPc.leftLoop] at hl
  | setOpenFds | whileTest => exact hmain (by simp [main, hpc])
  | epollWait =>
    simp only [LoopMainOk, hpc] at hm
    obtain ⟨i, hopen⟩ := exists_open hm.1 hm.2
    obtain ⟨e, rfl, hrep⟩ := exists_report D (hup i)
    refine ⟨.report [e], { s with main := .handle [e] }, ?_, by simp⟩
    simp [loop, loopStep, report, hpc, MAX_EVENTS, hopen, hrep]
  | handle events =>
    cases events with
    | nil => exact hmain (by simp [main, hpc])
    | cons e rest =>
      obtain ⟨he, -, -⟩ := hm.rest hpc
      rcases he.reports with ⟨hin, hq⟩ | ⟨hd, -⟩
      · have hlen : 1 ≤ (s.unread (D.file e.fd)).length := List.length_pos_iff.mpr hq
        have hread : (read D.file s 1).isSome = true := by
          simp [read, hpc, hin, he.notClosed, MAX_BUF, hlen]
        obtain ⟨s', hs'⟩ := Option.isSome_iff_exists.mp hread
        exact ⟨.read 1, s', hs', by simp⟩
      · by_cases hin : e.epollin = true
        · have hq : s.unread (D.file e.fd) = [] := hd.2
          exact hmain (by simp [main, hpc, hin, he.notClosed, hq, hd.1])
        · have hend := he.closing (by simpa using hin)
          exact hmain (by simp [main, hpc, hin, hend, he.notClosed])

/-! ## Reports that neither deliver nor close -/

/-- File `i` has had its input, all unread, and its end; `epoll_wait` has returned `events`. -/
def endedState (i : Fin N) (bytes : List UInt8) (events : List (EpollEvent N)) : State N :=
  { (loopStart N).setFifo i ⟨Channel.empty.send bytes, true, true⟩ with
    numOpenFds := N, main := .handle events }

theorem endedState_reachable {i : Fin N} {bytes : List UInt8} {events : List (EpollEvent N)}
    (hne : events ≠ []) (hlen : events.length ≤ MAX_EVENTS) (hnd : (events.map (·.fd)).Nodup)
    (hrep : ∀ e ∈ events, D.Reports (endedState i bytes events) e) :
    (loop D).Reachable (endedState i bytes events) := by
  have hN : N ≠ 0 := Nat.ne_of_gt i.pos
  have hr₀ : (loop D).Reachable (loopStart N) := .init rfl
  have h₁ : (loop D).step (loopStart N) .main =
      some { loopStart N with numOpenFds := N, main := .whileTest } := rfl
  have h₂ : (loop D).step { loopStart N with numOpenFds := N, main := .whileTest } .main =
      some { loopStart N with numOpenFds := N, main := .epollWait } := by
    simp [loop, loopStep, main, Nat.pos_of_ne_zero hN]
  have h₃ : (loop D).step { loopStart N with numOpenFds := N, main := .epollWait }
      (.arrive i bytes) =
      some { (loopStart N).setFifo i ⟨Channel.empty.send bytes, false, true⟩ with
        numOpenFds := N, main := .epollWait } := by
    simp [loop, loopStep, arrive, loopStart, State.setFifo]
  have h₄ : (loop D).step { (loopStart N).setFifo i ⟨Channel.empty.send bytes, false, true⟩ with
      numOpenFds := N, main := .epollWait } (.finish i) =
      some { (loopStart N).setFifo i ⟨Channel.empty.send bytes, true, true⟩ with
        numOpenFds := N, main := .epollWait } := by
    simp [loop, loopStep, hangup, loopStart, State.setFifo]
  have h₅ : (loop D).step { (loopStart N).setFifo i ⟨Channel.empty.send bytes, true, true⟩ with
      numOpenFds := N, main := .epollWait } (.report events) =
      some (endedState i bytes events) := by
    have hall : ∀ e ∈ events,
        e.fd ∉ (loopStart N).closes ∧ D.Reports (endedState i bytes events) e :=
      fun e he => ⟨List.not_mem_nil, hrep e he⟩
    exact if_pos ⟨rfl, hne, hlen, hnd, hall⟩
  exact ((((hr₀.step h₁).step h₂).step h₃).step h₄).step h₅

/-- A read that returns 0 neither delivers nor closes. -/
theorem not_progresses_of_drained {e : EpollEvent N} {rest : List (EpollEvent N)}
    (hr : (loop D).Reachable s) (hpc : s.main = .handle (e :: rest)) (hin : e.epollin = true)
    (hcl : e.fd ∉ s.closes) (hd : (s.fifo (D.file e.fd)).drained) : ¬ Progresses D := by
  intro hp
  have hq : s.unread (D.file e.fd) = [] := hd.2
  have hstep : (loop D).step s .main = some { s with main := .handle rest } := by
    simp [loop, loopStep, main, hpc, hin, hcl, hq, hd.1]
  have hhandled : e ∈ handled s { s with main := .handle rest } := by simp [handled, hpc]
  rcases hp.event s hr .main _ e hstep hhandled with hrec | ⟨hcloses, -⟩
  · exact absurd hrec (lt_irrefl _)
  · simp at hcloses

/-- The end of an input is reported with EPOLLIN. -/
theorem not_progresses_ending {e : EpollEvent N} (hf : D.atEnd (D.file e.fd) e.flags = true)
    (hin : e.epollin = true) : ¬ Progresses D := by
  have hd : ((endedState (D.file e.fd) [] [e]).fifo (D.file e.fd)).drained := by
    simp [endedState, Fifo.drained]
  have hr : (loop D).Reachable (endedState (D.file e.fd) [] [e]) := by
    refine endedState_reachable (by simp) (by simp [MAX_EVENTS]) (by simp) fun x hx => ?_
    obtain rfl := List.mem_singleton.mp hx
    exact .inr ⟨hd, hf⟩
  exact not_progresses_of_drained hr rfl hin List.not_mem_nil hd

/-- One byte is reported of two descriptors, and the first one reads it. -/
theorem not_progresses_shared {i j : Fin N} (hij : i ≠ j) (hfile : D.file i = D.file j) :
    ¬ Progresses D := by
  let events : List (EpollEvent N) := [⟨i, true, true, false⟩, ⟨j, true, true, false⟩]
  have hr : (loop D).Reachable (endedState (D.file i) [0] events) := by
    refine endedState_reachable (by simp [events]) (by simp [events, MAX_EVENTS])
      (by simp [events, hij]) fun x hx => .inl ?_
    simp only [events, List.mem_cons, List.not_mem_nil, or_false] at hx
    rcases hx with rfl | rfl <;> simp [endedState, State.unread, hfile]
  obtain ⟨s, hs⟩ : ∃ s, read D.file (endedState (D.file i) [0] events) 1 = some s := by
    simp [read, endedState, events, loopStart, State.unread, State.setFifo, MAX_BUF]
  obtain ⟨e, rest, hpc, -, -, -, -, heq⟩ := read_cases hs
  obtain ⟨rfl, rfl⟩ : e = ⟨i, true, true, false⟩ ∧ rest = [⟨j, true, true, false⟩] := by
    simpa [endedState, events] using hpc.symm
  have hd : (s.fifo (D.file j)).drained := by
    rw [heq, ← hfile]
    simp [Fifo.drained, endedState]
  have hstep : (loop D).step (endedState (D.file i) [0] events) (.read 1) = some s := hs
  refine not_progresses_of_drained (hr.step hstep) (by rw [heq]) rfl ?_ hd
  rw [heq]
  exact List.not_mem_nil

/-- The loop makes progress on every event and ends exactly when no descriptor reports EPOLLIN
at the end of its input and no two are open on one file. -/
theorem progresses_iff (D : Descriptors N) :
    Progresses D ↔
      (∀ i f, D.atEnd (D.file i) f = true → f.epollin = false) ∧ Function.Injective D.file := by
  constructor
  · intro hp
    constructor
    · intro i f hf
      by_contra hin
      let e : EpollEvent N := ⟨i, f.epollin, f.epollhup, f.epollerr⟩
      have hend : D.atEnd (D.file e.fd) e.flags = true := hf
      exact not_progresses_ending hend (by simpa [e] using hin) hp
    · intro i j hfile
      by_contra hij
      exact not_progresses_shared hij hfile hp
  · rintro ⟨hD, hfile⟩
    -- every file is then open on some descriptor
    have hended (s : State N) (hup : Ended D s) (i : Fin N) : (s.fifo i).hup = true := by
      obtain ⟨j, rfl⟩ := Finite.surjective_of_injective hfile i
      exact hup j
    constructor
    case event =>
      intro s hr a s' e h he
      exact advances_of_handled hD (loopInv_of_reachable hfile hr) h he
    case bounded =>
      intro s hr hup
      exact ⟨load s, fun as s' h => history_handled_le hfile hD hr (hended s hup) h⟩
    case live =>
      intro s hr hup hl
      exact loop_live (loopInv_of_reachable hfile hr) hup hl

end Invariant

/-- Terminals, each open once, which report a hang-up together with EPOLLIN. -/
def terminals (N : ℕ) : Descriptors N where
  file i := i
  atEnd _ f := decide (f = ⟨true, true, true⟩)
  reported _ := ⟨⟨true, true, true⟩, decide_eq_true rfl⟩
  flagged _ f hf := by
    obtain rfl := of_decide_eq_true hf
    exact .inl rfl

/-- One hung-up terminal is enough to keep the loop from ending. -/
theorem not_progresses_terminal : ¬ Progresses (terminals 1) := by
  have hends :
      (terminals 1).atEnd 0 (EpollEvent.flags ⟨(0 : Fin 1), true, true, true⟩) = true := rfl
  exact not_progresses_ending hends rfl

end LinuxTemplates.EpollProgram
