import LinuxTemplates.ConditionProgram

/-!
# The workers of `condition.cpp`

What one step of `ThreadFunc` can do where the invariant holds, and that each such
step keeps it: the mutex, both counters and the assertion of `main`.
-/

namespace LinuxTemplates.ConditionProgram
open TransitionSystems MutexOwnership TaskLedgers

variable {N : ℕ}

/-! ## Steps of a worker -/

theorem signalled_cases (pc : MainPc N) :
    (pc ≠ .waiting ∧ pc.signalled = pc) ∨ (pc = .waiting ∧ pc.signalled = .reacquire) := by
  cases pc <;> simp [MainPc.signalled]

/-- Everything one step of `ThreadFunc` can do where the invariant holds. -/
structure Moves (s s' : State N) (i : Fin N) (pc : WorkerPc) (ts : ThreadState) : Prop where
  worker : s'.worker = Function.update s.worker i pc
  state : s'.state = Function.update s.state i ts
  same : s'.numLive = s.numLive ∧ s'.totalThreads = s.totalThreads ∧ s'.joins = s.joins
  alive : s.worker i ≠ .absent ∧ s.worker i ≠ .finished ∧ pc ≠ .absent
  ok : WorkerOk pc ts
  states : ts = s.state i ∨ (s.state i = .tsAlive ∧ ts = .tsTerminated)
  unjoined : s'.numUnjoined + (if s.state i = .tsTerminated then 1 else 0 : ℕ) +
      (if s.worker i = .setTerminated then 1 else 0 : ℕ) =
    s.numUnjoined + (if ts = .tsTerminated then 1 else 0 : ℕ) +
      (if pc = .setTerminated then 1 else 0 : ℕ)
  writes : s'.numUnjoined = s.numUnjoined ∨ (s.worker i).holds = true
  wakes : (s'.main = s.main ∧
      (s.main = .waiting → pc.Unsignalled ∨ ¬ (s.worker i).Unsignalled)) ∨
    (s.main = .waiting ∧ s'.main = .reacquire)
  owner : (s'.mutex = s.mutex ∧ pc.holds = (s.worker i).holds) ∨
    (s.mutex = none ∧ s'.mutex = some (.worker i) ∧ pc.holds = true) ∨
    (s.mutex = some (.worker i) ∧ s'.mutex = none ∧ pc.holds = false)

/-- A step that at most takes or gives back the mutex. -/
theorem moves_setWorker {s : State N} {i : Fin N} {pc : WorkerPc} {m : Mutex (Agent N)}
    (ha : s.worker i ≠ .absent ∧ s.worker i ≠ .finished ∧ pc ≠ .absent)
    (hok : WorkerOk pc (s.state i)) (hpc : s.worker i ≠ .setTerminated ∧ pc ≠ .setTerminated)
    (hwait : pc.Unsignalled ∨ ¬ (s.worker i).Unsignalled)
    (howner : (m = s.mutex ∧ pc.holds = (s.worker i).holds) ∨
      (s.mutex = none ∧ m = some (.worker i) ∧ pc.holds = true) ∨
      (s.mutex = some (.worker i) ∧ m = none ∧ pc.holds = false)) :
    Moves s (State.setWorker { s with mutex := m } i pc) i pc (s.state i) where
  worker := rfl
  state := (Function.update_eq_self i s.state).symm
  same := ⟨rfl, rfl, rfl⟩
  alive := ha
  ok := hok
  states := .inl rfl
  unjoined := by simp [State.setWorker, hpc]
  writes := .inl rfl
  wakes := .inl ⟨rfl, fun _ => hwait⟩
  owner := howner

theorem threadFunc_moves {s s' : State N} {i : Fin N} (hi : Inv s)
    (h : threadFunc s i = some s') : ∃ pc ts, Moves s s' i pc ts := by
  have hw := hi.workers i
  have hsame : s.state = Function.update s.state i (s.state i) := by simp
  cases hpc : s.worker i with
  | absent | finished => simp [threadFunc, hpc] at h
  | sleep =>
    simp only [WorkerOk, hpc] at hw
    simp only [threadFunc, hpc, Option.some.injEq] at h
    subst h
    exact ⟨.lock, s.state i, moves_setWorker (by simp [hpc]) hw (by simp [hpc])
      (.inl (by simp [WorkerPc.Unsignalled])) (.inl ⟨rfl, by simp [hpc, WorkerPc.holds]⟩)⟩
  | lock =>
    simp only [WorkerOk, hpc] at hw
    by_cases hm : s.mutex = none
    · simp only [threadFunc, hpc, hm, if_true, Option.some.injEq] at h
      subst h
      exact ⟨.incrUnjoined, s.state i, moves_setWorker (by simp [hpc]) hw (by simp [hpc])
        (.inl (by simp [WorkerPc.Unsignalled])) (.inr (.inl ⟨hm, rfl, rfl⟩))⟩
    · simp [threadFunc, hpc, hm] at h
  | incrUnjoined =>
    simp only [WorkerOk, hpc] at hw
    simp only [threadFunc, hpc, Option.some.injEq] at h
    subst h
    refine ⟨.setTerminated, s.state i, rfl, hsame, ⟨rfl, rfl, rfl⟩, by simp [hpc], hw, .inl rfl,
      ?_, .inr (by simp [hpc, WorkerPc.holds]), .inl ⟨rfl, fun _ => .inl ?_⟩,
      .inl ⟨rfl, by simp [hpc, WorkerPc.holds]⟩⟩
    · simp [State.setWorker, hpc, hw]
    · simp [WorkerPc.Unsignalled]
  | setTerminated =>
    simp only [WorkerOk, hpc] at hw
    simp only [threadFunc, hpc, Option.some.injEq] at h
    subst h
    refine ⟨.unlock, .tsTerminated, rfl, rfl, ⟨rfl, rfl, rfl⟩, by simp [hpc], rfl,
      .inr ⟨hw, rfl⟩, ?_, .inl rfl, .inl ⟨rfl, fun _ => .inl ?_⟩,
      .inl ⟨rfl, by simp [hpc, WorkerPc.holds]⟩⟩
    · simp [State.setWorker, State.setState, hpc, hw]
    · simp [WorkerPc.Unsignalled]
  | unlock =>
    simp only [WorkerOk, hpc] at hw
    have hown : s.mutex = some (.worker i) :=
      (hi.guards (.worker i)).mp (by simp [State.Holds, hpc, WorkerPc.holds])
    simp only [threadFunc, hpc, Option.some.injEq] at h
    subst h
    exact ⟨.signal, s.state i, moves_setWorker (by simp [hpc]) hw (by simp [hpc])
      (.inl (by simp [WorkerPc.Unsignalled])) (.inr (.inr ⟨hown, rfl, rfl⟩))⟩
  | signal =>
    simp only [WorkerOk, hpc] at hw
    simp only [threadFunc, hpc, Option.some.injEq] at h
    subst h
    refine ⟨.ret, s.state i, rfl, hsame, ⟨rfl, rfl, rfl⟩, by simp [hpc], hw, .inl rfl,
      ?_, .inl rfl, ?_, .inl ⟨rfl, by simp [hpc, WorkerPc.holds]⟩⟩
    · simp [State.setWorker, hpc]
    · rcases signalled_cases s.main with ⟨hne, hsig⟩ | ⟨he, hsig⟩
      · exact .inl ⟨hsig, fun hwait => absurd hwait hne⟩
      · exact .inr ⟨he, hsig⟩
  | ret =>
    simp only [WorkerOk, hpc] at hw
    simp only [threadFunc, hpc, Option.some.injEq] at h
    subst h
    exact ⟨.finished, s.state i, moves_setWorker (by simp [hpc]) (by simp [WorkerOk, hw])
      (by simp [hpc]) (.inr (by simp [WorkerPc.Unsignalled, hpc]))
      (.inl ⟨rfl, by simp [hpc, WorkerPc.holds]⟩)⟩

section WorkerStep
variable {s s' : State N} {i : Fin N} {pc : WorkerPc} {ts : ThreadState}

theorem Moves.main_fields (h : Moves s s' i pc ts) :
    s'.main.holds = s.main.holds ∧ s'.main.owesUnjoined = s.main.owesUnjoined := by
  rcases h.wakes with ⟨hm, -⟩ | ⟨hm, hm'⟩
  · simp [hm]
  · simp [hm, hm', MainPc.holds, MainPc.owesUnjoined]

theorem Moves.guards (h : Moves s s' i pc ts) (hi : Inv s) : Guards s'.mutex s'.Holds := by
  have hg := hi.guards
  have hself : s'.Holds (.worker i) ↔ pc.holds = true := by simp [State.Holds, h.worker]
  have hframe : ∀ a, a ≠ .worker i → (s'.Holds a ↔ s.Holds a) := by
    intro a ha
    cases a with
    | main => simp [State.Holds, h.main_fields.1]
    | worker j =>
      have hne : j ≠ i := fun hj => ha (hj ▸ rfl)
      simp [State.Holds, h.worker, hne]
  rcases h.owner with ⟨hm, hp⟩ | ⟨hm, hm', hp⟩ | ⟨hm, hm', hp⟩
  · exact hm ▸ hg.frame (t := .worker i) (by rw [hself, hp]; rfl) hframe
  · exact hm' ▸ (hm ▸ hg).acquire (hself.mpr hp) hframe
  · exact hm' ▸ (hm ▸ hg).release (by simp [hself, hp]) hframe

theorem Moves.unjoined_eq (h : Moves s s' i pc ts) (hi : Inv s) :
    s'.numUnjoined = tally s'.state (· = .tsTerminated) +
      tally s'.worker (· = .setTerminated) + s'.main.owesUnjoined := by
  have hu := hi.unjoined
  have hd := h.unjoined
  have hs := tally_update s.state (· = .tsTerminated) i ts
  have hw := tally_update s.worker (· = .setTerminated) i pc
  rw [h.state, h.worker, h.main_fields.2]
  omega

/-- No step of a worker changes which threads are joined. -/
theorem Moves.joined_iff (h : Moves s s' i pc ts) (j : Fin N) :
    s'.state j = .tsJoined ↔ s.state j = .tsJoined := by
  rw [h.state]
  by_cases hj : j = i
  · subst hj
    rcases h.states with hts | ⟨ha, hts⟩ <;> simp [*]
  · simp [hj]

theorem Moves.live_eq (h : Moves s s' i pc ts) :
    tally s'.state (· ≠ .tsJoined) = tally s.state (· ≠ .tsJoined) := by
  simp only [tally, ne_eq, h.joined_iff]

theorem Moves.created (h : Moves s s' i pc ts) (hc : s.Created) : s'.Created := by
  intro j
  rw [h.worker]
  by_cases hj : j = i
  · simpa [hj] using h.alive.2.2
  · simpa [hj] using hc j

theorem Moves.absent_iff (h : Moves s s' i pc ts) (j : Fin N) :
    s'.worker j = .absent ↔ s.worker j = .absent := by
  rw [h.worker]
  by_cases hj : j = i
  · simp [hj, h.alive.1, h.alive.2.2]
  · simp [hj]

theorem Moves.liveCounted_iff (h : Moves s s' i pc ts) : s'.LiveCounted ↔ s.LiveCounted := by
  simp only [State.LiveCounted, h.live_eq, h.same.1]

/-- While `main` owns the mutex the workers leave the counter alone. -/
theorem Moves.numUnjoined_eq (h : Moves s s' i pc ts) (hi : Inv s)
    (hm : s.main.holds = true) : s'.numUnjoined = s.numUnjoined := by
  rcases h.writes with he | hw
  · exact he
  · have hboth : Agent.main = .worker i :=
      hi.guards.unique (show s.Holds .main from hm) (show s.Holds (.worker i) from hw)
    cases hboth

theorem Moves.terminated_keep (h : Moves s s' i pc ts) {j : Fin N}
    (hj : s.state j = .tsTerminated) : s'.state j = .tsTerminated := by
  rw [h.state]
  by_cases hji : j = i
  · subst hji
    rcases h.states with hts | ⟨ha, -⟩
    · simp [hts, hj]
    · simp [ha] at hj
  · simp [hji, hj]

theorem Moves.finished_keep (h : Moves s s' i pc ts) {j : Fin N}
    (hj : s.worker j = .finished) : s'.worker j = .finished := by
  rw [h.worker]
  by_cases hji : j = i
  · exact absurd (hji ▸ hj) h.alive.2.1
  · simp [hji, hj]

theorem Moves.main_ok (h : Moves s s' i pc ts) (hi : Inv s) : MainOk s' := by
  have hm := hi.main
  obtain ⟨hl, ht, hj⟩ := h.same
  have hfresh : (∀ j, s.state j ≠ .tsJoined) → ∀ j, s'.state j ≠ .tsJoined :=
    fun hs j hj => hs j ((h.joined_iff j).mp hj)
  rcases h.wakes with ⟨hmain, hsig⟩ | ⟨hwait, hmain⟩
  · cases hpc : s.main with
    | calloc | forCreate | create =>
      simp only [MainOk, hmain, hpc, ne_eq, h.absent_iff] at hm ⊢
      exact ⟨hm.1, hfresh hm.2⟩
    | setTotal =>
      simp only [MainOk, hmain, hpc] at hm ⊢
      exact ⟨h.created hm.1, hfresh hm.2⟩
    | setLive =>
      simp only [MainOk, hmain, hpc] at hm ⊢
      exact ⟨h.created hm.1, hfresh hm.2.1, ht ▸ hm.2.2⟩
    | whileLive | unlock | forReap =>
      simp only [MainOk, hmain, hpc, h.liveCounted_iff] at hm ⊢
      exact ⟨h.created hm.1, hm.2⟩
    | lock | whileUnjoined | reacquire | free =>
      simp only [MainOk, hmain, hpc, h.liveCounted_iff, hl] at hm ⊢
      exact ⟨h.created hm.1, hm.2⟩
    | condWait =>
      have hu := h.numUnjoined_eq hi (by simp [hpc, MainPc.holds])
      simp only [MainOk, hmain, hpc, h.liveCounted_iff, hl, hu] at hm ⊢
      exact ⟨h.created hm.1, hm.2⟩
    | waiting =>
      simp only [MainOk, hmain, hpc, h.liveCounted_iff, hl] at hm ⊢
      obtain ⟨hc, hlive, hpos, j, hun⟩ := hm
      refine ⟨h.created hc, hlive, hpos, j, ?_⟩
      rw [h.worker]
      by_cases hji : j = i
      · subst hji
        simpa using (hsig hpc).resolve_right (fun hn => hn hun)
      · simpa [hji] using hun
    | join idx =>
      simp only [MainOk, hmain, hpc, h.liveCounted_iff] at hm ⊢
      exact ⟨h.created hm.1, hm.2.1, h.terminated_keep hm.2.2⟩
    | setJoined idx =>
      simp only [MainOk, hmain, hpc, h.liveCounted_iff] at hm ⊢
      exact ⟨h.created hm.1, hm.2.1, h.terminated_keep hm.2.2.1, h.finished_keep hm.2.2.2⟩
    | decLive idx =>
      simp only [MainOk, hmain, hpc, h.joined_iff, h.live_eq, hl] at hm ⊢
      exact ⟨h.created hm.1, hm.2⟩
    | decUnjoined idx =>
      simp only [MainOk, hmain, hpc, h.liveCounted_iff, h.joined_iff] at hm ⊢
      exact ⟨h.created hm.1, hm.2⟩
    | returned ret =>
      simp only [MainOk, hmain, hpc, h.liveCounted_iff, hl] at hm ⊢
      exact hm.imp_right (fun hr => ⟨hr.1, h.created hr.2.1, hr.2.2⟩)
  · simp only [MainOk, hwait] at hm
    simp only [MainOk, hmain, h.liveCounted_iff, hl]
    exact ⟨h.created hm.1, hm.2.1, hm.2.2.1⟩

theorem Moves.inv (h : Moves s s' i pc ts) (hi : Inv s) : Inv s' where
  guards := h.guards hi
  workers j := by
    rw [h.worker, h.state]
    by_cases hj : j = i
    · subst hj
      simpa using h.ok
    · simpa [hj] using hi.workers j
  unjoined := h.unjoined_eq hi
  main := h.main_ok hi

end WorkerStep

end LinuxTemplates.ConditionProgram
