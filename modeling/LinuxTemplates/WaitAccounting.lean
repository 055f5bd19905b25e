import LinuxTemplates.WaitProgram

/-!
# Every death is reported once in `wait.cpp`

The program refines the ledger of tasks: a death finishes a child and a `wait` collects it.
What has been printed follows the collections, and a child that has been reported dead says
nothing more.
-/

namespace LinuxTemplates.WaitProgram
open TransitionSystems TaskLedgers

variable {N : ℕ}

/-! ## The ledger of children -/

def ChildState.phase : ChildState → Phase
  | .absent | .started | .sleeping => .running
  | .zombie => .finished
  | .reaped => .collected

def State.ledger (s : State N) : Ledger (Fin N) := ⟨fun i => (s.children i).phase, s.reaps⟩

/-- The child that has been collected and not yet reported. -/
def MainPc.untold : MainPc N → Option (Fin N)
  | .count i => some i
  | _ => none

/-- Child and number in the report of a death. -/
def Line.toll : Line N → Option (Fin N × ℕ)
  | .dead _ i numDead => some (i, numDead)
  | _ => none

/-- The child that a line is about. -/
def Line.child : Line N → Option (Fin N)
  | .ready _ i | .dead _ i _ => some i
  | _ => none

/-- Two lines about one child: it is ready, and later it is dead. -/
def InOrder (a b : Line N) : Prop :=
  ∀ i, a.child = some i → b.child = some i → a.toll = none ∧ b.toll ≠ none

/-- Either a fork has failed, or all children have been collected. -/
def State.Done (s : State N) (ret : ℤ) : Prop :=
  (ret = -1 ∧ s.reaps = [] ∧ ∃ i, s.children i = .absent) ∨
    (ret = 0 ∧ ∀ i, s.children i = .reaped)

def MainOk (s : State N) : Prop :=
  match s.main with
  | .usage => (∀ i, s.children i = .absent) ∧ s.reaps = []
  | .fork idx => (∀ i, s.children i ≠ .absent ↔ i.val < idx) ∧ s.reaps = []
  | .wait | .count _ => ∀ i, s.children i ≠ .absent
  | .failed errno => errno = ECHILD ∧ ∀ i, s.children i = .reaped
  | .print line ret => s.Done ret ∧ line = if ret = 0 then .noMore else .forkErr
  | .exited ret => s.Done ret ∧
    if ret = 0 then s.out.getLast? = some .noMore else .forkErr ∈ s.out

structure Inv (s : State N) : Prop where
  main : MainOk s
  balanced : Balanced s.ledger
  tolls : ∃ told, s.reaps = told ++ s.main.untold.toList ∧ s.numDead = told.length ∧
    s.out.filterMap Line.toll = told.zipIdx 1
  spoken : ∀ line ∈ s.out, ∀ i, line.child = some i →
    s.children i ≠ .absent ∧ s.children i ≠ .started
  order : s.out.Pairwise InOrder
  noErr : .waitErr ∉ s.out

variable {s s' : State N}

@[simp] theorem setChild_self (i : Fin N) (c : ChildState) : (s.setChild i c).children i = c := by
  simp [State.setChild]

theorem setChild_of_ne {i j : Fin N} (h : j ≠ i) (c : ChildState) :
    (s.setChild i c).children j = s.children j := by
  simp [State.setChild, h]

theorem ledger_setChild (i : Fin N) (c : ChildState) :
    (s.setChild i c).ledger = ⟨Function.update s.ledger.phase i c.phase, s.reaps⟩ := by
  ext j
  · rcases eq_or_ne j i with rfl | hne
    · simp [State.ledger]
    · simp [State.ledger, setChild_of_ne, hne]
  · rfl

/-- A step of a child that does not end it is none of the ledger. -/
theorem ledger_setChild_same {i : Fin N} {c : ChildState} (h : c.phase = (s.children i).phase) :
    (s.setChild i c).ledger = s.ledger := by
  rw [ledger_setChild]
  ext1
  · exact Function.update_eq_self_iff.mpr h
  · rfl

/-- The end of a child finishes its task. -/
theorem finish_ledger {i : Fin N} (h : (s.children i).phase = .running) :
    (ledgers (Fin N)).step s.ledger (.finish i) = some (s.setChild i .zombie).ledger := by
  have hphase : s.ledger.phase i = .running := h
  rw [ledger_setChild]
  exact if_pos hphase

theorem collect_ledger {i : Fin N} (h : s.children i = .zombie) (pc : MainPc N) :
    (ledgers (Fin N)).step s.ledger (.collect i) =
      some { s.setChild i .reaped with main := pc, reaps := s.reaps ++ [i] }.ledger := by
  have hphase : s.ledger.phase i = .finished := by
    simp [State.ledger, h, ChildState.phase]
  have hledger := congrArg Ledger.phase (ledger_setChild (s := s) i .reaped)
  exact (if_pos hphase).trans (congrArg some (Ledger.ext hledger.symm rfl))

theorem order_append {line : Line N} (h : s.out.Pairwise InOrder)
    (hline : ∀ a ∈ s.out, InOrder a line) : (s.out ++ [line]).Pairwise InOrder := by
  refine List.pairwise_append.mpr ⟨h, List.pairwise_singleton _ _, fun a ha b hb => ?_⟩
  rw [List.mem_singleton.mp hb]
  exact hline a ha

/-! ## What holds in every interleaving -/

theorem State.Done.setChild {ret : ℤ} (h : s.Done ret) {i : Fin N}
    (halive : (s.children i).alive = true) (hr : s'.reaps = s.reaps) {c : ChildState}
    (hch : s'.children = Function.update s.children i c) : s'.Done ret ∧ ret = -1 := by
  rcases h with ⟨hret, hreaps, j, hj⟩ | ⟨-, hall⟩
  · have hne : j ≠ i := by
      rintro rfl
      rw [hj] at halive
      cases halive
    refine ⟨.inl ⟨hret, hr.trans hreaps, j, ?_⟩, hret⟩
    rw [hch, Function.update_of_ne hne, hj]
  · rw [hall i] at halive
    cases halive

/-- A child that is alive does not change where `main` stands. -/
theorem MainOk.setChild (h : MainOk s) {i : Fin N} (halive : (s.children i).alive = true)
    (hm : s'.main = s.main) (hr : s'.reaps = s.reaps) {c : ChildState} (hc : c ≠ .absent)
    (hch : s'.children = Function.update s.children i c) (hout : s.out ⊆ s'.out) : MainOk s' := by
  have habsent : s.children i ≠ .absent := by
    intro heq
    rw [heq] at halive
    cases halive
  have hsame : ∀ j, s'.children j ≠ .absent ↔ s.children j ≠ .absent := by
    intro j
    rcases eq_or_ne j i with rfl | hne
    · rw [hch, Function.update_self]
      exact iff_of_true hc habsent
    · rw [hch, Function.update_of_ne hne]
  unfold MainOk at h ⊢
  rw [hm]
  cases hpc : s.main with
  | usage =>
    simp only [hpc] at h
    exact absurd (h.1 i) habsent
  | fork idx =>
    simp only [hpc] at h
    exact ⟨fun j => (hsame j).trans (h.1 j), hr.trans h.2⟩
  | wait | count j =>
    simp only [hpc] at h
    exact fun j => (hsame j).mpr (h j)
  | failed errno =>
    simp only [hpc] at h
    rw [h.2 i] at halive
    cases halive
  | print line ret =>
    simp only [hpc] at h
    exact ⟨(h.1.setChild halive hr hch).1, h.2⟩
  | exited ret =>
    simp only [hpc] at h
    obtain ⟨hdone, rfl⟩ := h.1.setChild halive hr hch
    exact ⟨hdone, hout h.2⟩

theorem spoken_setChild (h : ∀ line ∈ s.out, ∀ i, line.child = some i →
      s.children i ≠ .absent ∧ s.children i ≠ .started) {i : Fin N} {c : ChildState}
    (hc : (c ≠ .absent ∧ c ≠ .started) ∨ s.children i = .absent) :
    ∀ line ∈ s.out, ∀ j, line.child = some j →
      (s.setChild i c).children j ≠ .absent ∧ (s.setChild i c).children j ≠ .started := by
  intro line hline j hj
  have hold := h line hline j hj
  rcases eq_or_ne j i with rfl | hne
  · rw [setChild_self]
    exact hc.resolve_right hold.1
  · rw [setChild_of_ne hne]
    exact hold

theorem Inv.dies (h : Inv s) {i : Fin N} (halive : (s.children i).alive = true) :
    Inv (s.setChild i .zombie) := by
  have hphase : (s.children i).phase = .running := by
    cases hpc : s.children i with
    | started | sleeping => rfl
    | absent | zombie | reaped =>
      rw [hpc] at halive
      cases halive
  exact ⟨h.main.setChild halive rfl rfl (by simp) rfl (List.Subset.refl _),
    balanced_invariant.step _ _ _ h.balanced (finish_ledger hphase), h.tolls,
    spoken_setChild h.spoken (.inl (by decide)), h.order, h.noErr⟩

theorem child_inv (h : Inv s) {i : Fin N} {now : String} (hs : child s i now = some s') :
    Inv s' := by
  unfold child at hs
  cases hpc : s.children i with
  | started =>
    simp only [hpc, Option.some.injEq] at hs
    subst hs
    have hsilent : ∀ line ∈ s.out, line.child ≠ some i :=
      fun line hline hi => (h.spoken line hline i hi).2 hpc
    obtain ⟨told, hreaps, hnum, htolls⟩ := h.tolls
    refine ⟨h.main.setChild (by rw [hpc]; rfl) rfl rfl (by simp) rfl
      (List.subset_append_left _ _), ?_, ⟨told, hreaps, hnum, ?_⟩, ?_, ?_, ?_⟩
    · have hsame : ((s.say (.ready now i)).setChild i .sleeping).ledger = s.ledger :=
        ledger_setChild_same (s := s.say (.ready now i)) (by simp [State.say, hpc, ChildState.phase])
      exact hsame ▸ h.balanced
    · change (s.out ++ [Line.ready now i]).filterMap Line.toll = _
      rw [List.filterMap_append, htolls]
      exact List.append_nil _
    · intro line hline j hj
      rcases List.mem_append.mp hline with hline | hline
      · exact spoken_setChild (c := .sleeping) h.spoken (.inl (by decide)) line hline j hj
      · obtain rfl := List.mem_singleton.mp hline
        obtain rfl := Option.some.inj hj
        rw [setChild_self]
        exact ⟨nofun, nofun⟩
    · refine order_append h.order (fun a ha j haj hbj => ?_)
      obtain rfl := Option.some.inj hbj
      exact absurd haj (hsilent a ha)
    · intro hmem
      rcases List.mem_append.mp hmem with hmem | hmem
      · exact h.noErr hmem
      · cases List.mem_singleton.mp hmem
  | sleeping =>
    simp only [hpc, Option.some.injEq] at hs
    exact hs ▸ h.dies (by rw [hpc]; rfl)
  | absent | zombie | reaped =>
    simp only [hpc] at hs
    cases hs

theorem Inv.reaped_iff (h : Inv s) (i : Fin N) : i ∈ s.reaps ↔ s.children i = .reaped := by
  have hmem : i ∈ s.reaps ↔ (s.children i).phase = .collected := h.balanced.mem_log i
  rw [hmem]
  cases s.children i <;> simp [ChildState.phase]

theorem reap_inv (h : Inv s) {i : Fin N} (hs : reap s i = some s') : Inv s' := by
  simp only [reap, Option.ite_none_right_eq_some, Option.some.injEq] at hs
  obtain ⟨⟨hpc, hz⟩, rfl⟩ := hs
  have hmain := h.main
  rw [MainOk, hpc] at hmain
  obtain ⟨told, hreaps, hnum, htolls⟩ := h.tolls
  rw [hpc] at hreaps
  refine ⟨fun j => ?_, balanced_invariant.step _ _ _ h.balanced (collect_ledger hz (.count i)),
    ⟨told, congrArg (· ++ [i]) (hreaps.trans (List.append_nil _)), hnum, htolls⟩,
    spoken_setChild h.spoken (.inl (by decide)), h.order, h.noErr⟩
  rcases eq_or_ne j i with rfl | hne
  · exact ne_of_eq_of_ne (setChild_self j .reaped) nofun
  · exact ne_of_eq_of_ne (setChild_of_ne hne .reaped) (hmain j)

theorem Line.toll_of_child {line : Line N} (h : line.child = none) : line.toll = none := by
  cases line <;> first | rfl | cases h

/-- `main` goes on without a word. -/
theorem Inv.goto (h : Inv s) {pc : MainPc N} (hpc : pc.untold = s.main.untold)
    (hmain : MainOk { s with main := pc }) : Inv { s with main := pc } :=
  ⟨hmain, h.balanced, hpc ▸ h.tolls, h.spoken, h.order, h.noErr⟩

/-- `main` says something about no child. -/
theorem Inv.say (h : Inv s) (line : Line N) (hline : line.child = none) (herr : line ≠ .waitErr)
    (pc : MainPc N) (hpc : pc.untold = s.main.untold)
    (hmain : MainOk { s.say line with main := pc }) : Inv { s.say line with main := pc } := by
  obtain ⟨told, hreaps, hnum, htolls⟩ := h.tolls
  refine ⟨hmain, h.balanced, ⟨told, hpc ▸ hreaps, hnum, ?_⟩, fun a ha i hi => ?_,
    order_append h.order (fun a _ i _ hi => ?_), fun hmem => ?_⟩
  · change (s.out ++ [line]).filterMap Line.toll = _
    rw [List.filterMap_append, htolls]
    simp [Line.toll_of_child hline]
  · rcases List.mem_append.mp ha with ha | ha
    · exact h.spoken a ha i hi
    · rw [List.mem_singleton.mp ha, hline] at hi
      cases hi
  · rw [hline] at hi
    cases hi
  · rcases List.mem_append.mp hmem with hmem | hmem
    · exact h.noErr hmem
    · exact herr (List.mem_singleton.mp hmem).symm

/-- `main` forks the next child. -/
theorem fork_inv (h : Inv s) {idx : ℕ} (hpc : s.main = .fork idx) (hidx : idx < N) :
    Inv { s.setChild ⟨idx, hidx⟩ .started with main := .fork (idx + 1) } := by
  have hmain := h.main
  rw [MainOk, hpc] at hmain
  have habsent : s.children ⟨idx, hidx⟩ = .absent := by
    by_contra hne
    exact absurd ((hmain.1 _).mp hne) (lt_irrefl idx)
  refine ⟨⟨fun j => ?_, hmain.2⟩, ?_, ?_, spoken_setChild h.spoken (.inr habsent), h.order,
    h.noErr⟩
  · rcases eq_or_ne j ⟨idx, hidx⟩ with rfl | hne
    · exact iff_of_true (ne_of_eq_of_ne (setChild_self _ _) nofun) (Nat.lt_succ_self idx)
    · have hval : j.val ≠ idx := fun heq => hne (Fin.ext heq)
      have hsame := setChild_of_ne (s := s) hne .started
      exact (iff_of_eq (congrArg (· ≠ ChildState.absent) hsame)).trans
        ((hmain.1 j).trans ⟨fun hlt => by omega, fun hlt => by omega⟩)
  · have hledger := ledger_setChild_same (s := s) (i := ⟨idx, hidx⟩) (c := .started)
      (by rw [habsent]; rfl)
    exact hledger ▸ h.balanced
  · have htolls := h.tolls
    rw [hpc] at htolls
    exact htolls

/-- `main` reports the child that it has collected last. -/
theorem count_inv (h : Inv s) {i : Fin N} (hpc : s.main = .count i) (now : String) :
    Inv { s.say (.dead now i (s.numDead + 1)) with main := .wait, numDead := s.numDead + 1 } := by
  have hmain := h.main
  rw [MainOk, hpc] at hmain
  obtain ⟨told, hreaps, hnum, htolls⟩ := h.tolls
  rw [hpc] at hreaps
  have hreaps : s.reaps = told ++ [i] := hreaps
  have hnodup : (told ++ [i]).Nodup := hreaps ▸ h.balanced.nodup
  have hfresh : i ∉ told := fun hi =>
    (List.nodup_append.mp hnodup).2.2 i hi i (List.mem_singleton_self i) rfl
  refine ⟨hmain, h.balanced, ⟨told ++ [i], ?_, ?_, ?_⟩, fun a ha j hj => ?_,
    order_append h.order (fun a ha j haj hj => ⟨?_, nofun⟩), fun hmem => ?_⟩
  · exact hreaps.trans (List.append_nil _).symm
  · rw [List.length_append, ← hnum]
    rfl
  · change (s.out ++ [Line.dead now i (s.numDead + 1)]).filterMap Line.toll = _
    rw [List.filterMap_append, htolls, List.zipIdx_append, hnum, Nat.add_comm 1]
    rfl
  · rcases List.mem_append.mp ha with ha | ha
    · exact h.spoken a ha j hj
    · obtain rfl := List.mem_singleton.mp ha
      obtain rfl := Option.some.inj hj
      have hreaped : s.children i = .reaped := by
        rw [← h.reaped_iff, hreaps]
        exact List.mem_append_right told (List.mem_singleton_self i)
      exact ⟨ne_of_eq_of_ne hreaped nofun, ne_of_eq_of_ne hreaped nofun⟩
  · by_contra hsome
    -- an earlier report of this child would stand among those told
    cases a with
    | dead now' k numDead =>
      have hk : k = i := Option.some.inj (haj.trans hj.symm)
      have hmem : (k, numDead) ∈ told.zipIdx 1 := by
        rw [← htolls]
        exact List.mem_filterMap.mpr ⟨_, ha, rfl⟩
      exact hfresh (hk ▸ List.fst_mem_of_mem_zipIdx hmem)
    | _ => exact hsome rfl
  · rcases List.mem_append.mp hmem with hmem | hmem
    · exact h.noErr hmem
    · cases List.mem_singleton.mp hmem

section Runs
variable {env : Env} {s s' : State env.args.length}

theorem main_inv (h : Inv s) {now : String} (hs : main env s now = some s') : Inv s' := by
  have hmain := h.main
  unfold MainOk at hmain
  unfold main at hs
  cases hpc : s.main with
  | usage =>
    simp only [hpc, Option.some.injEq] at hmain hs
    have hfork : MainOk { s with main := .fork 0 } :=
      ⟨fun i => iff_of_false (not_not.mpr (hmain.1 i)) (Nat.not_lt_zero i), hmain.2⟩
    subst hs
    split
    · exact h.say .usage rfl nofun (.fork 0) (by rw [hpc]; rfl) hfork
    · exact h.goto (by rw [hpc]; rfl) hfork
  | fork idx =>
    simp only [hpc] at hmain hs
    by_cases hidx : idx < env.args.length
    · simp only [hidx, dif_pos, Option.some.injEq] at hs
      exact hs ▸ fork_inv h hpc hidx
    · simp only [hidx, dif_neg, not_false_eq_true, Option.some.injEq] at hs
      have hwait : MainOk { s with main := .wait } := fun i =>
        (hmain.1 i).mpr (lt_of_lt_of_le i.isLt (not_lt.mp hidx))
      have hgoto := h.goto (by rw [hpc]; rfl) hwait
      obtain ⟨told, hreaps, hnum, htolls⟩ := hgoto.tolls
      have htold : told = [] := (List.append_eq_nil_iff.mp (hreaps.symm.trans hmain.2)).1
      have hzero : s.numDead = 0 := hnum.trans (congrArg List.length htold)
      subst hs
      rwa [← hzero]
  | wait =>
    simp only [hpc] at hmain hs
    split at hs
    · cases hs
    · rename_i hnone
      obtain rfl := Option.some.inj hs
      refine h.goto (by rw [hpc]; rfl) ⟨rfl, fun i => ?_⟩
      have hnot := not_or.mp (not_exists.mp hnone i)
      have habsent := hmain i
      revert hnot habsent
      cases hc : s.children i <;> simp [ChildState.alive]
  | failed errno =>
    simp only [hpc] at hmain hs
    rw [if_pos hmain.1] at hs
    obtain rfl := Option.some.inj hs
    exact h.goto (by rw [hpc]; rfl) ⟨.inr ⟨rfl, hmain.2⟩, rfl⟩
  | count i =>
    simp only [hpc, Option.some.injEq] at hs
    exact hs ▸ count_inv h hpc now
  | print line ret =>
    simp only [hpc, Option.some.injEq] at hmain hs
    obtain ⟨hdone, hline⟩ := hmain
    subst hs
    refine h.say line ?_ ?_ (.exited ret) (by rw [hpc]; rfl) ⟨hdone, ?_⟩
    · rw [hline]
      split <;> rfl
    · rw [hline]
      split <;> exact nofun
    · split
      · rename_i hret
        rw [hline, if_pos hret]
        exact List.getLast?_concat
      · rename_i hret
        rw [hline, if_neg hret]
        exact List.mem_append_right _ (List.mem_singleton_self _)
  | exited ret =>
    simp only [hpc] at hs
    cases hs

theorem forkFails_inv (h : Inv s) (hs : forkFails s = some s') : Inv s' := by
  have hmain := h.main
  unfold forkFails at hs
  split at hs
  · rename_i idx hpc
    rw [MainOk, hpc] at hmain
    simp only [Option.ite_none_right_eq_some, Option.some.injEq] at hs
    obtain ⟨hidx, rfl⟩ := hs
    have habsent : s.children ⟨idx, hidx⟩ = .absent := by
      by_contra hne
      exact absurd ((hmain.1 _).mp hne) (lt_irrefl idx)
    exact h.goto (by rw [hpc]; rfl) ⟨.inl ⟨rfl, hmain.2, _, habsent⟩, rfl⟩
  · cases hs

theorem inv_invariant (env : Env) : (program env).Invariant Inv where
  init s := by
    rintro rfl
    exact ⟨⟨fun _ => rfl, rfl⟩, balanced_invariant.init _ ⟨fun _ => rfl, rfl⟩,
      ⟨[], rfl, rfl, rfl⟩, fun _ hline => absurd hline List.not_mem_nil, List.Pairwise.nil,
      List.not_mem_nil⟩
  step s a s' h hs := by
    cases a with
    | main now => exact main_inv h hs
    | reap i => exact reap_inv h hs
    | forkFails => exact forkFails_inv h hs
    | child i now => exact child_inv h hs
    | kill i =>
      simp only [program, step, kill, Option.ite_none_right_eq_some, Option.some.injEq] at hs
      exact hs.2 ▸ h.dies hs.1

theorem inv_of_reachable (h : (program env).Reachable s) : Inv s := (inv_invariant env).reachable h

/-- In every run the reports of deaths are numbered from one on and name the children in the
order in which they were collected, each once and none after it is said to be dead; `wait` does
not fail, and `main` returns 0 just when all children have been collected and reported. -/
theorem deaths_reported (h : (program env).Reachable s) :
    s.out.filterMap Line.toll = (s.reaps.take s.numDead).zipIdx 1 ∧
    s.reaps.length ≤ s.numDead + 1 ∧ s.reaps.Nodup ∧
    (∀ i, i ∈ s.reaps ↔ s.children i = .reaped) ∧ s.out.Pairwise InOrder ∧ .waitErr ∉ s.out ∧
    ∀ ret, s.main = .exited ret →
      (ret = -1 ∧ s.reaps = [] ∧ .forkErr ∈ s.out ∧ ∃ i, s.children i = .absent) ∨
      (ret = 0 ∧ s.numDead = env.args.length ∧ (∀ i, s.reaps.count i = 1) ∧
        s.out.getLast? = some .noMore) := by
  have hi := inv_of_reachable h
  obtain ⟨told, hreaps, hnum, htolls⟩ := hi.tolls
  have htake : s.reaps.take s.numDead = told := by
    rw [hreaps, hnum, List.take_left]
  have hlength : s.reaps.length ≤ s.numDead + 1 := by
    rw [hreaps, hnum, List.length_append]
    cases s.main.untold <;> simp
  refine ⟨htake.symm ▸ htolls, hlength, hi.balanced.nodup, hi.reaped_iff, hi.order, hi.noErr,
    fun ret hpc => ?_⟩
  have hmain := hi.main
  rw [MainOk, hpc] at hmain
  rcases hmain with ⟨⟨rfl, hnone, habsent⟩ | ⟨rfl, hall⟩, hout⟩
  · exact .inl ⟨rfl, hnone, hout, habsent⟩
  · have hcollected : ∀ i, s.ledger.phase i = .collected := fun i =>
      congrArg ChildState.phase (hall i)
    have hzero : tally s.ledger.phase (· ≠ .collected) = 0 :=
      tally_eq_zero_iff.mpr (fun i hne => hne (hcollected i))
    have hsum := hi.balanced.outstanding_add_length
    rw [Fintype.card_fin, hzero, Nat.zero_add] at hsum
    have hlen : s.reaps.length = env.args.length := hsum
    have huntold : s.reaps = told := by
      rw [hreaps, hpc]
      exact List.append_nil told
    exact .inr ⟨rfl, hnum.trans (huntold ▸ hlen), hi.balanced.count_eq_one hzero, hout⟩

/-! ## Every run ends -/

def ChildState.weight : ChildState → ℕ
  | .absent => 5
  | .started => 4
  | .sleeping => 3
  | .zombie => 2
  | .reaped => 0

def MainPc.weight : MainPc N → ℕ
  | .usage => 5
  | .fork _ | .count _ => 4
  | .wait => 3
  | .failed _ => 2
  | .print _ _ => 1
  | .exited _ => 0

theorem weight_of_alive {c : ChildState} (h : c.alive = true) : 3 ≤ c.weight := by
  cases c with
  | started | sleeping => simp [ChildState.weight]
  | absent | zombie | reaped => cases h

/-- What is left to do. -/
def State.weight (s : State N) : ℕ := s.main.weight + load s.children ChildState.weight

theorem weight_setChild (i : Fin N) (c : ChildState) {s : State N} :
    load (s.setChild i c).children ChildState.weight + (s.children i).weight =
      load s.children ChildState.weight + c.weight :=
  load_update s.children ChildState.weight i c

theorem main_weight (h : Inv s) {now : String} (hs : main env s now = some s') :
    s'.weight < s.weight := by
  have hmain := h.main
  unfold MainOk at hmain
  unfold main at hs
  cases hpc : s.main with
  | usage =>
    simp only [hpc, Option.some.injEq] at hs
    subst hs
    split <;> simp [State.weight, State.say, hpc, MainPc.weight]
  | fork idx =>
    simp only [hpc] at hmain hs
    split at hs
    · rename_i hidx
      obtain rfl := Option.some.inj hs
      have habsent : s.children ⟨idx, hidx⟩ = .absent := by
        by_contra hne
        exact absurd ((hmain.1 _).mp hne) (lt_irrefl idx)
      have hload := weight_setChild (s := s) ⟨idx, hidx⟩ .started
      rw [habsent] at hload
      simp only [State.weight, hpc, MainPc.weight, ChildState.weight] at hload ⊢
      omega
    · obtain rfl := Option.some.inj hs
      simp [State.weight, hpc, MainPc.weight]
  | wait =>
    simp only [hpc, Option.ite_none_left_eq_some, Option.some.injEq] at hs
    obtain ⟨-, rfl⟩ := hs
    simp [State.weight, hpc, MainPc.weight]
  | failed errno =>
    simp only [hpc] at hs
    split at hs <;>
    · obtain rfl := Option.some.inj hs
      simp [State.weight, hpc, MainPc.weight]
  | count i | print line ret =>
    simp only [hpc, Option.some.injEq] at hs
    subst hs
    simp [State.weight, State.say, hpc, MainPc.weight]
  | exited ret =>
    simp only [hpc] at hs
    cases hs

theorem step_weight (h : Inv s) {a : Action env.args.length}
    (hs : (program env).step s a = some s') : s'.weight < s.weight := by
  cases a with
  | main now => exact main_weight h hs
  | reap i =>
    simp only [program, step, reap, Option.ite_none_right_eq_some, Option.some.injEq] at hs
    obtain ⟨⟨hpc, hz⟩, rfl⟩ := hs
    have hload := weight_setChild (s := s) i .reaped
    rw [hz] at hload
    simp only [State.weight, hpc, MainPc.weight, ChildState.weight] at hload ⊢
    omega
  | forkFails =>
    simp only [program, step, forkFails] at hs
    split at hs
    · rename_i idx hpc
      simp only [Option.ite_none_right_eq_some, Option.some.injEq] at hs
      obtain ⟨-, rfl⟩ := hs
      simp [State.weight, hpc, MainPc.weight]
    · cases hs
  | child i now =>
    simp only [program, step, child] at hs
    cases hpc : s.children i with
    | started =>
      simp only [hpc, Option.some.injEq] at hs
      subst hs
      have hload := weight_setChild (s := s.say (.ready now i)) i .sleeping
      rw [show (s.say (.ready now i)).children i = .started from hpc] at hload
      change s.main.weight + _ < s.main.weight + load (s.say (.ready now i)).children _
      simp only [ChildState.weight] at hload ⊢
      omega
    | sleeping =>
      simp only [hpc, Option.some.injEq] at hs
      subst hs
      have hload := weight_setChild (s := s) i .zombie
      rw [hpc] at hload
      change s.main.weight + _ < s.main.weight + _
      simp only [ChildState.weight] at hload ⊢
      omega
    | absent | zombie | reaped =>
      simp only [hpc] at hs
      cases hs
  | kill i =>
    simp only [program, step, kill, Option.ite_none_right_eq_some, Option.some.injEq] at hs
    obtain ⟨halive, rfl⟩ := hs
    have hload := weight_setChild (s := s) i .zombie
    have hle := weight_of_alive halive
    have hzombie : ChildState.zombie.weight = 2 := rfl
    change s.main.weight + _ < s.main.weight + _
    omega

/-- `main` is held up only by a child that is alive. -/
theorem main_enabled (hexit : ∀ ret, s.main ≠ .exited ret) :
    (∀ now, (program env).Enabled s (.main now)) ∨ (∃ i, (program env).Enabled s (.reap i)) ∨
      (s.main = .wait ∧ ∃ i, (s.children i).alive = true) := by
  cases hpc : s.main with
  | wait =>
    by_cases hz : ∃ i, s.children i = .zombie
    · obtain ⟨i, hi⟩ := hz
      exact .inr (.inl ⟨i, by simp [System.Enabled, program, step, reap, hpc, hi]⟩)
    · by_cases halive : ∃ i, (s.children i).alive = true
      · exact .inr (.inr ⟨rfl, halive⟩)
      · refine .inl (fun now => ?_)
        have hnone : ¬ ∃ i, (s.children i).alive = true ∨ s.children i = .zombie := by
          rintro ⟨i, hi | hi⟩
          · exact halive ⟨i, hi⟩
          · exact hz ⟨i, hi⟩
        simp [System.Enabled, program, step, main, hpc, hnone]
  | fork idx =>
    refine .inl (fun now => ?_)
    by_cases hidx : idx < env.args.length <;>
      simp [System.Enabled, program, step, main, hpc, hidx]
  | failed errno =>
    refine .inl (fun now => ?_)
    by_cases herr : errno = ECHILD <;> simp [System.Enabled, program, step, main, hpc, herr]
  | exited ret => exact absurd hpc (hexit ret)
  | usage | count i | print line ret =>
    exact .inl (fun now => by simp [System.Enabled, program, step, main, hpc])

theorem child_enabled {i : Fin env.args.length} (halive : (s.children i).alive = true)
    (now : String) : (program env).Enabled s (.child i now) := by
  cases hc : s.children i with
  | started | sleeping => simp [System.Enabled, program, step, child, hc]
  | absent | zombie | reaped =>
    rw [hc] at halive
    cases halive

/-- Every run ends, and it does not end before `main` has returned: until then `main` can go on,
or it waits for a child that is alive and can. -/
theorem wait_ends {as : List (Action env.args.length)}
    (hrun : (program env).run (start env.args.length) as = some s) :
    as.length ≤ 5 * env.args.length + 5 ∧
    ((∀ ret, s.main ≠ .exited ret) →
      (∀ now, (program env).Enabled s (.main now)) ∨ (∃ i, (program env).Enabled s (.reap i)) ∨
      (s.main = .wait ∧ ∃ i, (s.children i).alive = true ∧
        ∀ now, (program env).Enabled s (.child i now))) := by
  refine ⟨?_, fun hexit => ?_⟩
  · have hlen := System.length_run_le (inv_invariant env).step
      (fun _ _ _ ht hs => step_weight ht hs) ((inv_invariant env).init _ rfl) hrun
    have hstart : (start env.args.length).weight = 5 + env.args.length * 5 := by
      rw [State.weight, start, load_const, Fintype.card_fin]
      rfl
    omega
  · rcases main_enabled hexit with hmain | hreap | ⟨hpc, i, halive⟩
    · exact .inl hmain
    · exact .inr (.inl hreap)
    · exact .inr (.inr ⟨hpc, i, halive, child_enabled halive⟩)

end Runs

section Demo

/-- `wait 1 2` -/
def demoEnv : Env := ⟨"wait", [[49], [50]], fun i => 101 + i⟩

def older : Fin 2 := ⟨0, Nat.two_pos⟩
def younger : Fin 2 := ⟨1, Nat.one_lt_two⟩

/-- The second child is killed before it has said anything; the first one dies of itself. -/
def killedSchedule : List (Action 2) :=
  [.main "", .main "", .main "", .kill younger, .main "", .reap younger, .main "10:00:00",
    .child older "10:00:01", .child older "", .reap older] ++ List.replicate 4 (.main "10:00:02")

theorem deaths_reported_killed :
    ((program demoEnv).after (start 2) killedSchedule (by decide)).terminal =
        "[10:00:00]: Child process_102 dead(num_dead=1)\n" ++
        "[10:00:01]:101 Child ready to sleep 1s\n" ++
        "[10:00:02]: Child process_101 dead(num_dead=2)\nNo more children...\n" ∧
      ∀ i, ((program demoEnv).after (start 2) killedSchedule (by decide)).reaps.count i = 1 := by
  have hreported := deaths_reported
    ((program demoEnv).reachable_after rfl killedSchedule (by decide))
  refine ⟨by decide +kernel, ?_⟩
  rcases hreported.2.2.2.2.2.2 0 rfl with ⟨hret, -⟩ | ⟨-, -, hcount, -⟩
  · cases hret
  · exact hcount

/-- The parent has reported the one that was killed and waits for the other one. -/
def waitingEnd : State 2 := (program demoEnv).after (start 2) (killedSchedule.take 7) (by decide)

theorem run_waiting :
    (program demoEnv).run (start 2) (killedSchedule.take 7) = some waitingEnd :=
  (program demoEnv).run_after (by decide)

theorem wait_ends_killed :
    killedSchedule.length ≤ 15 ∧
      ((∀ now, (program demoEnv).Enabled waitingEnd (.main now)) ∨
        (∃ i, (program demoEnv).Enabled waitingEnd (.reap i)) ∨
        (waitingEnd.main = .wait ∧ ∃ i, (waitingEnd.children i).alive = true ∧
          ∀ now, (program demoEnv).Enabled waitingEnd (.child i now))) := by
  have hrun : ((program demoEnv).run (start 2) killedSchedule).isSome = true := by decide
  have hpc : waitingEnd.main = .wait := by decide
  refine ⟨(wait_ends ((program demoEnv).run_after hrun)).1, (wait_ends run_waiting).2 ?_⟩
  intro ret hret
  rw [hpc] at hret
  cases hret

end Demo

end LinuxTemplates.WaitProgram
