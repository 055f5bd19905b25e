import LinuxTemplates.ManyClientsService

/-!
# All clients come to their end

Until all clients have returned some step other than an interruption is possible, whatever the
order in which they connect and however many of them share the backlog.
-/

namespace LinuxTemplates.ManyClients
open TransitionSystems TaskLedgers FifoChannels SegmentedStreams ReadlineProgram
open ClientServerExchange (ServerPc Served Answered request items)
open InternetSocketServer (ok)

variable {N : ℕ} {env : Env N} {s s' : State N}

/-! ## Progress -/

/-- In the loop body the server moves as it does in the exchange. -/
theorem server_enabled {i : Fin N} (hpc : s.main = .serve i)
    (h : (ClientServerExchange.server (s.links i)).isSome = true) :
    (program env).Enabled s .server := by
  change (server s).isSome = true
  simp only [server, hpc]
  cases hsp : (s.links i).server with
  | closeEarly => rfl
  | _ => exact (Option.isSome_map ..).trans h

/-- A connection that the server is at, or is done with, does not hold up its client. -/
theorem link_progress (h : Inv env s) {i : Fin N} (hphase : s.phases i ≠ .fresh)
    (hne : ∀ ret, (s.links i).client ≠ .returned ret)
    (hserver : s.main = .serve i ∨ (s.links i).server = .nextTurn) :
    ∃ a : Action N, a.interrupts = false ∧ (program env).Enabled s a := by
  obtain ⟨a, ha, hen⟩ := ClientServerExchange.not_stuck (h.links i) hne
  have hmove : (ClientServerExchange.step (s.links i) a).isSome = true := hen
  cases a with
  | clientEintr | serverEintr => cases ha
  | client =>
    refine ⟨.client i, rfl, ?_⟩
    change (client s i).isSome = true
    rw [client, if_neg hphase]
    exact (Option.isSome_map ..).trans hmove
  | toServer k => exact ⟨.toServer i k, rfl, (Option.isSome_map ..).trans hmove⟩
  | toClient k => exact ⟨.toClient i k, rfl, (Option.isSome_map ..).trans hmove⟩
  | server =>
    rcases hserver with hpc | hnext
    · exact ⟨.server, rfl, server_enabled hpc hmove⟩
    · simp [ClientServerExchange.step, ClientServerExchange.server, hnext] at hmove

theorem progress (h : Inv env s) (hne : ∃ i, ∀ ret, (s.links i).client ≠ .returned ret) :
    ∃ a : Action N, a.interrupts = false ∧ (program env).Enabled s a := by
  have hmain := h.main
  cases hpc : s.main with
  | seqNum i =>
    refine ⟨.server, rfl, ?_⟩
    change (server s).isSome = true
    simp only [server, hpc, Option.isSome_some]
  | serve i =>
    rw [MainOk, hpc] at hmain
    have hcur : s.main.current = some i := by rw [hpc]; rfl
    have hphase := (h.current_cases hcur).1
    refine link_progress h (by simp [hphase]) (fun ret hret => ?_) (.inl hpc)
    -- a client returns only behind the end of its turn
    have hclient := (h.links i).client
    rw [ClientServerExchange.ClientOk, hret] at hclient
    obtain ⟨-, r, hans⟩ := hclient
    exact hmain.1 hans.nextTurn
  | accept =>
    cases hqueue : s.queue with
    | cons i rest =>
      refine ⟨.server, rfl, ?_⟩
      change (server s).isSome = true
      simp only [server, hpc, hqueue, Option.isSome_some]
    | nil =>
      obtain ⟨i, hi⟩ := hne
      cases hphase : s.phases i with
      | fresh =>
        refine ⟨.connect i, rfl, ?_⟩
        change (connect s i).isSome = true
        rw [connect, if_pos ⟨hphase, by rw [hqueue]; exact Nat.zero_le _⟩]
        rfl
      | queued =>
        have hmem := (h.queued i).mp hphase
        rw [hqueue] at hmem
        cases hmem
      | accepted =>
        have hmem : i ∈ s.order := by
          by_contra hnot
          rw [(h.fresh i).mpr hnot] at hphase
          cases hphase
        rw [h.order, hpc, hqueue, List.append_nil] at hmem
        have hserved : i ∈ s.served := (List.append_nil s.served) ▸ hmem
        exact link_progress h (by simp [hphase]) hi (.inr (h.served i hserved))

/-! ## Every run ends -/

def Phase.weight : Phase → ℕ
  | .fresh => 3
  | .queued => 2
  | .accepted => 0

/-- The addition to `seq_num` that is still to come. -/
def State.mainWeight (s : State N) : ℕ :=
  match s.main with
  | .accept => 0
  | .serve i => if atClose (s.links i).server then 0 else 1
  | .seqNum _ => 1

def State.weight (s : State N) : ℕ :=
  load s.links ClientServerExchange.State.weight + load s.phases Phase.weight + s.mainWeight

theorem links_weight (i : Fin N) (l : Link) :
    load (s.setLink i l).links ClientServerExchange.State.weight + (s.links i).weight =
      load s.links ClientServerExchange.State.weight + l.weight :=
  load_update s.links ClientServerExchange.State.weight i l

theorem phases_weight (i : Fin N) (p : Phase) :
    load (s.setPhase i p).phases Phase.weight + (s.phases i).weight =
      load s.phases Phase.weight + p.weight :=
  load_update s.phases Phase.weight i p

/-- A step of a link that leaves the server where it is. -/
theorem setLink_weight {i : Fin N} {l : Link} (hserver : l.server = (s.links i).server) {d : ℕ}
    (hweight : l.weight + d ≤ (s.links i).weight) : (s.setLink i l).weight + d ≤ s.weight := by
  have hmain : (s.setLink i l).mainWeight = s.mainWeight := by
    unfold State.mainWeight
    change (match s.main with
      | .accept => 0
      | .serve j => if atClose ((s.setLink i l).links j).server then 0 else 1
      | .seqNum _ => 1) = _
    cases s.main with
    | accept | seqNum j => rfl
    | serve j =>
      have hsame : ((s.setLink i l).links j).server = (s.links j).server :=
        forall_setLink (P := fun j l => l.server = (s.links j).server) hserver
          (fun _ _ => rfl) j
      simp only [hsame]
  have hload := links_weight (s := s) i l
  change load (s.setLink i l).links _ + load s.phases _ + (s.setLink i l).mainWeight + d ≤ _
  rw [hmain]
  simp only [State.weight]
  omega

theorem connect_weight {i : Fin N} (hs : connect s i = some s') : s'.weight + 1 ≤ s.weight := by
  simp only [connect, Option.ite_none_right_eq_some, Option.some.injEq] at hs
  obtain ⟨⟨hfresh, -⟩, rfl⟩ := hs
  have hload := phases_weight (s := s) i .queued
  rw [hfresh] at hload
  change load s.links _ + load (s.setPhase i .queued).phases _ + s.mainWeight + 1 ≤
    load s.links _ + load s.phases _ + s.mainWeight
  simp only [Phase.weight] at hload ⊢
  omega

theorem mainWeight_le (s : State N) : s.mainWeight ≤ 1 := by
  unfold State.mainWeight
  cases s.main with
  | accept => exact Nat.zero_le 1
  | seqNum i => exact le_rfl
  | serve i =>
    dsimp only
    split <;> omega

theorem mainWeight_serve {i : Fin N} (hpc : s.main = .serve i)
    (hopen : atClose (s.links i).server = false) : s.mainWeight = 1 := by
  simp [State.mainWeight, hpc, hopen]

/-- A step of the server within a turn. -/
theorem turn_weight {i : Fin N} {l : Link} (hl : l.weight + 1 ≤ (s.links i).weight)
    (hlinks : s'.links = (s.setLink i l).links) (hphases : s'.phases = s.phases)
    (hmain : s'.mainWeight ≤ s.mainWeight) : s'.weight + 1 ≤ s.weight := by
  have hload := links_weight (s := s) i l
  rw [State.weight, State.weight, hlinks, hphases]
  omega

theorem accept_weight {i : Fin N} (hphase : s.phases i = .queued) (hmain : s.mainWeight = 0)
    {l : Link} (hl : l.weight = (s.links i).weight) (hlinks : s'.links = (s.setLink i l).links)
    (hphases : s'.phases = (s.setPhase i .accepted).phases) : s'.weight + 1 ≤ s.weight := by
  have hload := links_weight (s := s) i l
  have hloads := phases_weight (s := s) i .accepted
  have hnew := mainWeight_le s'
  rw [hphase] at hloads
  simp only [Phase.weight] at hloads
  rw [State.weight, State.weight, hlinks, hphases]
  omega

theorem server_weight (h : Inv env s) (hs : server s = some s') : s'.weight + 1 ≤ s.weight := by
  have hmain := h.main
  unfold MainOk at hmain
  cases hpc : s.main with
  | accept =>
    simp only [server, hpc] at hs
    cases hqueue : s.queue with
    | nil =>
      simp only [hqueue] at hs
      cases hs
    | cons i rest =>
      simp only [hqueue, Option.some.injEq] at hs
      have hphase : s.phases i = .queued := (h.queued i).mpr (hqueue ▸ List.mem_cons_self)
      obtain ⟨-, loc, hloc⟩ := h.waiting i (by simp [hphase])
      have hold : s.mainWeight = 0 := by rw [State.mainWeight, hpc]
      subst hs
      refine accept_weight hphase hold ?_ rfl rfl
      simp only [ClientServerExchange.State.weight, hloc, ClientServerExchange.ServerPc.weight]
  | serve i =>
    simp only [hpc] at hmain
    have hserver := (h.links i).server
    unfold ClientServerExchange.ServerOk at hserver
    simp only [server, hpc] at hs
    cases hsp : (s.links i).server with
    | nextTurn => exact absurd hsp hmain.1
    | closeEarly | returned => simp only [hsp] at hserver
    | readline | afterRead | write =>
      simp only [hsp] at hs
      have hold := mainWeight_serve hpc (by rw [hsp]; rfl)
      obtain ⟨l, hl, rfl⟩ := Option.map_eq_some_iff.mp hs
      exact turn_weight (ClientServerExchange.server_weight hl) rfl rfl
        (hold.symm ▸ mainWeight_le _)
    | close =>
      simp only [hsp] at hs
      obtain ⟨l, hl, rfl⟩ := Option.map_eq_some_iff.mp hs
      exact turn_weight (ClientServerExchange.server_weight hl) rfl rfl (Nat.zero_le _)
  | seqNum i =>
    simp only [hpc] at hmain
    simp only [server, hpc, Option.some.injEq] at hs
    subst hs
    have hold : s.mainWeight = 1 := by rw [State.mainWeight, hpc]
    have hnew : State.mainWeight { s with
        main := .serve i, seqNum := s.seqNum + s.reqLen.toUInt32,
        printed := s.printed ++ [s.seqNum + s.reqLen.toUInt32] } = 0 := by
      simp [State.mainWeight, hmain.1, atClose]
    change load s.links _ + load s.phases _ + _ + 1 ≤ load s.links _ + load s.phases _ + s.mainWeight
    omega

/-- Only interruptions are free. -/
theorem step_weight (h : Inv env s) {a : Action N} (hs : (program env).step s a = some s') :
    s'.weight + (if (!a.interrupts) = true then 1 else 0) ≤ s.weight := by
  cases a with
  | connect i => exact connect_weight hs
  | server => exact server_weight h hs
  | client i =>
    simp only [program, step, client, Option.ite_none_left_eq_some] at hs
    obtain ⟨l, hl, rfl⟩ := Option.map_eq_some_iff.mp hs.2
    exact setLink_weight (client_sameServer hl).server (ClientServerExchange.client_weight hl)
  | clientEintr i =>
    obtain ⟨l, hl, rfl⟩ := Option.map_eq_some_iff.mp hs
    obtain rfl := ClientServerExchange.clientEintr_eq hl
    exact setLink_weight (d := 0) rfl le_rfl
  | serverEintr =>
    simp only [program, step, serverEintr] at hs
    split at hs
    · obtain ⟨l, hl, rfl⟩ := Option.map_eq_some_iff.mp hs
      obtain rfl := ClientServerExchange.serverEintr_eq hl
      exact setLink_weight (d := 0) rfl le_rfl
    · cases hs
  | toServer i k =>
    obtain ⟨l, hl, rfl⟩ := Option.map_eq_some_iff.mp hs
    exact setLink_weight (deliver_sameServer (.inl ⟨k, rfl⟩) hl).server
      (ClientServerExchange.step_weight _ (.toServer k) _ hl)
  | toClient i k =>
    obtain ⟨l, hl, rfl⟩ := Option.map_eq_some_iff.mp hs
    exact setLink_weight (deliver_sameServer (.inr ⟨k, rfl⟩) hl).server
      (ClientServerExchange.step_weight _ (.toClient k) _ hl)

theorem start_weight (env : Env N) :
    (start env).weight = ∑ i, (2 * (env.data i).length + 16) + N * 3 := by
  rw [State.weight, start, load_const, Fintype.card_fin, load]
  rfl

/-! ## All clients -/

/-- In every interleaving of any number of clients: as long as one of them has not returned some
step other than an interruption is possible, and only so many steps are; a client returns with 0
and the answer "ok"; the server reads each request to its end, serves the connections in the order
in which they were made and prints the running sums of the request lengths. -/
theorem clients_served {as : List (Action N)} (hrun : (program env).run (start env) as = some s) :
    ((∃ i, ∀ ret, (s.links i).client ≠ .returned ret) →
      ∃ a : Action N, a.interrupts = false ∧ (program env).Enabled s a) ∧
    as.countP (fun a => !a.interrupts) ≤ ∑ i, (2 * (env.data i).length + 16) + N * 3 ∧
    (∀ i ret, (s.links i).client = .returned ret →
      ret = 0 ∧ ∃ r, (s.links i).ackData = some r ∧ r.ret = 2 ∧ r.Holds ok 30) ∧
    (∀ i r, (s.links i).reqData = some r → r.Holds (request (env.data i)) 300) ∧
    (s.served <+: s.order ∧ s.order.Nodup ∧ ∀ i ∈ s.served,
      (s.links i).toServer.channel.queue = [] ∧
      (s.links i).toServer.channel.sent = items (request (env.data i))) ∧
    s.printed = runningSums env.seqNum (s.added.map env.reqLen) := by
  have h := inv_of_reachable ((System.Reachable.init rfl).run hrun)
  refine ⟨progress h, ?_, fun i ret hpc => ?_, fun i r hr => ?_, ⟨?_, h.nodup, fun i hi => ?_⟩,
    h.printed⟩
  · have hpaid := System.run_countP_le (inv_invariant env).step
      (fun _ _ _ ht hs => step_weight ht hs) ((inv_invariant env).init _ rfl) hrun
    rw [start_weight] at hpaid
    omega
  · have hclient := (h.links i).client
    rw [ClientServerExchange.ClientOk, hpc] at hclient
    obtain ⟨hret, r, hans⟩ := hclient
    obtain ⟨b, rfl⟩ := hans.result
    exact ⟨hret, _, hans.ackData, delivery_count (by decide) b (by decide),
      holds_delivery (by decide) (by decide) b (by decide)⟩
  · obtain ⟨b, rfl⟩ := ((h.links i).served hr).result
    rw [h.data i]
    exact holds_delivery (by decide) (by decide) b (by simp [request])
  · rw [h.order, List.append_assoc]
    exact List.prefix_append _ _
  · have hserver := (h.links i).server
    rw [ClientServerExchange.ServerOk, h.served i hi] at hserver
    obtain ⟨-, r, hr⟩ := hserver
    rw [← h.data i]
    exact (h.links i).drained hr

section Demo

def demoEnv : Env 2 :=
  ⟨fun i => if i = 0 then [104] else [105, 105], fun _ => ⟨fun _ => 0, []⟩, ⟨fun _ => 0, []⟩, 7,
    by decide, by decide⟩

/-- The second client connects first; the first one writes while the other is served. -/
def overtakenSchedule : List (Action 2) :=
  [.connect 1, .connect 0, .client 1, .client 0, .server, .toServer 1 2, .server, .client 1,
    .serverEintr, .server, .toServer 1 1, .client 0] ++ List.replicate 5 .server ++
    [.toClient 1 3, .server] ++ List.replicate 4 (.client 1)

def overtakenEnd : State 2 :=
  (program demoEnv).after (start demoEnv) overtakenSchedule (by decide +kernel)

theorem clients_served_overtaken :
    (∃ r, (overtakenEnd.links 1).ackData = some r ∧ r.ret = 2 ∧ r.Holds ok 30) ∧
      overtakenEnd.printed = [10] ∧
      ∃ a : Action 2, a.interrupts = false ∧ (program demoEnv).Enabled overtakenEnd a := by
  have hrun : ((program demoEnv).run (start demoEnv) overtakenSchedule).isSome = true := by
    decide +kernel
  obtain ⟨hprogress, -, hclients, -⟩ := clients_served ((program demoEnv).run_after hrun)
  refine ⟨(hclients 1 0 rfl).2, by decide +kernel, hprogress ⟨0, fun ret hret => ?_⟩⟩
  have hwaits : (overtakenEnd.links 0).client = .readline (.enter 30 ⟨fun _ => 0, []⟩) := rfl
  cases hwaits.symm.trans hret

end Demo

end LinuxTemplates.ManyClients
