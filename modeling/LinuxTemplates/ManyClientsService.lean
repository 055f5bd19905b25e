import LinuxTemplates.ManyClientsProgram
import LinuxTemplates.SequenceNumbers

/-!
# Every client is served, in the order of connection

Each connection, taken for itself, runs as the exchange of one client with one turn of the loop.
What the clients share is the server, which comes to them in the order of their connects.
-/

namespace LinuxTemplates.ManyClients
open TransitionSystems TaskLedgers FifoChannels SegmentedStreams ReadlineProgram
open ClientServerExchange (ServerPc Served request)
open InternetSocketServer (ok)

variable {N : ℕ} {env : Env N} {s s' : State N}

/-! ## One connection for itself -/

section Links
variable {l l' : Link}

/-- What a step of the client or of the network leaves to the server. -/
structure SameServer (l l' : Link) : Prop where
  data : l'.data = l.data
  server : l'.server = l.server
  received : l'.toServer.channel.received = l.toServer.channel.received

theorem client_sameServer (h : ClientServerExchange.client l = some l') : SameServer l l' := by
  unfold ClientServerExchange.client at h
  cases hpc : l.client with
  | writeData | writeNewline =>
    simp only [hpc, Option.some.injEq] at h
    subst h
    exact ⟨rfl, rfl, by simp⟩
  | readline loc =>
    simp only [hpc] at h
    split at h
    · cases h
    · obtain rfl := Option.some.inj h
      unfold ClientServerExchange.State.clientTurn
      split <;> exact ⟨rfl, rfl, rfl⟩
  | afterRead r =>
    simp only [hpc, Option.some.injEq] at h
    subst h
    exact ⟨rfl, rfl, rfl⟩
  | returned ret =>
    simp only [hpc] at h
    cases h

theorem deliver_sameServer {a : ClientServerExchange.Action}
    (ha : (∃ k, a = .toServer k) ∨ ∃ k, a = .toClient k)
    (h : ClientServerExchange.step l a = some l') : SameServer l l' := by
  rcases ha with ⟨k, rfl⟩ | ⟨k, rfl⟩
  · obtain ⟨t, ht, rfl⟩ := Option.map_eq_some_iff.mp h
    exact ⟨rfl, rfl, congrArg Channel.received (Segmented.deliver_cases ht).2.1⟩
  · obtain ⟨t, -, rfl⟩ := Option.map_eq_some_iff.mp h
    exact ⟨rfl, rfl, rfl⟩

theorem server_data (h : ClientServerExchange.server l = some l') : l'.data = l.data := by
  unfold ClientServerExchange.server at h
  cases hpc : l.server with
  | readline loc =>
    simp only [hpc] at h
    split at h
    · cases h
    · obtain rfl := Option.some.inj h
      unfold ClientServerExchange.State.serverTurn
      split <;> rfl
  | nextTurn | returned ret =>
    simp only [hpc] at h
    cases h
  | afterRead | closeEarly | write | close =>
    simp only [hpc, Option.some.injEq] at h
    subst h
    rfl

/-- The server has not read from the connection. -/
structure Untouched (l : Link) : Prop where
  received : l.toServer.channel.received = []
  server : ∃ loc, l.server = .readline loc

/-- The server may begin with any contents of its buffer. -/
theorem inv_begin (h : ClientServerExchange.Inv l) (hl : Untouched l) (b : Buffer) :
    ClientServerExchange.Inv { l with
      server := .readline (.enter InternetSocketServer.DATA_MAX_SIZE b) } := by
  obtain ⟨loc, hpc⟩ := hl.server
  have hserver := h.server
  rw [ClientServerExchange.ServerOk, hpc] at hserver
  obtain ⟨hsent, hreq, -⟩ := hserver
  refine ⟨h.inner, h.nulFree, h.client.frame rfl rfl rfl rfl rfl ?_, hsent, hreq, b, [],
    (after_nil _ _).symm, List.not_mem_nil, hl.received⟩
  simp [hpc]

end Links

/-! ## What holds in every interleaving -/

/-- The connection that the server is at. -/
def MainPc.current : MainPc N → Option (Fin N)
  | .accept => none
  | .serve i | .seqNum i => some i

/-- The addition to `seq_num` is behind the server. -/
def atClose : ServerPc → Bool
  | .close => true
  | _ => false

/-- The clients whose requests have been added to `seq_num`. -/
def State.added (s : State N) : List (Fin N) :=
  s.served ++ match s.main with
    | .serve i => if atClose (s.links i).server then [i] else []
    | _ => []

/-- What `Readline` returns for the request of a client. -/
def Env.reqLen (env : Env N) (i : Fin N) : ℕ := min (request (env.data i)).length 299

/-- The first value and its sums with more and more of the numbers. -/
def runningSums (n : UInt32) (ls : List ℕ) : List UInt32 :=
  (List.range ls.length).map (fun k => n + UInt32.ofNat (ls.take (k + 1)).sum)

def MainOk (env : Env N) (s : State N) : Prop :=
  match s.main with
  | .accept => True
  | .serve i => (s.links i).server ≠ .nextTurn ∧
    ((s.links i).server = .write → s.reqLen = Int32.ofInt (env.reqLen i))
  | .seqNum i => (s.links i).server = .close ∧ s.reqLen = Int32.ofInt (env.reqLen i)

structure Inv (env : Env N) (s : State N) : Prop where
  data : ∀ i, (s.links i).data = env.data i
  links : ∀ i, ClientServerExchange.Inv (s.links i)
  waiting : ∀ i, s.phases i ≠ .accepted → Untouched (s.links i)
  order : s.order = s.served ++ s.main.current.toList ++ s.queue
  nodup : s.order.Nodup
  fresh : ∀ i, s.phases i = .fresh ↔ i ∉ s.order
  queued : ∀ i, s.phases i = .queued ↔ i ∈ s.queue
  served : ∀ i ∈ s.served, (s.links i).server = .nextTurn
  main : MainOk env s
  seqNum : s.seqNum = env.seqNum + UInt32.ofNat (s.added.map env.reqLen).sum
  printed : s.printed = runningSums env.seqNum (s.added.map env.reqLen)

theorem runningSums_append (n : UInt32) (ls : List ℕ) (k : ℕ) :
    runningSums n (ls ++ [k]) = runningSums n ls ++ [n + UInt32.ofNat (ls ++ [k]).sum] := by
  rw [runningSums, List.length_append, List.length_singleton, List.range_succ, List.map_append]
  congr 1
  · refine List.map_congr_left (fun j hj => ?_)
    rw [List.take_append_of_le_length (List.mem_range.mp hj)]
  · have hall : (ls ++ [k]).take (ls.length + 1) = ls ++ [k] :=
      List.take_of_length_le (by simp)
    rw [List.map_singleton, hall]

@[simp] theorem setLink_self (i : Fin N) (l : Link) : (s.setLink i l).links i = l := by
  simp [State.setLink]

theorem setLink_of_ne {i j : Fin N} (h : j ≠ i) (l : Link) :
    (s.setLink i l).links j = s.links j := by
  simp [State.setLink, h]

/-- What holds of the new link and of the other links holds of all links. -/
theorem forall_setLink {P : Fin N → Link → Prop} {i : Fin N} {l : Link} (hi : P i l)
    (h : ∀ j, j ≠ i → P j (s.links j)) (j : Fin N) : P j ((s.setLink i l).links j) := by
  rcases eq_or_ne j i with rfl | hne
  · rwa [setLink_self]
  · rw [setLink_of_ne hne]
    exact h j hne

/-- A step that the server does not see. -/
theorem Inv.setLink (h : Inv env s) {i : Fin N} {l : Link} (hl : ClientServerExchange.Inv l)
    (hsame : SameServer (s.links i) l) : Inv env (s.setLink i l) := by
  have hserver : ∀ j, ((s.setLink i l).links j).server = (s.links j).server :=
    forall_setLink (P := fun j l => l.server = (s.links j).server) hsame.server (fun _ _ => rfl)
  have hadded : (s.setLink i l).added = s.added := by
    unfold State.added
    change s.served ++ (match s.main with
      | .serve j => if atClose ((s.setLink i l).links j).server then [j] else []
      | _ => []) = _
    cases s.main with
    | serve j => simp only [hserver]
    | accept | seqNum j => rfl
  refine ⟨forall_setLink (P := fun j l => l.data = env.data j) (hsame.data.trans (h.data i))
    (fun j _ => h.data j), forall_setLink hl (fun j _ => h.links j), ?_, h.order, h.nodup,
    h.fresh, h.queued, fun j hj => (hserver j).trans (h.served j hj), ?_,
    hadded ▸ h.seqNum, hadded ▸ h.printed⟩
  · refine forall_setLink (P := fun j l => s.phases j ≠ .accepted → Untouched l) (fun hp => ?_)
      (fun j _ => h.waiting j)
    obtain ⟨hrec, loc, hpc⟩ := h.waiting i hp
    exact ⟨hsame.received.trans hrec, loc, hsame.server.trans hpc⟩
  · have hmain := h.main
    unfold MainOk at hmain ⊢
    change (match s.main with
      | .accept => True
      | .serve j => ((s.setLink i l).links j).server ≠ .nextTurn ∧
        (((s.setLink i l).links j).server = .write → s.reqLen = Int32.ofInt (env.reqLen j))
      | .seqNum j => ((s.setLink i l).links j).server = .close ∧
        s.reqLen = Int32.ofInt (env.reqLen j))
    cases hpc : s.main with
    | accept => trivial
    | serve j =>
      simp only [hpc] at hmain
      simp only [hserver]
      exact hmain
    | seqNum j =>
      simp only [hpc] at hmain
      simp only [hserver]
      exact hmain

@[simp] theorem setPhase_self (i : Fin N) (p : Phase) : (s.setPhase i p).phases i = p := by
  simp [State.setPhase]

theorem setPhase_of_ne {i j : Fin N} (h : j ≠ i) (p : Phase) :
    (s.setPhase i p).phases j = s.phases j := by
  simp [State.setPhase, h]

theorem connect_inv (h : Inv env s) {i : Fin N} (hs : connect s i = some s') : Inv env s' := by
  simp only [connect, Option.ite_none_right_eq_some, Option.some.injEq] at hs
  obtain ⟨⟨hfresh, -⟩, rfl⟩ := hs
  have hnew : i ∉ s.order := (h.fresh i).mp hfresh
  have hne : ∀ j, j ≠ i → (s.setPhase i .queued).phases j = s.phases j :=
    fun j hj => setPhase_of_ne hj .queued
  refine ⟨h.data, h.links, fun j hj => ?_, ?_, ?_, fun j => ?_, fun j => ?_, h.served, h.main,
    h.seqNum, h.printed⟩
  · rcases eq_or_ne j i with rfl | hji
    · exact h.waiting j (by simp [hfresh])
    · exact h.waiting j (hne j hji ▸ hj)
  · exact (congrArg (· ++ [i]) h.order).trans (List.append_assoc _ _ _)
  · exact List.nodup_append.mpr ⟨h.nodup, List.nodup_singleton i, fun a ha b hb hab =>
      hnew (List.mem_singleton.mp hb ▸ hab ▸ ha)⟩
  · change (s.setPhase i .queued).phases j = .fresh ↔ j ∉ s.order ++ [i]
    rcases eq_or_ne j i with rfl | hji
    · simp
    · rw [hne j hji, h.fresh j]
      simp [hji]
  · change (s.setPhase i .queued).phases j = .queued ↔ j ∈ s.queue ++ [i]
    rcases eq_or_ne j i with rfl | hji
    · simp
    · rw [hne j hji, h.queued j]
      simp [hji]

theorem added_serve {i : Fin N} (hpc : s.main = .serve i)
    (hopen : atClose (s.links i).server = false) : s.added = s.served := by
  simp [State.added, hpc, hopen]

/-- The server takes the first connection of the backlog. -/
theorem Inv.accept (h : Inv env s) (hpc : s.main = .accept) {i : Fin N} {rest : List (Fin N)}
    (hqueue : s.queue = i :: rest) {b : Buffer} (hmain : s'.main = .serve i)
    (hqueue' : s'.queue = rest) (hphases : s'.phases = (s.setPhase i .accepted).phases)
    (hlinks : s'.links = (s.setLink i { s.links i with
      server := .readline (.enter InternetSocketServer.DATA_MAX_SIZE b) }).links)
    (horder : s'.order = s.order) (hserved : s'.served = s.served) (hseqNum : s'.seqNum = s.seqNum)
    (hprinted : s'.printed = s.printed) : Inv env s' := by
  have hphase : s.phases i = .queued := (h.queued i).mpr (hqueue ▸ List.mem_cons_self)
  have hloc := h.waiting i (by simp [hphase])
  have hlog : s.order = s.served ++ i :: rest := by
    rw [h.order, hpc, hqueue]
    exact congrArg (· ++ i :: rest) (List.append_nil _)
  have hnodup : (s.served ++ i :: rest).Nodup := hlog ▸ h.nodup
  have hnot : i ∉ s.served := fun hi =>
    (List.nodup_append.mp hnodup).2.2 i hi i List.mem_cons_self rfl
  have hrest : i ∉ rest := (List.nodup_cons.mp (List.nodup_append.mp hnodup).2.1).1
  have hserver : (s'.links i).server =
      .readline (.enter InternetSocketServer.DATA_MAX_SIZE b) := by
    rw [hlinks, setLink_self]
  have hadded : s'.added = s.added := by
    rw [added_serve hmain (by rw [hserver]; rfl), hserved, State.added, hpc]
    exact (List.append_nil _).symm
  refine ⟨?_, ?_, fun j hj => ?_, ?_, horder ▸ h.nodup, fun j => ?_, fun j => ?_,
    fun j hj => ?_, ?_, ?_, ?_⟩
  · rw [hlinks]
    exact forall_setLink (P := fun j l => l.data = env.data j) (h.data i) (fun j _ => h.data j)
  · rw [hlinks]
    exact forall_setLink (inv_begin (h.links i) hloc b) (fun j _ => h.links j)
  · rw [hphases] at hj
    have hji : j ≠ i := by
      rintro rfl
      exact hj (setPhase_self j .accepted)
    rw [setPhase_of_ne hji] at hj
    rw [hlinks, setLink_of_ne hji]
    exact h.waiting j hj
  · rw [horder, hserved, hmain, hqueue', hlog, List.append_assoc]
    rfl
  · rw [hphases, horder]
    rcases eq_or_ne j i with rfl | hji
    · rw [setPhase_self]
      exact iff_of_false (by simp) (not_not.mpr (by simp [hlog]))
    · rw [setPhase_of_ne hji, h.fresh j]
  · rw [hphases, hqueue']
    rcases eq_or_ne j i with rfl | hji
    · rw [setPhase_self]
      exact iff_of_false (by simp) hrest
    · rw [setPhase_of_ne hji, h.queued j, hqueue, List.mem_cons, or_iff_right hji]
  · rw [hserved] at hj
    have hji : j ≠ i := fun heq => hnot (heq ▸ hj)
    rw [hlinks, setLink_of_ne hji]
    exact h.served j hj
  · rw [MainOk, hmain]
    exact ⟨by simp [hserver], fun hw => by rw [hserver] at hw; cases hw⟩
  · rw [hseqNum, hadded, h.seqNum]
  · rw [hprinted, hadded, h.printed]

/-- The connection being served has been accepted and is not closed yet. -/
theorem Inv.current_cases (h : Inv env s) {i : Fin N} (hcur : s.main.current = some i) :
    s.phases i = .accepted ∧ i ∉ s.served := by
  have horder : s.order = s.served ++ i :: s.queue := by
    rw [h.order, hcur, Option.toList_some, List.append_assoc]
    rfl
  have hnodup : (s.served ++ i :: s.queue).Nodup := horder ▸ h.nodup
  have hserved : i ∉ s.served := fun hi =>
    (List.nodup_append.mp hnodup).2.2 i hi i List.mem_cons_self rfl
  refine ⟨?_, hserved⟩
  cases hp : s.phases i with
  | accepted => rfl
  | fresh => exact absurd (by simp [horder]) ((h.fresh i).mp hp)
  | queued =>
    have hrest := (List.nodup_cons.mp (List.nodup_append.mp hnodup).2.1).1
    exact absurd ((h.queued i).mp hp) hrest

/-- The server goes on with the connection that it serves. -/
theorem Inv.advance (h : Inv env s) {i : Fin N} (hcur : s.main.current = some i) {l : Link}
    (hl : ClientServerExchange.Inv l) (hdata : l.data = (s.links i).data)
    (hlinks : s'.links = (s.setLink i l).links) (hphases : s'.phases = s.phases)
    (hqueue : s'.queue = s.queue) (horder : s'.order = s.order) (hserved : s'.served = s.served)
    (hcur' : s'.main.current = some i) (hmain : MainOk env s')
    (hseqNum : s'.seqNum = env.seqNum + UInt32.ofNat (s'.added.map env.reqLen).sum)
    (hprinted : s'.printed = runningSums env.seqNum (s'.added.map env.reqLen)) : Inv env s' := by
  obtain ⟨hphase, hnot⟩ := h.current_cases hcur
  refine ⟨?_, ?_, ?_, ?_, horder ▸ h.nodup, ?_, ?_, ?_, hmain, hseqNum, hprinted⟩
  · rw [hlinks]
    exact forall_setLink (P := fun j l => l.data = env.data j) (hdata.trans (h.data i))
      (fun j _ => h.data j)
  · rw [hlinks]
    exact forall_setLink hl (fun j _ => h.links j)
  · rw [hlinks, hphases]
    exact forall_setLink (P := fun j l => s.phases j ≠ .accepted → Untouched l)
      (fun hp => absurd hphase hp) (fun j _ => h.waiting j)
  · rw [horder, hserved, hqueue, hcur', h.order, hcur]
  · rw [hphases, horder]
    exact h.fresh
  · rw [hphases, hqueue]
    exact h.queued
  · intro j hj
    rw [hserved] at hj
    have hji : j ≠ i := fun heq => hnot (heq ▸ hj)
    rw [hlinks, setLink_of_ne hji]
    exact h.served j hj

/-- The server has closed the connection. -/
theorem Inv.finish (h : Inv env s) {i : Fin N} (hpc : s.main = .serve i)
    (hclose : (s.links i).server = .close) {l : Link} (hl : ClientServerExchange.Inv l)
    (hdata : l.data = (s.links i).data) (hserver : l.server = .nextTurn) :
    Inv env (s.finish i l) := by
  have hcur : s.main.current = some i := by rw [hpc]; rfl
  obtain ⟨hphase, hnot⟩ := h.current_cases hcur
  have hadded : (s.finish i l).added = s.added := by
    rw [State.added, State.added, hpc]
    simp [State.finish, hclose, atClose]
  refine ⟨?_, forall_setLink hl (fun j _ => h.links j), ?_, ?_, h.nodup, h.fresh, h.queued, ?_,
    trivial, hadded ▸ h.seqNum, hadded ▸ h.printed⟩
  · exact forall_setLink (P := fun j l => l.data = env.data j) (hdata.trans (h.data i))
      (fun j _ => h.data j)
  · exact forall_setLink (P := fun j l => s.phases j ≠ .accepted → Untouched l)
      (fun hp => absurd hphase hp) (fun j _ => h.waiting j)
  · change s.order = s.served ++ [i] ++ [] ++ s.queue
    rw [h.order, hcur, List.append_nil]
    rfl
  · intro j hj
    rcases List.mem_append.mp hj with hj | hj
    · have hji : j ≠ i := fun heq => hnot (heq ▸ hj)
      exact (congrArg _ (setLink_of_ne hji l)).trans (h.served j hj)
    · rw [List.mem_singleton.mp hj]
      exact (congrArg _ (setLink_self i l)).trans hserver

/-- The result of `Readline` for a request that has been read. -/
theorem ret_of_served {l : Link} {r : Returned} (hr : Served l r) {i : Fin N}
    (hdata : l.data = env.data i) : r.ret = env.reqLen i := by
  obtain ⟨b, rfl⟩ := hr.result
  have hmax : InternetSocketServer.DATA_MAX_SIZE.toNat = 300 := rfl
  rw [delivery_count (by decide) b (by simp only [SSIZE_MAX]; omega), hdata, hmax]
  rfl

theorem toUInt32_reqLen (i : Fin N) :
    (Int32.ofInt (env.reqLen i)).toUInt32 = UInt32.ofNat (env.reqLen i) := by
  have hle : env.reqLen i ≤ 299 := Nat.min_le_right _ _
  have hint : (Int32.ofInt (env.reqLen i)).toInt = env.reqLen i :=
    Int32.toInt_ofInt_of_le (by omega) (by omega)
  have hpos : 0 < env.reqLen i := by simp [Env.reqLen, request]
  have hlt : 0 < Int32.ofInt (env.reqLen i) := by
    rw [Int32.lt_iff_toInt_lt, hint, Int32.toInt_zero]
    omega
  rw [SequenceNumbers.toUInt32_of_pos hlt, hint, Int.toNat_natCast]

theorem mainOk_serve {i : Fin N} (hpc : s.main = .serve i)
    (hopen : (s.links i).server ≠ .nextTurn)
    (hw : (s.links i).server = .write → s.reqLen = Int32.ofInt (env.reqLen i)) :
    MainOk env s := by
  rw [MainOk, hpc]
  exact ⟨hopen, hw⟩

/-- A step before the `write`: nothing is added to `seq_num`. -/
theorem Inv.beforeWrite (h : Inv env s) {i : Fin N} (hpc : s.main = .serve i)
    (hopen : atClose (s.links i).server = false) {l : Link} (hl : ClientServerExchange.Inv l)
    (hdata : l.data = (s.links i).data) (hne : l.server ≠ .nextTurn)
    (hopen' : atClose l.server = false) {b : Buffer} {n : Int32}
    (hw : l.server = .write → n = Int32.ofInt (env.reqLen i)) :
    Inv env { s.setLink i l with reqData := b, reqLen := n } := by
  have hcur : s.main.current = some i := by rw [hpc]; rfl
  have hlink := setLink_self (s := s) i l
  have hadded : State.added { s.setLink i l with reqData := b, reqLen := n } = s.added :=
    (added_serve (s := { s.setLink i l with reqData := b, reqLen := n }) hpc
      (hlink.symm ▸ hopen')).trans (added_serve hpc hopen).symm
  refine h.advance hcur hl hdata rfl rfl rfl rfl rfl hcur (mainOk_serve hpc ?_ ?_)
    (hadded ▸ h.seqNum) (hadded ▸ h.printed)
  · exact hlink.symm ▸ hne
  · exact hlink.symm ▸ hw

theorem serve_inv (h : Inv env s) {i : Fin N} (hpc : s.main = .serve i)
    (hs : server s = some s') : Inv env s' := by
  have hcur : s.main.current = some i := by rw [hpc]; rfl
  have hmain := h.main
  rw [MainOk, hpc] at hmain
  have hlink := h.links i
  have hserver := hlink.server
  unfold ClientServerExchange.ServerOk at hserver
  simp only [server, hpc] at hs
  cases hsp : (s.links i).server with
  | nextTurn => exact absurd hsp hmain.1
  | closeEarly | returned =>
    simp only [hsp] at hserver
  | readline loc =>
    simp only [hsp] at hs
    obtain ⟨l, hl, rfl⟩ := Option.map_eq_some_iff.mp hs
    have hnew : (∃ loc', l.server = .readline loc') ∨ ∃ r, l.server = .afterRead r := by
      simp only [ClientServerExchange.server, hsp] at hl
      split at hl
      · cases hl
      · obtain rfl := Option.some.inj hl
        unfold ClientServerExchange.State.serverTurn
        split
        · exact .inl ⟨_, rfl⟩
        · exact .inr ⟨_, rfl⟩
    have hopen : atClose l.server = false ∧ l.server ≠ .nextTurn ∧ l.server ≠ .write := by
      rcases hnew with ⟨loc', hp⟩ | ⟨r, hp⟩ <;> simp [hp, atClose]
    exact h.beforeWrite hpc (by rw [hsp]; rfl) (ClientServerExchange.server_inv hlink hl)
      (server_data hl) hopen.2.1 hopen.1 (fun hw => absurd hw hopen.2.2)
  | afterRead r =>
    simp only [hsp] at hs hserver
    obtain ⟨l, hl, rfl⟩ := Option.map_eq_some_iff.mp hs
    have hl' := ClientServerExchange.server_inv hlink hl
    have hwrite : l.server = .write := by
      have hserver' := hl'.server
      simp only [ClientServerExchange.server, hsp, Option.some.injEq] at hl
      subst hl
      by_cases hle : Int32.ofInt r.ret ≤ 0
      · simp only [ClientServerExchange.ServerOk, hle, if_true] at hserver'
      · exact if_neg hle
    refine h.beforeWrite hpc (by rw [hsp]; rfl) hl' (server_data hl) ?_ ?_ (fun _ => ?_)
    · simp [hwrite]
    · rw [hwrite]
      rfl
    · rw [ret_of_served hserver.2 (h.data i)]
  | write =>
    simp only [hsp] at hs
    obtain ⟨l, hl, rfl⟩ := Option.map_eq_some_iff.mp hs
    have hclose : l.server = .close := by
      simp only [ClientServerExchange.server, hsp, Option.some.injEq] at hl
      rw [← hl]
    have hadded : State.added { s.setLink i l with main := .seqNum i } = s.added :=
      (List.append_nil _).trans (added_serve hpc (by rw [hsp]; rfl)).symm
    refine h.advance hcur (ClientServerExchange.server_inv hlink hl) (server_data hl) rfl rfl rfl
      rfl rfl rfl ⟨?_, hmain.2 hsp⟩ (hadded ▸ h.seqNum) (hadded ▸ h.printed)
    exact (congrArg _ (setLink_self i l)).trans hclose
  | close =>
    simp only [hsp] at hs
    obtain ⟨l, hl, rfl⟩ := Option.map_eq_some_iff.mp hs
    have hnext : l.server = .nextTurn := by
      simp only [ClientServerExchange.server, hsp, Option.some.injEq] at hl
      rw [← hl]
    exact h.finish hpc hsp (ClientServerExchange.server_inv hlink hl) (server_data hl) hnext

/-- The length of the request is added to `seq_num` and the sum is printed. -/
theorem seqNum_inv (h : Inv env s) {i : Fin N} (hpc : s.main = .seqNum i)
    (hs : server s = some s') : Inv env s' := by
  have hmain := h.main
  rw [MainOk, hpc] at hmain
  obtain ⟨hclose, hlen⟩ := hmain
  simp only [server, hpc, Option.some.injEq] at hs
  have hadded : s.added = s.served := by
    rw [State.added, hpc]
    exact List.append_nil _
  have hadded' : s'.added = s.served ++ [i] := by
    rw [← hs, State.added]
    simp [hclose, atClose]
  have hsum : s.seqNum + s.reqLen.toUInt32 =
      env.seqNum + UInt32.ofNat ((s.served ++ [i]).map env.reqLen).sum := by
    rw [h.seqNum, hadded, hlen, toUInt32_reqLen, List.map_append, List.sum_append,
      UInt32.ofNat_add, UInt32.add_assoc]
    simp
  have hself : s.links = (s.setLink i (s.links i)).links := (Function.update_eq_self i s.links).symm
  have hcur : s.main.current = some i := by rw [hpc]; rfl
  refine h.advance hcur (h.links i) rfl ?_ ?_ ?_ ?_ ?_ ?_ (mainOk_serve (i := i) ?_ ?_ ?_) ?_ ?_
  · rw [← hs]
    exact hself
  · rw [← hs]
  · rw [← hs]
  · rw [← hs]
  · rw [← hs]
  · rw [← hs]
    rfl
  · rw [← hs]
  · rw [← hs]
    exact ne_of_eq_of_ne hclose (by simp)
  · rw [← hs]
    exact fun hw => by rw [hclose] at hw; cases hw
  · rw [hadded', ← hsum, ← hs]
  · have hmap : (s.served ++ [i]).map env.reqLen = s.served.map env.reqLen ++ [env.reqLen i] :=
      List.map_append
    rw [hadded', hmap, runningSums_append, ← hmap, ← hsum, ← hadded, ← h.printed, ← hs]

theorem server_inv (h : Inv env s) (hs : server s = some s') : Inv env s' := by
  cases hpc : s.main with
  | accept =>
    simp only [server, hpc] at hs
    cases hqueue : s.queue with
    | nil =>
      simp only [hqueue] at hs
      cases hs
    | cons i rest =>
      simp only [hqueue, Option.some.injEq] at hs
      subst hs
      exact h.accept hpc hqueue rfl rfl rfl rfl rfl rfl rfl rfl
  | serve i => exact serve_inv h hpc hs
  | seqNum i => exact seqNum_inv h hpc hs

theorem sameServer_refl (l : Link) : SameServer l l := ⟨rfl, rfl, rfl⟩

theorem inv_invariant (env : Env N) : (program env).Invariant (Inv env) where
  init s := by
    rintro rfl
    refine ⟨fun _ => rfl, fun i => ?_, fun i _ => ⟨rfl, _, rfl⟩, rfl, List.nodup_nil,
      fun i => iff_of_true rfl List.not_mem_nil, fun i => iff_of_false (by simp [start]) List.not_mem_nil,
      fun i hi => absurd hi List.not_mem_nil, trivial, ?_, rfl⟩
    · exact ClientServerExchange.inv_invariant.init _
        ⟨env.data i, env.ackBuffer i, env.reqData, env.inner i, env.nulFree i, rfl⟩
    · exact (UInt32.add_zero env.seqNum).symm
  step s a s' h hs := by
    cases a with
    | connect i => exact connect_inv h hs
    | client i =>
      simp only [program, step, client, Option.ite_none_left_eq_some] at hs
      obtain ⟨l, hl, rfl⟩ := Option.map_eq_some_iff.mp hs.2
      exact h.setLink (ClientServerExchange.client_inv (h.links i) hl) (client_sameServer hl)
    | server => exact server_inv h hs
    | clientEintr i =>
      obtain ⟨l, hl, rfl⟩ := Option.map_eq_some_iff.mp hs
      obtain rfl := ClientServerExchange.clientEintr_eq hl
      exact h.setLink (h.links i) (sameServer_refl _)
    | serverEintr =>
      simp only [program, step, serverEintr] at hs
      split at hs
      · rename_i i hpc
        obtain ⟨l, hl, rfl⟩ := Option.map_eq_some_iff.mp hs
        obtain rfl := ClientServerExchange.serverEintr_eq hl
        exact h.setLink (h.links i) (sameServer_refl _)
      · cases hs
    | toServer i k =>
      obtain ⟨l, hl, rfl⟩ := Option.map_eq_some_iff.mp hs
      exact h.setLink (ClientServerExchange.inv_invariant.step _ (.toServer k) _ (h.links i) hl)
        (deliver_sameServer (.inl ⟨k, rfl⟩) hl)
    | toClient i k =>
      obtain ⟨l, hl, rfl⟩ := Option.map_eq_some_iff.mp hs
      exact h.setLink (ClientServerExchange.inv_invariant.step _ (.toClient k) _ (h.links i) hl)
        (deliver_sameServer (.inr ⟨k, rfl⟩) hl)

theorem inv_of_reachable (h : (program env).Reachable s) : Inv env s :=
  (inv_invariant env).reachable h

end LinuxTemplates.ManyClients
