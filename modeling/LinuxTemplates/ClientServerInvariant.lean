import LinuxTemplates.ClientServerProgram

/-!
# The invariant of the exchange

The request ends with the only newline that is sent and the answer with the only end of
file, so each `Readline` stops exactly where the other side's part ends.
-/

namespace LinuxTemplates.ClientServerExchange
open TransitionSystems FifoChannels SegmentedStreams CStrings ReadlineProgram
open InternetSocketServer (ok)

/-- What the client sends in all. -/
def request (data : List UInt8) : List UInt8 := data ++ [newline]

@[simp] theorem items_append (bs cs : List UInt8) : items (bs ++ cs) = items bs ++ items cs :=
  List.map_append

theorem eq_data_of_mem {o : ReadOutcome} {bs : List UInt8} (h : o ∈ items bs) :
    ∃ ch ∈ bs, o = .data ch := by
  obtain ⟨ch, hch, rfl⟩ := List.mem_map.mp h
  exact ⟨ch, hch, rfl⟩

theorem items_injective {bs cs : List UInt8} (h : items bs = items cs) : bs = cs :=
  List.map_injective_iff.mpr (fun _ _ heq => ReadOutcome.data.inj heq) h

/-! ## What holds at each program point -/

/-- The request has been read to its end. -/
structure Served (s : State) (r : Returned) : Prop where
  received : s.toServer.channel.received = items (request s.data)
  reqData : s.reqData = some r
  result : ∃ b, r = delivery InternetSocketServer.DATA_MAX_SIZE b (request s.data)

/-- The answer has been read to its end. -/
structure Answered (s : State) (r : Returned) : Prop where
  sent : s.toServer.channel.sent = items (request s.data)
  nextTurn : s.server = .nextTurn
  ackData : s.ackData = some r
  result : ∃ b, r = delivery DATA_MAX_SIZE b ok

def ClientOk (s : State) : Prop :=
  match s.client with
  | .writeData => s.toServer.channel.sent = [] ∧ s.toClient.channel.received = [] ∧
    s.ackData = none
  | .writeNewline => s.toServer.channel.sent = items s.data ∧
    s.toClient.channel.received = [] ∧ s.ackData = none
  | .readline l => s.toServer.channel.sent = items (request s.data) ∧ s.ackData = none ∧
    ∃ b bs, l = .after DATA_MAX_SIZE b bs ∧ s.toClient.channel.received = items bs
  | .afterRead r => Answered s r
  | .returned ret => ret = 0 ∧ ∃ r, Answered s r

def ServerOk (s : State) : Prop :=
  match s.server with
  | .readline l => s.toClient.channel.sent = [] ∧ s.reqData = none ∧
    ∃ b bs, l = .after InternetSocketServer.DATA_MAX_SIZE b bs ∧ newline ∉ bs ∧
      s.toServer.channel.received = items bs
  | .afterRead r => s.toClient.channel.sent = [] ∧ Served s r
  | .write => s.toClient.channel.sent = [] ∧ ∃ r, Served s r
  | .close => s.toClient.channel.sent = items ok ∧ ∃ r, Served s r
  | .nextTurn => s.toClient.channel.sent = items ok ++ [.eof] ∧ ∃ r, Served s r
  | .closeEarly | .returned _ => False

structure Inv (s : State) : Prop where
  inner : newline ∉ s.data
  nulFree : 0 ∉ s.data
  client : ClientOk s
  server : ServerOk s

variable {s s' : State}

theorem ClientOk.frame (h : ClientOk s) (hc : s'.client = s.client) (hd : s'.data = s.data)
    (hsent : s'.toServer.channel.sent = s.toServer.channel.sent)
    (hrec : s'.toClient.channel.received = s.toClient.channel.received)
    (hack : s'.ackData = s.ackData) (hsrv : s.server = .nextTurn → s'.server = .nextTurn) :
    ClientOk s' := by
  have hans : ∀ r, Answered s r → Answered s' r := fun r ha =>
    ⟨by rw [hsent, hd]; exact ha.sent, hsrv ha.nextTurn, hack.trans ha.ackData, ha.result⟩
  simp only [ClientOk, hc, hd, hsent, hrec, hack] at h ⊢
  cases hpc : s.client with
  | afterRead r =>
    simp only [hpc] at h
    exact hans r h
  | returned ret =>
    simp only [hpc] at h
    exact ⟨h.1, h.2.imp hans⟩
  | writeData | writeNewline | readline => simpa only [hpc] using h

theorem ServerOk.frame (h : ServerOk s) (hc : s'.server = s.server) (hd : s'.data = s.data)
    (hrec : s'.toServer.channel.received = s.toServer.channel.received)
    (hsent : s'.toClient.channel.sent = s.toClient.channel.sent)
    (hreq : s'.reqData = s.reqData) : ServerOk s' := by
  have hsrv : ∀ r, Served s r → Served s' r := fun r hr =>
    ⟨by rw [hrec, hd]; exact hr.received, hreq.trans hr.reqData, by rw [hd]; exact hr.result⟩
  simp only [ServerOk, hc, hrec, hsent, hreq] at h ⊢
  cases hpc : s.server with
  | readline l => simpa only [hpc] using h
  | afterRead r =>
    simp only [hpc] at h
    exact ⟨h.1, hsrv r h.2⟩
  | write | close | nextTurn =>
    simp only [hpc] at h
    exact ⟨h.1, h.2.imp hsrv⟩
  | closeEarly | returned => simp only [hpc] at h

/-! ## What the readers meet -/

theorem readNext_cases {t t' : Segmented ReadOutcome} {o : ReadOutcome}
    (h : readNext t = some (o, t')) :
    t.head = some o ∧ ((o = .eof ∧ t' = t) ∨ (o ≠ .eof ∧ t' = t.receive)) := by
  simp only [readNext] at h
  split at h
  · cases h
  · rename_i hh
    obtain ⟨rfl, rfl⟩ := Prod.mk.inj (Option.some.inj h)
    exact ⟨hh, .inl ⟨rfl, rfl⟩⟩
  · rename_i o' hne hh
    obtain ⟨rfl, rfl⟩ := Prod.mk.inj (Option.some.inj h)
    exact ⟨hh, .inr ⟨fun heq => hne (heq ▸ rfl), rfl⟩⟩

theorem Inv.request_prefix (hi : Inv s) :
    s.toServer.channel.sent <+: items (request s.data) := by
  have hc := hi.client
  cases hpc : s.client <;> simp only [ClientOk, hpc] at hc
  case writeData => simp [hc.1]
  case writeNewline => simp [hc.1, request]
  case readline => simp [hc.1]
  case afterRead => simp [hc.sent]
  case returned => simp [hc.2.choose_spec.sent]

theorem Inv.answer_prefix (hi : Inv s) :
    s.toClient.channel.sent <+: items ok ∨
      (s.server = .nextTurn ∧ s.toClient.channel.sent = items ok ++ [.eof]) := by
  have hs := hi.server
  cases hpc : s.server <;> simp only [ServerOk, hpc] at hs
  case nextTurn => exact .inr ⟨rfl, hs.1⟩
  all_goals exact .inl (by simp [hs.1])

/-- The server meets the bytes of the payload and then the newline. -/
theorem Inv.server_head (hi : Inv s) {bs : List UInt8} {o : ReadOutcome}
    (hrec : s.toServer.channel.received = items bs) (h : s.toServer.head = some o) :
    (o = .data newline ∧ bs = s.data) ∨ ∃ ch, o = .data ch ∧ ch ≠ newline := by
  have hpre := (Segmented.received_prefix_of_head h).trans hi.request_prefix
  rw [hrec, request, items_append] at hpre
  rcases List.prefix_concat_iff.mp hpre with heq | hpre
  · obtain ⟨h1, h2⟩ := List.append_inj' heq rfl
    exact .inl ⟨List.singleton_inj.mp h2, items_injective h1⟩
  · have hmem : o ∈ items s.data := hpre.subset (by simp)
    obtain ⟨ch, hch, rfl⟩ := eq_data_of_mem hmem
    exact .inr ⟨ch, rfl, fun heq => hi.inner (heq ▸ hch)⟩

/-- The client meets the bytes of the answer and then the end of file. -/
theorem Inv.client_head (hi : Inv s) {bs : List UInt8} {o : ReadOutcome}
    (hrec : s.toClient.channel.received = items bs) (h : s.toClient.head = some o) :
    (o = .eof ∧ bs = ok ∧ s.server = .nextTurn) ∨ ∃ ch, o = .data ch ∧ ch ≠ newline := by
  have hbyte : ∀ {o}, o ∈ items ok → ∃ ch, o = .data ch ∧ ch ≠ newline := by
    intro o ho
    obtain ⟨ch, hch, rfl⟩ := eq_data_of_mem ho
    exact ⟨ch, rfl, fun heq => absurd (heq ▸ hch) (by decide)⟩
  have hpre := Segmented.received_prefix_of_head h
  rw [hrec] at hpre
  rcases hi.answer_prefix with hans | ⟨hnext, hans⟩
  · exact .inr (hbyte ((hpre.trans hans).subset (by simp)))
  · rw [hans] at hpre
    rcases List.prefix_concat_iff.mp hpre with heq | hpre
    · obtain ⟨h1, h2⟩ := List.append_inj' heq rfl
      exact .inl ⟨List.singleton_inj.mp h2, items_injective h1, hnext⟩
    · exact .inr (hbyte (hpre.subset (by simp)))

/-! ## Steps -/

theorem turn_eintr (l : Locals) : l.turn (.fail EINTR) = .again l := by
  simp [Locals.turn]

theorem clientEintr_eq (h : clientEintr s = some s') : s' = s := by
  cases hpc : s.client <;> simp only [clientEintr, hpc, reduceCtorEq, Option.some.injEq] at h
  rw [← h]
  simp only [State.clientTurn, turn_eintr, ← hpc]

theorem serverEintr_eq (h : serverEintr s = some s') : s' = s := by
  cases hpc : s.server <;> simp only [serverEintr, hpc, reduceCtorEq, Option.some.injEq] at h
  rw [← h]
  simp only [State.serverTurn, turn_eintr, ← hpc]

theorem client_inv (hi : Inv s) (h : client s = some s') : Inv s' := by
  have hc := hi.client
  cases hpc : s.client with
  | writeData =>
    simp only [client, hpc, Option.some.injEq] at h
    simp only [ClientOk, hpc] at hc
    subst h
    refine ⟨hi.inner, hi.nulFree, ?_, hi.server.frame rfl rfl rfl rfl rfl⟩
    exact ⟨by simp [hc.1, take_strlen hi.nulFree], hc.2⟩
  | writeNewline =>
    simp only [client, hpc, Option.some.injEq] at h
    simp only [ClientOk, hpc] at hc
    subst h
    refine ⟨hi.inner, hi.nulFree, ?_, hi.server.frame rfl rfl rfl rfl rfl⟩
    exact ⟨by simp [hc.1, request], hc.2.2, s.ackBuffer, [], (after_nil _ _).symm, hc.2.1⟩
  | readline l =>
    simp only [ClientOk, hpc] at hc
    obtain ⟨hsent, hack, b, bs, rfl, hrec⟩ := hc
    simp only [client, hpc] at h
    split at h
    · cases h
    · rename_i o t hread
      obtain ⟨hhead, ht⟩ := readNext_cases hread
      obtain rfl := Option.some.inj h
      rcases hi.client_head hrec hhead with ⟨rfl, rfl, hnext⟩ | ⟨ch, rfl, hne⟩
      · obtain rfl : t = s.toClient := by simpa using ht
        have hend : (ReadOutcome.eof).ends = true := rfl
        simp only [State.clientTurn, turn_of_ends hend]
        refine ⟨hi.inner, hi.nulFree, ?_, hi.server.frame rfl rfl rfl rfl rfl⟩
        exact ⟨hsent, hnext, rfl, b, conclude_eof (by decide) b ok⟩
      · obtain rfl : t = s.toClient.receive := by simpa using ht
        have hgo : (ReadOutcome.data ch).ends = false := by simpa [ReadOutcome.ends] using hne
        simp only [State.clientTurn, turn_of_not_ends hgo]
        refine ⟨hi.inner, hi.nulFree, ?_, hi.server.frame rfl rfl rfl rfl rfl⟩
        refine ⟨hsent, hack, b, bs ++ [ch], rfl, ?_⟩
        rw [Segmented.received_receive hhead, hrec, items_append]
        rfl
  | afterRead r =>
    simp only [client, hpc, Option.some.injEq] at h
    simp only [ClientOk, hpc] at hc
    obtain ⟨b, hr⟩ := hc.result
    have hret : r.ret = 2 := hr ▸ delivery_count (by decide) b (by decide)
    subst h
    refine ⟨hi.inner, hi.nulFree, ?_, hi.server.frame rfl rfl rfl rfl rfl⟩
    refine ⟨?_, r, hc.sent, hc.nextTurn, hc.ackData, hc.result⟩
    rw [hret]
    rfl
  | returned ret => simp [client, hpc] at h

theorem server_inv (hi : Inv s) (h : server s = some s') : Inv s' := by
  have hs := hi.server
  cases hpc : s.server with
  | closeEarly | returned => simp [ServerOk, hpc] at hs
  | nextTurn => simp [server, hpc] at h
  | readline l =>
    simp only [ServerOk, hpc] at hs
    obtain ⟨hsent, hreq, b, bs, rfl, hbs, hrec⟩ := hs
    simp only [server, hpc] at h
    split at h
    · cases h
    · rename_i o t hread
      obtain ⟨hhead, ht⟩ := readNext_cases hread
      obtain rfl := Option.some.inj h
      rcases hi.server_head hrec hhead with ⟨rfl, rfl⟩ | ⟨ch, rfl, hne⟩
      · obtain rfl : t = s.toServer.receive := by simpa using ht
        have hend : (ReadOutcome.data newline).ends = true := rfl
        simp only [State.serverTurn, turn_of_ends hend]
        refine ⟨hi.inner, hi.nulFree, hi.client.frame rfl rfl rfl rfl rfl (by simp [hpc]), ?_⟩
        refine ⟨hsent, ?_, rfl, b, conclude_newline _ b s.data⟩
        rw [Segmented.received_receive hhead, hrec, request, items_append]
        rfl
      · obtain rfl : t = s.toServer.receive := by simpa using ht
        have hgo : (ReadOutcome.data ch).ends = false := by simpa [ReadOutcome.ends] using hne
        simp only [State.serverTurn, turn_of_not_ends hgo]
        refine ⟨hi.inner, hi.nulFree, hi.client.frame rfl rfl rfl rfl rfl (by simp [hpc]), ?_⟩
        refine ⟨hsent, hreq, b, bs ++ [ch], rfl, ?_, ?_⟩
        · simpa [hbs] using hne.symm
        · rw [Segmented.received_receive hhead, hrec, items_append]
          rfl
  | afterRead r =>
    simp only [server, hpc, Option.some.injEq] at h
    simp only [ServerOk, hpc] at hs
    obtain ⟨b, hr⟩ := hs.2.result
    have hpos : ¬ Int32.ofInt r.ret ≤ 0 := by
      rw [hr, delivery_le_zero_iff (by decide) (by decide)]
      simp [request]
    simp only [hpos, if_false] at h
    subst h
    exact ⟨hi.inner, hi.nulFree, hi.client.frame rfl rfl rfl rfl rfl (by simp [hpc]),
      hs.1, r, hs.2.received, hs.2.reqData, hs.2.result⟩
  | write =>
    simp only [server, hpc, Option.some.injEq] at h
    simp only [ServerOk, hpc] at hs
    obtain ⟨hsent, r, hr⟩ := hs
    subst h
    exact ⟨hi.inner, hi.nulFree, hi.client.frame rfl rfl rfl rfl rfl (by simp [hpc]),
      by simp [hsent], r, hr.received, hr.reqData, hr.result⟩
  | close =>
    simp only [server, hpc, Option.some.injEq] at h
    simp only [ServerOk, hpc] at hs
    obtain ⟨hsent, r, hr⟩ := hs
    subst h
    exact ⟨hi.inner, hi.nulFree, hi.client.frame rfl rfl rfl rfl rfl (fun _ => rfl),
      by simp [hsent], r, hr.received, hr.reqData, hr.result⟩

theorem inv_invariant : program.Invariant Inv where
  init s := by
    rintro ⟨data, ackBuffer, reqBuffer, hinner, hnul, rfl⟩
    refine ⟨hinner, hnul, ⟨rfl, rfl, rfl⟩, rfl, rfl, reqBuffer, [], ?_, by simp, rfl⟩
    exact (after_nil _ _).symm
  step s a s' hi h := by
    cases a with
    | client => exact client_inv hi h
    | server => exact server_inv hi h
    | clientEintr => exact clientEintr_eq h ▸ hi
    | serverEintr => exact serverEintr_eq h ▸ hi
    | toServer k =>
      obtain ⟨t, ht, rfl⟩ := Option.map_eq_some_iff.mp h
      obtain ⟨-, hch, -⟩ := Segmented.deliver_cases ht
      exact ⟨hi.inner, hi.nulFree, hi.client.frame rfl rfl (by rw [hch]) rfl rfl id,
        hi.server.frame rfl rfl (by rw [hch]) rfl rfl⟩
    | toClient k =>
      obtain ⟨t, ht, rfl⟩ := Option.map_eq_some_iff.mp h
      obtain ⟨-, hch, -⟩ := Segmented.deliver_cases ht
      exact ⟨hi.inner, hi.nulFree, hi.client.frame rfl rfl rfl (by rw [hch]) rfl id,
        hi.server.frame rfl rfl rfl (by rw [hch]) rfl⟩

theorem inv_of_reachable (h : program.Reachable s) : Inv s :=
  inv_invariant.reachable h

end LinuxTemplates.ClientServerExchange
