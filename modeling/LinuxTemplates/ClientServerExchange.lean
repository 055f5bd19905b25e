import LinuxTemplates.ClientServerInvariant

/-!
# Agreement and progress of the exchange

Some step other than an interruption is possible until the client has its answer, and a
weight of the program points and of what is in the streams bounds every run.
-/

namespace LinuxTemplates.ClientServerExchange
open TransitionSystems FifoChannels SegmentedStreams CStrings ReadlineProgram
open InternetSocketServer (ok)

variable {s s' : State}

/-! ## Progress -/

theorem readNext_isSome (t : Segmented ReadOutcome) :
    (readNext t).isSome = t.head.isSome := by
  simp only [readNext]
  split <;> simp_all

theorem client_reads {l : Locals} (hpc : s.client = .readline l)
    (h : s.toClient.head.isSome = true) : program.Enabled s .client := by
  obtain ⟨⟨o, t⟩, hr⟩ := Option.isSome_iff_exists.mp ((readNext_isSome _).trans h)
  simp [System.Enabled, program, step, client, hpc, hr]

theorem server_reads {l : Locals} (hpc : s.server = .readline l)
    (h : s.toServer.head.isSome = true) : program.Enabled s .server := by
  obtain ⟨⟨o, t⟩, hr⟩ := Option.isSome_iff_exists.mp ((readNext_isSome _).trans h)
  simp [System.Enabled, program, step, server, hpc, hr]

/-- While the client waits for an answer that it has read up, the server can move. -/
theorem server_progress (hi : Inv s) {l : Locals} (hpc : s.client = .readline l)
    (hq : s.toClient.channel.queue = []) :
    ∃ a : Action, a.interrupts = false ∧ program.Enabled s a := by
  have hc := hi.client
  have hs := hi.server
  simp only [ClientOk, hpc] at hc
  obtain ⟨hsent, -, b, bs, -, hrec⟩ := hc
  cases hsp : s.server with
  | closeEarly | returned => simp [ServerOk, hsp] at hs
  | afterRead | write | close =>
    exact ⟨.server, rfl, by simp [System.Enabled, program, step, server, hsp]⟩
  | nextTurn =>
    simp only [ServerOk, hsp] at hs
    have heof : ReadOutcome.eof ∈ items bs := by
      rw [← hrec, s.toClient.channel.received_eq_sent hq, hs.1]
      simp
    obtain ⟨ch, -, hch⟩ := eq_data_of_mem heof
    cases hch
  | readline l' =>
    simp only [ServerOk, hsp] at hs
    obtain ⟨-, -, b', bs', -, hbs', hrec'⟩ := hs
    rcases s.toServer.progress with hh | ⟨k, hk⟩ | hq'
    · exact ⟨.server, rfl, server_reads hsp hh⟩
    · exact ⟨.toServer k, rfl, by simpa [System.Enabled, program, step] using hk⟩
    · have hall : bs' = request s.data := items_injective
        (by rw [← hrec', s.toServer.channel.received_eq_sent hq', hsent])
      exact absurd (hall ▸ by simp [request]) hbs'

theorem not_stuck (hi : Inv s) (hne : ∀ ret, s.client ≠ .returned ret) :
    ∃ a : Action, a.interrupts = false ∧ program.Enabled s a := by
  cases hpc : s.client with
  | returned ret => exact absurd hpc (hne ret)
  | writeData | writeNewline | afterRead =>
    exact ⟨.client, rfl, by simp [System.Enabled, program, step, client, hpc]⟩
  | readline l =>
    rcases s.toClient.progress with hh | ⟨k, hk⟩ | hq
    · exact ⟨.client, rfl, client_reads hpc hh⟩
    · exact ⟨.toClient k, rfl, by simpa [System.Enabled, program, step] using hk⟩
    · exact server_progress hi hpc hq

/-! ## Every run ends -/

def ClientPc.weight (data : List UInt8) : ClientPc → ℕ
  | .writeData => 2 * data.length + 6
  | .writeNewline => 5
  | .readline _ => 2
  | .afterRead _ => 1
  | .returned _ => 0

def ServerPc.weight : ServerPc → ℕ
  | .readline _ => 10
  | .afterRead _ => 9
  | .write => 8
  | .closeEarly | .close => 3
  | .nextTurn | .returned _ => 0

def State.weight (s : State) : ℕ :=
  s.client.weight s.data + s.server.weight + s.toServer.load + s.toClient.load

theorem readNext_load {t t' : Segmented ReadOutcome} {o : ReadOutcome}
    (h : readNext t = some (o, t')) :
    (o = .eof ∧ t'.load = t.load) ∨ t'.load + 1 ≤ t.load := by
  obtain ⟨hh, ⟨ho, rfl⟩ | ⟨-, rfl⟩⟩ := readNext_cases h
  · exact .inl ⟨ho, rfl⟩
  · exact .inr (Segmented.load_receive hh)

theorem client_weight (h : client s = some s') : s'.weight + 1 ≤ s.weight := by
  cases hpc : s.client with
  | writeData =>
    simp only [client, hpc, Option.some.injEq] at h
    have hlen : (items (s.data.take (strlen s.data))).length ≤ s.data.length := by
      simp only [items, List.length_map, List.length_take]
      omega
    subst h
    simp only [State.weight, ClientPc.weight, hpc, Segmented.load_send]
    omega
  | writeNewline =>
    simp only [client, hpc, Option.some.injEq] at h
    have hlen : (items [newline]).length = 1 := rfl
    subst h
    simp only [State.weight, ClientPc.weight, hpc, Segmented.load_send, hlen]
    omega
  | readline l =>
    simp only [client, hpc] at h
    split at h
    · cases h
    · rename_i o t hread
      obtain rfl := Option.some.inj h
      rcases readNext_load hread with ⟨rfl, hload⟩ | hload
      · have hend : (ReadOutcome.eof).ends = true := rfl
        simp only [State.clientTurn, turn_of_ends hend, State.weight, ClientPc.weight, hpc, hload]
        omega
      · simp only [State.clientTurn]
        split <;> simp only [State.weight, ClientPc.weight, hpc] <;> omega
  | afterRead r =>
    simp only [client, hpc, Option.some.injEq] at h
    subst h
    simp only [State.weight, ClientPc.weight, hpc]
    omega
  | returned ret => simp [client, hpc] at h

theorem server_weight (h : server s = some s') : s'.weight + 1 ≤ s.weight := by
  cases hpc : s.server with
  | readline l =>
    simp only [server, hpc] at h
    split at h
    · cases h
    · rename_i o t hread
      obtain rfl := Option.some.inj h
      rcases readNext_load hread with ⟨rfl, hload⟩ | hload
      · have hend : (ReadOutcome.eof).ends = true := rfl
        simp only [State.serverTurn, turn_of_ends hend, State.weight, ServerPc.weight, hpc, hload]
        omega
      · simp only [State.serverTurn]
        split <;> simp only [State.weight, ServerPc.weight, hpc] <;> omega
  | afterRead r =>
    simp only [server, hpc, Option.some.injEq] at h
    subst h
    by_cases hle : Int32.ofInt r.ret ≤ 0
    · simp only [State.weight, ServerPc.weight, hpc, hle, if_true]
      omega
    · simp only [State.weight, ServerPc.weight, hpc, hle, if_false]
      omega
  | write =>
    simp only [server, hpc, Option.some.injEq] at h
    have hlen : (items ok).length = 2 := rfl
    subst h
    simp only [State.weight, ServerPc.weight, hpc, Segmented.load_send, hlen]
    omega
  | closeEarly | close =>
    simp only [server, hpc, Option.some.injEq] at h
    subst h
    simp only [State.weight, ServerPc.weight, hpc, Segmented.load_send, List.length_singleton]
    omega
  | nextTurn | returned => simp [server, hpc] at h

/-- Only interruptions are free. -/
theorem step_weight (s : State) (a : Action) (s' : State) (h : step s a = some s') :
    s'.weight + (if (!a.interrupts) = true then 1 else 0) ≤ s.weight := by
  cases a with
  | client => exact client_weight h
  | server => exact server_weight h
  | clientEintr => exact (clientEintr_eq h ▸ le_rfl)
  | serverEintr => exact (serverEintr_eq h ▸ le_rfl)
  | toServer k =>
    obtain ⟨t, ht, rfl⟩ := Option.map_eq_some_iff.mp h
    have hload := Segmented.load_deliver ht
    simp only [State.weight, Action.interrupts, Bool.not_false, if_true]
    omega
  | toClient k =>
    obtain ⟨t, ht, rfl⟩ := Option.map_eq_some_iff.mp h
    have hload := Segmented.load_deliver ht
    simp only [State.weight, Action.interrupts, Bool.not_false, if_true]
    omega

theorem Inv.served (hi : Inv s) {r : Returned} (h : s.reqData = some r) : Served s r := by
  have hs := hi.server
  have huniq : ∀ r', Served s r' → Served s r := fun r' hr' =>
    Option.some.inj (hr'.reqData.symm.trans h) ▸ hr'
  cases hpc : s.server <;> simp only [ServerOk, hpc] at hs
  case readline => simp [h] at hs
  case afterRead => exact huniq _ hs.2
  all_goals exact hs.2.elim huniq

/-- The request read to its end leaves nothing behind it. -/
theorem Inv.drained (hi : Inv s) {r : Returned} (hr : Served s r) :
    s.toServer.channel.queue = [] ∧ s.toServer.channel.sent = items (request s.data) := by
  have hcons := s.toServer.channel.conserved
  have hlen := hi.request_prefix.length_le
  rw [hr.received] at hcons
  rw [← hcons, List.length_append] at hlen
  have hq : s.toServer.channel.queue = [] := List.length_eq_zero_iff.mp (by omega)
  exact ⟨hq, by rw [← hcons, hq, List.append_nil]⟩

end LinuxTemplates.ClientServerExchange
