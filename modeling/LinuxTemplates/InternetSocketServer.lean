import LinuxTemplates.TransitionSystems
import LinuxTemplates.ReadlineFraming

/-!
# The compiled internet socket server

The first `main` of `internet_socket_server.cpp` from its `accept` on: it accepts one
connection before its loop, and each turn of the loop reads a request, answers it and
closes the descriptor. Calls on an open descriptor succeed, calls on a closed one fail
with EBADF.
-/

namespace LinuxTemplates.InternetSocketServer
open TransitionSystems DelimitedStreams ReadlineProgram

def DATA_MAX_SIZE : UInt64 := 300

def EBADF : ℤ := 9

/-- The bytes of `ack_data`. -/
def ok : List UInt8 := [111, 107]

/-- A descriptor returned by `accept`, and what has been written to it. -/
structure Connection where
  input : Descriptor
  opened : Bool
  reply : List UInt8

/-- A client's stream ends with an end of file. -/
def Connection.ofClient (sent : List UInt8) : Connection :=
  ⟨⟨sent.map .data, .eof⟩, true, []⟩

inductive MainPc
  | accept | readline | closeEarly | write | seqNum | close | returned (ret : ℤ)
  deriving DecidableEq, Repr

/-- `waiting` are the clients not accepted yet; `printed` logs the `Seq num` lines. -/
structure State where
  waiting : List (List UInt8)
  conns : List Connection
  acceptFd : ℕ
  reqData : Buffer
  reqLen : Int32
  seqNum : UInt32
  printed : List UInt32
  main : MainPc

def State.fdOpen (s : State) : Bool := (s.conns[s.acceptFd]?).any (·.opened)

/-- What a read on `accept_fd` meets. -/
def State.descriptor (s : State) : Descriptor :=
  match s.conns[s.acceptFd]? with
  | some c => if c.opened then c.input else ⟨[], .fail EBADF⟩
  | none => ⟨[], .fail EBADF⟩

def State.onFd (s : State) (f : Connection → Connection) : State :=
  { s with conns := s.conns.modify s.acceptFd f }

def main (s : State) : Option State :=
  match s.main with
  | .accept => match s.waiting with
    | [] => none
    | c :: cs => some { s with waiting := cs, conns := s.conns ++ [.ofClient c],
                               acceptFd := s.conns.length, main := .readline }
  | .readline => match ReadlineProgram.readline s.descriptor (some s.reqData) DATA_MAX_SIZE with
    | none => none
    | some c =>
      let reqLen := Int32.ofInt c.ret
      some { s.onFd (fun conn => { conn with input := c.fd }) with
        reqData := c.buffer.getD s.reqData
        reqLen := reqLen
        main := if reqLen ≤ 0 then .closeEarly else .write }
  | .closeEarly => some { s.onFd (fun conn => { conn with opened := false }) with
      main := .returned (-1) }
  | .write => some { (if s.fdOpen then s.onFd fun conn => { conn with reply := conn.reply ++ ok }
      else s) with main := .seqNum }
  | .seqNum => some { s with seqNum := s.seqNum + s.reqLen.toUInt32,
                             printed := s.printed ++ [s.seqNum + s.reqLen.toUInt32],
                             main := .close }
  | .close => if s.fdOpen then
      some { s.onFd (fun conn => { conn with opened := false }) with main := .readline }
    else some { s with main := .returned (-1) }
  | .returned _ => none

/-- `seq_num` and `req_data` start with whatever the stack holds. -/
def start (clients : List (List UInt8)) (seqNum : UInt32) (reqData : Buffer) : State :=
  ⟨clients, [], 0, reqData, 0, seqNum, [], .accept⟩

/-- The run of the server for the clients that connect, in order. -/
def program (clients : List (List UInt8)) (seqNum : UInt32) (reqData : Buffer) :
    System State Unit where
  init s := s = start clients seqNum reqData
  step s _ := main s

/-! ## Serving every client -/

/-- The program point gives `accept_fd` to a call. -/
def MainPc.usesFd : MainPc → Bool
  | .readline | .closeEarly | .write | .close => true
  | _ => false

def answer (sent : List UInt8) : List UInt8 := if sent = [] then [] else ok

def State.replies (s : State) : List (List UInt8) := s.conns.map (·.reply)

/-- All clients are accepted and answered in order, no answer is ever anything else, and
every call on `accept_fd` finds it open. -/
structure ServesEvery (clients : List (List UInt8)) (seqNum : UInt32) (reqData : Buffer) :
    Prop where
  served : ∃ s, (program clients seqNum reqData).Reachable s ∧ s.waiting = [] ∧
    s.replies = clients.map answer
  answers : ∀ s, (program clients seqNum reqData).Reachable s → ∀ (i : ℕ) sent reply,
    clients[i]? = some sent → s.replies[i]? = some reply → reply = [] ∨ reply = answer sent
  descriptors : ∀ s, (program clients seqNum reqData).Reachable s → s.main.usesFd = true →
    s.fdOpen = true

/-! ## One request -/

theorem bytes_map_data (sent : List UInt8) : bytes (sent.map .data) = sent := by
  rw [bytes, List.filterMap_map]
  exact List.filterMap_some

theorem interrupted_map_data (sent : List UInt8) : Interrupted (sent.map .data) := by
  intro o ho
  obtain ⟨ch, -, rfl⟩ := List.mem_map.mp ho
  exact .inr ⟨ch, rfl⟩

/-- The request is positive as an `int` unless the client sent nothing. -/
theorem reqLen_le_zero_iff (b : Buffer) (sent : List UInt8) :
    Int32.ofInt (lineCall b DATA_MAX_SIZE (sent.map .data)).ret ≤ 0 ↔ sent = [] := by
  have hline : through isNewline sent = [] ↔ sent = [] := by
    cases sent with
    | nil => simp [through]
    | cons ch sent => by_cases hch : isNewline ch = true <;> simp [through, hch]
  simp only [lineCall, bytes_map_data]
  exact (delivery_le_zero_iff (by decide) (by decide) b _).trans hline

variable {clients : List (List UInt8)} {seqNum : UInt32} {reqData : Buffer} {s s' : State}

/-! ## The one connection -/

/-- The loop runs on the one connection that was accepted. -/
structure Serving (s : State) (conn : Connection) : Prop where
  conns : s.conns = [conn]
  acceptFd : s.acceptFd = 0

variable {conn : Connection}

theorem Serving.fdOpen (h : Serving s conn) : s.fdOpen = conn.opened := by
  simp [State.fdOpen, h.conns, h.acceptFd]

theorem Serving.descriptor (h : Serving s conn) :
    s.descriptor = if conn.opened then conn.input else ⟨[], .fail EBADF⟩ := by
  simp [State.descriptor, h.conns, h.acceptFd]

theorem Serving.onFd (h : Serving s conn) (f : Connection → Connection) :
    (s.onFd f).conns = [f conn] := by
  simp [State.onFd, h.conns, h.acceptFd]

/-- The state of the connection of a client that sent `sent` at each program point. -/
def ConnectionOk (sent : List UInt8) (conn : Connection) : MainPc → Prop
  | .accept => False
  | .readline => conn = .ofClient sent ∨ (sent ≠ [] ∧ conn.opened = false ∧ conn.reply = ok)
  | .closeEarly => (sent = [] ∧ conn.opened = true ∧ conn.reply = []) ∨
    (sent ≠ [] ∧ conn.opened = false ∧ conn.reply = ok)
  | .write => sent ≠ [] ∧ conn.opened = true ∧ conn.reply = []
  | .seqNum | .close => sent ≠ [] ∧ conn.opened = true ∧ conn.reply = ok
  | .returned _ => conn.opened = false ∧ conn.reply = answer sent

theorem ConnectionOk.reply {sent : List UInt8} {pc : MainPc} (h : ConnectionOk sent conn pc) :
    conn.reply = [] ∨ conn.reply = answer sent := by
  cases pc <;> simp only [ConnectionOk] at h
  case readline =>
    rcases h with rfl | ⟨hne, -, hr⟩
    · exact .inl rfl
    · exact .inr (by simp [answer, hne, hr])
  case closeEarly =>
    rcases h with ⟨-, -, hr⟩ | ⟨hne, -, hr⟩
    · exact .inl hr
    · exact .inr (by simp [answer, hne, hr])
  case returned => exact .inr h.2
  all_goals simp [h, answer]

theorem ConnectionOk.opened_of_silent {pc : MainPc} (h : ConnectionOk [] conn pc)
    (hu : pc.usesFd = true) : conn.opened = true := by
  cases pc <;> simp only [MainPc.usesFd, Bool.false_eq_true] at hu
  case readline =>
    obtain rfl : conn = .ofClient [] := h.resolve_right (fun hc => hc.1 rfl)
    rfl
  case closeEarly => exact (h.resolve_right (fun hc => hc.1 rfl)).2.1
  all_goals exact h.2.1

/-- The clients but the first wait for ever. -/
structure Inv (sent : List UInt8) (rest : List (List UInt8)) (s : State) : Prop where
  waiting : s.waiting = rest
  serving : ∃ conn, Serving s conn ∧ ConnectionOk sent conn s.main

theorem readline_closed (b : Buffer) :
    ReadlineProgram.readline ⟨[], .fail EBADF⟩ (some b) DATA_MAX_SIZE =
      some ⟨-1, some b, ⟨[], .fail EBADF⟩⟩ := by
  have hneg : ¬ DATA_MAX_SIZE < 0 := UInt64.not_lt_zero
  simp [ReadlineProgram.readline, hneg, readLoop, Locals.turn, Locals.enter, EINTR, EBADF]

theorem readline_open (sent : List UInt8) (b : Buffer) :
    ReadlineProgram.readline (Connection.ofClient sent).input (some b) DATA_MAX_SIZE =
      some (lineCall b DATA_MAX_SIZE (sent.map .data)) :=
  readline_eq_lineCall (interrupted_map_data sent) (by decide) b

theorem main_inv {sent : List UInt8} {rest : List (List UInt8)} (hi : Inv sent rest s)
    (h : main s = some s') : Inv sent rest s' := by
  obtain ⟨hw, conn, hs, hok⟩ := hi
  cases hpc : s.main with
  | accept => simp [ConnectionOk, hpc] at hok
  | returned ret => simp [main, hpc] at h
  | readline =>
    simp only [ConnectionOk, hpc] at hok
    rcases hok with rfl | ⟨hne, hclosed, hreply⟩
    · have hopen : (Connection.ofClient sent).opened = true := rfl
      simp only [main, hpc, hs.descriptor, hopen, if_true, readline_open,
        Option.some.injEq] at h
      subst h
      refine ⟨hw, _, ⟨hs.onFd _, hs.acceptFd⟩, ?_⟩
      have hle := reqLen_le_zero_iff s.reqData sent
      by_cases hsent : sent = []
      · simp only [hle.mpr hsent, if_true]
        exact .inl ⟨hsent, rfl, rfl⟩
      · simp only [mt hle.mp hsent, if_false]
        exact ⟨hsent, rfl, rfl⟩
    · have hneg : Int32.ofInt (-1) ≤ 0 := by decide
      simp only [main, hpc, hs.descriptor, hclosed, Bool.false_eq_true, if_false,
        readline_closed, hneg, if_true, Option.some.injEq] at h
      subst h
      exact ⟨hw, _, ⟨hs.onFd _, hs.acceptFd⟩, .inr ⟨hne, hclosed, hreply⟩⟩
  | closeEarly =>
    simp only [main, hpc, Option.some.injEq] at h
    simp only [ConnectionOk, hpc] at hok
    subst h
    refine ⟨hw, _, ⟨hs.onFd _, hs.acceptFd⟩, rfl, ?_⟩
    rcases hok with ⟨hsent, -, hreply⟩ | ⟨hsent, -, hreply⟩ <;> simp [answer, hsent, hreply]
  | write =>
    simp only [ConnectionOk, hpc] at hok
    simp only [main, hpc, hs.fdOpen, hok, if_true, Option.some.injEq] at h
    subst h
    exact ⟨hw, _, ⟨hs.onFd _, hs.acceptFd⟩, hok.1, hok.2.1, by simp [hok]⟩
  | seqNum =>
    simp only [main, hpc, Option.some.injEq] at h
    simp only [ConnectionOk, hpc] at hok
    subst h
    exact ⟨hw, conn, ⟨hs.conns, hs.acceptFd⟩, hok⟩
  | close =>
    simp only [ConnectionOk, hpc] at hok
    simp only [main, hpc, hs.fdOpen, hok, if_true, Option.some.injEq] at h
    subst h
    exact ⟨hw, _, ⟨hs.onFd _, hs.acceptFd⟩, .inr ⟨hok.1, rfl, hok.2.2⟩⟩

theorem accept_inv {sent : List UInt8} {rest : List (List UInt8)}
    (h : main (start (sent :: rest) seqNum reqData) = some s') : Inv sent rest s' := by
  simp only [main, start, Option.some.injEq] at h
  subst h
  exact ⟨rfl, .ofClient sent, ⟨rfl, rfl⟩, .inl rfl⟩

/-- The runs: `main` waits in `accept`, or serves its first client only. -/
theorem inv_of_reachable (h : (program clients seqNum reqData).Reachable s) :
    s = start clients seqNum reqData ∨
      ∃ sent rest, clients = sent :: rest ∧ Inv sent rest s := by
  induction h with
  | init hi => exact .inl hi
  | step _ hs ih =>
    rcases ih with rfl | ⟨sent, rest, rfl, hi⟩
    · cases clients with
      | nil => simp [program, main, start] at hs
      | cons sent rest => exact .inr ⟨sent, rest, rfl, accept_inv hs⟩
    · exact .inr ⟨sent, rest, rfl, main_inv hi hs⟩

/-! ## Which clients are served -/

/-- After a request that was answered the loop reads the descriptor it has closed. -/
theorem reads_closed {sent : List UInt8} (hsent : sent ≠ []) (rest : List (List UInt8)) :
    ∃ s, (program (sent :: rest) seqNum reqData).Reachable s ∧ s.main = .readline ∧
      s.fdOpen = false := by
  have hle := mt (reqLen_le_zero_iff reqData sent).mp hsent
  have hr : (program (sent :: rest) seqNum reqData).Reachable
      (start (sent :: rest) seqNum reqData) := .init rfl
  obtain ⟨s₁, h₁, hs₁, hb₁, hpc₁⟩ : ∃ s', main (start (sent :: rest) seqNum reqData) = some s' ∧
      Serving s' (.ofClient sent) ∧ s'.reqData = reqData ∧ s'.main = .readline :=
    ⟨_, rfl, ⟨rfl, rfl⟩, rfl, rfl⟩
  have hr₁ := hr.step (a := ()) h₁
  obtain ⟨s₂, h₂, hpc₂⟩ : ∃ s', main s₁ = some s' ∧ s'.main = .write := by
    have hopen : (Connection.ofClient sent).opened = true := rfl
    simp only [main, hpc₁, hs₁.descriptor, hopen, if_true, readline_open, hb₁, hle, if_false]
    exact ⟨_, rfl, rfl⟩
  have hr₂ := hr₁.step (a := ()) h₂
  obtain ⟨s₃, h₃, hpc₃⟩ : ∃ s', main s₂ = some s' ∧ s'.main = .seqNum := by
    simp only [main, hpc₂]
    exact ⟨_, rfl, rfl⟩
  have hr₃ := hr₂.step (a := ()) h₃
  obtain ⟨s₄, h₄, hpc₄⟩ : ∃ s', main s₃ = some s' ∧ s'.main = .close := by
    simp only [main, hpc₃]
    exact ⟨_, rfl, rfl⟩
  have hi₄ := main_inv (main_inv (main_inv (accept_inv h₁) h₂) h₃) h₄
  obtain ⟨conn, hs₄, hok⟩ := hi₄.serving
  simp only [ConnectionOk, hpc₄] at hok
  obtain ⟨s₅, h₅, hpc₅, hclosed⟩ : ∃ s', main s₄ = some s' ∧ s'.main = .readline ∧
      s'.fdOpen = false := by
    simp only [main, hpc₄, hs₄.fdOpen, hok.2.1, if_true]
    refine ⟨_, rfl, rfl, ?_⟩
    exact Serving.fdOpen ⟨hs₄.onFd _, hs₄.acceptFd⟩
  exact ⟨s₅, (hr₃.step (a := ()) h₄).step (a := ()) h₅, hpc₅, hclosed⟩

theorem serves_none : ServesEvery [] seqNum reqData := by
  have hstart : ∀ s, (program [] seqNum reqData).Reachable s → s = start [] seqNum reqData := by
    intro s hr
    rcases inv_of_reachable hr with rfl | ⟨sent, rest, heq, -⟩
    · rfl
    · cases heq
  constructor
  · exact ⟨_, .init rfl, rfl, rfl⟩
  · intro s hr i sent reply hs
    simp at hs
  · intro s hr hu
    obtain rfl := hstart s hr
    cases hu

/-- The early return after `Readline` is right for the only client when it sends nothing. -/
theorem serves_silent : ServesEvery [[]] seqNum reqData := by
  constructor
  · exact ⟨_, (System.Reachable.init rfl).step (a := ()) rfl, rfl, rfl⟩
  · intro s hr i sent reply hs hreply
    rcases inv_of_reachable hr with rfl | ⟨sent', rest, heq, hi⟩
    · simp [start, State.replies] at hreply
    · obtain ⟨rfl, rfl⟩ := List.cons.inj heq
      obtain ⟨conn, hsv, hok⟩ := hi.serving
      cases i with
      | zero =>
        simp only [State.replies, hsv.conns, List.map_cons, List.getElem?_cons_zero,
          Option.some.injEq] at hs hreply
        exact hs ▸ hreply ▸ hok.reply
      | succ i => simp at hs
  · intro s hr hu
    rcases inv_of_reachable hr with rfl | ⟨sent', rest, heq, hi⟩
    · cases hu
    · obtain ⟨rfl, rfl⟩ := List.cons.inj heq
      obtain ⟨conn, hsv, hok⟩ := hi.serving
      exact hsv.fdOpen.trans (hok.opened_of_silent hu)

theorem serves_every_iff (clients : List (List UInt8)) (seqNum : UInt32) (reqData : Buffer) :
    ServesEvery clients seqNum reqData ↔ clients = [] ∨ clients = [[]] := by
  constructor
  · intro h
    cases clients with
    | nil => exact .inl rfl
    | cons sent rest =>
      right
      obtain ⟨s, hr, hw, -⟩ := h.served
      have hrest : rest = [] := by
        rcases inv_of_reachable hr with rfl | ⟨sent', rest', heq, hi⟩
        · simp [start] at hw
        · obtain ⟨rfl, rfl⟩ := List.cons.inj heq
          exact hi.waiting.symm.trans hw
      have hsent : sent = [] := by
        by_contra hne
        obtain ⟨s, hr, hpc, hclosed⟩ := reads_closed hne rest
        have hopen := h.descriptors s hr (by simp [hpc, MainPc.usesFd])
        simp [hclosed] at hopen
      rw [hsent, hrest]
  · rintro (rfl | rfl)
    · exact serves_none
    · exact serves_silent

/-- The second of two clients that send a line is never accepted, and the descriptor of
the first is read again after its close. -/
theorem not_serves_two :
    ¬ ServesEvery [[104, 105, 10], [104, 105, 10]] 0 ⟨fun _ => 0, []⟩ := by
  intro h
  have hr := (program [[104, 105, 10], [104, 105, 10]] 0 ⟨fun _ => 0, []⟩).reachable_after rfl
    (List.replicate 5 ()) (by decide)
  exact absurd (h.descriptors _ hr (by decide)) (by decide)

end LinuxTemplates.InternetSocketServer
