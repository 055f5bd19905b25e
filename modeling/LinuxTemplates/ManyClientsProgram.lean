import LinuxTemplates.ClientServerExchange
import LinuxTemplates.TaskLedgers

/-!
# Several clients and the second server

The second `main` of `internet_socket_server.cpp` accepts one connection after the other. The
clients connect at any time; a connection waits in the backlog, and its client may write into it,
until the server comes to it.
-/

namespace LinuxTemplates.ManyClients
open TransitionSystems FifoChannels SegmentedStreams ReadlineProgram
open ClientServerExchange (ServerPc)

/-- A client, the part of the server's loop body for its connection, and the two streams. -/
abbrev Link := ClientServerExchange.State

def BACKLOG : ℕ := 50

inductive Phase | fresh | queued | accepted
  deriving DecidableEq, Repr

/-- Program points of the server; `serve` goes through the loop body up to the `close`, but for
the addition to `seq_num`. -/
inductive MainPc (N : ℕ) | accept | serve (i : Fin N) | seqNum (i : Fin N)
  deriving DecidableEq, Repr

/-- `order` and `served` log the clients as they connect and as the server closes. -/
structure State (N : ℕ) where
  main : MainPc N
  queue : List (Fin N)
  links : Fin N → Link
  phases : Fin N → Phase
  reqData : Buffer
  reqLen : Int32
  seqNum : UInt32
  printed : List UInt32
  order : List (Fin N)
  served : List (Fin N)

variable {N : ℕ}

def State.setLink (s : State N) (i : Fin N) (l : Link) : State N :=
  { s with links := Function.update s.links i l }

def State.setPhase (s : State N) (i : Fin N) (p : Phase) : State N :=
  { s with phases := Function.update s.phases i p }

/-- The kernel completes a connection while the backlog is not exceeded. -/
def connect (s : State N) (i : Fin N) : Option (State N) :=
  if s.phases i = .fresh ∧ s.queue.length ≤ BACKLOG then
    some { s.setPhase i .queued with queue := s.queue ++ [i], order := s.order ++ [i] }
  else none

/-- One step of client `i` behind its `connect`. -/
def client (s : State N) (i : Fin N) : Option (State N) :=
  if s.phases i = .fresh then none
  else (ClientServerExchange.client (s.links i)).map (s.setLink i)

/-- The loop is done with the connection of client `i`. -/
def State.finish (s : State N) (i : Fin N) (l : Link) : State N :=
  { s.setLink i l with main := .accept, served := s.served ++ [i] }

/-- One step of the server. -/
def server (s : State N) : Option (State N) :=
  match s.main with
  | .accept => match s.queue with
    | [] => none
    | i :: rest => some { (s.setPhase i .accepted).setLink i { s.links i with
        server := .readline (.enter InternetSocketServer.DATA_MAX_SIZE s.reqData) } with
      main := .serve i, queue := rest }
  | .serve i => match (s.links i).server with
    | .afterRead r => (ClientServerExchange.server (s.links i)).map fun l =>
        { s.setLink i l with reqData := r.buffer, reqLen := Int32.ofInt r.ret }
    -- `close(accept_fd); continue;`
    | .closeEarly => some (s.finish i { s.links i with
        toClient := (s.links i).toClient.send [.eof], server := .nextTurn })
    | .write => (ClientServerExchange.server (s.links i)).map fun l =>
        { s.setLink i l with main := .seqNum i }
    | .close => (ClientServerExchange.server (s.links i)).map (s.finish i)
    | _ => (ClientServerExchange.server (s.links i)).map (s.setLink i)
  | .seqNum i => some { s with main := .serve i, seqNum := s.seqNum + s.reqLen.toUInt32,
                               printed := s.printed ++ [s.seqNum + s.reqLen.toUInt32] }

/-- The server's read fails with EINTR. -/
def serverEintr (s : State N) : Option (State N) :=
  match s.main with
  | .serve i => (ClientServerExchange.serverEintr (s.links i)).map (s.setLink i)
  | _ => none

inductive Action (N : ℕ)
  | connect (i : Fin N) | client (i : Fin N) | server | clientEintr (i : Fin N) | serverEintr
  | toServer (i : Fin N) (k : ℕ) | toClient (i : Fin N) (k : ℕ)
  deriving DecidableEq, Repr

def Action.interrupts : Action N → Bool
  | .clientEintr _ | .serverEintr => true
  | _ => false

def step (s : State N) : Action N → Option (State N)
  | .connect i => connect s i
  | .client i => client s i
  | .server => server s
  | .clientEintr i => (ClientServerExchange.clientEintr (s.links i)).map (s.setLink i)
  | .serverEintr => serverEintr s
  | .toServer i k => (ClientServerExchange.step (s.links i) (.toServer k)).map (s.setLink i)
  | .toClient i k => (ClientServerExchange.step (s.links i) (.toClient k)).map (s.setLink i)

/-- What a run is given: the payloads, and what the stacks hold. -/
structure Env (N : ℕ) where
  data : Fin N → List UInt8
  ackBuffer : Fin N → Buffer
  reqData : Buffer
  seqNum : UInt32
  inner : ∀ i, newline ∉ data i
  nulFree : ∀ i, 0 ∉ data i

/-- The server listens, and nobody has connected. -/
def start (env : Env N) : State N :=
  ⟨.accept, [], fun i => ClientServerExchange.start (env.data i) (env.ackBuffer i) env.reqData,
    fun _ => .fresh, env.reqData, 0, env.seqNum, [], [], []⟩

def program (env : Env N) : System (State N) (Action N) where
  init s := s = start env
  step := step

end LinuxTemplates.ManyClients
