import LinuxTemplates.SegmentedStreams
import LinuxTemplates.CStrings
import LinuxTemplates.InternetSocketServer

/-!
# The exchange of the compiled client with the compiled server

The client of `internet_socket_client.cpp` writes its payload and a newline and reads
the answer with `Readline`; one turn of the loop of the server reads the request,
answers "ok" and closes. Both read byte by byte from a stream whose items are what
`read` returns; a read may be interrupted at any time.
-/

namespace LinuxTemplates.ClientServerExchange
open TransitionSystems FifoChannels SegmentedStreams CStrings ReadlineProgram

/-- The size of `ack_data` in the client. -/
def DATA_MAX_SIZE : UInt64 := 30

inductive ClientPc
  | writeData | writeNewline | readline (l : Locals) | afterRead (r : Returned)
  | returned (ret : ℤ)

inductive ServerPc
  | readline (l : Locals) | afterRead (r : Returned) | closeEarly | write | close | nextTurn
  | returned (ret : ℤ)

/-- `reqData` and `ackData` are what the two calls of `Readline` returned. -/
structure State where
  data : List UInt8
  ackBuffer : Buffer
  toServer : Segmented ReadOutcome
  toClient : Segmented ReadOutcome
  client : ClientPc
  server : ServerPc
  reqData : Option Returned
  ackData : Option Returned

/-- The bytes of a complete write, as the reader meets them. -/
def items (bs : List UInt8) : List ReadOutcome := bs.map .data

/-- What `read` returns; an end of file stays where it is. -/
def readNext (t : Segmented ReadOutcome) : Option (ReadOutcome × Segmented ReadOutcome) :=
  match t.head with
  | none => none
  | some .eof => some (.eof, t)
  | some o => some (o, t.receive)

/-- The client's `Readline` goes on with what `read` has returned. -/
def State.clientTurn (s : State) (l : Locals) (o : ReadOutcome) : State :=
  match l.turn o with
  | .again l' => { s with client := .readline l' }
  | .done r => { s with client := .afterRead r, ackData := some r }

def State.serverTurn (s : State) (l : Locals) (o : ReadOutcome) : State :=
  match l.turn o with
  | .again l' => { s with server := .readline l' }
  | .done r => { s with server := .afterRead r, reqData := some r }

/-- One step of the client. -/
def client (s : State) : Option State :=
  match s.client with
  | .writeData => some { s with toServer := s.toServer.send (items (s.data.take (strlen s.data))),
                                client := .writeNewline }
  | .writeNewline => some { s with toServer := s.toServer.send (items [newline]),
                                   client := .readline (.enter DATA_MAX_SIZE s.ackBuffer) }
  | .readline l => match readNext s.toClient with
    | none => none
    | some (o, t) => some ({ s with toClient := t }.clientTurn l o)
  | .afterRead r =>
    let numRead := Int32.ofInt r.ret
    some { s with client := .returned (if numRead = -1 ∨ numRead = 0 then -1 else 0) }
  | .returned _ => none

/-- One step of the server, up to the end of one turn of its loop. -/
def server (s : State) : Option State :=
  match s.server with
  | .readline l => match readNext s.toServer with
    | none => none
    | some (o, t) => some ({ s with toServer := t }.serverTurn l o)
  | .afterRead r =>
    some { s with server := if Int32.ofInt r.ret ≤ 0 then .closeEarly else .write }
  | .closeEarly => some { s with toClient := s.toClient.send [.eof], server := .returned (-1) }
  | .write => some { s with toClient := s.toClient.send (items InternetSocketServer.ok),
                            server := .close }
  | .close => some { s with toClient := s.toClient.send [.eof], server := .nextTurn }
  | .nextTurn | .returned _ => none

/-- The client's read fails with EINTR. -/
def clientEintr (s : State) : Option State :=
  match s.client with
  | .readline l => some (s.clientTurn l (.fail EINTR))
  | _ => none

def serverEintr (s : State) : Option State :=
  match s.server with
  | .readline l => some (s.serverTurn l (.fail EINTR))
  | _ => none

inductive Action
  | client | server | clientEintr | serverEintr | toServer (k : ℕ) | toClient (k : ℕ)
  deriving DecidableEq, Repr

def Action.interrupts : Action → Bool
  | .clientEintr | .serverEintr => true
  | _ => false

def step (s : State) : Action → Option State
  | .client => client s
  | .server => server s
  | .clientEintr => clientEintr s
  | .serverEintr => serverEintr s
  | .toServer k => (s.toServer.deliver k).map fun t => { s with toServer := t }
  | .toClient k => (s.toClient.deliver k).map fun t => { s with toClient := t }

/-- The server has accepted the connection and entered `Readline`. -/
def start (data : List UInt8) (ackBuffer reqBuffer : Buffer) : State :=
  ⟨data, ackBuffer, .empty, .empty, .writeData,
    .readline (.enter InternetSocketServer.DATA_MAX_SIZE reqBuffer), none, none⟩

/-- All runs with a payload free of newline and NUL. -/
def program : System State Action where
  init s := ∃ data ackBuffer reqBuffer, newline ∉ data ∧ 0 ∉ data ∧
    s = start data ackBuffer reqBuffer
  step := step

end LinuxTemplates.ClientServerExchange
