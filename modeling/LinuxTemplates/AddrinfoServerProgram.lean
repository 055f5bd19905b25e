import LinuxTemplates.InternetSocketServer

/-!
# The second `main` of `internet_socket_server.cpp`

This variant takes its address from `getaddrinfo`, ignores SIGPIPE and accepts a new
connection in every turn of its loop. Every call may fail: the actions say how each
call of the run comes out. A connection remembers each use of its descriptor.
-/

namespace LinuxTemplates.AddrinfoServer
open TransitionSystems ReadlineProgram
open InternetSocketServer (DATA_MAX_SIZE EBADF ok)

/-- An accepted descriptor: all of its input and what is left of that, the results of `Readline`
on it, how often it was given to `write` and to `close`, and the bytes written. -/
structure Connection where
  stream : Descriptor
  input : Descriptor
  readlines : List Int32
  acks : ℕ
  reply : List UInt8
  closes : ℕ

def Connection.accepted (input : Descriptor) : Connection := ⟨input, input, [], 0, [], 0⟩

inductive MainPc
  | signal | setup | accept | readline | closeEarly | write | seqNum | close | returned (ret : ℤ)
  | killed
  deriving DecidableEq, Repr

structure State where
  sigpipeIgnored : Bool
  conns : List Connection
  acceptFd : ℕ
  reqData : Buffer
  reqLen : Int32
  seqNum : UInt32
  printed : List UInt32
  main : MainPc

/-- No `close` has been called on `accept_fd`. -/
def State.fdOpen (s : State) : Bool := (s.conns[s.acceptFd]?).any (·.closes = 0)

def State.descriptor (s : State) : Descriptor :=
  match s.conns[s.acceptFd]? with
  | some c => if c.closes = 0 then c.input else ⟨[], .fail EBADF⟩
  | none => ⟨[], .fail EBADF⟩

def State.onFd (s : State) (f : Connection → Connection) : State :=
  { s with conns := s.conns.modify s.acceptFd f }

/-- Statements whose outcome the state decides. The result of the early `close` is not
looked at. -/
def main (s : State) : Option State :=
  match s.main with
  | .readline => match ReadlineProgram.readline s.descriptor (some s.reqData) DATA_MAX_SIZE with
    | none => none
    | some c =>
      let reqLen := Int32.ofInt c.ret
      some { s.onFd (fun conn =>
          { conn with input := c.fd, readlines := conn.readlines ++ [reqLen] }) with
        reqData := c.buffer.getD s.reqData
        reqLen := reqLen
        main := if reqLen ≤ 0 then .closeEarly else .write }
  | .closeEarly => some { s.onFd (fun conn => { conn with closes := conn.closes + 1 }) with
      main := .accept }
  | .seqNum => some { s with seqNum := s.seqNum + s.reqLen.toUInt32,
                             printed := s.printed ++ [s.seqNum + s.reqLen.toUInt32],
                             main := .close }
  | _ => none

def signal (s : State) (success : Bool) : Option State :=
  if s.main = .signal then
    some { s with sigpipeIgnored := s.sigpipeIgnored || success,
                  main := if success then .setup else .returned (-1) }
  else none

/-- Everything from `getaddrinfo` to `listen`. -/
def setup (s : State) (success : Bool) : Option State :=
  if s.main = .setup then some { s with main := if success then .accept else .returned (-1) }
  else none

def accept (s : State) (input : Descriptor) : Option State :=
  if s.main = .accept then
    some { s with conns := s.conns ++ [.accepted input], acceptFd := s.conns.length,
                  main := .readline }
  else none

def acceptFails (s : State) : Option State :=
  if s.main = .accept then some { s with main := .returned (-1) } else none

/-- `write` returns the number of bytes written or -1; a short count is only reported. -/
def write (s : State) (ret : ℤ) : Option State :=
  if s.main = .write ∧ -1 ≤ ret ∧ ret ≤ ok.length ∧ (s.fdOpen = true ∨ ret = -1) then
    some { s.onFd (fun conn =>
        { conn with acks := conn.acks + 1, reply := conn.reply ++ ok.take ret.toNat }) with
      main := .seqNum }
  else none

/-- The peer has closed the connection: EPIPE, or death when SIGPIPE is not ignored. -/
def writePeerClosed (s : State) : Option State :=
  if s.main = .write ∧ s.fdOpen = true then
    some { s.onFd (fun conn => { conn with acks := conn.acks + 1 }) with
      main := if s.sigpipeIgnored then .seqNum else .killed }
  else none

/-- The `close` at the end of a request. -/
def close (s : State) (success : Bool) : Option State :=
  if s.main = .close ∧ (s.fdOpen = true ∨ success = false) then
    some { s.onFd (fun conn => { conn with closes := conn.closes + 1 }) with
      main := if success then .accept else .returned (-1) }
  else none

inductive Action
  | main | signal (success : Bool) | setup (success : Bool) | accept (input : Descriptor)
  | acceptFails | write (ret : ℤ) | writePeerClosed | close (success : Bool)

def step (s : State) : Action → Option State
  | .main => main s
  | .signal success => signal s success
  | .setup success => setup s success
  | .accept input => accept s input
  | .acceptFails => acceptFails s
  | .write ret => write s ret
  | .writePeerClosed => writePeerClosed s
  | .close success => close s success

/-- `seq_num` and `req_data` start with whatever the stack holds. -/
def start (seqNum : UInt32) (reqData : Buffer) : State :=
  ⟨false, [], 0, reqData, 0, seqNum, [], .signal⟩

def program (seqNum : UInt32) (reqData : Buffer) : System State Action where
  init s := s = start seqNum reqData
  step := step

/-! ## What holds in every run -/

/-- The program point gives `accept_fd` to a call. -/
def MainPc.usesFd : MainPc → Bool
  | .readline | .closeEarly | .write | .close => true
  | _ => false

/-- The service loop has been entered and not left. -/
def MainPc.inLoop : MainPc → Bool
  | .accept | .readline | .closeEarly | .write | .seqNum | .close => true
  | _ => false

/-- A connection that the loop is done with. -/
structure Done (c : Connection) : Prop where
  closes : c.closes = 1
  readlines : ∃ r, c.readlines = [r] ∧ c.acks = if 0 < r then 1 else 0

/-- The connection being served, at each program point of the loop. -/
def CurrentOk (reqLen : Int32) (c : Connection) : MainPc → Prop
  | .readline => c.readlines = [] ∧ c.acks = 0
  | .closeEarly => c.readlines = [reqLen] ∧ c.acks = 0 ∧ ¬ 0 < reqLen
  | .write => c.readlines = [reqLen] ∧ c.acks = 0 ∧ 0 < reqLen
  | .seqNum | .close => c.readlines = [reqLen] ∧ c.acks = 1 ∧ 0 < reqLen
  | _ => False

/-- What `Readline` returned was read from the input of the connection. -/
structure Reads (c : Connection) : Prop where
  fresh : c.readlines = [] → c.input = c.stream
  results : ∀ r ∈ c.readlines, ∃ buffer call, ReadlineProgram.readline c.stream (some buffer)
    DATA_MAX_SIZE = some call ∧ call.fd = c.input ∧ r = Int32.ofInt call.ret

/-- The last connection is being served and the loop is done with the others. -/
def Serving (s : State) : Prop :=
  s.sigpipeIgnored = true ∧ ∃ old c, s.conns = old ++ [c] ∧ s.acceptFd = old.length ∧
    (∀ d ∈ old, Done d) ∧ c.closes = 0 ∧ CurrentOk s.reqLen c s.main

def MainOk (s : State) : Prop :=
  match s.main with
  | .signal => s.conns = []
  | .setup => s.conns = [] ∧ s.sigpipeIgnored = true
  | .accept => (∀ c ∈ s.conns, Done c) ∧ s.sigpipeIgnored = true
  | .readline | .closeEarly | .write | .seqNum | .close => Serving s
  | .returned _ => ∀ c ∈ s.conns, Done c
  | .killed => False

end LinuxTemplates.AddrinfoServer
