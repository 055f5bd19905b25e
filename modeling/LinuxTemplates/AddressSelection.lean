import LinuxTemplates.ListLoops
import Mathlib.Data.Int.Notation

/-!
# The address loops of `internet_socket_server.cpp` and `internet_socket_client.cpp`

`getaddrinfo` returns a list of addresses. The server takes the first one that it can bind
a socket to, the client the first one that it can connect to. Every call may fail: a
candidate says which of the calls on it succeed. A socket is named by the position of the
address that it was made for.
-/

namespace LinuxTemplates.AddressSelection
open ListLoops

universe u

/-- The sockets that the program has open, how often it has freed the list, and its output. -/
structure Process where
  sockets : List ℕ
  frees : ℕ
  printed : List String
  deriving DecidableEq, Repr

namespace Process

def start : Process := ⟨[], 0, []⟩

def socket (p : Process) (i : ℕ) : Process := { p with sockets := i :: p.sockets }

def close (p : Process) (i : ℕ) : Process := { p with sockets := p.sockets.erase i }

def freeaddrinfo (p : Process) : Process := { p with frees := p.frees + 1 }

def print (p : Process) (line : String) : Process := { p with printed := p.printed ++ [line] }

end Process

/-! ## Server -/

structure BindCandidate where
  socket : Bool
  setsockopt : Bool
  bind : Bool
  deriving DecidableEq, Repr

/-- One turn of the loop over the addresses. -/
def bindBody (i : ℕ) (rp : BindCandidate) (p : Process) : Flow × Process :=
  if rp.socket = false then (.next, p.print "[D]: socket() err")
  else if rp.setsockopt = false then
    (.quit, ((p.socket i).print "[E]: setsockopt() err").freeaddrinfo)
  else if rp.bind = true then (.stop, p.socket i)
  else (.next, (p.socket i).close i)

/-- The statements behind the loop. The service loop is entered with the returned socket;
`none` stands for `return -1`. -/
def afterBindLoop (listen : Bool) : LoopEnd × Process → Option ℕ × Process
  | (.quit _, p) => (none, p)
  | (.exhausted, p) => (none, (p.print "[E]: Could not bind socket to any address").freeaddrinfo)
  | (.stopped i, p) =>
    if listen = false then (none, p.print "[E]: listen() err") else (some i, p.freeaddrinfo)

/-- From `getaddrinfo` to the service loop. An empty list is NULL. -/
def serverSetup (result : Option (List BindCandidate)) (listen : Bool) : Option ℕ × Process :=
  match result with
  | none => (none, Process.start.print "[E]: getaddrinfo() err")
  | some [] => (none, Process.start.print "[E]: No valid address")
  | some rps => afterBindLoop listen
      (forEach bindBody 0 rps (Process.start.print "[D]: Server running..."))

/-! ## Client -/

structure ConnectCandidate where
  socket : Bool
  connect : Bool
  deriving DecidableEq, Repr

def connectBody (i : ℕ) (rp : ConnectCandidate) (p : Process) : Flow × Process :=
  if rp.socket = false then (.next, p)
  else if rp.connect = true then (.stop, (p.socket i).print "ip=%s")
  else (.next, (p.socket i).close i)

/-- The calls on the connected socket: the two writes and the result of `Readline`. -/
structure Exchange where
  data : Bool
  newline : Bool
  numRead : ℤ

structure ClientExit where
  connected : Option ℕ
  ret : ℤ
  process : Process

def exchange (x : Exchange) (i : ℕ) (p : Process) : ClientExit :=
  if x.data = false then ⟨some i, -1, p.print "[E]: Write data err"⟩
  else if x.newline = false then ⟨some i, -1, p.print "[E]: Write '\\n' err"⟩
  else if x.numRead = -1 then ⟨some i, -1, p.print "[E]: Readline() err"⟩
  else if x.numRead = 0 then ⟨some i, -1, p.print "[E]: Unexpected EOF"⟩
  else ⟨some i, 0, p.print "[D]: Receive data: %s"⟩

def afterConnectLoop (x : Exchange) : LoopEnd × Process → ClientExit
  | (.stopped i, p) => exchange x i p
  | (_, p) => ⟨none, -1, (p.print "[E]: Could not connect socket to any address.").freeaddrinfo⟩

def clientMain (result : Option (List ConnectCandidate)) (x : Exchange) : ClientExit :=
  match result with
  | none => ⟨none, -1, Process.start.print "[E]: getaddrinfo() err"⟩
  | some [] => ⟨none, -1, (Process.start.print "localhost:%s").print "[E]: No valid address"⟩
  | some rps => afterConnectLoop x (forEach connectBody 0 rps
      ((Process.start.print "localhost:%s").print "Clinet running..."))

/-! ## First success without a leak -/

/-- Exactly the socket of the first good address is open after a success and none after a
failure, and a list that was obtained is freed once. -/
structure Clean {C : Type u} (good : C → Bool) (addresses : List C) (selected : Option ℕ)
    (p : Process) : Prop where
  success : ∀ i, selected = some i → p.sockets = [i] ∧ addresses.findIdx? good = some i
  failure : selected = none → p.sockets = []
  freed : addresses ≠ [] → p.frees = 1

def BindCandidate.good (rp : BindCandidate) : Bool := rp.socket && rp.setsockopt && rp.bind

def ConnectCandidate.good (rp : ConnectCandidate) : Bool := rp.socket && rp.connect

def BindCandidate.flow (rp : BindCandidate) : Flow :=
  if rp.socket = false then .next
  else if rp.setsockopt = false then .quit
  else if rp.bind = true then .stop
  else .next

def ConnectCandidate.flow (rp : ConnectCandidate) : Flow := if rp.good = true then .stop else .next

/-- Before the first good address no socket that was made lacks its option. -/
def OptionsSet (addresses : List BindCandidate) : Prop :=
  ∀ rp ∈ addresses.takeWhile (fun rp => !rp.good), rp.socket = true → rp.setsockopt = true

/-- Nothing is open and the list is not freed. -/
def Process.Untouched (p : Process) : Prop := p.sockets = [] ∧ p.frees = 0

theorem bindBody_flow (i : ℕ) (rp : BindCandidate) (p : Process) :
    (bindBody i rp p).1 = rp.flow := by
  unfold bindBody BindCandidate.flow
  split_ifs <;> rfl

theorem connectBody_flow (i : ℕ) (rp : ConnectCandidate) (p : Process) :
    (connectBody i rp p).1 = rp.flow := by
  unfold connectBody ConnectCandidate.flow ConnectCandidate.good
  cases rp.socket <;> cases rp.connect <;> rfl

/-- A turn that goes on to the next address has closed its socket. -/
theorem bindBody_next (i : ℕ) (rp : BindCandidate) (p : Process) (h : rp.flow = .next)
    (hp : p.Untouched) : (bindBody i rp p).2.Untouched := by
  unfold BindCandidate.flow at h
  unfold bindBody
  split_ifs at h ⊢
  · exact hp
  · refine ⟨?_, hp.2⟩
    simp [Process.socket, Process.close, hp.1]

theorem connectBody_next (i : ℕ) (rp : ConnectCandidate) (p : Process) (h : rp.flow = .next)
    (hp : p.Untouched) : (connectBody i rp p).2.Untouched := by
  unfold ConnectCandidate.flow ConnectCandidate.good at h
  unfold connectBody
  split_ifs with hsocket hconnect
  · exact hp
  · rw [if_pos (by simp [hsocket, hconnect])] at h
    cases h
  · refine ⟨?_, hp.2⟩
    simp [Process.socket, Process.close, hp.1]

theorem BindCandidate.flow_next {rp : BindCandidate} (h : rp.flow = .next) :
    rp.good = false ∧ (rp.socket = true → rp.setsockopt = true) := by
  revert h
  cases rp with
  | mk socket setsockopt bind => cases socket <;> cases setsockopt <;> cases bind <;> decide

theorem BindCandidate.flow_stop {rp : BindCandidate} (h : rp.flow = .stop) : rp.good = true := by
  revert h
  cases rp with
  | mk socket setsockopt bind => cases socket <;> cases setsockopt <;> cases bind <;> decide

theorem BindCandidate.flow_quit {rp : BindCandidate} (h : rp.flow = .quit) :
    rp.socket = true ∧ rp.setsockopt = false := by
  revert h
  cases rp with
  | mk socket setsockopt bind => cases socket <;> cases setsockopt <;> cases bind <;> decide

/-- A turn that does not go on leaves its socket open. -/
theorem bindBody_leave {i : ℕ} {rp : BindCandidate} {p : Process} (h : rp.flow ≠ .next)
    (hp : p.Untouched) :
    (bindBody i rp p).2.sockets = [i] ∧ (rp.flow = .stop → (bindBody i rp p).2.frees = 0) := by
  obtain ⟨hsockets, hfrees⟩ := hp
  unfold BindCandidate.flow at h ⊢
  unfold bindBody
  split_ifs at h ⊢
  · exact absurd rfl h
  · simp [Process.socket, Process.print, Process.freeaddrinfo, hsockets]
  · simp [Process.socket, hsockets, hfrees]
  · exact absurd rfl h

section Server
variable {before after : List BindCandidate} {rp : BindCandidate}

/-- The addresses before the first one that ends the loop have failed. -/
theorem takeWhile_split (hbefore : ∀ x ∈ before, x.flow = .next) :
    (before ++ rp :: after).takeWhile (fun x => !x.good) =
      before ++ (rp :: after).takeWhile (fun x => !x.good) := by
  apply List.takeWhile_append_of_pos
  intro x hx
  simp [(BindCandidate.flow_next (hbefore x hx)).1]

theorem optionsSet_of_stop (hbefore : ∀ x ∈ before, x.flow = .next) (h : rp.flow = .stop) :
    OptionsSet (before ++ rp :: after) := by
  intro x hx
  rw [takeWhile_split hbefore, List.takeWhile_cons, BindCandidate.flow_stop h] at hx
  simp only [Bool.not_true, Bool.false_eq_true, if_false, List.append_nil] at hx
  exact (BindCandidate.flow_next (hbefore x hx)).2

theorem not_optionsSet_of_quit (hbefore : ∀ x ∈ before, x.flow = .next) (h : rp.flow = .quit) :
    ¬ OptionsSet (before ++ rp :: after) := by
  obtain ⟨hsocket, hopt⟩ := BindCandidate.flow_quit h
  intro hset
  have hmem : rp ∈ (before ++ rp :: after).takeWhile (fun x => !x.good) := by
    rw [takeWhile_split hbefore, List.takeWhile_cons]
    simp [BindCandidate.good, hopt]
  exact absurd ((hset rp hmem hsocket).symm.trans hopt) (by decide)

end Server

/-- What is left when no address was good. -/
theorem clean_exhausted {C : Type u} (good : C → Bool) (addresses : List C) (line : String)
    {p : Process} (hp : p.Untouched) :
    Clean good addresses none (p.print line).freeaddrinfo := by
  obtain ⟨hsockets, hfrees⟩ := hp
  refine ⟨fun i hi => ?_, fun _ => hsockets, fun _ => ?_⟩
  · cases hi
  · simp [Process.freeaddrinfo, Process.print, hfrees]

theorem clean_nil {C : Type u} (good : C → Bool) {p : Process} (hp : p.Untouched) :
    Clean good [] none p := by
  refine ⟨fun i hi => ?_, fun _ => hp.1, fun hne => absurd rfl hne⟩
  cases hi

theorem not_clean_open {C : Type u} {good : C → Bool} {addresses : List C} {i : ℕ} {p : Process}
    (hp : p.sockets = [i]) : ¬ Clean good addresses none p := by
  intro hclean
  have hnil := hclean.failure rfl
  rw [hp] at hnil
  cases hnil

/-- The loop of the server and the statements behind it. -/
theorem afterBindLoop_clean_iff {rps : List BindCandidate} (hne : rps ≠ []) (listen : Bool)
    {p : Process} (hp : p.Untouched) :
    Clean BindCandidate.good rps (afterBindLoop listen (forEach bindBody 0 rps p)).1
      (afterBindLoop listen (forEach bindBody 0 rps p)).2 ↔
    OptionsSet rps ∧ ((∃ rp ∈ rps, rp.good = true) → listen = true) := by
  rcases forEach_cases bindBody_flow bindBody_next 0 rps hp with
    ⟨hall, hend, hleft⟩ | ⟨before, rp, after, t, rfl, hbefore, hflow, ht, hrun⟩
  · have hnone : ¬ ∃ rp ∈ rps, rp.good = true := by
      rintro ⟨rp, hrp, hgood⟩
      rw [(BindCandidate.flow_next (hall rp hrp)).1] at hgood
      cases hgood
    have hset : OptionsSet rps := fun rp hrp =>
      (BindCandidate.flow_next (hall rp ((List.takeWhile_sublist _).mem hrp))).2
    have hrun : forEach bindBody 0 rps p = (.exhausted, (forEach bindBody 0 rps p).2) :=
      Prod.ext hend rfl
    rw [hrun]
    exact iff_of_true (clean_exhausted _ _ _ hleft) ⟨hset, fun hsome => absurd hsome hnone⟩
  · obtain ⟨hsockets, hfrees⟩ := bindBody_leave (i := 0 + before.length) hflow ht
    rw [hrun]
    cases hkind : rp.flow with
    | next => exact absurd hkind hflow
    | stop =>
      have hgood := BindCandidate.flow_stop hkind
      have hset : OptionsSet (before ++ rp :: after) := optionsSet_of_stop hbefore hkind
      have hsome : ∃ x ∈ before ++ rp :: after, x.good = true :=
        ⟨rp, List.mem_append_right _ List.mem_cons_self, hgood⟩
      have hfirst := findIdx?_append_cons
        (fun x hx => (BindCandidate.flow_next (hbefore x hx)).1) hgood after
      cases listen with
      | false => exact iff_of_false (not_clean_open hsockets) (fun h => absurd (h.2 hsome) (by decide))
      | true =>
        refine iff_of_true ⟨fun i hi => ?_, fun hi => ?_, fun _ => ?_⟩ ⟨hset, fun _ => rfl⟩
        · obtain rfl := Option.some.inj hi
          exact ⟨hsockets, by rw [hfirst, Nat.zero_add]⟩
        · cases hi
        · exact congrArg (· + 1) (hfrees hkind)
    | quit =>
      exact iff_of_false (not_clean_open hsockets)
        (fun h => not_optionsSet_of_quit hbefore hkind h.1)

theorem untouched_start : Process.start.Untouched := ⟨rfl, rfl⟩

theorem untouched_print {p : Process} (hp : p.Untouched) (line : String) :
    (p.print line).Untouched := hp

theorem serverSetup_clean_iff (result : Option (List BindCandidate)) (listen : Bool) :
    Clean BindCandidate.good (result.getD []) (serverSetup result listen).1
      (serverSetup result listen).2 ↔
    OptionsSet (result.getD []) ∧
      ((∃ rp ∈ result.getD [], rp.good = true) → listen = true) := by
  have hempty : OptionsSet [] ∧
      ((∃ rp ∈ ([] : List BindCandidate), rp.good = true) → listen = true) := by
    refine ⟨fun rp hrp => absurd hrp List.not_mem_nil, ?_⟩
    rintro ⟨rp, hrp, -⟩
    cases hrp
  match result with
  | none => exact iff_of_true (clean_nil _ (untouched_print untouched_start _)) hempty
  | some [] => exact iff_of_true (clean_nil _ (untouched_print untouched_start _)) hempty
  | some (rp :: rps) =>
    exact afterBindLoop_clean_iff (List.cons_ne_nil rp rps) listen
      (untouched_print untouched_start _)

theorem ConnectCandidate.flow_next {rp : ConnectCandidate} (h : rp.flow = .next) :
    rp.good = false := by
  unfold ConnectCandidate.flow at h
  split at h
  · cases h
  · rename_i hgood
    exact eq_false_of_ne_true hgood

/-- A turn that does not go on has connected, and nothing is freed. -/
theorem connectBody_leave {i : ℕ} {rp : ConnectCandidate} {p : Process} (h : rp.flow ≠ .next)
    (hp : p.Untouched) : rp.flow = .stop ∧ rp.good = true ∧ (connectBody i rp p).2.frees = 0 := by
  unfold ConnectCandidate.flow at h ⊢
  split_ifs at h ⊢ with hgood
  · obtain ⟨hsocket, hconnect⟩ : rp.socket = true ∧ rp.connect = true := by
      simpa [ConnectCandidate.good] using hgood
    refine ⟨rfl, hgood, ?_⟩
    simp [connectBody, hsocket, hconnect, Process.socket, Process.print, hp.2]
  · exact absurd rfl h

theorem exchange_frees (x : Exchange) (i : ℕ) (p : Process) :
    (exchange x i p).process.frees = p.frees := by
  unfold exchange
  split_ifs <;> rfl

/-- After a connection nothing frees the list any more. -/
theorem afterConnectLoop_clean_iff {rps : List ConnectCandidate} (hne : rps ≠ []) (x : Exchange)
    {p : Process} (hp : p.Untouched) :
    Clean ConnectCandidate.good rps (afterConnectLoop x (forEach connectBody 0 rps p)).connected
      (afterConnectLoop x (forEach connectBody 0 rps p)).process ↔
    ∀ rp ∈ rps, rp.good = false := by
  rcases forEach_cases connectBody_flow connectBody_next 0 rps hp with
    ⟨hall, hend, hleft⟩ | ⟨before, rp, after, t, rfl, hbefore, hflow, ht, hrun⟩
  · have hrun : forEach connectBody 0 rps p = (.exhausted, (forEach connectBody 0 rps p).2) :=
      Prod.ext hend rfl
    rw [hrun]
    exact iff_of_true (clean_exhausted _ _ _ hleft)
      (fun rp hrp => ConnectCandidate.flow_next (hall rp hrp))
  · obtain ⟨hstop, hgood, hfrees⟩ := connectBody_leave (i := 0 + before.length) hflow ht
    rw [hrun, hstop]
    refine iff_of_false (fun hclean => ?_) (fun hall => ?_)
    · have hfreed := hclean.freed hne
      rw [Flow.atPosition, afterConnectLoop, exchange_frees, hfrees] at hfreed
      cases hfreed
    · rw [hall rp (List.mem_append_right _ List.mem_cons_self)] at hgood
      cases hgood

theorem clientMain_clean_iff (result : Option (List ConnectCandidate)) (x : Exchange) :
    Clean ConnectCandidate.good (result.getD []) (clientMain result x).connected
      (clientMain result x).process ↔ ∀ rp ∈ result.getD [], rp.good = false := by
  match result with
  | none =>
    exact iff_of_true (clean_nil _ (untouched_print untouched_start _))
      (fun rp hrp => absurd hrp List.not_mem_nil)
  | some [] =>
    exact iff_of_true (clean_nil _ (untouched_print (untouched_print untouched_start _) _))
      (fun rp hrp => absurd hrp List.not_mem_nil)
  | some (rp :: rps) =>
    exact afterConnectLoop_clean_iff (List.cons_ne_nil rp rps) x
      (untouched_print (untouched_print untouched_start _) _)

/-- The server leaks when an option cannot be set or `listen` fails, the client whenever it
connects. -/
theorem selection_clean_iff (bindable : Option (List BindCandidate)) (listen : Bool)
    (reachable : Option (List ConnectCandidate)) (x : Exchange) :
    (Clean BindCandidate.good (bindable.getD []) (serverSetup bindable listen).1
        (serverSetup bindable listen).2 ↔
      OptionsSet (bindable.getD []) ∧
        ((∃ rp ∈ bindable.getD [], rp.good = true) → listen = true)) ∧
    (Clean ConnectCandidate.good (reachable.getD []) (clientMain reachable x).connected
        (clientMain reachable x).process ↔ ∀ rp ∈ reachable.getD [], rp.good = false) :=
  ⟨serverSetup_clean_iff bindable listen, clientMain_clean_iff reachable x⟩

/-- `setsockopt` fails on the only address of the server, and `listen` on a bound one; the
client exchanges its data. -/
theorem not_selection_clean :
    (serverSetup (some [⟨true, false, true⟩]) true).1 = none ∧
      (serverSetup (some [⟨true, false, true⟩]) true).2.sockets = [0] ∧
      (serverSetup (some [⟨true, true, true⟩]) false).2.sockets = [0] ∧
      (serverSetup (some [⟨true, true, true⟩]) false).2.frees = 0 ∧
      (clientMain (some [⟨true, true⟩]) ⟨true, true, 2⟩).ret = 0 ∧
      (clientMain (some [⟨true, true⟩]) ⟨true, true, 2⟩).process.frees = 0 ∧
      ¬ Clean BindCandidate.good [⟨true, false, true⟩] none
        (serverSetup (some [⟨true, false, true⟩]) true).2 ∧
      ¬ Clean ConnectCandidate.good [⟨true, true⟩] (some 0)
        (clientMain (some [⟨true, true⟩]) ⟨true, true, 2⟩).process := by
  refine ⟨by decide, by decide, by decide, by decide, by decide, by decide, ?_, ?_⟩
  · exact not_clean_open (i := 0) (by decide)
  · intro hclean
    exact absurd (hclean.freed (List.cons_ne_nil _ _)) (by decide)

end LinuxTemplates.AddressSelection
