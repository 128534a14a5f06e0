import JsonRpcServer.Framework.System
import JsonRpcServer.ServersCore.Cleanup

/-! # Servers, Clients and Request Threads

  The `ServersWrapper` with everything that works on it.

  ## Threads

  1. **Main**: `addOneServer`, and the destructors of servers.
  2. **Servers loop**: polls the sockets of `servers_`, accepts clients and
     stores each in the array of its server.
  3. **Clients loop**, one for each server: polls the array, hands the
     clients that have sent something to request threads, and erases these
     and the ones that have hung up.
  4. **Request threads**: each puts its descriptor in a `socket_ptr`, which
     closes it when `processRequest` is left.

  The servers loop holds `servers_lock_` from `POLL` to the end of its
  cleanup, and `addOneServer` waits for it. A clients loop holds the
  `clients_lock_` of its server. No lock is common to both, so an
  `emplace_back` can fall anywhere into the turn of a clients loop: it has a
  beginning and an end, and the loop goes from entry to entry. A request
  thread runs from the moment it is created, which is one step before its
  entry is marked.

  The answers of `POLL` are arbitrary. `accept` never returns a descriptor
  that is open. Where both loops write the end of an array, or an array is
  reallocated while its clients loop has pointers into it, the program is
  undefined.
-/

namespace ServersCore

open System

/-! ### State -/

/-- `POLLIN`. -/
def POLLIN : Nat := 1

/-- `WebServer::MAX_CLIENTS`. -/
def MAX_CLIENTS : Nat := 5

/-- A server object. Its constructor ends the program if it gets no socket. -/
structure WebServer where
  server_socket_ : Int
  valid : server_socket_ ≠ INVALID_SOCKET
  deriving DecidableEq

/-- The bits of `revents` that the servers loop reads. -/
structure ServerRevents where
  pollin : Bool
  pollnval : Bool
  deriving DecidableEq, Repr

/-- The bits of `revents` that a clients loop reads. -/
structure ClientRevents where
  pollin : Bool
  pollhup : Bool
  deriving DecidableEq, Repr

/-- What `POLL` returns, with the `revents` it has written. -/
inductive Poll (R : Type) where
  | error
  | timeout
  | ready (revents : List R)
  deriving DecidableEq, Repr

/-- Where the servers loop stands. -/
inductive Acceptor where
  /-- Between two iterations; `servers_lock_` is free. -/
  | unlocked
  /-- In `POLL`. -/
  | locked
  /-- In front of the entry `i`. -/
  | scanning (i : Nat) (revents : List ServerRevents) (invalid_server : Bool)
  /-- In `emplace_back` on the array of the element `k`, for the entry `i`. -/
  | appending (k : Nat) (client_fd : AutoClosedSocketFd) (i : Nat) (revents : List ServerRevents)
      (invalid_server : Bool)
  deriving DecidableEq, Repr

/-- The array of the `emplace_back` that is under way. -/
def Acceptor.array? : Acceptor → Option Nat
  | .unlocked | .locked | .scanning _ _ _ => none
  | .appending k _ _ _ _ => some k

/-- Where a clients loop stands. -/
inductive Poller where
  /-- Between two turns. -/
  | unlocked
  /-- In front of `data()` and `size()`. -/
  | locked
  /-- In `POLL` on so many entries. -/
  | polling (size : Nat)
  /-- In front of the entry `i`; the range ends at `last`. -/
  | iterating (i last : Nat) (revents : List ClientRevents) (client_hang : Bool)
  /-- The thread `j` has been created for the entry `i`, which is marked next. -/
  | marking (j i last : Nat) (revents : List ClientRevents)
  /-- At the head of the cleanup loop. -/
  | erasing
  deriving DecidableEq, Repr

/-- Between the read of `data()` and `size()` and the end of the cleanup. -/
def Poller.usesArray : Poller → Bool
  | .unlocked | .locked => false
  | .polling _ | .iterating _ _ _ _ | .marking _ _ _ _ | .erasing => true

/-- An element of `clients_map_`, with the clients loop of its server. The
    keys are compared by their `server_socket_`. -/
structure Clients where
  server_socket_ : Int
  clients_fds : List AutoClosedSocketFd
  capacity : Nat
  clients_lock_ : Bool
  poller : Poller
  deriving DecidableEq, Repr

inductive RequestPhase where
  /-- The descriptor is a parameter of the thread function. -/
  | started
  /-- `client_ptr` owns it. -/
  | owning
  | done
  deriving DecidableEq, Repr

structure RequestThread where
  client : Int
  phase : RequestPhase
  /-- The entry it was created for has been marked. The thread does not know. -/
  marked : Bool
  deriving DecidableEq, Repr

/-- What has become of the program. -/
inductive Fate where
  | running
  /-- "Couldn't resolve server object from server fd". -/
  | unresolved
  /-- `POLL` has failed, which ends the program. -/
  | pollError
  /-- An end iterator was erased, or two threads were at one array. -/
  | undefined
  deriving DecidableEq, Repr

structure State where
  servers_ : List AutoClosedSocketFd
  clients_map_ : List Clients
  acceptor : Acceptor
  threads : List RequestThread
  /-- What `accept` has returned. -/
  accepted : List Int
  /-- What has been closed by arrays and by threads. -/
  closed : List Int
  /-- Sockets of destroyed servers that `POLLNVAL` has not been seen for. -/
  destroyed : List Int
  fate : Fate
  deriving DecidableEq, Repr

def init : State := ⟨[], [], .unlocked, [], [], [], [], .running⟩

/-- An entry with `POLLNVAL` has been seen in this iteration. -/
def Acceptor.invalid_server : Acceptor → Bool
  | .unlocked | .locked => false
  | .scanning _ _ invalid_server | .appending _ _ _ _ invalid_server => invalid_server

/-- The array cannot take one more entry where it is. -/
def Clients.full (c : Clients) : Bool := c.capacity ≤ c.clients_fds.length

/-- `emplace_back` at its end. A reallocation moves the entries as they are. -/
def Clients.append (c : Clients) (client_fd : AutoClosedSocketFd) : Clients :=
  { c with
    clients_fds := c.clients_fds ++ [client_fd]
    capacity := if c.full then 2 * c.capacity else c.capacity }

/-- `poll_fd.fd = INVALID_SOCKET` for the entry `i`. -/
def Clients.mark (c : Clients) (i : Nat) : Clients :=
  { c with clients_fds := c.clients_fds.modify i fun x => { x with fd := INVALID_SOCKET } }

/-- The `unique_lock` goes out of scope. -/
def Clients.unlock (c : Clients) : Clients := { c with clients_lock_ := false, poller := .unlocked }

namespace State

/-- The sockets in `servers_`. -/
def sockets (s : State) : List Int := s.servers_.map AutoClosedSocketFd.fd

/-- The sockets of the keys of `clients_map_`. -/
def keys (s : State) : List Int := s.clients_map_.map Clients.server_socket_

/-- Change one element of `clients_map_`. -/
def setClients (s : State) (k : Nat) (c : Clients) : State :=
  { s with clients_map_ := s.clients_map_.set k c }

/-- The descriptor is open. -/
def InUse (s : State) (client : Int) : Prop := s.accepted.count client ≠ s.closed.count client

instance (s : State) (client : Int) : Decidable (s.InUse client) :=
  inferInstanceAs (Decidable (_ ≠ _))

end State

/-! ### Main thread -/

/-- `clients_map_.try_emplace(server)`, and `reserve` for a new array. -/
def tryEmplace (clients_map_ : List Clients) (server_socket_ : Int) : List Clients :=
  if server_socket_ ∈ clients_map_.map Clients.server_socket_ then clients_map_
  else clients_map_ ++ [⟨server_socket_, [], MAX_CLIENTS, false, .unlocked⟩]

/-- The call throws: `listen` fails for a server that is not there yet. -/
def throws (s : State) (server : WebServer) (listens : Bool) : Bool :=
  !listens && server.server_socket_ ∉ s.sockets

/-- `ServersWrapper::addOneServer`. -/
def addOneServer (s : State) (server : WebServer) (listens : Bool) : State :=
  if server.server_socket_ ∈ s.sockets then s
  else
    let s' := { s with servers_ := s.servers_ ++ [⟨server.server_socket_, POLLIN⟩] }
    -- the exception leaves the new entry where it is
    if listens = false then s'
    else { s' with clients_map_ := tryEmplace s'.clients_map_ server.server_socket_ }

/-! ### Servers loop -/

/-- The answer for the entry `i`. -/
def revent (revents : List ServerRevents) (i : Nat) : ServerRevents :=
  revents.getD i ⟨false, false⟩

/-- `std::find_if` for the server of the socket `server_sock`. -/
def findServer (clients_map_ : List Clients) (server_sock : Int) : Option Nat :=
  clients_map_.findIdx? fun c => c.server_socket_ = server_sock

/-- The array that `client = accept(...)` is appended to next. -/
def target (s : State) (client : Int) : Option Nat :=
  match s.acceptor with
  | .scanning i revents _ =>
      s.servers_[i]?.bind fun x =>
        if (revent revents i).pollin = true ∧ 0 < client then findServer s.clients_map_ x.fd
        else none
  | _ => none

/-- The branch for `POLLNVAL`, and the next entry. -/
def advance (s : State) (i : Nat) (x : AutoClosedSocketFd) (revents : List ServerRevents)
    (invalid_server : Bool) : State :=
  if (revent revents i).pollnval = true then
    { s with
      servers_ := s.servers_.set i { x with fd := INVALID_SOCKET }
      destroyed := s.destroyed.filter (· ≠ x.fd)
      acceptor := .scanning (i + 1) revents true }
  else { s with acceptor := .scanning (i + 1) revents invalid_server }

/-- The array of the element `k` would move away under its clients loop. -/
def reallocates (s : State) (k : Nat) : Bool :=
  s.clients_map_[k]?.any fun c => c.full && c.poller.usesArray

/-- `emplace_back` begins on the array of the element `k`. -/
def beginAppend (s : State) (k : Nat) (client_fd : AutoClosedSocketFd) (i : Nat)
    (revents : List ServerRevents) (invalid_server : Bool) : State :=
  { s with
    acceptor := .appending k client_fd i revents invalid_server
    fate := if reallocates s k = true then .undefined else s.fate }

/-- `accept` has returned `client` for the entry `i`. -/
def accepting (s : State) (i : Nat) (x : AutoClosedSocketFd) (revents : List ServerRevents)
    (invalid_server : Bool) (client : Int) : State :=
  if client < 0 then advance s i x revents invalid_server
  else
    let s' := { s with accepted := s.accepted ++ [client] }
    -- `client > 0`: descriptor 0 is not stored
    if client = 0 then advance s' i x revents invalid_server
    else
      match findServer s.clients_map_ x.fd with
      | none => { s' with fate := .unresolved }
      | some k => beginAppend s' k ⟨client, POLLIN⟩ i revents invalid_server

/-- The end of an iteration. -/
def finishScan (s : State) (invalid_server : Bool) : State :=
  if invalid_server = true then
    match serversCleanup s.servers_ 0 with
    | .erasedEnd => { s with fate := .undefined }
    | .finished fds closed =>
        { s with servers_ := fds, closed := s.closed ++ closed, acceptor := .unlocked }
  else { s with acceptor := .unlocked }

inductive AcceptorStep where
  /-- `servers_lock_` is taken. -/
  | lock
  | poll (ret : Poll ServerRevents)
  /-- The next entry, with the result of `accept`, or the end of the
      iteration. -/
  | accept (client : Int)
  /-- The end of `emplace_back`. -/
  | appended
  deriving DecidableEq

def acceptorStep (s : State) : AcceptorStep → Option State
  | .lock => if s.acceptor = .unlocked then some { s with acceptor := .locked } else none
  | .poll ret =>
      if s.acceptor = .locked then
        match ret with
        | .error => some { s with fate := .pollError }
        | .timeout => some { s with acceptor := .unlocked }
        | .ready revents => some { s with acceptor := .scanning 0 revents false }
      else none
  | .accept client =>
      match s.acceptor with
      | .scanning i revents invalid_server =>
          match s.servers_[i]? with
          | none => some (finishScan s invalid_server)
          | some x =>
              if (revent revents i).pollin = true then
                if 0 ≤ client ∧ s.InUse client then none
                else some (accepting s i x revents invalid_server client)
              else some (advance s i x revents invalid_server)
      | _ => none
  | .appended =>
      match s.acceptor with
      | .appending k client_fd i revents invalid_server =>
          s.clients_map_[k]?.bind fun c => s.servers_[i]?.map fun x =>
            advance (s.setClients k (c.append client_fd)) i x revents invalid_server
      | _ => none

/-! ### Clients loops -/

inductive PollerStep where
  /-- `clients_lock_` is taken. -/
  | lock
  /-- `data()` and `size()`. -/
  | read
  | poll (ret : Poll ClientRevents)
  /-- The next entry, or the end of the range. -/
  | iterate
  /-- The entry that a thread has been created for is marked. -/
  | mark
  /-- One `erase`, or the end of the cleanup. -/
  | erase
  deriving DecidableEq

/-- `data()` and `size()`; an array that is being reallocated is not there. -/
def beginPoll (s : State) (k : Nat) (c : Clients) : State :=
  { s.setClients k { c with poller := .polling c.clients_fds.length } with
    fate := if k ∈ s.acceptor.array? ∧ c.full = true then .undefined else s.fate }

/-- The entry `x` at `i`. -/
def visit (s : State) (k : Nat) (c : Clients) (i last : Nat) (x : AutoClosedSocketFd)
    (revents : List ClientRevents) (client_hang : Bool) : State :=
  let r := revents.getD i ⟨false, false⟩
  if r.pollin = true then
    { s.setClients k { c with poller := .marking s.threads.length i last revents } with
      threads := s.threads ++ [⟨x.fd, .started, false⟩] }
  else if r.pollhup = true then
    s.setClients k { c.mark i with poller := .iterating (i + 1) last revents true }
  else s.setClients k { c with poller := .iterating (i + 1) last revents client_hang }

/-- The cleanup at the head of its loop. -/
def cleanupStep (s : State) (k : Nat) (c : Clients) : State :=
  if c.clients_fds = [] then s.setClients k c.unlock
  else if k ∈ s.acceptor.array? then { s with fate := .undefined }
  else
    match erase c.clients_fds (findInvalid c.clients_fds) with
    | none => { s with fate := .undefined }
    | some (fds, closed) =>
        { s.setClients k { c with clients_fds := fds } with closed := s.closed ++ [closed] }

/-- A step of the clients loop of the server `c` at `k`. -/
def pollerStep (s : State) (k : Nat) (c : Clients) : PollerStep → Option State
  | .lock =>
      if c.poller = .unlocked ∧ c.clients_lock_ = false then
        some (s.setClients k { c with clients_lock_ := true, poller := .locked })
      else none
  | .read => if c.poller = .locked then some (beginPoll s k c) else none
  | .poll ret =>
      match c.poller with
      | .polling size =>
          match ret with
          | .error => some { s with fate := .pollError }
          | .timeout => some (s.setClients k c.unlock)
          | .ready revents =>
              -- entries that have come since then have no answer
              some (s.setClients k { c with
                poller := .iterating 0 c.clients_fds.length (revents.take size) false })
      | _ => none
  | .iterate =>
      match c.poller with
      | .iterating i last revents client_hang =>
          if i < last then c.clients_fds[i]?.map fun x => visit s k c i last x revents client_hang
          else if client_hang = true then some (s.setClients k { c with poller := .erasing })
          else some (s.setClients k c.unlock)
      | _ => none
  | .mark =>
      match c.poller with
      | .marking j i last revents =>
          let s' := s.setClients k { c.mark i with poller := .iterating (i + 1) last revents true }
          some { s' with threads := s.threads.modify j fun t => { t with marked := true } }
      | _ => none
  | .erase => if c.poller = .erasing then some (cleanupStep s k c) else none

/-! ### Request threads -/

/-- `processRequest` gets the descriptor, and is left. -/
def threadStep (s : State) (j : Nat) : Option State :=
  s.threads[j]?.bind fun t =>
    match t.phase with
    | .started => some { s with threads := s.threads.set j { t with phase := .owning } }
    | .owning =>
        some { s with
          threads := s.threads.set j { t with phase := .done }
          closed := s.closed ++ [t.client] }
    | .done => none

/-! ### The system -/

inductive Label where
  /-- `addOneServer`; `listens` if `listen` succeeds. -/
  | addOneServer (server : WebServer) (listens : Bool)
  /-- The destructor of a server closes its socket. -/
  | destroy (server : WebServer)
  | acceptor (e : AcceptorStep)
  | poller (k : Nat) (e : PollerStep)
  | thread (j : Nat)
  deriving DecidableEq

/-- The steps of a running program. -/
def liveStep (s : State) : Label → Option State
  | .addOneServer server listens =>
      if s.acceptor = .unlocked then some (addOneServer s server listens) else none
  | .destroy server => some { s with destroyed := s.destroyed ++ [server.server_socket_] }
  | .acceptor e => acceptorStep s e
  | .poller k e => s.clients_map_[k]?.bind fun c => pollerStep s k c e
  | .thread j => threadStep s j

def step (s : State) (l : Label) : Option State :=
  if s.fate = .running then liveStep s l else none

/-! ### What a step can be -/

/-- What a step of a running program can be. -/
theorem step_eq_some {s s' : State} {l : Label} (h : step s l = some s') :
    s.fate = .running ∧ liveStep s l = some s' := by
  unfold step at h
  rw [Option.ite_none_right_eq_some] at h
  exact h

/-- `addOneServer` runs while `servers_lock_` is free. -/
theorem liveStep_addOneServer {s s' : State} {server : WebServer} {listens : Bool}
    (h : liveStep s (.addOneServer server listens) = some s') :
    s.acceptor = .unlocked ∧ s' = addOneServer s server listens := by
  unfold liveStep at h
  rw [Option.ite_none_right_eq_some] at h
  exact ⟨h.1, (Option.some.inj h.2).symm⟩

/-- The steps of the servers loop. -/
inductive AcceptorMoves (s : State) : AcceptorStep → State → Prop
  | lock (hpc : s.acceptor = .unlocked) : AcceptorMoves s .lock { s with acceptor := .locked }
  | error (hpc : s.acceptor = .locked) :
      AcceptorMoves s (.poll .error) { s with fate := .pollError }
  | timeout (hpc : s.acceptor = .locked) :
      AcceptorMoves s (.poll .timeout) { s with acceptor := .unlocked }
  | ready {revents : List ServerRevents} (hpc : s.acceptor = .locked) :
      AcceptorMoves s (.poll (.ready revents)) { s with acceptor := .scanning 0 revents false }
  | finish {client : Int} {i : Nat} {revents : List ServerRevents} {invalid_server : Bool}
      (hpc : s.acceptor = .scanning i revents invalid_server) (hi : s.servers_.length ≤ i) :
      AcceptorMoves s (.accept client) (finishScan s invalid_server)
  /-- No client at this entry, or none that `accept` returns. -/
  | pass {client : Int} {i : Nat} {x : AutoClosedSocketFd} {revents : List ServerRevents}
      {invalid_server : Bool} (hpc : s.acceptor = .scanning i revents invalid_server)
      (hx : s.servers_[i]? = some x) (hclient : (revent revents i).pollin = true → client < 0) :
      AcceptorMoves s (.accept client) (advance s i x revents invalid_server)
  /-- A client on descriptor 0 is not stored. -/
  | zero {i : Nat} {x : AutoClosedSocketFd} {revents : List ServerRevents} {invalid_server : Bool}
      (hpc : s.acceptor = .scanning i revents invalid_server) (hx : s.servers_[i]? = some x)
      (hpollin : (revent revents i).pollin = true) (hnew : ¬ s.InUse 0) :
      AcceptorMoves s (.accept 0)
        (advance { s with accepted := s.accepted ++ [0] } i x revents invalid_server)
  /-- The server of the client is not found. -/
  | lost {client : Int} {i : Nat} {x : AutoClosedSocketFd} {revents : List ServerRevents}
      {invalid_server : Bool} (hpc : s.acceptor = .scanning i revents invalid_server)
      (hx : s.servers_[i]? = some x) (hpollin : (revent revents i).pollin = true)
      (hpos : 0 < client) (hnew : ¬ s.InUse client)
      (hserver : findServer s.clients_map_ x.fd = none) :
      AcceptorMoves s (.accept client)
        { s with accepted := s.accepted ++ [client], fate := .unresolved }
  | begins {client : Int} {i k : Nat} {x : AutoClosedSocketFd} {revents : List ServerRevents}
      {invalid_server : Bool} (hpc : s.acceptor = .scanning i revents invalid_server)
      (hx : s.servers_[i]? = some x) (hpollin : (revent revents i).pollin = true)
      (hpos : 0 < client) (hnew : ¬ s.InUse client)
      (hserver : findServer s.clients_map_ x.fd = some k) :
      AcceptorMoves s (.accept client)
        (beginAppend { s with accepted := s.accepted ++ [client] } k ⟨client, POLLIN⟩ i revents
          invalid_server)
  | appended {k i : Nat} {client_fd x : AutoClosedSocketFd} {revents : List ServerRevents}
      {invalid_server : Bool} {c : Clients}
      (hpc : s.acceptor = .appending k client_fd i revents invalid_server)
      (hc : s.clients_map_[k]? = some c) (hx : s.servers_[i]? = some x) :
      AcceptorMoves s .appended
        (advance (s.setClients k (c.append client_fd)) i x revents invalid_server)

/-- The steps of the servers loop are these. -/
theorem acceptorStep_moves {s s' : State} {e : AcceptorStep} (h : acceptorStep s e = some s') :
    AcceptorMoves s e s' := by
  cases e with
  | lock =>
    unfold acceptorStep at h
    rw [Option.ite_none_right_eq_some] at h
    obtain ⟨hpc, h⟩ := h
    cases h
    exact .lock hpc
  | poll ret =>
    unfold acceptorStep at h
    rw [Option.ite_none_right_eq_some] at h
    obtain ⟨hpc, h⟩ := h
    cases ret with
    | error =>
      cases h
      exact .error hpc
    | timeout =>
      cases h
      exact .timeout hpc
    | ready revents =>
      cases h
      exact .ready hpc
  | accept client =>
    unfold acceptorStep at h
    dsimp only at h
    split at h
    · next i revents invalid_server hpc =>
      split at h
      · next hnone =>
        cases h
        exact .finish hpc (List.getElem?_eq_none_iff.mp hnone)
      · next x hx =>
        split at h
        · -- `accept` is called, and returns no descriptor that is open
          next hpollin =>
          rw [Option.ite_none_left_eq_some] at h
          obtain ⟨hnew, h⟩ := h
          cases h
          unfold accepting
          split
          · next hneg => exact .pass hpc hx fun _ => hneg
          · next hnonneg =>
            have hfree : ¬ s.InUse client := fun huse => hnew ⟨by omega, huse⟩
            dsimp only
            split
            · next hzero =>
              subst hzero
              exact .zero hpc hx hpollin hfree
            · next hne =>
              have hpos : 0 < client := by omega
              split
              · next hserver => exact .lost hpc hx hpollin hpos hfree hserver
              · next k hserver => exact .begins hpc hx hpollin hpos hfree hserver
        · next hpollin =>
          cases h
          exact .pass hpc hx fun hpollin' => absurd hpollin' hpollin
    · cases h
  | appended =>
    unfold acceptorStep at h
    dsimp only at h
    split at h
    · next k client_fd i revents invalid_server hpc =>
      obtain ⟨c, hc, h⟩ := Option.bind_eq_some_iff.mp h
      obtain ⟨x, hx, h⟩ := Option.map_eq_some_iff.mp h
      cases h
      exact .appended hpc hc hx
    · cases h

/-- The steps of the clients loop of the server `c` at `k`. -/
inductive PollerMoves (s : State) (k : Nat) (c : Clients) : PollerStep → State → Prop
  | lock (hpc : c.poller = .unlocked) (hfree : c.clients_lock_ = false) :
      PollerMoves s k c .lock (s.setClients k { c with clients_lock_ := true, poller := .locked })
  | read (hpc : c.poller = .locked) : PollerMoves s k c .read (beginPoll s k c)
  | error {size : Nat} (hpc : c.poller = .polling size) :
      PollerMoves s k c (.poll .error) { s with fate := .pollError }
  | timeout {size : Nat} (hpc : c.poller = .polling size) :
      PollerMoves s k c (.poll .timeout) (s.setClients k c.unlock)
  | ready {size : Nat} {revents : List ClientRevents} (hpc : c.poller = .polling size) :
      PollerMoves s k c (.poll (.ready revents)) (s.setClients k { c with
        poller := .iterating 0 c.clients_fds.length (revents.take size) false })
  /-- A thread is created for the client. -/
  | hand {i last : Nat} {revents : List ClientRevents} {client_hang : Bool} {x : AutoClosedSocketFd}
      (hpc : c.poller = .iterating i last revents client_hang) (hx : c.clients_fds[i]? = some x)
      (hpollin : (revents.getD i ⟨false, false⟩).pollin = true) :
      PollerMoves s k c .iterate
        { s.setClients k { c with poller := .marking s.threads.length i last revents } with
          threads := s.threads ++ [⟨x.fd, .started, false⟩] }
  /-- The client has hung up. -/
  | drop {i last : Nat} {revents : List ClientRevents} {client_hang : Bool} {x : AutoClosedSocketFd}
      (hpc : c.poller = .iterating i last revents client_hang) (hx : c.clients_fds[i]? = some x)
      (hpollin : (revents.getD i ⟨false, false⟩).pollin = false)
      (hpollhup : (revents.getD i ⟨false, false⟩).pollhup = true) :
      PollerMoves s k c .iterate
        (s.setClients k { c.mark i with poller := .iterating (i + 1) last revents true })
  | keep {i last : Nat} {revents : List ClientRevents} {client_hang : Bool} {x : AutoClosedSocketFd}
      (hpc : c.poller = .iterating i last revents client_hang) (hx : c.clients_fds[i]? = some x)
      (hpollin : (revents.getD i ⟨false, false⟩).pollin = false)
      (hpollhup : (revents.getD i ⟨false, false⟩).pollhup = false) :
      PollerMoves s k c .iterate
        (s.setClients k { c with poller := .iterating (i + 1) last revents client_hang })
  | clean {i last : Nat} {revents : List ClientRevents}
      (hpc : c.poller = .iterating i last revents true) (hend : last ≤ i) :
      PollerMoves s k c .iterate (s.setClients k { c with poller := .erasing })
  | leave {i last : Nat} {revents : List ClientRevents}
      (hpc : c.poller = .iterating i last revents false) (hend : last ≤ i) :
      PollerMoves s k c .iterate (s.setClients k c.unlock)
  | mark {j i last : Nat} {revents : List ClientRevents}
      (hpc : c.poller = .marking j i last revents) :
      PollerMoves s k c .mark
        { s.setClients k { c.mark i with poller := .iterating (i + 1) last revents true } with
          threads := s.threads.modify j fun t => { t with marked := true } }
  | emptied (hpc : c.poller = .erasing) (hempty : c.clients_fds = []) :
      PollerMoves s k c .erase (s.setClients k c.unlock)
  /-- No entry is marked, or the end of the array is being written. -/
  | undefined (hpc : c.poller = .erasing) (hrest : c.clients_fds ≠ [])
      (hwrong : k ∈ s.acceptor.array? ∨ erase c.clients_fds (findInvalid c.clients_fds) = none) :
      PollerMoves s k c .erase { s with fate := .undefined }
  | erased {fds : List AutoClosedSocketFd} {closed : Int} (hpc : c.poller = .erasing)
      (halone : k ∉ s.acceptor.array?)
      (herase : erase c.clients_fds (findInvalid c.clients_fds) = some (fds, closed)) :
      PollerMoves s k c .erase
        { s.setClients k { c with clients_fds := fds } with closed := s.closed ++ [closed] }

/-- The steps of a clients loop are these. -/
theorem pollerStep_moves {s s' : State} {k : Nat} {c : Clients} {e : PollerStep}
    (h : pollerStep s k c e = some s') : PollerMoves s k c e s' := by
  cases e with
  | lock =>
    unfold pollerStep at h
    rw [Option.ite_none_right_eq_some] at h
    obtain ⟨⟨hpc, hfree⟩, h⟩ := h
    cases h
    exact .lock hpc hfree
  | read =>
    unfold pollerStep at h
    rw [Option.ite_none_right_eq_some] at h
    obtain ⟨hpc, h⟩ := h
    cases h
    exact .read hpc
  | poll ret =>
    unfold pollerStep at h
    dsimp only at h
    split at h
    · next size hpc =>
      cases ret with
      | error =>
        cases h
        exact .error hpc
      | timeout =>
        cases h
        exact .timeout hpc
      | ready revents =>
        cases h
        exact .ready hpc
    · cases h
  | iterate =>
    unfold pollerStep at h
    dsimp only at h
    split at h
    · next i last revents client_hang hpc =>
      split at h
      · obtain ⟨x, hx, h⟩ := Option.map_eq_some_iff.mp h
        cases h
        unfold visit
        dsimp only
        split
        · next hpollin => exact .hand hpc hx hpollin
        · next hpollin =>
          rw [Bool.not_eq_true] at hpollin
          split
          · next hpollhup => exact .drop hpc hx hpollin hpollhup
          · next hpollhup => exact .keep hpc hx hpollin (Bool.eq_false_iff.mpr hpollhup)
      · next hend =>
        have hend := Nat.le_of_not_lt hend
        split at h
        · next hhang =>
          cases h
          exact .clean (hhang ▸ hpc) hend
        · next hhang =>
          cases h
          exact .leave (Bool.eq_false_iff.mpr hhang ▸ hpc) hend
    · cases h
  | mark =>
    unfold pollerStep at h
    dsimp only at h
    split at h
    · next j i last revents hpc =>
      cases h
      exact .mark hpc
    · cases h
  | erase =>
    unfold pollerStep at h
    rw [Option.ite_none_right_eq_some] at h
    obtain ⟨hpc, h⟩ := h
    cases h
    unfold cleanupStep
    split
    · next hempty => exact .emptied hpc hempty
    · next hrest =>
      split
      · next hrace => exact .undefined hpc hrest (Or.inl hrace)
      · next halone =>
        split
        · next hend => exact .undefined hpc hrest (Or.inr hend)
        · next fds closed herase => exact .erased hpc halone herase

/-- A step of a clients loop finds its server. -/
theorem liveStep_poller {s s' : State} {k : Nat} {e : PollerStep}
    (h : liveStep s (.poller k e) = some s') :
    ∃ c, s.clients_map_[k]? = some c ∧ PollerMoves s k c e s' := by
  obtain ⟨c, hc, h⟩ := Option.bind_eq_some_iff.mp h
  exact ⟨c, hc, pollerStep_moves h⟩

/-- A thread gets its descriptor, or closes it. -/
theorem threadStep_cases {s s' : State} {j : Nat} (h : threadStep s j = some s') :
    ∃ t, s.threads[j]? = some t ∧
      ((t.phase = .started ∧
          s' = { s with threads := s.threads.set j { t with phase := .owning } }) ∨
        (t.phase = .owning ∧
          s' = { s with
            threads := s.threads.set j { t with phase := .done }
            closed := s.closed ++ [t.client] })) := by
  unfold threadStep at h
  rw [Option.bind_eq_some_iff] at h
  obtain ⟨t, ht, h⟩ := h
  refine ⟨t, ht, ?_⟩
  split at h
  · next hphase => exact Or.inl ⟨hphase, (Option.some.inj h).symm⟩
  · next hphase => exact Or.inr ⟨hphase, (Option.some.inj h).symm⟩
  · cases h

/-! ### Frames -/

section frames

variable {s : State}

/-- An element behind a change of one of them. -/
theorem getElem?_setClients {k : Nat} {c c' d : Clients} {j : Nat}
    (hc : s.clients_map_[k]? = some c) (hd : (s.setClients k c').clients_map_[j]? = some d) :
    k = j ∧ d = c' ∨ k ≠ j ∧ s.clients_map_[j]? = some d := by
  unfold State.setClients at hd
  by_cases hj : k = j
  · subst hj
    obtain ⟨hlt, _⟩ := List.getElem?_eq_some_iff.mp hc
    rw [List.getElem?_set_self hlt, Option.some.injEq] at hd
    exact Or.inl ⟨rfl, hd.symm⟩
  · rw [List.getElem?_set_ne hj] at hd
    exact Or.inr ⟨hj, hd⟩

@[simp] theorem addOneServer_acceptor (s : State) (server : WebServer) (listens : Bool) :
    (addOneServer s server listens).acceptor = s.acceptor := by
  unfold addOneServer
  split
  · rfl
  · dsimp only
    split <;> rfl

@[simp] theorem addOneServer_fate (s : State) (server : WebServer) (listens : Bool) :
    (addOneServer s server listens).fate = s.fate := by
  unfold addOneServer
  split
  · rfl
  · dsimp only
    split <;> rfl

/-- What `advance` leaves as it is. -/
theorem advance_frame (s : State) (i : Nat) (x : AutoClosedSocketFd) (revents : List ServerRevents)
    (invalid_server : Bool) :
    (advance s i x revents invalid_server).accepted = s.accepted ∧
      (advance s i x revents invalid_server).threads = s.threads ∧
      (advance s i x revents invalid_server).closed = s.closed ∧
      (advance s i x revents invalid_server).clients_map_ = s.clients_map_ ∧
      (advance s i x revents invalid_server).fate = s.fate ∧
      (advance s i x revents invalid_server).acceptor.array? = none := by
  unfold advance
  split
  · exact ⟨rfl, rfl, rfl, rfl, rfl, rfl⟩
  · exact ⟨rfl, rfl, rfl, rfl, rfl, rfl⟩

/-- A client is stored exactly when its server has a key. -/
theorem findServer_eq_none_iff (clients_map_ : List Clients) (server_sock : Int) :
    findServer clients_map_ server_sock = none ↔
      server_sock ∉ clients_map_.map Clients.server_socket_ := by
  unfold findServer
  rw [List.findIdx?_eq_none_iff]
  simp

end frames

/-! ### The cleanup of a clients loop -/

/-- What a cleanup of the element `k` that ends in this way makes of the
    state. -/
def CleanedUp (s : State) (k : Nat) (c : Clients) (s' : State) : Cleanup → Prop
  | .erasedEnd => s'.fate = .undefined
  | .finished fds closed =>
      s' = { s.setClients k { c.unlock with clients_fds := fds } with closed := s.closed ++ closed }

theorem step_erase {s : State} {k : Nat} {c : Clients} (hrun : s.fate = .running)
    (hc : s.clients_map_[k]? = some c) (hpc : c.poller = .erasing) :
    step s (.poller k .erase) = some (cleanupStep s k c) := by
  rw [step, if_pos hrun]
  show s.clients_map_[k]?.bind (fun c => pollerStep s k c .erase) = _
  rw [hc, Option.bind_some]
  exact if_pos hpc

/-- One `erase` after the other amounts to `clientsCleanup` as long as no
    client is appended. -/
theorem run_cleanup {s : State} {k : Nat} {c : Clients} (hrun : s.fate = .running)
    (hc : s.clients_map_[k]? = some c) (hpc : c.poller = .erasing)
    (halone : k ∉ s.acceptor.array?) :
    ∃ n s', run step s (List.replicate n (.poller k .erase)) = some s' ∧
      CleanedUp s k c s' (clientsCleanup c.clients_fds) := by
  have hlt := (List.getElem?_eq_some_iff.mp hc).1
  have hstep := step_erase hrun hc hpc
  unfold cleanupStep at hstep
  generalize hfds : c.clients_fds = fds at hstep ⊢
  induction fds using clientsCleanup.induct generalizing s c with
  | case1 =>
    refine ⟨1, s.setClients k c.unlock, ?_, ?_⟩
    · rw [List.replicate_one, run_singleton, hstep, if_pos rfl]
    · have hempty : clientsCleanup [] = .finished [] [] := by
        rw [clientsCleanup, if_pos rfl]
      rw [hempty, CleanedUp, List.append_nil, ← hfds]
      rfl
  | case2 fds hne hend =>
    refine ⟨1, { s with fate := .undefined }, ?_, ?_⟩
    · rw [List.replicate_one, run_singleton, hstep, if_neg hne, if_neg halone, hend]
    · have hwrong : clientsCleanup fds = .erasedEnd := by
        rw [clientsCleanup, if_neg hne]
        split
        · rfl
        · next r hr =>
          rw [hend] at hr
          cases hr
      rw [hwrong]
      rfl
  | case3 fds hne r herase ih =>
    rw [if_neg hne, if_neg halone, herase] at hstep
    obtain ⟨left, closed⟩ := r
    -- the rest of the loop begins in the next state
    let c₁ : Clients := { c with clients_fds := left }
    let s₁ : State := { s.setClients k c₁ with closed := s.closed ++ [closed] }
    have hc₁ : s₁.clients_map_[k]? = some c₁ := List.getElem?_set_self hlt
    have hrun₁ : s₁.fate = .running := hrun
    have hpc₁ : c₁.poller = .erasing := hpc
    obtain ⟨n, s', hrest, hclean⟩ := ih hrun₁ hc₁ hpc₁ halone
      (List.getElem?_eq_some_iff.mp hc₁).1 rfl (step_erase hrun₁ hc₁ hpc₁)
    refine ⟨n + 1, s', ?_, ?_⟩
    · rw [List.replicate_succ, run, hstep]
      exact hrest
    · have hloop : clientsCleanup fds = (clientsCleanup left).closing closed := by
        rw [clientsCleanup, if_neg hne]
        split
        · next hnone =>
          rw [herase] at hnone
          cases hnone
        · next r hr =>
          rw [herase] at hr
          cases hr
          rfl
      rw [hloop]
      cases hleft : clientsCleanup left with
      | erasedEnd =>
        rw [hleft] at hclean
        exact hclean
      | finished fds' closed' =>
        rw [hleft] at hclean
        rw [Cleanup.closing, CleanedUp, show s' = _ from hclean]
        simp [s₁, c₁, State.setClients, Clients.unlock, List.set_set, List.append_assoc]

end ServersCore
