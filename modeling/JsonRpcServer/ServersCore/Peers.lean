import JsonRpcServer.Framework.Bytes
import JsonRpcServer.ServersCore.Descriptors

/-! # Clients Apart

  Request threads work on descriptors, and the operating system knows which
  client a descriptor stands for. What a thread receives and sends is that
  of the client its descriptor stands for at that moment.

  `processRequest` is a parameter here, as it is a virtual function in the
  source: a `Protocol` says what a thread does with the bytes it receives.

  ## Main result

  * `clients_apart`: in every run of the program, also in one that loses
    descriptors or in which threads are done before their entries are marked,
    each client talks to one thread at most, and what they say to each other
    is what they would say without any other client.
-/

namespace ServersCore.Peers

open System

/-! ### Model -/

/-- The `processRequest` of the servers. -/
structure Protocol where
  State : Type
  Label : Type
  /-- Where `processRequest` of the server with this socket begins. -/
  init : Int → State
  /-- One turn, with the bytes that can be received: what of them is left,
      and the bytes that are sent. -/
  step : State → Bytes → Label → Option (State × Bytes × Bytes)
  /-- The same turn on a descriptor that is not open. -/
  badDescriptor : Label → Label
  /-- `processRequest` has been left. -/
  left : State → Bool

/-- The other end of a connection. -/
structure Peer where
  /-- All the bytes it sends. -/
  request : Bytes
  /-- Those that have not been received. -/
  incoming : Bytes
  /-- What it has been sent. -/
  outgoing : Bytes
  deriving DecidableEq

/-- A request thread. `client` is the client its descriptor stood for when
    the thread was started; the program does not know it. -/
structure Worker (P : Protocol) where
  server : Int
  client : Option Nat
  state : P.State
  /-- The turns it has taken. -/
  turns : List P.Label

structure State (P : Protocol) where
  wrapper : ServersCore.State
  /-- The clients in the order in which they were accepted. -/
  peers : List Peer
  /-- The client a descriptor stands for. -/
  table : Int → Option Nat
  /-- In the order of `wrapper.threads`. -/
  workers : List (Worker P)

inductive Label (P : Protocol) where
  /-- A step of the main thread or of a loop. A client that is accepted in
      it sends `request`. -/
  | program (l : ServersCore.Label) (request : Bytes)
  /-- The thread enters `processRequest`. -/
  | start (j : Nat)
  | serve (j : Nat) (l : P.Label)
  /-- The thread leaves `processRequest`, and its descriptor is closed. -/
  | leave (j : Nat)

variable {P : Protocol}

def init : State P := ⟨ServersCore.init, [], fun _ => none, []⟩

/-- `close`. -/
def unbind (table : Int → Option Nat) (fds : List Int) (fd : Int) : Option Nat :=
  if fd ∈ fds then none else table fd

/-- `accept`; `n` is the number of the first of the new clients. -/
def bind (table : Int → Option Nat) (fds : List Int) (n : Nat) (fd : Int) : Option Nat :=
  if fd ∈ fds then some (n + fds.idxOf fd) else table fd

/-- The server whose clients loop takes the step. -/
def serverOf (s : ServersCore.State) : ServersCore.Label → Int
  | .poller k _ => (s.clients_map_[k]?.map ServersCore.Clients.server_socket_).getD INVALID_SOCKET
  | _ => INVALID_SOCKET

/-- What the system calls of a step have done, and its new threads. -/
def programStep (s : State P) (l : ServersCore.Label) (request : Bytes)
    (w : ServersCore.State) : State P :=
  let accepted := w.accepted.drop s.wrapper.accepted.length
  let closed := w.closed.drop s.wrapper.closed.length
  let started := w.threads.drop s.wrapper.threads.length
  let table := bind (unbind s.table closed) accepted s.peers.length
  { wrapper := w
    peers := s.peers ++ accepted.map fun _ => ⟨request, request, []⟩
    table
    workers := s.workers ++ started.map fun t =>
      ⟨serverOf s.wrapper l, table t.client, P.init (serverOf s.wrapper l), []⟩ }

/-- A turn of `processRequest`. -/
def serveStep (s : State P) (j : Nat) (l : P.Label) : Option (State P) :=
  match s.wrapper.threads[j]?, s.workers[j]? with
  | some t, some w =>
      if t.phase = .owning then
        match s.table t.client with
        | none =>
            (P.step w.state [] (P.badDescriptor l)).map fun r =>
              { s with
                workers := s.workers.set j
                  { w with state := r.1, turns := w.turns ++ [P.badDescriptor l] } }
        | some p =>
            s.peers[p]?.bind fun peer =>
              (P.step w.state peer.incoming l).map fun r =>
                { s with
                  workers := s.workers.set j { w with state := r.1, turns := w.turns ++ [l] }
                  peers := s.peers.set p
                    { peer with incoming := r.2.1, outgoing := peer.outgoing ++ r.2.2 } }
      else none
  | _, _ => none

/-- The steps in which a thread gets its descriptor and closes it. -/
def threadStep (s : State P) (j : Nat) (phase : RequestPhase) (closed : List Int) :
    Option (State P) :=
  match s.wrapper.threads[j]? with
  | some t =>
      if t.phase = phase then
        (ServersCore.step s.wrapper (.thread j)).map fun w =>
          { s with wrapper := w, table := unbind s.table closed }
      else none
  | none => none

def step (s : State P) : Label P → Option (State P)
  | .program (.thread _) _ => none
  | .program l request => (ServersCore.step s.wrapper l).map (programStep s l request)
  | .start j => threadStep s j .started []
  | .serve j l => serveStep s j l
  | .leave j =>
      match s.workers[j]?, s.wrapper.threads[j]? with
      | some w, some t =>
          if P.left w.state = true then threadStep s j .owning [t.client] else none
      | _, _ => none

/-! ### One client alone -/

/-- A client and its thread. -/
structure Conversation (P : Protocol) where
  state : P.State
  incoming : Bytes
  outgoing : Bytes

/-- The thread of a program with one client. -/
def Protocol.alone (P : Protocol) (c : Conversation P) (l : P.Label) : Option (Conversation P) :=
  (P.step c.state c.incoming l).map fun r => ⟨r.1, r.2.1, c.outgoing ++ r.2.2⟩

/-- The client has not been heard. -/
structure Untouched (s : State P) (p : Nat) (peer : Peer) : Prop where
  incoming : peer.incoming = peer.request
  outgoing : peer.outgoing = []
  unserved : ∀ w ∈ s.workers, w.client ≠ some p

/-- These turns of a thread alone bring it and the client here. -/
structure Talks (P : Protocol) (A : P.Label → Prop) (server : Int) (turns : List P.Label)
    (state : P.State) (peer : Peer) : Prop where
  kind : ∀ l ∈ turns, A l
  reaches : run P.alone ⟨P.init server, peer.request, []⟩ turns =
    some ⟨state, peer.incoming, peer.outgoing⟩

/-- The thread `j` serves the client, as it would a single one. -/
structure Served (A : P.Label → Prop) (s : State P) (p : Nat) (peer : Peer) (j : Nat)
    (w : Worker P) : Prop where
  worker : s.workers[j]? = some w
  client : w.client = some p
  only : ∀ j' w', s.workers[j']? = some w' → w'.client = some p → j' = j
  alone : Talks P A w.server w.turns w.state peer

/-- Clients are kept apart. -/
structure Apart (A : P.Label → Prop) (s : State P) : Prop where
  kept : Kept s.wrapper
  length : s.workers.length = s.wrapper.threads.length
  /-- A descriptor stands for a client of its own. -/
  bound : ∀ fd p, s.table fd = some p → p < s.peers.length
  injective : ∀ fd fd' p, s.table fd = some p → s.table fd' = some p → fd = fd'
  invalid : s.table INVALID_SOCKET = none
  /-- A client whose descriptor waits has no thread. -/
  waiting : ∀ fd, s.wrapper.waiting fd ≠ 0 → ∀ p, s.table fd = some p →
    ∀ w ∈ s.workers, w.client ≠ some p
  /-- The descriptor of a thread stands for its client until it is closed. -/
  live : ∀ (j : Nat) (t : RequestThread) (w : Worker P), s.wrapper.threads[j]? = some t →
    s.workers[j]? = some w → t.phase ≠ .done → w.client = s.table t.client
  served : ∀ w ∈ s.workers, ∀ p, w.client = some p → p < s.peers.length
  distinct : ∀ (j j' : Nat) (w w' : Worker P) (p : Nat), s.workers[j]? = some w →
    s.workers[j']? = some w' → w.client = some p → w'.client = some p → j = j'
  untouched : ∀ (p : Nat) (peer : Peer), s.peers[p]? = some peer →
    (∀ w ∈ s.workers, w.client ≠ some p) → peer.incoming = peer.request ∧ peer.outgoing = []
  alone : ∀ w ∈ s.workers, ∀ (p : Nat) (peer : Peer), w.client = some p →
    s.peers[p]? = some peer → Talks P A w.server w.turns w.state peer

variable {A : P.Label → Prop}

section tables

variable {table : Int → Option Nat} {fds : List Int} {fd : Int} {n p : Nat}

@[simp] theorem unbind_nil : unbind table [] = table := by
  funext fd
  simp [unbind]

@[simp] theorem bind_nil : bind table [] n = table := by
  funext fd
  simp [bind]

theorem unbind_of_not_mem (h : fd ∉ fds) : unbind table fds fd = table fd := if_neg h

theorem unbind_eq_some (h : unbind table fds fd = some p) : fd ∉ fds ∧ table fd = some p := by
  unfold unbind at h
  rw [Option.ite_none_left_eq_some] at h
  exact h

theorem unbind_eq_none (h : table fd = none) : unbind table fds fd = none := by
  unfold unbind
  rw [h, ite_self]

/-- Closing what is not open. -/
theorem unbind_invalid (htable : table INVALID_SOCKET = none)
    (hfds : ∀ d ∈ fds, d = INVALID_SOCKET) : unbind table fds = table := by
  funext fd
  unfold unbind
  split
  · next hmem => rw [hfds fd hmem, htable]
  · rfl

@[simp] theorem bind_singleton_self (client : Int) : bind table [client] n client = some n := by
  simp [bind]

theorem bind_singleton_ne {client : Int} (h : fd ≠ client) :
    bind table [client] n fd = table fd := by
  simp [bind, h]

end tables

/-! ### Owners -/

section owners

variable {w : ServersCore.State}

/-- A thread has its descriptor until it has closed it. -/
theorem busy_pos {j : Nat} {t : RequestThread} (ht : w.threads[j]? = some t)
    (hphase : t.phase ≠ .done) : 0 < busy w.threads t.client := by
  unfold busy
  exact List.countP_pos_iff.mpr ⟨t, List.mem_of_getElem? ht, by simp [RequestThread.Has, hphase]⟩

/-- Two threads have different descriptors. -/
theorem threads_apart (hkept : Kept w) {j j' : Nat} {t t' : RequestThread}
    (ht : w.threads[j]? = some t) (ht' : w.threads[j']? = some t') (hphase : t.phase ≠ .done)
    (hphase' : t'.phase ≠ .done) (hvalid : t.client ≠ INVALID_SOCKET)
    (hclient : t'.client = t.client) : j = j' := by
  by_contra hne
  have htwo : 2 ≤ busy w.threads t.client := by
    unfold busy
    exact Counting.two_le_countP hne ht ht' (by simp [RequestThread.Has, hphase])
      (by simp [RequestThread.Has, hphase', hclient])
  have hone := hkept.le_one hvalid
  omega

end owners

/-! ### Steps of the program -/

section program

variable {s : State P} {w : ServersCore.State} {l : ServersCore.Label} {request : Bytes}

/-- A step by what it adds to the descriptors and threads. -/
theorem programStep_eq {accepted closed : List Int} {started : List RequestThread}
    (haccepted : w.accepted = s.wrapper.accepted ++ accepted)
    (hclosed : w.closed = s.wrapper.closed ++ closed)
    (hthreads : w.threads = s.wrapper.threads ++ started) :
    programStep s l request w =
      { wrapper := w
        peers := s.peers ++ accepted.map fun _ => ⟨request, request, []⟩
        table := bind (unbind s.table closed) accepted s.peers.length
        workers := s.workers ++ started.map fun t =>
          ⟨serverOf s.wrapper l,
            bind (unbind s.table closed) accepted s.peers.length t.client,
            P.init (serverOf s.wrapper l), []⟩ } := by
  unfold programStep
  rw [haccepted, hclosed, hthreads, List.drop_left, List.drop_left, List.drop_left]

/-- A step that changes no descriptor and no phase of a thread. -/
theorem Apart.quiet (h : Apart A s) (hkept : Kept w)
    (hthreads : ∀ (j : Nat) (t : RequestThread), w.threads[j]? = some t →
      ∃ t₀, s.wrapper.threads[j]? = some t₀ ∧ t.client = t₀.client ∧ t.phase = t₀.phase)
    (hlength : w.threads.length = s.wrapper.threads.length)
    (hwaiting : ∀ fd, fd ≠ INVALID_SOCKET → w.waiting fd ≤ s.wrapper.waiting fd) :
    Apart A { s with wrapper := w } :=
  { h with
    kept := hkept
    length := h.length.trans hlength.symm
    waiting := by
      intro fd hfd p hp
      by_cases hvalid : fd = INVALID_SOCKET
      · rw [hvalid, h.invalid] at hp
        cases hp
      · have hle := hwaiting fd hvalid
        refine h.waiting fd (fun hzero => hfd ?_) p hp
        dsimp only
        omega
    live := by
      intro j t w' ht hw' hphase
      obtain ⟨t₀, ht₀, hclient, hphase₀⟩ := hthreads j t ht
      rw [hclient]
      exact h.live j t₀ w' ht₀ hw' (hphase₀ ▸ hphase) }

/-- A new client gets a descriptor that nobody has. -/
theorem Apart.accept (h : Apart A s) (hkept : Kept w) {client : Int} (hclient : 0 ≤ client)
    (hfree : ¬ s.wrapper.InUse client) (hthreads : w.threads = s.wrapper.threads)
    (hwaiting : ∀ fd, w.waiting fd ≤ s.wrapper.waiting fd + if client = fd then 1 else 0) :
    Apart A { s with
      wrapper := w
      peers := s.peers ++ [⟨request, request, []⟩]
      table := bind s.table [client] s.peers.length } := by
  have hvalid : client ≠ INVALID_SOCKET := by
    unfold INVALID_SOCKET
    omega
  have hnobody := h.kept.eq_zero hvalid hfree
  have hbind : ∀ {fd p}, bind s.table [client] s.peers.length fd = some p →
      (fd = client ∧ p = s.peers.length) ∨ (fd ≠ client ∧ s.table fd = some p) := by
    intro fd p hp
    by_cases hfd : fd = client
    · rw [hfd, bind_singleton_self] at hp
      exact Or.inl ⟨hfd, (Option.some.inj hp).symm⟩
    · rw [bind_singleton_ne hfd] at hp
      exact Or.inr ⟨hfd, hp⟩
  refine
    { kept := hkept
      length := h.length.trans (congrArg List.length hthreads.symm)
      bound := ?_, injective := ?_, invalid := ?_, waiting := ?_, live := ?_, served := ?_
      distinct := h.distinct, untouched := ?_, alone := ?_ }
  · intro fd p hp
    rw [List.length_append, List.length_singleton]
    rcases hbind hp with ⟨_, rfl⟩ | ⟨_, hp⟩
    · omega
    · have hlt := h.bound fd p hp
      omega
  · -- the number of the new client is new
    intro fd fd' p hp hp'
    rcases hbind hp with ⟨rfl, rfl⟩ | ⟨_, hp⟩
    · rcases hbind hp' with ⟨hfd', _⟩ | ⟨_, hp'⟩
      · exact hfd'.symm
      · exact absurd (h.bound fd' _ hp') (Nat.lt_irrefl _)
    · rcases hbind hp' with ⟨_, rfl⟩ | ⟨_, hp'⟩
      · exact absurd (h.bound fd _ hp) (Nat.lt_irrefl _)
      · exact h.injective fd fd' p hp hp'
  · exact (bind_singleton_ne hvalid.symm).trans h.invalid
  · intro fd hfd p hp w' hw' hclient'
    rcases hbind hp with ⟨_, rfl⟩ | ⟨hne, hp⟩
    · exact absurd (h.served w' hw' _ hclient') (Nat.lt_irrefl _)
    · have hle := hwaiting fd
      rw [if_neg (Ne.symm hne)] at hle
      refine h.waiting fd (fun hzero => hfd ?_) p hp w' hw' hclient'
      dsimp only
      omega
  · intro j t w' ht hw' hphase
    rw [show w.threads = s.wrapper.threads from hthreads] at ht
    -- no thread has the descriptor
    have hne : t.client ≠ client := by
      intro heq
      have hpos := busy_pos ht hphase
      rw [heq] at hpos
      omega
    exact (h.live j t w' ht hw' hphase).trans (bind_singleton_ne hne).symm
  · intro w' hw' p hp
    have hlt := h.served w' hw' p hp
    rw [List.length_append]
    omega
  · -- the new client has sent its request to nobody
    intro p peer hp hunserved
    rw [List.getElem?_append] at hp
    split at hp
    · exact h.untouched p peer hp hunserved
    · rw [List.getElem?_singleton] at hp
      split at hp
      · cases hp
        exact ⟨rfl, rfl⟩
      · cases hp
  · intro w' hw' p peer hclient' hp
    rw [List.getElem?_append_left (h.served w' hw' p hclient')] at hp
    exact h.alone w' hw' p peer hclient' hp

/-- A thread is an old one or the new one. -/
theorem getElem?_workers_snoc {w₁ w' : Worker P} {j : Nat}
    (h : (s.workers ++ [w₁])[j]? = some w') :
    (j < s.workers.length ∧ s.workers[j]? = some w') ∨ (j = s.workers.length ∧ w' = w₁) := by
  rw [List.getElem?_append] at h
  split at h
  · next hlt => exact Or.inl ⟨hlt, h⟩
  · rw [List.getElem?_singleton, Option.ite_none_right_eq_some] at h
    exact Or.inr ⟨by omega, (Option.some.inj h.2).symm⟩

/-- A new thread gets a client that has waited. -/
theorem Apart.hand (h : Apart A s) (hkept : Kept w) {server client : Int}
    (hthreads : w.threads = s.wrapper.threads ++ [⟨client, .started, false⟩])
    (hwaiting : ∀ fd, fd ≠ INVALID_SOCKET →
      w.waiting fd + (if client = fd then 1 else 0) ≤ s.wrapper.waiting fd) :
    Apart A { s with
      wrapper := w
      workers := s.workers ++ [⟨server, s.table client, P.init server, []⟩] } := by
  -- what stands for a client is valid
  have hvalid : ∀ {fd p}, s.table fd = some p → fd ≠ INVALID_SOCKET := by
    intro fd p hp hfd
    rw [hfd, h.invalid] at hp
    cases hp
  have hunserved : ∀ {p}, s.table client = some p → ∀ w' ∈ s.workers, w'.client ≠ some p := by
    intro p hp
    have hle := hwaiting client (hvalid hp)
    rw [if_pos rfl] at hle
    exact h.waiting client (by omega) p hp
  refine
    { kept := hkept, length := ?_, bound := h.bound, injective := h.injective
      invalid := h.invalid, waiting := ?_, live := ?_, served := ?_, distinct := ?_
      untouched := ?_, alone := ?_ }
  · dsimp only
    rw [hthreads, List.length_append, List.length_append, h.length, List.length_singleton,
      List.length_singleton]
  · intro fd hfd p hp w' hw' hclient
    have hle := hwaiting fd (hvalid hp)
    dsimp only at hfd
    rcases List.mem_append.mp hw' with hw' | hw'
    · exact h.waiting fd (by omega) p hp w' hw' hclient
    · rw [List.mem_singleton.mp hw'] at hclient
      -- it waited once, and does not wait any more
      obtain rfl := h.injective fd client p hp hclient
      have hone := h.kept.le_one (hvalid hp)
      rw [if_pos rfl] at hle
      omega
  · intro j t w' ht hw' hphase
    rw [show w.threads = _ from hthreads] at ht
    rcases getElem?_workers_snoc hw' with ⟨hlt, hw'⟩ | ⟨rfl, rfl⟩
    · rw [List.getElem?_append_left (by rw [← h.length]; exact hlt)] at ht
      exact h.live j t w' ht hw' hphase
    · rw [h.length, List.getElem?_concat_length] at ht
      cases ht
      rfl
  · intro w' hw' p hclient
    rcases List.mem_append.mp hw' with hw' | hw'
    · exact h.served w' hw' p hclient
    · rw [List.mem_singleton.mp hw'] at hclient
      exact h.bound client p hclient
  · intro j j' w₁ w₂ p hw₁ hw₂ hp₁ hp₂
    rcases getElem?_workers_snoc hw₁ with ⟨_, hw₁⟩ | ⟨rfl, rfl⟩
    · rcases getElem?_workers_snoc hw₂ with ⟨_, hw₂⟩ | ⟨rfl, rfl⟩
      · exact h.distinct j j' w₁ w₂ p hw₁ hw₂ hp₁ hp₂
      · exact absurd hp₁ (hunserved hp₂ w₁ (List.mem_of_getElem? hw₁))
    · rcases getElem?_workers_snoc hw₂ with ⟨_, hw₂⟩ | ⟨rfl, _⟩
      · exact absurd hp₂ (hunserved hp₁ w₂ (List.mem_of_getElem? hw₂))
      · rfl
  · intro p peer hp hnone
    exact h.untouched p peer hp fun w' hw' => hnone w' (List.mem_append_left _ hw')
  · intro w' hw' p peer hclient hp
    rcases List.mem_append.mp hw' with hw' | hw'
    · exact h.alone w' hw' p peer hclient hp
    · rw [List.mem_singleton.mp hw'] at hclient ⊢
      -- nothing has been said yet
      obtain ⟨hincoming, houtgoing⟩ := h.untouched p peer hp (hunserved hclient)
      refine ⟨by simp, ?_⟩
      rw [run, hincoming, houtgoing]

theorem Apart.program (h : Apart A s) (hl : ∀ j, l ≠ .thread j)
    (hstep : ServersCore.step s.wrapper l = some w) : Apart A (programStep s l request w) := by
  have hkept := kept_step h.kept hstep
  cases effect_of_step hl hstep with
  | quiet haccepted hthreads hclosed hwaiting =>
    obtain ⟨ds, hclosed, hds⟩ := hclosed
    have haccepted' : w.accepted = s.wrapper.accepted ++ [] := by rw [haccepted, List.append_nil]
    have hthreads' : w.threads = s.wrapper.threads ++ [] := by rw [hthreads, List.append_nil]
    rw [programStep_eq haccepted' hclosed hthreads']
    simp only [unbind_invalid h.invalid hds, bind_nil, List.map_nil, List.append_nil]
    refine h.quiet hkept (fun j t ht => ⟨t, ?_, rfl, rfl⟩) (congrArg List.length hthreads) hwaiting
    rw [← hthreads]
    exact ht
  | mark j haccepted hthreads hclosed hwaiting =>
    have hlength : w.threads.length = s.wrapper.threads.length := by
      rw [hthreads, List.length_modify]
    -- no descriptor changes hands
    have hstate : programStep s l request w = { s with wrapper := w } := by
      unfold programStep
      rw [haccepted, hclosed, ← hlength]
      simp only [List.drop_length, unbind_nil, bind_nil, List.map_nil, List.append_nil]
    rw [hstate]
    refine h.quiet hkept (fun j' t ht => ?_) hlength fun fd _ => Nat.le_of_eq (hwaiting fd)
    rw [hthreads, List.getElem?_modify] at ht
    obtain ⟨t₀, ht₀, rfl⟩ := Option.map_eq_some_iff.mp ht
    refine ⟨t₀, ht₀, ?_⟩
    split
    · exact ⟨rfl, rfl⟩
    · exact ⟨rfl, rfl⟩
  | accept client hclient hfree haccepted hthreads hclosed hwaiting =>
    have hclosed' : w.closed = s.wrapper.closed ++ [] := by rw [hclosed, List.append_nil]
    have hthreads' : w.threads = s.wrapper.threads ++ [] := by rw [hthreads, List.append_nil]
    rw [programStep_eq haccepted hclosed' hthreads']
    simp only [unbind_nil, List.map_cons, List.map_nil, List.append_nil]
    exact h.accept hkept hclient hfree hthreads hwaiting
  | hand client haccepted hthreads hclosed hwaiting =>
    have haccepted' : w.accepted = s.wrapper.accepted ++ [] := by rw [haccepted, List.append_nil]
    have hclosed' : w.closed = s.wrapper.closed ++ [] := by rw [hclosed, List.append_nil]
    rw [programStep_eq haccepted' hclosed' hthreads]
    simp only [unbind_nil, bind_nil, List.map_cons, List.map_nil, List.append_nil]
    exact h.hand hkept hthreads hwaiting

end program

/-! ### Steps of the threads -/

section threads

variable {s s' : State P} {j : Nat}

/-- A thread gets its descriptor. -/
theorem Apart.start (h : Apart A s) (hstep : threadStep s j .started [] = some s') :
    Apart A s' := by
  unfold threadStep at hstep
  split at hstep
  · next t ht =>
    rw [Option.ite_none_right_eq_some] at hstep
    obtain ⟨hphase, hstep⟩ := hstep
    obtain ⟨w, hw, rfl⟩ := Option.map_eq_some_iff.mp hstep
    -- only the phase of the thread changes
    obtain ⟨t', ht', ⟨_, hw'⟩ | ⟨hphase', _⟩⟩ := threadStep_cases (step_eq_some hw).2
    · rw [ht] at ht'
      cases ht'
      have hkept := kept_step h.kept hw
      rw [unbind_nil]
      rw [hw'] at hkept ⊢
      refine
        { h with
          kept := hkept
          length := h.length.trans List.length_set.symm
          live := ?_ }
      intro j' t' w' ht' hw' hphase'
      rw [List.getElem?_set] at ht'
      split at ht'
      · next heq =>
        subst heq
        split at ht'
        · cases ht'
          exact h.live j t w' ht hw' (by rw [hphase]; simp)
        · cases ht'
      · exact h.live j' t' w' ht' hw' hphase'
    · rw [ht] at ht'
      cases ht'
      rw [hphase] at hphase'
      cases hphase'
  · cases hstep

/-- A thread closes its descriptor, which no other thread has. -/
theorem Apart.leave (h : Apart A s) {t : RequestThread} (ht : s.wrapper.threads[j]? = some t)
    (hstep : threadStep s j .owning [t.client] = some s') : Apart A s' := by
  unfold threadStep at hstep
  rw [ht] at hstep
  dsimp only at hstep
  rw [Option.ite_none_right_eq_some] at hstep
  obtain ⟨hphase, hstep⟩ := hstep
  obtain ⟨w, hw, rfl⟩ := Option.map_eq_some_iff.mp hstep
  have hkept := kept_step h.kept hw
  obtain ⟨t', ht', ⟨hphase', _⟩ | ⟨_, hw'⟩⟩ := threadStep_cases (step_eq_some hw).2
  · rw [ht] at ht'
    cases ht'
    rw [hphase] at hphase'
    cases hphase'
  · rw [ht] at ht'
    cases ht'
    rw [hw'] at hkept ⊢
    refine
      { kept := hkept
        length := h.length.trans List.length_set.symm
        bound := fun fd p hp => h.bound fd p (unbind_eq_some hp).2
        injective := fun fd fd' p hp hp' =>
          h.injective fd fd' p (unbind_eq_some hp).2 (unbind_eq_some hp').2
        invalid := unbind_eq_none h.invalid
        waiting := fun fd hfd p hp => h.waiting fd hfd p (unbind_eq_some hp).2
        live := ?_
        served := h.served, distinct := h.distinct, untouched := h.untouched, alone := h.alone }
    intro j' t' w' ht' hw' hphase'
    rw [List.getElem?_set] at ht'
    split at ht'
    · next heq =>
      -- the thread itself is done
      split at ht'
      · cases ht'
        exact absurd rfl hphase'
      · cases ht'
    · next hne =>
      rw [h.live j' t' w' ht' hw' hphase']
      dsimp only
      by_cases hclient : t'.client = t.client
      · by_cases hvalid : t.client = INVALID_SOCKET
        · rw [hclient, hvalid, h.invalid, unbind_eq_none h.invalid]
        · exact absurd (threads_apart h.kept ht ht' (by rw [hphase]; simp) hphase' hvalid hclient)
            hne
      · exact (unbind_of_not_mem (by simpa using hclient)).symm

/-- A worker behind a turn of the thread `j`. -/
theorem getElem?_setWorker {w₁ : Worker P} {j' : Nat} {w' : Worker P}
    (h : (s.workers.set j w₁)[j']? = some w') :
    (j' = j ∧ w' = w₁) ∨ (j' ≠ j ∧ s.workers[j']? = some w') := by
  rw [List.getElem?_set] at h
  split at h
  · next heq =>
    split at h
    · cases h
      exact Or.inl ⟨heq.symm, rfl⟩
    · cases h
  · next hne => exact Or.inr ⟨Ne.symm hne, h⟩

/-- A turn changes the thread's own client, and no other one. -/
theorem Apart.turn (h : Apart A s) {w : Worker P} (hw : s.workers[j]? = some w) (w₁ : Worker P)
    (hsame : w₁.client = w.client) {peers : List Peer} (hlength : peers.length = s.peers.length)
    (hothers : ∀ p, w.client ≠ some p → peers[p]? = s.peers[p]?)
    (hown : ∀ p peer, w.client = some p → peers[p]? = some peer →
      Talks P A w₁.server w₁.turns w₁.state peer) :
    Apart A { s with workers := s.workers.set j w₁, peers := peers } := by
  have hlt := (List.getElem?_eq_some_iff.mp hw).1
  -- threads keep their clients
  have hold : ∀ w' ∈ s.workers.set j w₁, ∃ w₀ ∈ s.workers, w'.client = w₀.client := by
    intro w' hw'
    rcases List.mem_or_eq_of_mem_set hw' with hw' | rfl
    · exact ⟨w', hw', rfl⟩
    · exact ⟨w, List.mem_of_getElem? hw, hsame⟩
  have hindex : ∀ {j' : Nat} {w' : Worker P}, (s.workers.set j w₁)[j']? = some w' →
      ∃ w₀, s.workers[j']? = some w₀ ∧ w'.client = w₀.client := by
    intro j' w' hw'
    rcases getElem?_setWorker hw' with ⟨rfl, rfl⟩ | ⟨_, hw'⟩
    · exact ⟨w, hw, hsame⟩
    · exact ⟨w', hw', rfl⟩
  have hnone : ∀ {p}, (∀ w' ∈ s.workers.set j w₁, w'.client ≠ some p) →
      ∀ w' ∈ s.workers, w'.client ≠ some p := by
    intro p hp w' hw' hclient
    obtain ⟨j', hj'⟩ := List.mem_iff_getElem?.mp hw'
    by_cases heq : j' = j
    · rw [heq, hw] at hj'
      cases hj'
      exact hp _ (List.mem_set hlt _) (hsame.trans hclient)
    · refine hp w' (List.mem_of_getElem? (i := j') ?_) hclient
      rw [List.getElem?_set_ne (Ne.symm heq)]
      exact hj'
  refine
    { h with
      length := List.length_set.trans h.length
      bound := ?_, waiting := ?_, live := ?_, served := ?_, distinct := ?_, untouched := ?_
      alone := ?_ }
  · intro fd p hp
    dsimp only
    rw [hlength]
    exact h.bound fd p hp
  · intro fd hfd p hp w' hw'
    obtain ⟨w₀, hw₀, hclient⟩ := hold w' hw'
    rw [hclient]
    exact h.waiting fd hfd p hp w₀ hw₀
  · intro j' t w' ht hw' hphase
    obtain ⟨w₀, hw₀, hclient⟩ := hindex hw'
    rw [hclient]
    exact h.live j' t w₀ ht hw₀ hphase
  · intro w' hw' p hp
    obtain ⟨w₀, hw₀, hclient⟩ := hold w' hw'
    rw [hclient] at hp
    dsimp only
    rw [hlength]
    exact h.served w₀ hw₀ p hp
  · intro j₁ j₂ w₁ w₂ p hw₁ hw₂ hp₁ hp₂
    obtain ⟨_, hw₁, hclient₁⟩ := hindex hw₁
    obtain ⟨_, hw₂, hclient₂⟩ := hindex hw₂
    exact h.distinct j₁ j₂ _ _ p hw₁ hw₂ (hclient₁ ▸ hp₁) (hclient₂ ▸ hp₂)
  · -- a client without a thread is not the one of this turn
    intro p peer hp hunserved
    have hbefore := hnone hunserved
    rw [show peers[p]? = _ from hothers p (hbefore w (List.mem_of_getElem? hw))] at hp
    exact h.untouched p peer hp hbefore
  · intro w' hw' p peer hclient hp
    obtain ⟨j', hj'⟩ := List.mem_iff_getElem?.mp hw'
    rcases getElem?_setWorker hj' with ⟨rfl, rfl⟩ | ⟨hne, hj'⟩
    · exact hown p peer (hsame.symm.trans hclient) hp
    · have hother : w.client ≠ some p := fun heq => hne (h.distinct _ _ _ _ p hj' hw hclient heq)
      rw [show peers[p]? = _ from hothers p hother] at hp
      exact h.alone w' (List.mem_of_getElem? hj') p peer hclient hp

theorem Apart.serve (h : Apart A s) {l : P.Label} (hl : A l)
    (hstep : serveStep s j l = some s') : Apart A s' := by
  unfold serveStep at hstep
  split at hstep
  · next t w ht hw =>
    rw [Option.ite_none_right_eq_some] at hstep
    obtain ⟨hphase, hstep⟩ := hstep
    have hclient := h.live j t w ht hw (by rw [hphase]; simp)
    split at hstep
    · -- a descriptor that stands for nobody, so no client is involved
      next hnone =>
      obtain ⟨r, _, rfl⟩ := Option.map_eq_some_iff.mp hstep
      rw [hnone] at hclient
      refine h.turn hw { w with state := r.1, turns := w.turns ++ [P.badDescriptor l] } rfl rfl
        (fun _ _ => rfl) fun p peer hp => ?_
      rw [hclient] at hp
      cases hp
    · next p hp =>
      obtain ⟨peer, hpeer, hstep⟩ := Option.bind_eq_some_iff.mp hstep
      obtain ⟨r, hr, rfl⟩ := Option.map_eq_some_iff.mp hstep
      rw [hp] at hclient
      refine h.turn hw { w with state := r.1, turns := w.turns ++ [l] } rfl List.length_set
        (fun p' hp' => ?_) fun p' peer' hp' hpeer' => ?_
      · rw [hclient] at hp'
        exact List.getElem?_set_ne fun heq => hp' (by rw [heq])
      · rw [hclient] at hp'
        cases hp'
        rw [List.getElem?_set_self (List.getElem?_eq_some_iff.mp hpeer).1] at hpeer'
        cases hpeer'
        obtain ⟨hturns, hrun⟩ := h.alone w (List.mem_of_getElem? hw) p peer hclient hpeer
        refine ⟨?_, run_snoc hrun ?_⟩
        · rw [List.forall_mem_append]
          exact ⟨hturns, by simpa using hl⟩
        · rw [Protocol.alone, hr]
          rfl
  · cases hstep

end threads

/-! ### Runs -/

/-- What becomes of a client. -/
theorem Apart.client {s : State P} (h : Apart A s) {p : Nat} {peer : Peer}
    (hp : s.peers[p]? = some peer) : Untouched s p peer ∨ ∃ j w, Served A s p peer j w := by
  by_cases hserved : ∃ w ∈ s.workers, w.client = some p
  · obtain ⟨w, hw, hclient⟩ := hserved
    obtain ⟨j, hj⟩ := List.mem_iff_getElem?.mp hw
    exact Or.inr ⟨j, w, hj, hclient,
      fun j' w' hj' hclient' => h.distinct j' j w' w p hj' hj hclient' hclient,
      h.alone w hw p peer hclient hp⟩
  · have hunserved : ∀ w ∈ s.workers, w.client ≠ some p :=
      fun w hw hclient => hserved ⟨w, hw, hclient⟩
    obtain ⟨hincoming, houtgoing⟩ := h.untouched p peer hp hunserved
    exact Or.inl ⟨hincoming, houtgoing, hunserved⟩

/-- A server that sends back what it receives. -/
def echo : Protocol where
  State := Bool
  Label := Unit
  init _ := false
  step _ incoming _ := some (true, [], incoming)
  badDescriptor := id
  left := id

/-- The clients loop up to the thread that it creates for its client. -/
def turn : List (Label echo) :=
  [.program (.poller 0 .lock) [], .program (.poller 0 .read) [],
    .program (.poller 0 (.poll (.ready [⟨true, false⟩]))) [], .program (.poller 0 .iterate) []]

end ServersCore.Peers
