import JsonRpcServer.Framework.Counting
import JsonRpcServer.ServersCore.Locks

/-! # Owners of Client Descriptors

  A descriptor from `accept` goes into the array of its server, from there
  to a request thread, and is closed when `processRequest` is left.

  On its way from `accept` to the end of `emplace_back` it is the servers
  loop's, and from the marking of its entry to the `socket_ptr` it is the
  thread's. A thread that is created has only its number until the entry is
  marked.

  * `owned_of_guarded`: what `accept` has returned is what the arrays and
    the threads own and what has been closed, and no descriptor has two
    owners, as long as no client hangs up without input, every array is
    erased as a whole and by one thread, no thread takes its descriptor
    before its entry is marked, and `accept` does not return 0 and finds its
    server.
-/

namespace ServersCore

open System Counting

/-! ### Owners -/

/-- The entries of an array with this descriptor. -/
def entries (clients_fds : List AutoClosedSocketFd) (fd : Int) : Nat :=
  clients_fds.countP fun e => e.fd = fd

/-- The entries with this descriptor in all arrays. -/
def inArrays (clients_map_ : List Clients) (fd : Int) : Nat :=
  (clients_map_.map fun c => entries c.clients_fds fd).sum

/-- The client that is on its way into an array. -/
def Acceptor.carries (fd : Int) : Acceptor → Nat
  | .unlocked | .locked | .scanning _ _ _ => 0
  | .appending _ client_fd _ _ _ => if client_fd.fd = fd then 1 else 0

/-- The thread has taken this descriptor from its entry, or put it into its
    `socket_ptr`, and has not closed it. -/
def RequestThread.Holds (t : RequestThread) (fd : Int) : Prop :=
  t.client = fd ∧ (t.phase = .started ∧ t.marked = true ∨ t.phase = .owning)

instance (t : RequestThread) (fd : Int) : Decidable (t.Holds fd) :=
  inferInstanceAs (Decidable (_ ∧ _))

def inThreads (threads : List RequestThread) (fd : Int) : Nat :=
  threads.countP fun t => t.Holds fd

/-- The owners of a descriptor. -/
def State.owners (s : State) (fd : Int) : Nat :=
  inArrays s.clients_map_ fd + s.acceptor.carries fd + inThreads s.threads fd

/-- Every descriptor is owned once or closed, as often as it was returned,
    and is owned once at most. -/
structure Owned (s : State) : Prop where
  defined : s.fate ≠ .undefined
  once : ∀ fd, fd ≠ INVALID_SOCKET → s.owners fd ≤ 1
  conserved : ∀ fd, fd ≠ INVALID_SOCKET →
    s.owners fd + s.closed.count fd = s.accepted.count fd

/-! ### Steps that hand over -/

/-- A client is stored: its descriptor is not 0 and its server is found. At
    the end of an iteration the last entry is marked if any is to be
    erased. -/
def StoresClient (s : State) (client : Int) : Acceptor → Prop
  | .unlocked | .locked | .appending _ _ _ _ _ => True
  | .scanning i revents invalid_server =>
      (s.servers_.length ≤ i → invalid_server = true →
        ∀ e ∈ s.servers_.getLast?, marked e = true) ∧
        ∀ x ∈ s.servers_[i]?, (revent revents i).pollin = true →
          client ≠ 0 ∧ (0 < client → x.fd ∈ s.keys)

/-- The client of the next entry has not hung up without input. -/
def Poller.HasInput : Poller → Prop
  | .iterating i _ revents _ =>
      (revents.getD i ⟨false, false⟩).pollhup = true →
        (revents.getD i ⟨false, false⟩).pollin = true
  | .unlocked | .locked | .polling _ | .marking _ _ _ _ | .erasing => True

/-- The step loses no client: none hangs up without input, an array from
    which entries are erased has no other entries, and a thread takes its
    descriptor after its entry was marked. -/
def PassesOn (s : State) : Label → Prop
  | .acceptor (.accept client) => StoresClient s client s.acceptor
  | .poller k .iterate => ∀ c ∈ s.clients_map_[k]?, c.poller.HasInput
  | .poller k .erase =>
      ∀ c ∈ s.clients_map_[k]?, c.poller = .erasing → ∀ e ∈ c.clients_fds, marked e = true
  | .thread j => ∀ t ∈ s.threads[j]?, t.phase = .started → t.marked = true
  | _ => True

/-- What the steps have to meet for every descriptor to keep an owner. -/
def HandsOver (s : State) (l : Label) : Prop := PassesOn s l ∧ Spares s l

instance (s : State) (client : Int) : ∀ a, Decidable (StoresClient s client a)
  | .unlocked | .locked | .appending _ _ _ _ _ => .isTrue trivial
  | .scanning _ _ _ => inferInstanceAs (Decidable (_ ∧ _))

instance : ∀ p : Poller, Decidable p.HasInput
  | .iterating _ _ _ _ => inferInstanceAs (Decidable (_ → _))
  | .unlocked | .locked | .polling _ | .marking _ _ _ _ | .erasing => .isTrue trivial

instance (s : State) : ∀ l, Decidable (PassesOn s l)
  | .acceptor (.accept client) => inferInstanceAs (Decidable (StoresClient s client s.acceptor))
  | .poller k .iterate => inferInstanceAs (Decidable (∀ c ∈ s.clients_map_[k]?, c.poller.HasInput))
  | .poller k .erase =>
      inferInstanceAs (Decidable (∀ c ∈ s.clients_map_[k]?, c.poller = .erasing →
        ∀ e ∈ c.clients_fds, marked e = true))
  | .thread j =>
      inferInstanceAs (Decidable (∀ t ∈ s.threads[j]?, t.phase = .started → t.marked = true))
  | .addOneServer _ _ | .destroy _ | .acceptor .lock | .acceptor (.poll _) | .acceptor .appended
  | .poller _ .lock | .poller _ .read | .poller _ (.poll _) | .poller _ .mark => .isTrue trivial

instance (s : State) (l : Label) : Decidable (HandsOver s l) :=
  inferInstanceAs (Decidable (_ ∧ _))

theorem owned_init : Owned init where
  defined := nofun
  once _ _ := Nat.zero_le _
  conserved _ _ := rfl

/-! ### Counting owners -/

theorem entries_snoc (clients_fds : List AutoClosedSocketFd) (e : AutoClosedSocketFd) (fd : Int) :
    entries (clients_fds ++ [e]) fd = entries clients_fds fd + if e.fd = fd then 1 else 0 := by
  unfold entries
  rw [countP_snoc, worth_decide]

/-- Marking an entry takes its descriptor away. -/
theorem entries_mark {c : Clients} {i : Nat} {x : AutoClosedSocketFd}
    (h : c.clients_fds[i]? = some x) {fd : Int} (hfd : fd ≠ INVALID_SOCKET) :
    entries (c.mark i).clients_fds fd + (if x.fd = fd then 1 else 0) =
      entries c.clients_fds fd := by
  have hset : (c.mark i).clients_fds = c.clients_fds.set i { x with fd := INVALID_SOCKET } := by
    unfold Clients.mark
    dsimp only
    rw [List.modify_eq_set_getElem?, h]
    rfl
  have hcount := countP_set_add h { x with fd := INVALID_SOCKET } fun e => e.fd = fd
  rw [worth_decide, worth_decide, if_neg (Ne.symm hfd)] at hcount
  unfold entries
  rw [hset]
  exact hcount

/-- Erasing from an array with marked entries only. -/
theorem entries_marked {fds : List AutoClosedSocketFd} (h : ∀ e ∈ fds, marked e = true) {fd : Int}
    (hfd : fd ≠ INVALID_SOCKET) : entries fds fd = 0 := by
  unfold entries
  rw [List.countP_eq_zero]
  intro e he
  have hinvalid : e.fd = INVALID_SOCKET := by simpa [marked] using h e he
  simpa [hinvalid] using hfd.symm

theorem count_snoc (fds : List Int) (d fd : Int) :
    (fds ++ [d]).count fd = fds.count fd + if d = fd then 1 else 0 := by
  rw [List.count_append, List.count_singleton]
  simp

theorem inArrays_set {clients_map_ : List Clients} {k : Nat} {c : Clients}
    (h : clients_map_[k]? = some c) (c' : Clients) (fd : Int) :
    inArrays (clients_map_.set k c') fd + entries c.clients_fds fd =
      inArrays clients_map_ fd + entries c'.clients_fds fd :=
  sum_set_add h c' fun c => entries c.clients_fds fd

theorem inThreads_set {threads : List RequestThread} {j : Nat} {t : RequestThread}
    (h : threads[j]? = some t) (t' : RequestThread) (fd : Int) :
    inThreads (threads.set j t') fd + (if t.Holds fd then 1 else 0) =
      inThreads threads fd + if t'.Holds fd then 1 else 0 := by
  have hcount := countP_set_add h t' fun t => t.Holds fd
  rw [worth_decide, worth_decide] at hcount
  exact hcount

/-- A thread that is created owns nothing yet. -/
theorem inThreads_started (threads : List RequestThread) (client fd : Int) :
    inThreads (threads ++ [⟨client, .started, false⟩]) fd = inThreads threads fd := by
  unfold inThreads
  rw [countP_snoc, worth_decide]
  simp [RequestThread.Holds]

/-- The entry of a thread that waits for its descriptor is marked. -/
theorem inThreads_marked {threads : List RequestThread} {j : Nat} {client : Int}
    (h : threads[j]? = some ⟨client, .started, false⟩) (fd : Int) :
    inThreads (threads.modify j fun t => { t with marked := true }) fd =
      inThreads threads fd + if client = fd then 1 else 0 := by
  have hset : (threads.modify j fun t => { t with marked := true }) =
      threads.set j ⟨client, .started, true⟩ := by
    rw [List.modify_eq_set_getElem?, h]
    rfl
  have hcount := inThreads_set h ⟨client, .started, true⟩ fd
  rw [hset]
  simpa [RequestThread.Holds] using hcount

/-- A step that accepts nothing, and closes what loses its owner. -/
theorem Owned.of_owners {s s' : State} (h : Owned s) (hdefined : s'.fate ≠ .undefined)
    (haccepted : s'.accepted = s.accepted)
    (howners : ∀ fd, fd ≠ INVALID_SOCKET →
      s'.owners fd + s'.closed.count fd = s.owners fd + s.closed.count fd ∧
        s'.owners fd ≤ s.owners fd) : Owned s' where
  defined := hdefined
  once fd hfd := Nat.le_trans (howners fd hfd).2 (h.once fd hfd)
  conserved fd hfd := by
    rw [(howners fd hfd).1, haccepted]
    exact h.conserved fd hfd

/-- Steps in which every descriptor has as many owners as before. -/
theorem Owned.of_eq {s s' : State} (h : Owned s) (hdefined : s'.fate ≠ .undefined)
    (haccepted : s'.accepted = s.accepted) (hclosed : s'.closed = s.closed)
    (howners : ∀ fd, fd ≠ INVALID_SOCKET → s'.owners fd = s.owners fd) : Owned s' :=
  h.of_owners hdefined haccepted fun fd hfd => by
    rw [hclosed, howners fd hfd]
    exact ⟨rfl, Nat.le_refl _⟩

/-- Closing entries that own nothing does not count. -/
theorem count_append_invalid {closed ds : List Int} (hds : ∀ d ∈ ds, d = INVALID_SOCKET)
    {fd : Int} (hfd : fd ≠ INVALID_SOCKET) : (closed ++ ds).count fd = closed.count fd := by
  have hzero : ds.count fd = 0 := by
    rw [List.count_eq_zero]
    exact fun hmem => hfd (hds fd hmem)
  rw [List.count_append, hzero, Nat.add_zero]

/-! ### Entries that are being marked -/

/-- The thread that has been created for the next entry, and the entry. -/
def Poller.marks? : Poller → Option (Nat × Nat)
  | .marking j i _ _ => some (j, i)
  | .unlocked | .locked | .polling _ | .iterating _ _ _ _ | .erasing => none

/-- An entry that is marked next belongs to a thread of its own, which has
    not gone on. -/
structure Linked (s : State) : Prop where
  entry : ∀ (k : Nat) (c : Clients) (j i : Nat), s.clients_map_[k]? = some c →
    c.poller.marks? = some (j, i) → ∃ x, c.clients_fds[i]? = some x ∧
      s.threads[j]? = some ⟨x.fd, .started, false⟩
  distinct : ∀ (k k' : Nat) (c c' : Clients) (j i i' : Nat), s.clients_map_[k]? = some c →
    s.clients_map_[k']? = some c' → c.poller.marks? = some (j, i) →
      c'.poller.marks? = some (j, i') → k = k'

theorem linked_init : Linked init where
  entry _ _ _ _ h := by cases h
  distinct _ _ _ _ _ _ _ h := by cases h

/-- Other steps than those of a clients loop keep the entries and their
    threads. -/
theorem Linked.of_eq {s s' : State} (h : Linked s)
    (hmap : ∀ (k : Nat) (c' : Clients), s'.clients_map_[k]? = some c' → c'.poller.marks? = none ∨
      ∃ c, s.clients_map_[k]? = some c ∧ c'.poller = c.poller ∧
        ∀ (i : Nat) (x : AutoClosedSocketFd), c.clients_fds[i]? = some x →
          c'.clients_fds[i]? = some x)
    (hthreads : ∀ (j : Nat) (fd : Int), s.threads[j]? = some ⟨fd, .started, false⟩ →
      s'.threads[j]? = some ⟨fd, .started, false⟩) : Linked s' where
  entry k c' j i hc' hmarks := by
    rcases hmap k c' hc' with hnone | ⟨c, hc, hpoller, hfds⟩
    · rw [hnone] at hmarks
      cases hmarks
    · rw [hpoller] at hmarks
      obtain ⟨x, hx, ht⟩ := h.entry k c j i hc hmarks
      exact ⟨x, hfds i x hx, hthreads j x.fd ht⟩
  distinct k k' c c' j i i' hc hc' hmarks hmarks' := by
    rcases hmap k c hc with hnone | ⟨c₁, hc₁, hpoller, _⟩
    · rw [hnone] at hmarks
      cases hmarks
    · rcases hmap k' c' hc' with hnone' | ⟨c₂, hc₂, hpoller', _⟩
      · rw [hnone'] at hmarks'
        cases hmarks'
      · exact h.distinct k k' c₁ c₂ j i i' hc₁ hc₂ (hpoller ▸ hmarks) (hpoller' ▸ hmarks')

/-- A clients loop that marks no entry next. -/
theorem Linked.set {s s' : State} {k : Nat} {c c' : Clients} (h : Linked s)
    (hc : s.clients_map_[k]? = some c) (hmap : s'.clients_map_ = s.clients_map_.set k c')
    (hnone : c'.poller.marks? = none)
    (hthreads : ∀ (j : Nat) (fd : Int), (∀ i, c.poller.marks? ≠ some (j, i)) →
      s.threads[j]? = some ⟨fd, .started, false⟩ → s'.threads[j]? = some ⟨fd, .started, false⟩) :
    Linked s' := by
  have hget : ∀ {k' d}, s'.clients_map_[k']? = some d →
      d.poller.marks? = none ∨ k ≠ k' ∧ s.clients_map_[k']? = some d := by
    intro k' d hd
    rw [hmap] at hd
    rcases getElem?_setClients hc hd with ⟨_, rfl⟩ | hd
    · exact Or.inl hnone
    · exact Or.inr hd
  constructor
  · intro k' d j i hd hmarks
    rcases hget hd with hd | ⟨hne, hd⟩
    · rw [hd] at hmarks
      cases hmarks
    · -- another loop marks for another thread, which is kept
      obtain ⟨x, hx, ht⟩ := h.entry k' d j i hd hmarks
      exact ⟨x, hx, hthreads j x.fd (fun i' hi' => hne (h.distinct _ _ _ _ _ _ _ hc hd hi' hmarks))
        ht⟩
  · intro k₁ k₂ d₁ d₂ j i i' hd₁ hd₂ hmarks₁ hmarks₂
    rcases hget hd₁ with hd₁ | ⟨_, hd₁⟩
    · rw [hd₁] at hmarks₁
      cases hmarks₁
    · rcases hget hd₂ with hd₂ | ⟨_, hd₂⟩
      · rw [hd₂] at hmarks₂
        cases hmarks₂
      · exact h.distinct _ _ _ _ _ _ _ hd₁ hd₂ hmarks₁ hmarks₂

/-- A thread is created for the entry `x`. -/
theorem Linked.hand {s s' : State} {k i : Nat} {c c' : Clients} {x : AutoClosedSocketFd}
    (h : Linked s) (hc : s.clients_map_[k]? = some c)
    (hmap : s'.clients_map_ = s.clients_map_.set k c') (hx : c'.clients_fds[i]? = some x)
    (hmarks : c'.poller.marks? = some (s.threads.length, i))
    (hthreads : s'.threads = s.threads ++ [⟨x.fd, .started, false⟩]) : Linked s' := by
  have hget : ∀ {k' d}, s'.clients_map_[k']? = some d →
      k = k' ∧ d = c' ∨ k ≠ k' ∧ s.clients_map_[k']? = some d := by
    intro k' d hd
    rw [hmap] at hd
    exact getElem?_setClients hc hd
  -- the thread is a new one
  have hold : ∀ {k' : Nat} {d : Clients} {j i' : Nat}, s.clients_map_[k']? = some d →
      d.poller.marks? = some (j, i') → j < s.threads.length := by
    intro k' d j i' hd hd'
    obtain ⟨y, _, ht⟩ := h.entry k' d j i' hd hd'
    exact (List.getElem?_eq_some_iff.mp ht).1
  constructor
  · intro k' d j i' hd hd'
    rw [hthreads]
    rcases hget hd with ⟨_, rfl⟩ | ⟨_, hd⟩
    · rw [hmarks] at hd'
      cases hd'
      exact ⟨x, hx, by simp⟩
    · obtain ⟨y, hy, ht⟩ := h.entry k' d j i' hd hd'
      exact ⟨y, hy, by rw [List.getElem?_append_left (hold hd hd'), ht]⟩
  · intro k₁ k₂ d₁ d₂ j i₁ i₂ hd₁ hd₂ hm₁ hm₂
    rcases hget hd₁ with ⟨rfl, rfl⟩ | ⟨_, hd₁⟩
    · rcases hget hd₂ with ⟨rfl, rfl⟩ | ⟨_, hd₂⟩
      · rfl
      · rw [hmarks] at hm₁
        cases hm₁
        exact absurd (hold hd₂ hm₂) (Nat.lt_irrefl _)
    · rcases hget hd₂ with ⟨rfl, rfl⟩ | ⟨_, hd₂⟩
      · rw [hmarks] at hm₂
        cases hm₂
        exact absurd (hold hd₁ hm₁) (Nat.lt_irrefl _)
      · exact h.distinct _ _ _ _ _ _ _ hd₁ hd₂ hm₁ hm₂

/-! ### Main thread -/

theorem inArrays_tryEmplace (clients_map_ : List Clients) (server_socket_ fd : Int) :
    inArrays (tryEmplace clients_map_ server_socket_) fd = inArrays clients_map_ fd := by
  unfold tryEmplace
  split
  · rfl
  · unfold inArrays
    rw [List.map_append, List.sum_append]
    rfl

/-- What a run keeps: the owners, and who waits for which entry. -/
structure Tracked (s : State) : Prop where
  owned : Owned s
  linked : Linked s

theorem tracked_init : Tracked init := ⟨owned_init, linked_init⟩

/-- Steps that move no descriptor. -/
theorem Tracked.of_eq {s s' : State} (h : Tracked s) (hdefined : s'.fate ≠ .undefined)
    (haccepted : s'.accepted = s.accepted) (harrays : s'.clients_map_ = s.clients_map_)
    (hcarries : ∀ fd, s'.acceptor.carries fd = s.acceptor.carries fd)
    (hthreads : s'.threads = s.threads) (hclosed : s'.closed = s.closed) : Tracked s' where
  owned := h.owned.of_eq hdefined haccepted hclosed fun fd _ => by
    unfold State.owners
    rw [harrays, hcarries, hthreads]
  linked := h.linked.of_eq
    (fun k c' hc' => Or.inr ⟨c', harrays ▸ hc', rfl, fun _ _ hx => hx⟩)
    fun j fd ht => by rw [hthreads, ht]

/-- A new server has no clients. -/
theorem tracked_addOneServer {s : State} (h : Tracked s) (server : WebServer) (listens : Bool) :
    Tracked (addOneServer s server listens) := by
  unfold addOneServer
  split
  · exact h
  · dsimp only
    split
    · exact h.of_eq h.owned.defined rfl rfl (fun _ => rfl) rfl rfl
    · refine ⟨h.owned.of_eq h.owned.defined rfl rfl fun fd _ => ?_, h.linked.of_eq ?_ ?_⟩
      · unfold State.owners
        dsimp only
        rw [inArrays_tryEmplace]
      · -- a new clients loop has not begun
        intro k c' hc'
        dsimp only at hc'
        unfold tryEmplace at hc'
        split at hc'
        · exact Or.inr ⟨c', hc', rfl, fun _ _ hx => hx⟩
        · rw [List.getElem?_append] at hc'
          split at hc'
          · exact Or.inr ⟨c', hc', rfl, fun _ _ hx => hx⟩
          · rw [List.getElem?_singleton, Option.ite_none_right_eq_some] at hc'
            rw [← Option.some.inj hc'.2]
            exact Or.inl rfl
      · exact fun _ _ ht => ht

/-! ### Servers loop -/

/-- Between two entries the servers loop carries nothing. -/
theorem tracked_advance {s : State} (h : Tracked s) (hcarries : ∀ fd, s.acceptor.carries fd = 0)
    (i : Nat) (x : AutoClosedSocketFd) (revents : List ServerRevents) (invalid_server : Bool) :
    Tracked (advance s i x revents invalid_server) := by
  unfold advance
  split
  · exact h.of_eq h.owned.defined rfl rfl (fun fd => (hcarries fd).symm) rfl rfl
  · exact h.of_eq h.owned.defined rfl rfl (fun fd => (hcarries fd).symm) rfl rfl

/-- The cleanup of `servers_` closes no descriptor of a client. -/
theorem tracked_finishScan {s : State} (h : Tracked s)
    (hcarries : ∀ fd, s.acceptor.carries fd = 0) {invalid_server : Bool}
    (hlast : invalid_server = true → ∀ e ∈ s.servers_.getLast?, marked e = true) :
    Tracked (finishScan s invalid_server) := by
  unfold finishScan
  split
  · next hinvalid =>
    obtain ⟨closed, hclean, hclosed⟩ := (serversCleanup_cleans_iff s.servers_).mpr (hlast hinvalid)
    rw [hclean]
    refine ⟨h.owned.of_owners h.owned.defined rfl fun fd hfd => ?_, ⟨h.linked.entry,
      h.linked.distinct⟩⟩
    unfold State.owners
    dsimp only
    rw [count_append_invalid hclosed hfd, hcarries fd]
    exact ⟨rfl, Nat.le_refl _⟩
  · exact h.of_eq h.owned.defined rfl rfl (fun fd => (hcarries fd).symm) rfl rfl

/-- A new descriptor is on its way into the array of its server. -/
theorem tracked_begins {s : State} (h : Tracked s) (hcarries : ∀ fd, s.acceptor.carries fd = 0)
    {client : Int} (hpos : 0 < client) (hnew : ¬ s.InUse client) {k : Nat}
    (hspares : reallocates s k = false) (i : Nat) (revents : List ServerRevents)
    (invalid_server : Bool) :
    Tracked (beginAppend { s with accepted := s.accepted ++ [client] } k ⟨client, POLLIN⟩ i revents
      invalid_server) := by
  have hfate : (beginAppend { s with accepted := s.accepted ++ [client] } k ⟨client, POLLIN⟩ i
      revents invalid_server).fate = s.fate := if_neg (by
    rw [Bool.not_eq_true]
    exact hspares)
  have howners : ∀ fd, (beginAppend { s with accepted := s.accepted ++ [client] } k
      ⟨client, POLLIN⟩ i revents invalid_server).owners fd =
        s.owners fd + if client = fd then 1 else 0 := by
    intro fd
    show inArrays s.clients_map_ fd + (if client = fd then 1 else 0) + inThreads s.threads fd = _
    unfold State.owners
    rw [hcarries fd]
    omega
  have haccepted := count_snoc s.accepted client
  -- nobody owns a descriptor that is not open
  have hfree : s.owners client = 0 := by
    have hconserved := h.owned.conserved client (by unfold INVALID_SOCKET; omega)
    have hclosed : s.accepted.count client = s.closed.count client := not_not.mp hnew
    omega
  refine ⟨⟨?_, fun fd hfd => ?_, fun fd hfd => ?_⟩, ⟨h.linked.entry, h.linked.distinct⟩⟩
  · rw [hfate]
    exact h.owned.defined
  · have hone := h.owned.once fd hfd
    rw [howners fd]
    split
    · next heq =>
      rw [heq] at hfree
      omega
    · omega
  · have hconserved := h.owned.conserved fd hfd
    rw [howners fd]
    show s.owners fd + _ + s.closed.count fd = (s.accepted ++ [client]).count fd
    rw [haccepted]
    omega

/-- The entry gets what the servers loop has carried. -/
theorem tracked_appended {s : State} (h : Tracked s) {k i : Nat} {client_fd x : AutoClosedSocketFd}
    {revents : List ServerRevents} {invalid_server : Bool} {c : Clients}
    (hpc : s.acceptor = .appending k client_fd i revents invalid_server)
    (hc : s.clients_map_[k]? = some c) :
    Tracked (advance (s.setClients k (c.append client_fd)) i x revents invalid_server) := by
  -- first the entry, then the rest of the turn as for any other entry
  have hstate : Tracked { s.setClients k (c.append client_fd) with
      acceptor := .scanning i revents invalid_server } := by
    refine ⟨h.owned.of_eq h.owned.defined rfl rfl fun fd _ => ?_, h.linked.of_eq ?_
      fun _ _ ht => ht⟩
    · have harray := inArrays_set hc (c.append client_fd) fd
      have hentry := entries_snoc c.clients_fds client_fd fd
      have hcarried : s.acceptor.carries fd = if client_fd.fd = fd then 1 else 0 := by
        rw [hpc]
        rfl
      unfold State.owners
      rw [hcarried]
      show inArrays (s.clients_map_.set k (c.append client_fd)) fd + 0 + inThreads s.threads fd = _
      dsimp only [Clients.append] at harray ⊢
      omega
    · intro k' c' hc'
      rcases getElem?_setClients hc hc' with ⟨rfl, rfl⟩ | ⟨_, hc'⟩
      · refine Or.inr ⟨c, hc, rfl, fun i' y hy => ?_⟩
        exact (List.getElem?_append_left (List.getElem?_eq_some_iff.mp hy).1).trans hy
      · exact Or.inr ⟨c', hc', rfl, fun _ _ hy => hy⟩
  have hsame : advance (s.setClients k (c.append client_fd)) i x revents invalid_server =
      advance { s.setClients k (c.append client_fd) with
        acceptor := .scanning i revents invalid_server } i x revents invalid_server := by
    unfold advance
    rfl
  rw [hsame]
  exact tracked_advance hstate (fun _ => rfl) i x revents invalid_server

/-- What the condition says of an iteration. -/
theorem stores_of_passesOn {s : State} {client : Int} {i : Nat} {revents : List ServerRevents}
    {invalid_server : Bool} (hl : PassesOn s (.acceptor (.accept client)))
    (hpc : s.acceptor = .scanning i revents invalid_server) :
    StoresClient s client (.scanning i revents invalid_server) := by
  rw [← hpc]
  exact hl

theorem tracked_acceptor {s s' : State} {e : AcceptorStep} (hs : Tracked s)
    (hl : HandsOver s (.acceptor e)) (h : AcceptorMoves s e s') : Tracked s' := by
  have hcarries : (∀ k e i revents invalid_server,
      s.acceptor ≠ .appending k e i revents invalid_server) →
        ∀ fd, s.acceptor.carries fd = 0 := by
    intro hpc fd
    cases ha : s.acceptor with
    | appending k e i revents invalid_server => exact absurd ha (hpc k e i revents invalid_server)
    | unlocked | locked | scanning => rfl
  cases h with
  | lock hpc | timeout hpc | ready hpc =>
    refine hs.of_eq hs.owned.defined rfl rfl (fun fd => ?_) rfl rfl
    rw [hpc]
    rfl
  | error hpc => exact hs.of_eq nofun rfl rfl (fun _ => rfl) rfl rfl
  | finish hpc hi =>
    have hstores := stores_of_passesOn hl.1 hpc
    exact tracked_finishScan hs (hcarries fun _ _ _ _ _ => by rw [hpc]; nofun) (hstores.1 hi)
  | pass hpc => exact tracked_advance hs (hcarries fun _ _ _ _ _ => by rw [hpc]; nofun) _ _ _ _
  | zero hpc hx hpollin =>
    -- nobody would close descriptor 0
    have hstores := stores_of_passesOn hl.1 hpc
    exact absurd rfl (hstores.2 _ hx hpollin).1
  | lost hpc hx hpollin hpos hnew hserver =>
    -- the exception would leave the descriptor behind
    have hstores := stores_of_passesOn hl.1 hpc
    exact absurd ((hstores.2 _ hx hpollin).2 hpos) ((findServer_eq_none_iff _ _).mp hserver)
  | begins hpc hx hpollin hpos hnew hserver =>
    have htarget := (target_of_scanning hpc hx hpollin hpos).trans hserver
    exact tracked_begins hs (hcarries fun _ _ _ _ _ => by rw [hpc]; nofun) hpos hnew
      (hl.2 _ htarget) _ _ _
  | appended hpc hc => exact tracked_appended hs hpc hc

/-! ### Clients loops -/

/-- A step of a clients loop that moves no descriptor. -/
theorem tracked_setClients {s s' : State} {k : Nat} {c c' : Clients} (h : Tracked s)
    (hstate : s' = s.setClients k c') (hc : s.clients_map_[k]? = some c)
    (hfds : c'.clients_fds = c.clients_fds) (hnone : c'.poller.marks? = none) : Tracked s' := by
  rw [hstate]
  refine ⟨h.owned.of_eq h.owned.defined rfl rfl fun fd _ => ?_,
    h.linked.set hc rfl hnone fun _ _ _ ht => ht⟩
  have harray := inArrays_set hc c' fd
  rw [hfds] at harray
  show inArrays (s.clients_map_.set k c') fd + s.acceptor.carries fd + inThreads s.threads fd = _
  unfold State.owners
  omega

/-- A thread is created for an entry, which keeps the descriptor. -/
theorem tracked_hand {s : State} (h : Tracked s) {k i last : Nat} {c : Clients}
    {x : AutoClosedSocketFd} {revents : List ClientRevents} (hc : s.clients_map_[k]? = some c)
    (hx : c.clients_fds[i]? = some x) :
    Tracked { s.setClients k { c with poller := .marking s.threads.length i last revents } with
      threads := s.threads ++ [⟨x.fd, .started, false⟩] } := by
  refine ⟨h.owned.of_eq h.owned.defined rfl rfl fun fd _ => ?_, h.linked.hand hc rfl hx rfl rfl⟩
  have harray := inArrays_set hc { c with poller := .marking s.threads.length i last revents } fd
  unfold State.owners State.setClients
  dsimp only at harray ⊢
  rw [inThreads_started]
  omega

/-- The thread gets what the entry had. -/
theorem tracked_mark {s : State} (h : Tracked s) {k j i last : Nat} {c : Clients}
    {revents : List ClientRevents} (hc : s.clients_map_[k]? = some c)
    (hpc : c.poller = .marking j i last revents) :
    Tracked { s.setClients k { c.mark i with poller := .iterating (i + 1) last revents true } with
      threads := s.threads.modify j fun t => { t with marked := true } } := by
  obtain ⟨x, hx, ht⟩ := h.linked.entry k c j i hc (by rw [hpc]; rfl)
  refine ⟨h.owned.of_eq h.owned.defined rfl rfl fun fd hfd => ?_, h.linked.set hc rfl rfl ?_⟩
  · have harray := inArrays_set hc
      { c.mark i with poller := .iterating (i + 1) last revents true } fd
    have hentry := entries_mark hx hfd
    unfold State.owners State.setClients
    dsimp only at harray ⊢
    rw [inThreads_marked ht]
    omega
  · intro j' fd hother ht'
    have hne : j ≠ j' := fun heq => hother i (by rw [hpc, heq]; rfl)
    exact (List.getElem?_modify_ne _ _ hne).trans ht'

/-- Erasing from an array that is erased as a whole. -/
theorem tracked_erased {s : State} (h : Tracked s) {k : Nat} {c : Clients}
    {fds : List AutoClosedSocketFd} {closed : Int} (hc : s.clients_map_[k]? = some c)
    (hpc : c.poller = .erasing) (hmarked : ∀ e ∈ c.clients_fds, marked e = true)
    (herase : erase c.clients_fds (findInvalid c.clients_fds) = some (fds, closed)) :
    Tracked { s.setClients k { c with clients_fds := fds } with
      closed := s.closed ++ [closed] } := by
  obtain ⟨pre, x, post, hfds, _, hr⟩ := erase_findInvalid herase
  cases hr
  have hleft : ∀ e ∈ pre ++ post, marked e = true := by
    intro e he
    refine hmarked e (hfds ▸ ?_)
    simp only [List.mem_append, List.mem_cons] at he ⊢
    exact he.imp_right Or.inr
  refine ⟨h.owned.of_owners h.owned.defined rfl fun fd hfd => ?_,
    h.linked.set hc rfl (by dsimp only; rw [hpc]; rfl) fun _ _ _ ht => ht⟩
  -- neither before nor behind the step an entry counts
  have harray := inArrays_set hc { c with clients_fds := pre ++ post } fd
  have hbefore := entries_marked hmarked hfd
  have hafter := entries_marked hleft hfd
  have hcount : (s.closed ++ [INVALID_SOCKET]).count fd = s.closed.count fd :=
    count_append_invalid (by simp) hfd
  unfold State.owners State.setClients
  dsimp only at harray ⊢
  rw [hcount]
  omega

theorem tracked_poller {s s' : State} {k : Nat} {c : Clients} {e : PollerStep} (hs : Tracked s)
    (hl : HandsOver s (.poller k e)) (hc : s.clients_map_[k]? = some c)
    (h : PollerMoves s k c e s') : Tracked s' := by
  cases h with
  | lock | timeout | ready | leave | emptied | clean | keep =>
    exact tracked_setClients hs rfl hc rfl rfl
  | read hpc =>
    -- the array is not being reallocated
    have hstate : beginPoll s k c =
        s.setClients k { c with poller := .polling c.clients_fds.length } := by
      unfold beginPoll
      rw [if_neg]
      · rfl
      · rintro ⟨hk, hfull⟩
        rw [hl.2 c hc hpc hk] at hfull
        cases hfull
    exact tracked_setClients hs hstate hc rfl rfl
  | error => exact hs.of_eq nofun rfl rfl (fun _ => rfl) rfl rfl
  | hand hpc hx => exact tracked_hand hs hc hx
  | drop hpc hx hpollin hpollhup =>
    -- a client that hangs up without input would be lost
    have hinput := hl.1 c hc
    rw [hpc] at hinput
    rw [hinput hpollhup] at hpollin
    cases hpollin
  | mark hpc => exact tracked_mark hs hc hpc
  | undefined hpc hrest hwrong =>
    -- an array with marked entries only is not at its end
    have hmarked := hl.1 c hc hpc
    rcases hwrong with hrace | hend
    · exact absurd hrace (hl.2 c hc hpc hrest)
    · obtain ⟨e, he⟩ := List.exists_mem_of_ne_nil _ hrest
      exact absurd hend (erase_findInvalid_isSome ⟨e, he, hmarked e he⟩)
  | erased hpc _ herase => exact tracked_erased hs hc hpc (hl.1 c hc hpc) herase

/-! ### Request threads -/

/-- A thread owns its descriptor until it closes it. -/
theorem tracked_threadStep {s s' : State} {j : Nat} (hs : Tracked s)
    (hl : PassesOn s (.thread j)) (h : threadStep s j = some s') : Tracked s' := by
  obtain ⟨t, ht, h⟩ := threadStep_cases h
  -- no entry waits to be marked for this thread
  have hlinked : ∀ t', (∀ fd, t ≠ ⟨fd, .started, false⟩) →
      Linked { s with threads := s.threads.set j t' } := by
    intro t' hnot
    refine hs.linked.of_eq (fun k c' hc' => Or.inr ⟨c', hc', rfl, fun _ _ hx => hx⟩) ?_
    intro j' fd ht'
    by_cases heq : j = j'
    · subst heq
      rw [ht] at ht'
      exact absurd (Option.some.inj ht') (hnot fd)
    · exact (List.getElem?_set_ne heq).trans ht'
  obtain ⟨client, phase, marked⟩ := t
  rcases h with ⟨hphase, rfl⟩ | ⟨hphase, rfl⟩
  · have hmarked := hl _ ht hphase
    dsimp only at hphase hmarked
    subst hphase hmarked
    -- a thread whose entry is marked has held the descriptor already
    refine ⟨hs.owned.of_eq hs.owned.defined rfl rfl fun fd _ => ?_, hlinked _ (by simp)⟩
    have hthreads := inThreads_set ht ⟨client, .owning, true⟩ fd
    simp only [RequestThread.Holds, and_self, reduceCtorEq, or_false, or_true,
      false_and] at hthreads
    unfold State.owners
    dsimp only
    omega
  · dsimp only at hphase
    subst hphase
    have hlinked' := hlinked ⟨client, .done, marked⟩ (by simp)
    refine ⟨hs.owned.of_owners hs.owned.defined rfl fun fd _ => ?_,
      ⟨hlinked'.entry, hlinked'.distinct⟩⟩
    have hthreads := inThreads_set ht ⟨client, .done, marked⟩ fd
    simp only [RequestThread.Holds, reduceCtorEq, false_and, or_false, and_false, or_true,
      and_true, if_false, Nat.add_zero] at hthreads
    have hclosed : (s.closed ++ [client]).count fd =
        s.closed.count fd + if client = fd then 1 else 0 := count_snoc s.closed client fd
    unfold State.owners
    dsimp only
    omega

/-! ### Runs -/

/-- Steps that hand over keep the owners. -/
theorem tracked_step {s s' : State} {l : Label} (hs : Tracked s) (hl : HandsOver s l)
    (h : step s l = some s') : Tracked s' := by
  obtain ⟨_, h⟩ := step_eq_some h
  cases l with
  | addOneServer server listens =>
    obtain ⟨_, rfl⟩ := liveStep_addOneServer h
    exact tracked_addOneServer hs server listens
  | destroy server =>
    cases h
    exact hs.of_eq hs.owned.defined rfl rfl (fun _ => rfl) rfl rfl
  | acceptor e => exact tracked_acceptor hs hl (acceptorStep_moves h)
  | poller k e =>
    obtain ⟨c, hc, hmoves⟩ := liveStep_poller h
    exact tracked_poller hs hl hc hmoves
  | thread j => exact tracked_threadStep hs hl.1 h

/-- **Owners**: in a run whose steps hand over, every descriptor that
    `accept` has returned is owned by one array entry or by one request
    thread, or has been closed, once for each time it was returned. -/
theorem owned_of_guarded (ls : List Label) (hG : Guarded step HandsOver init ls) :
    Always step Owned init ls :=
  (always_of_invariant (fun _ _ _ => tracked_step) tracked_init hG).mono fun _ h => h.owned

/-- Two clients: the first one from `accept` to the end of its request, and
    one that comes while the first one is handed over. -/
theorem owned_of_guarded_two :
    Always step Owned init
      [.addOneServer ⟨5, by decide⟩ true, .acceptor .lock,
        .acceptor (.poll (.ready [⟨true, false⟩])), .acceptor (.accept 7), .acceptor .appended,
        .acceptor (.accept 0), .poller 0 .lock, .poller 0 .read, .acceptor .lock,
        .poller 0 (.poll (.ready [⟨true, true⟩])), .poller 0 .iterate,
        .acceptor (.poll (.ready [⟨true, false⟩])), .poller 0 .mark, .thread 0,
        .poller 0 .iterate, .poller 0 .erase, .poller 0 .erase, .acceptor (.accept 8), .thread 0,
        .acceptor .appended] :=
  owned_of_guarded _ (by decide +kernel)

/-- A client that hangs up without input is dropped and not closed; and a
    thread that goes on before its entry is marked owns a descriptor that the
    entry has, too. -/
theorem not_owned_hangup :
    (¬ Always step Owned init [.addOneServer ⟨5, by decide⟩ true, .acceptor .lock,
      .acceptor (.poll (.ready [⟨true, false⟩])), .acceptor (.accept 7), .acceptor .appended,
      .poller 0 .lock, .poller 0 .read, .poller 0 (.poll (.ready [⟨false, true⟩])),
      .poller 0 .iterate]) ∧
    ¬ Always step Owned init [.addOneServer ⟨5, by decide⟩ true, .acceptor .lock,
      .acceptor (.poll (.ready [⟨true, false⟩])), .acceptor (.accept 7), .acceptor .appended,
      .poller 0 .lock, .poller 0 .read, .poller 0 (.poll (.ready [⟨true, false⟩])),
      .poller 0 .iterate, .thread 0] := by
  refine ⟨fun h => ?_, fun h => ?_⟩
  · have hconserved := (h _ _ List.prefix_rfl rfl).conserved 7 (by decide)
    exact absurd hconserved (by decide)
  · have honce := (h _ _ List.prefix_rfl rfl).once 7 (by decide)
    exact absurd honce (by decide)

end ServersCore
