import JsonRpcServer.ServersCore.Ownership

/-! # Descriptors in Use

  What holds for the descriptors of clients in every run, also in one that
  leaves some of them open, in which a thread goes on before its entry is
  marked, or that ends in a cleanup that goes wrong: a descriptor that waits
  for a thread or that a thread has is in use, and nobody else has it. An
  entry that a thread has been created for waits no more.

  A step of the program other than one of a request thread has one of four
  effects: it accepts a client, it creates a thread for one, it marks an
  entry, or it does none of these.

  * `kept_of_run`: no run gives a descriptor to two threads, or to one when
    it has been closed.
-/

namespace ServersCore

open System Counting

/-! ### Waiting clients and busy threads -/

/-- The entries that no thread has been created for. -/
def Clients.waiting (c : Clients) : List AutoClosedSocketFd :=
  match c.poller.marks? with
  | some (_, i) => (c.mark i).clients_fds
  | none => c.clients_fds

/-- The clients with this descriptor that wait for a thread. -/
def State.waiting (s : State) (fd : Int) : Nat :=
  (s.clients_map_.map fun c => entries c.waiting fd).sum + s.acceptor.carries fd

/-- The thread has been created for this descriptor and has not closed it. -/
def RequestThread.Has (t : RequestThread) (fd : Int) : Prop := t.client = fd ∧ t.phase ≠ .done

instance (t : RequestThread) (fd : Int) : Decidable (t.Has fd) :=
  inferInstanceAs (Decidable (_ ∧ _))

def busy (threads : List RequestThread) (fd : Int) : Nat := threads.countP fun t => t.Has fd

section counting

variable {s : State} {k : Nat} {c : Clients}

theorem waiting_of_none (h : c.poller.marks? = none) : c.waiting = c.clients_fds := by
  unfold Clients.waiting
  rw [h]

theorem waiting_of_marking {j i : Nat} (h : c.poller.marks? = some (j, i)) :
    c.waiting = (c.mark i).clients_fds := by
  unfold Clients.waiting
  rw [h]

/-- A change of one element that takes `n` clients away. -/
theorem waiting_add (hc : s.clients_map_[k]? = some c) (d : Clients) {s' : State}
    (hmap : s'.clients_map_ = s.clients_map_.set k d) (hacceptor : s'.acceptor = s.acceptor)
    {fd : Int} {n : Nat} (hentry : entries d.waiting fd + n = entries c.waiting fd) :
    s'.waiting fd + n = s.waiting fd := by
  have hsum := sum_set_add hc d fun c => entries c.waiting fd
  unfold State.waiting
  rw [hmap, hacceptor]
  omega

theorem entries_modify_snoc (l : List AutoClosedSocketFd) (e : AutoClosedSocketFd) (i : Nat)
    {fd : Int} (hfd : fd ≠ INVALID_SOCKET) :
    entries ((l ++ [e]).modify i fun x => { x with fd := INVALID_SOCKET }) fd ≤
      entries (l.modify i fun x => { x with fd := INVALID_SOCKET }) fd +
        if e.fd = fd then 1 else 0 := by
  unfold entries
  induction l generalizing i with
  | nil => cases i <;> simp [List.countP_cons, Ne.symm hfd]
  | cons x l ih =>
    cases i with
    | zero =>
      simp only [List.cons_append, List.modify_zero_cons, List.countP_cons, List.countP_append,
        List.countP_nil, decide_eq_true_eq]
      omega
    | succ i =>
      have hrest := ih i
      simp only [List.cons_append, List.modify_succ_cons, List.countP_cons]
      omega

/-- A client that is appended waits. -/
theorem entries_waiting_append (c : Clients) (e : AutoClosedSocketFd) {fd : Int}
    (hfd : fd ≠ INVALID_SOCKET) :
    entries (c.append e).waiting fd ≤ entries c.waiting fd + if e.fd = fd then 1 else 0 := by
  cases hmarks : c.poller.marks? with
  | none =>
    rw [waiting_of_none (c := c.append e) hmarks, waiting_of_none hmarks]
    exact Nat.le_of_eq (entries_snoc c.clients_fds e fd)
  | some m =>
    obtain ⟨j, i⟩ := m
    rw [waiting_of_marking (c := c.append e) hmarks, waiting_of_marking hmarks]
    exact entries_modify_snoc c.clients_fds e i hfd

theorem busy_set {threads : List RequestThread} {j : Nat} {t : RequestThread}
    (h : threads[j]? = some t) (t' : RequestThread) (fd : Int) :
    busy (threads.set j t') fd + (if t.Has fd then 1 else 0) =
      busy threads fd + if t'.Has fd then 1 else 0 := by
  have hcount := countP_set_add h t' fun t => t.Has fd
  rw [worth_decide, worth_decide] at hcount
  exact hcount

theorem busy_started (threads : List RequestThread) (client fd : Int) :
    busy (threads ++ [⟨client, .started, false⟩]) fd =
      busy threads fd + if client = fd then 1 else 0 := by
  unfold busy
  rw [countP_snoc, worth_decide]
  simp [RequestThread.Has]

/-- Marking does not change what a thread has. -/
theorem busy_marked (threads : List RequestThread) (j : Nat) (fd : Int) :
    busy (threads.modify j fun t => { t with marked := true }) fd = busy threads fd := by
  unfold busy
  induction threads generalizing j with
  | nil => rw [List.modify_nil]
  | cons t threads ih =>
    cases j with
    | zero =>
      rw [List.modify_zero_cons, List.countP_cons, List.countP_cons]
      rfl
    | succ j => rw [List.modify_succ_cons, List.countP_cons, List.countP_cons, ih j]

end counting

/-! ### Effects of a step -/

/-- What a step does to the descriptors of clients. -/
inductive Effect (s s' : State) : Prop
  /-- At most marked entries are destroyed. -/
  | quiet (haccepted : s'.accepted = s.accepted) (hthreads : s'.threads = s.threads)
      (hclosed : ∃ ds, s'.closed = s.closed ++ ds ∧ ∀ d ∈ ds, d = INVALID_SOCKET)
      (hwaiting : ∀ fd, fd ≠ INVALID_SOCKET → s'.waiting fd ≤ s.waiting fd)
  /-- The entry of the thread `j` is marked. -/
  | mark (j : Nat) (haccepted : s'.accepted = s.accepted)
      (hthreads : s'.threads = s.threads.modify j fun t => { t with marked := true })
      (hclosed : s'.closed = s.closed) (hwaiting : ∀ fd, s'.waiting fd = s.waiting fd)
  /-- `accept` has returned `client`, which may wait now. -/
  | accept (client : Int) (hclient : 0 ≤ client) (hfree : ¬ s.InUse client)
      (haccepted : s'.accepted = s.accepted ++ [client]) (hthreads : s'.threads = s.threads)
      (hclosed : s'.closed = s.closed)
      (hwaiting : ∀ fd, s'.waiting fd ≤ s.waiting fd + if client = fd then 1 else 0)
  /-- A new thread gets a client that has waited. -/
  | hand (client : Int) (haccepted : s'.accepted = s.accepted)
      (hthreads : s'.threads = s.threads ++ [⟨client, .started, false⟩])
      (hclosed : s'.closed = s.closed)
      (hwaiting : ∀ fd, fd ≠ INVALID_SOCKET →
        s'.waiting fd + (if client = fd then 1 else 0) ≤ s.waiting fd)

section effects

variable {s s' : State}

/-- Steps after which the same clients wait. -/
theorem Effect.of_waiting (haccepted : s'.accepted = s.accepted)
    (hthreads : s'.threads = s.threads) (hclosed : s'.closed = s.closed)
    (hwaiting : ∀ fd, fd ≠ INVALID_SOCKET → s'.waiting fd ≤ s.waiting fd) : Effect s s' :=
  .quiet haccepted hthreads ⟨[], by rw [hclosed, List.append_nil], by simp⟩ hwaiting

theorem Effect.of_eq (haccepted : s'.accepted = s.accepted) (hthreads : s'.threads = s.threads)
    (hclosed : s'.closed = s.closed) (hmap : s'.clients_map_ = s.clients_map_)
    (hcarries : ∀ fd, s'.acceptor.carries fd ≤ s.acceptor.carries fd) : Effect s s' :=
  .of_waiting haccepted hthreads hclosed fun fd _ => by
    unfold State.waiting
    rw [hmap]
    exact Nat.add_le_add_left (hcarries fd) _

theorem serversCleanup_finished {fds left : List AutoClosedSocketFd} {iter : Nat}
    {closed : List Int} (h : serversCleanup fds iter = .finished left closed) :
    ∀ d ∈ closed, d = INVALID_SOCKET := by
  induction fds using marked_induction generalizing iter left closed with
  | none fds hfds =>
    by_cases hiter : iter = fds.length
    · rw [serversCleanup, if_pos hiter] at h
      cases h
      simp
    · rw [serversCleanup_none hiter hfds] at h
      cases h
  | first pre x post hpre hx ih =>
    by_cases hiter : iter = (pre ++ x :: post).length
    · rw [serversCleanup, if_pos hiter] at h
      cases h
      simp
    · rw [serversCleanup_marked hiter hpre hx] at h
      cases hrest : serversCleanup (pre ++ post) pre.length with
      | erasedEnd =>
        rw [hrest, Cleanup.closing] at h
        cases h
      | finished left' closed' =>
        rw [hrest, Cleanup.closing] at h
        cases h
        intro d hd
        rcases List.mem_cons.mp hd with rfl | hd
        · rfl
        · exact ih hrest d hd

theorem waiting_tryEmplace (clients_map_ : List Clients) (server_socket_ fd : Int) :
    ((tryEmplace clients_map_ server_socket_).map fun c => entries c.waiting fd).sum =
      (clients_map_.map fun c => entries c.waiting fd).sum := by
  unfold tryEmplace
  split
  · rfl
  · rw [List.map_append, List.sum_append]
    rfl

theorem effect_addOneServer (s : State) (server : WebServer) (listens : Bool) :
    Effect s (addOneServer s server listens) := by
  unfold addOneServer
  split
  · exact .of_eq rfl rfl rfl rfl fun _ => Nat.le_refl _
  · dsimp only
    split
    · exact .of_eq rfl rfl rfl rfl fun _ => Nat.le_refl _
    · refine .of_waiting rfl rfl rfl fun fd _ => ?_
      unfold State.waiting
      dsimp only
      have hsame := waiting_tryEmplace s.clients_map_ server.server_socket_ fd
      exact Nat.add_le_add_right (Nat.le_of_eq hsame) _

theorem effect_finishScan (s : State) (invalid_server : Bool) :
    Effect s (finishScan s invalid_server) := by
  unfold finishScan
  split
  · split
    · exact .of_eq rfl rfl rfl rfl fun _ => Nat.le_refl _
    · next fds closed hclean =>
      exact .quiet rfl rfl ⟨closed, rfl, serversCleanup_finished hclean⟩
        fun fd _ => Nat.add_le_add_left (Nat.zero_le _) _
  · exact .of_eq rfl rfl rfl rfl fun _ => Nat.zero_le _

/-- The next entry, in front of which nothing is carried. -/
theorem waiting_advance (s : State) (i : Nat) (x : AutoClosedSocketFd)
    (revents : List ServerRevents) (invalid_server : Bool) (fd : Int) :
    (advance s i x revents invalid_server).waiting fd =
      (s.clients_map_.map fun c => entries c.waiting fd).sum := by
  unfold advance
  split
  · rfl
  · rfl

theorem AcceptorMoves.effect {e : AcceptorStep} (h : AcceptorMoves s e s') : Effect s s' := by
  cases h with
  | lock | timeout | ready => exact .of_eq rfl rfl rfl rfl fun _ => Nat.zero_le _
  | error => exact .of_eq rfl rfl rfl rfl fun _ => Nat.le_refl _
  | finish => exact effect_finishScan s _
  | @pass client i x revents invalid_server =>
    obtain ⟨ha, ht, hc, _⟩ := advance_frame s i x revents invalid_server
    refine .of_waiting ha ht hc fun fd _ => ?_
    rw [waiting_advance]
    exact Nat.le_add_right _ _
  | @zero i x revents invalid_server _ _ _ hnew =>
    obtain ⟨ha, ht, hc, _⟩ :=
      advance_frame { s with accepted := s.accepted ++ [0] } i x revents invalid_server
    -- a client on descriptor 0 is not stored, so it does not wait
    refine .accept 0 (Int.le_refl 0) hnew ha ht hc fun fd => ?_
    rw [waiting_advance]
    unfold State.waiting
    dsimp only
    omega
  | lost _ _ _ hpos hnew =>
    exact .accept _ (Int.le_of_lt hpos) hnew rfl rfl rfl fun fd => Nat.le_add_right _ _
  | begins _ _ _ hpos hnew =>
    refine .accept _ (Int.le_of_lt hpos) hnew rfl rfl rfl fun fd => ?_
    unfold State.waiting beginAppend Acceptor.carries
    dsimp only
    omega
  | @appended k i client_fd x revents invalid_server c hpc hc =>
    obtain ⟨ha, ht, hcl, _⟩ :=
      advance_frame (s.setClients k (c.append client_fd)) i x revents invalid_server
    -- what the loop has carried waits in the array now
    refine .of_waiting ha ht hcl fun fd hfd => ?_
    have hsum := sum_set_add hc (c.append client_fd) fun c => entries c.waiting fd
    have hentry := entries_waiting_append c client_fd hfd
    have hcarries : s.acceptor.carries fd = if client_fd.fd = fd then 1 else 0 := by
      rw [hpc]
      rfl
    rw [waiting_advance]
    unfold State.waiting State.setClients
    dsimp only at hsum ⊢
    omega

/-- A step of a clients loop that takes clients away at most. -/
theorem effect_setClients {k : Nat} {c c' : Clients}
    (hmap : s'.clients_map_ = s.clients_map_.set k c') (hc : s.clients_map_[k]? = some c)
    (hwaiting : ∀ fd, fd ≠ INVALID_SOCKET → ∃ n, entries c'.waiting fd + n = entries c.waiting fd)
    (haccepted : s'.accepted = s.accepted) (hthreads : s'.threads = s.threads)
    (hclosed : ∃ ds, s'.closed = s.closed ++ ds ∧ ∀ d ∈ ds, d = INVALID_SOCKET)
    (hacceptor : s'.acceptor = s.acceptor) : Effect s s' :=
  .quiet haccepted hthreads hclosed fun fd hfd => by
    obtain ⟨n, hn⟩ := hwaiting fd hfd
    have hset := waiting_add hc c' hmap hacceptor hn
    omega

theorem PollerMoves.effect {k : Nat} {c : Clients} {e : PollerStep}
    (hc : s.clients_map_[k]? = some c) (h : PollerMoves s k c e s') : Effect s s' := by
  have hnothing : ∃ ds, s.closed = s.closed ++ ds ∧ ∀ d ∈ ds, d = INVALID_SOCKET :=
    ⟨[], (List.append_nil _).symm, by simp⟩
  cases h with
  | error | undefined => exact .of_eq rfl rfl rfl rfl fun _ => Nat.le_refl _
  | lock hpc | read hpc | timeout hpc | ready hpc | keep hpc | clean hpc | leave hpc
  | emptied hpc =>
    refine effect_setClients rfl hc (fun fd _ => ⟨0, ?_⟩) rfl rfl hnothing rfl
    rw [waiting_of_none (c := c) (by rw [hpc]; rfl)]
    rfl
  | @hand i last revents client_hang x hpc hx =>
    refine .hand x.fd rfl rfl rfl fun fd hfd => Nat.le_of_eq (waiting_add hc
      { c with poller := .marking s.threads.length i last revents } ?_ ?_ ?_)
    · rfl
    · rfl
    · rw [waiting_of_none (c := c) (by rw [hpc]; rfl), waiting_of_marking rfl]
      exact entries_mark hx hfd
  | drop hpc hx =>
    refine effect_setClients rfl hc (fun fd hfd => ?_) rfl rfl hnothing rfl
    rw [waiting_of_none (c := c) (by rw [hpc]; rfl), waiting_of_none rfl]
    exact ⟨_, entries_mark hx hfd⟩
  | @mark j i last revents hpc =>
    have hmarks : c.poller.marks? = some (j, i) := by
      rw [hpc]
      rfl
    -- the entry has not waited since its thread was created
    refine .mark j rfl rfl rfl fun fd => waiting_add hc
      { c.mark i with poller := .iterating (i + 1) last revents true } (n := 0) ?_ ?_ ?_
    · rfl
    · rfl
    · rw [waiting_of_marking hmarks, waiting_of_none rfl]
      rfl
  | @erased fds closed hpc _ herase =>
    obtain ⟨pre, x, post, hfds, hx, hr⟩ := erase_findInvalid herase
    cases hr
    have hnone : c.poller.marks? = none := by
      rw [hpc]
      rfl
    refine effect_setClients rfl hc (fun fd _ => ?_) rfl rfl ⟨_, rfl, by simp⟩ rfl
    -- only a marked entry is closed
    have hless : entries (pre ++ post) fd ≤ entries (pre ++ x :: post) fd :=
      List.Sublist.countP_le (List.Sublist.append_left (List.sublist_cons_self x post) pre)
    rw [waiting_of_none hnone, waiting_of_none (c := { c with clients_fds := pre ++ post }) hnone,
      hfds]
    exact ⟨_, Nat.add_sub_of_le hless⟩

theorem effect_of_step {l : Label} (hl : ∀ j, l ≠ .thread j) (h : step s l = some s') :
    Effect s s' := by
  obtain ⟨_, h⟩ := step_eq_some h
  cases l with
  | addOneServer server listens =>
    obtain ⟨_, rfl⟩ := liveStep_addOneServer h
    exact effect_addOneServer s server listens
  | destroy server =>
    cases h
    exact .of_eq rfl rfl rfl rfl fun _ => Nat.le_refl _
  | acceptor e => exact (acceptorStep_moves h).effect
  | poller k e =>
    obtain ⟨c, hc, hmoves⟩ := liveStep_poller h
    exact hmoves.effect hc
  | thread j => exact absurd rfl (hl j)

end effects

/-! ### Owners -/

/-- A descriptor has been accepted at most once more than it has been
    closed, and a client waits with it or a thread has it only then. -/
structure Kept (s : State) : Prop where
  owned : ∀ fd, fd ≠ INVALID_SOCKET →
    s.waiting fd + busy s.threads fd + s.closed.count fd ≤ s.accepted.count fd
  once : ∀ fd, fd ≠ INVALID_SOCKET → s.accepted.count fd ≤ s.closed.count fd + 1

section kept

variable {s s' : State}

theorem kept_init : Kept init where
  owned _ _ := Nat.le_refl _
  once _ _ := Nat.zero_le _

theorem Kept.le_one (h : Kept s) {fd : Int} (hfd : fd ≠ INVALID_SOCKET) :
    s.waiting fd + busy s.threads fd ≤ 1 := by
  have howned := h.owned fd hfd
  have honce := h.once fd hfd
  omega

/-- Nobody has a descriptor that is not in use. -/
theorem Kept.eq_zero (h : Kept s) {fd : Int} (hfd : fd ≠ INVALID_SOCKET)
    (hfree : ¬ s.InUse fd) : s.waiting fd + busy s.threads fd = 0 := by
  have howned := h.owned fd hfd
  have hcount : s.accepted.count fd = s.closed.count fd := not_not.mp hfree
  omega

theorem Kept.effect (h : Kept s) (he : Effect s s') : Kept s' := by
  cases he with
  | quiet haccepted hthreads hclosed hwaiting =>
    obtain ⟨ds, hclosed, hds⟩ := hclosed
    have hcount : ∀ fd, fd ≠ INVALID_SOCKET → s'.closed.count fd = s.closed.count fd := by
      intro fd hfd
      rw [hclosed, count_append_invalid hds hfd]
    refine ⟨fun fd hfd => ?_, fun fd hfd => ?_⟩
    · have howned := h.owned fd hfd
      have hle := hwaiting fd hfd
      rw [hcount fd hfd, haccepted, hthreads]
      omega
    · rw [hcount fd hfd, haccepted]
      exact h.once fd hfd
  | mark j haccepted hthreads hclosed hwaiting =>
    refine ⟨fun fd hfd => ?_, fun fd hfd => ?_⟩
    · rw [hwaiting fd, hclosed, haccepted, hthreads, busy_marked]
      exact h.owned fd hfd
    · rw [hclosed, haccepted]
      exact h.once fd hfd
  | accept client hclient hfree haccepted hthreads hclosed hwaiting =>
    -- the descriptor was closed as often as it was accepted before
    have hnew : s.accepted.count client = s.closed.count client := not_not.mp hfree
    refine ⟨fun fd hfd => ?_, fun fd hfd => ?_⟩
    · have howned := h.owned fd hfd
      have hle := hwaiting fd
      rw [hclosed, haccepted, count_snoc, hthreads]
      omega
    · have honce := h.once fd hfd
      rw [hclosed, haccepted, count_snoc]
      split
      · next heq =>
        rw [heq] at hnew
        omega
      · omega
  | hand client haccepted hthreads hclosed hwaiting =>
    refine ⟨fun fd hfd => ?_, fun fd hfd => ?_⟩
    · have howned := h.owned fd hfd
      have hle := hwaiting fd hfd
      rw [hclosed, haccepted, hthreads, busy_started]
      omega
    · rw [hclosed, haccepted]
      exact h.once fd hfd

/-- What a thread closes it has. -/
theorem Kept.threadStep (h : Kept s) {j : Nat} (hstep : threadStep s j = some s') : Kept s' := by
  obtain ⟨t, ht, ⟨hphase, rfl⟩ | ⟨hphase, rfl⟩⟩ := threadStep_cases hstep
  · refine ⟨fun fd hfd => ?_, h.once⟩
    have howned := h.owned fd hfd
    have hthreads := busy_set ht { t with phase := .owning } fd
    simp only [RequestThread.Has, hphase, ne_eq, reduceCtorEq, not_false_eq_true,
      and_true] at hthreads
    unfold State.waiting at howned ⊢
    dsimp only
    omega
  · have hclosed : ∀ fd, (s.closed ++ [t.client]).count fd =
        s.closed.count fd + if t.client = fd then 1 else 0 := count_snoc s.closed t.client
    refine ⟨fun fd hfd => ?_, fun fd hfd => ?_⟩
    · have howned := h.owned fd hfd
      have hthreads := busy_set ht { t with phase := .done } fd
      simp only [RequestThread.Has, hphase, ne_eq, reduceCtorEq, not_false_eq_true, and_true,
        not_true_eq_false, and_false, if_false] at hthreads
      have hcount := hclosed fd
      unfold State.waiting at howned ⊢
      dsimp only
      omega
    · have honce := h.once fd hfd
      have hcount := hclosed fd
      dsimp only
      omega

theorem kept_step {l : Label} (h : Kept s) (hstep : step s l = some s') : Kept s' := by
  by_cases hl : ∃ j, l = .thread j
  · obtain ⟨j, rfl⟩ := hl
    exact h.threadStep (step_eq_some hstep).2
  · exact h.effect (effect_of_step (fun j heq => hl ⟨j, heq⟩) hstep)

/-- Each descriptor waits once or has one thread, in every run. -/
theorem kept_of_run {ls : List Label} (hrun : run step init ls = some s) : Kept s :=
  run_keeps (fun _ _ _ h hstep => kept_step h hstep) kept_init hrun

end kept

end ServersCore
