import JsonRpcServer.ServersCore.Wrapper

/-! # Two Locks for One Array

  The servers loop appends clients to the array of a server while it holds
  `servers_lock_`. The clients loop of the server polls, iterates and cleans
  the same array while it holds `clients_lock_`. No lock is common to both.

  ## Main results

  * `excluded_of_clients_lock`: in the runs that a servers loop which takes
    the `clients_lock_` as well would have, it never appends to an array
    while the clients loop is between its read of `data()` and `size()` and
    the end of its cleanup.
  * `spares_of_clients_lock`: in these runs the two never get into each
    other's way.
-/

namespace ServersCore

open System

/-! ### The property -/

/-- The servers loop appends to no array that its clients loop uses. -/
def Excluded (s : State) : Prop :=
  ∀ k ∈ s.acceptor.array?, ∀ c ∈ s.clients_map_[k]?, c.poller.usesArray = false

/-- The steps of a servers loop that holds the `clients_lock_` of a server
    during `emplace_back`: it begins while the lock is free, and the clients
    loop does not get the lock before the end. -/
def TakesClientsLock (s : State) : Label → Prop
  | .acceptor (.accept client) =>
      ∀ k ∈ target s client, ∀ c ∈ s.clients_map_[k]?, c.clients_lock_ = false
  | .poller k .lock => k ∉ s.acceptor.array?
  | _ => True

/-- No array is reallocated under its clients loop, and no two threads write
    the end of one. -/
def Spares (s : State) : Label → Prop
  | .acceptor (.accept client) => ∀ k ∈ target s client, reallocates s k = false
  | .poller k .read =>
      ∀ c ∈ s.clients_map_[k]?, c.poller = .locked → k ∈ s.acceptor.array? → c.full = false
  | .poller k .erase =>
      ∀ c ∈ s.clients_map_[k]?, c.poller = .erasing → c.clients_fds ≠ [] →
        k ∉ s.acceptor.array?
  | _ => True

instance (s : State) : Decidable (Excluded s) :=
  inferInstanceAs (Decidable (∀ k ∈ s.acceptor.array?, ∀ c ∈ s.clients_map_[k]?, _))

instance (s : State) (l : Label) : Decidable (TakesClientsLock s l) := by
  unfold TakesClientsLock
  split <;> infer_instance

instance (s : State) (l : Label) : Decidable (Spares s l) := by
  unfold Spares
  split <;> infer_instance

/-! ### What a step does -/

/-- The clients loops stand where they stood, and new ones have not begun. -/
def SamePollers (s s' : State) : Prop :=
  ∀ (k : Nat) (c' : Clients), s'.clients_map_[k]? = some c' →
    (∃ c, s.clients_map_[k]? = some c ∧ c'.poller = c.poller ∧
      c'.clients_lock_ = c.clients_lock_) ∨ c'.poller = .unlocked

theorem samePollers_of_eq {s s' : State} (h : s'.clients_map_ = s.clients_map_) :
    SamePollers s s' := fun _ c' hc' => Or.inl ⟨c', h ▸ hc', rfl, rfl⟩

theorem samePollers_addOneServer (s : State) (server : WebServer) (listens : Bool) :
    SamePollers s (addOneServer s server listens) := by
  unfold addOneServer
  split
  · exact samePollers_of_eq rfl
  · dsimp only
    split
    · exact samePollers_of_eq rfl
    · intro k c' hc'
      dsimp only at hc'
      unfold tryEmplace at hc'
      split at hc'
      · exact Or.inl ⟨c', hc', rfl, rfl⟩
      · rw [List.getElem?_append] at hc'
        split at hc'
        · exact Or.inl ⟨c', hc', rfl, rfl⟩
        · -- the new element
          rw [List.getElem?_singleton, Option.ite_none_right_eq_some] at hc'
          rw [← Option.some.inj hc'.2]
          exact Or.inr rfl

/-- A step of the servers loop moves no clients loop. -/
theorem AcceptorMoves.samePollers {s s' : State} {e : AcceptorStep} (h : AcceptorMoves s e s') :
    SamePollers s s' := by
  cases h with
  | lock | error | timeout | ready | lost | begins => exact samePollers_of_eq rfl
  | finish =>
    unfold finishScan
    split
    · split
      · exact samePollers_of_eq rfl
      · exact samePollers_of_eq rfl
    · exact samePollers_of_eq rfl
  | pass | zero => exact samePollers_of_eq (advance_frame _ _ _ _ _).2.2.2.1
  | @appended k i client_fd x revents invalid_server c hpc hc hx =>
    intro j c' hc'
    rw [(advance_frame _ _ _ _ _).2.2.2.1] at hc'
    rcases getElem?_setClients hc hc' with ⟨rfl, rfl⟩ | ⟨_, hc'⟩
    · exact Or.inl ⟨c, hc, rfl, rfl⟩
    · exact Or.inl ⟨c', hc', rfl, rfl⟩

theorem finishScan_array? {s : State} (h : s.acceptor.array? = none) (invalid_server : Bool) :
    (finishScan s invalid_server).acceptor.array? = none := by
  unfold finishScan
  split
  · split
    · exact h
    · rfl
  · rfl

theorem target_of_scanning {s : State} {client : Int} {i : Nat} {x : AutoClosedSocketFd}
    {revents : List ServerRevents} {invalid_server : Bool}
    (hpc : s.acceptor = .scanning i revents invalid_server) (hx : s.servers_[i]? = some x)
    (hpollin : (revent revents i).pollin = true) (hpos : 0 < client) :
    target s client = findServer s.clients_map_ x.fd := by
  unfold target
  rw [hpc]
  dsimp only
  rw [hx, Option.bind_some, if_pos ⟨hpollin, hpos⟩]

/-- The servers loop begins an `emplace_back` only on the target of an
    `accept`. -/
theorem AcceptorMoves.array? {s s' : State} {e : AcceptorStep} (h : AcceptorMoves s e s') :
    s'.acceptor.array? = none ∨
      ∃ client, e = .accept client ∧ s'.acceptor.array? = target s client := by
  cases h with
  | lock | timeout | ready => exact Or.inl rfl
  | error hpc =>
    refine Or.inl ?_
    dsimp only
    rw [hpc]
    rfl
  | finish hpc => exact Or.inl (finishScan_array? (by rw [hpc]; rfl) _)
  | pass | zero | appended => exact Or.inl (advance_frame _ _ _ _ _).2.2.2.2.2
  | lost hpc =>
    refine Or.inl ?_
    dsimp only
    rw [hpc]
    rfl
  | begins hpc hx hpollin hpos hnew hserver =>
    exact Or.inr ⟨_, rfl, hserver.symm.trans (target_of_scanning hpc hx hpollin hpos).symm⟩

/-- A step of a clients loop moves it alone, or ends the program. The lock is
    taken with the first step and given back with the last. -/
theorem PollerMoves.locks {s s' : State} {k : Nat} {c : Clients} {e : PollerStep}
    (h : PollerMoves s k c e s') : s'.acceptor = s.acceptor ∧
      (s'.clients_map_ = s.clients_map_ ∨
        ∃ c', s'.clients_map_ = s.clients_map_.set k c' ∧
          (c.poller ≠ .unlocked ∧ c'.clients_lock_ = c.clients_lock_ ∨ c'.poller = .unlocked ∨
            e = .lock ∧ c'.clients_lock_ = true)) := by
  cases h with
  | error | undefined => exact ⟨rfl, Or.inl rfl⟩
  | lock => exact ⟨rfl, Or.inr ⟨_, rfl, Or.inr (Or.inr ⟨rfl, rfl⟩)⟩⟩
  | timeout | leave | emptied => exact ⟨rfl, Or.inr ⟨_, rfl, Or.inr (Or.inl rfl)⟩⟩
  | read hpc | ready hpc | hand hpc | drop hpc | keep hpc | clean hpc | mark hpc | erased hpc =>
    refine ⟨rfl, Or.inr ⟨_, rfl, Or.inl ⟨?_, rfl⟩⟩⟩
    rw [hpc]
    nofun

/-! ### With the missing lock -/

structure LockInv (s : State) : Prop where
  held : ∀ (k : Nat) (c : Clients), s.clients_map_[k]? = some c → c.poller ≠ .unlocked →
    c.clients_lock_ = true
  /-- While a client is appended the clients loop waits for its lock. -/
  waits : ∀ k ∈ s.acceptor.array?, ∀ c ∈ s.clients_map_[k]?, c.poller = .unlocked

theorem LockInv.excluded {s : State} (h : LockInv s) : Excluded s := by
  intro k hk c hc
  rw [h.waits k hk c hc]
  rfl

theorem lockInv_init : LockInv init where
  held _ _ h := by cases h
  waits := nofun

theorem LockInv.of_samePollers {s s' : State} (hs : LockInv s) (hsame : SamePollers s s')
    (hwaits : ∀ k ∈ s'.acceptor.array?, ∀ c ∈ s.clients_map_[k]?, c.clients_lock_ = false) :
    LockInv s' where
  held k c' hc' hpc := by
    rcases hsame k c' hc' with ⟨c, hc, hpoller, hlock⟩ | hpoller
    · rw [hlock]
      exact hs.held k c hc (hpoller ▸ hpc)
    · exact absurd hpoller hpc
  waits k hk c' hc' := by
    rcases hsame k c' hc' with ⟨c, hc, hpoller, _⟩ | hpoller
    · -- the lock is free, so the clients loop is in front of it
      have hfree := hwaits k hk c hc
      rw [hpoller]
      by_contra hpc
      rw [hs.held k c hc hpc] at hfree
      cases hfree
    · exact hpoller

theorem lockInv_poller {s s' : State} {k : Nat} {c : Clients} {e : PollerStep} (hs : LockInv s)
    (hl : TakesClientsLock s (.poller k e)) (hc : s.clients_map_[k]? = some c)
    (h : PollerMoves s k c e s') : LockInv s' := by
  obtain ⟨hacceptor, hmap | ⟨c', hmap, hlocks⟩⟩ := h.locks
  · refine ⟨?_, ?_⟩
    · rw [hmap]
      exact hs.held
    · rw [hmap, hacceptor]
      exact hs.waits
  · have hget : ∀ {j d}, s'.clients_map_[j]? = some d →
        k = j ∧ d = c' ∨ k ≠ j ∧ s.clients_map_[j]? = some d := by
      intro j d hd
      rw [hmap] at hd
      exact getElem?_setClients hc hd
    refine ⟨fun j d hd hpc => ?_, fun j hj d hd => ?_⟩
    · rcases hget hd with ⟨rfl, rfl⟩ | ⟨_, hd⟩
      · -- a loop that goes on has the lock, and one that begins takes it
        rcases hlocks with ⟨hbefore, hlock⟩ | hpc' | ⟨_, hlock⟩
        · rw [hlock]
          exact hs.held k c hc hbefore
        · exact absurd hpc' hpc
        · exact hlock
      · exact hs.held j d hd hpc
    · rw [hacceptor] at hj
      rcases hget hd with ⟨rfl, rfl⟩ | ⟨_, hd⟩
      · -- during an append the loop neither goes on nor begins
        rcases hlocks with ⟨hbefore, _⟩ | hpc | ⟨rfl, _⟩
        · exact absurd (hs.waits k hj c hc) hbefore
        · exact hpc
        · exact absurd hj hl
      · exact hs.waits j hj d hd

theorem lockInv_step {s s' : State} {l : Label} (hs : LockInv s) (hl : TakesClientsLock s l)
    (h : step s l = some s') : LockInv s' := by
  obtain ⟨_, h⟩ := step_eq_some h
  cases l with
  | addOneServer server listens =>
    obtain ⟨hpc, rfl⟩ := liveStep_addOneServer h
    refine hs.of_samePollers (samePollers_addOneServer s server listens) ?_
    rw [addOneServer_acceptor, hpc]
    nofun
  | destroy server =>
    cases h
    exact ⟨hs.held, hs.waits⟩
  | acceptor e =>
    have hmoves := acceptorStep_moves h
    refine hs.of_samePollers hmoves.samePollers fun k hk c hc => ?_
    rcases hmoves.array? with hnone | ⟨client, rfl, htarget⟩
    · rw [hnone] at hk
      cases hk
    · exact hl k (htarget ▸ hk) c hc
  | poller k e =>
    obtain ⟨c, hc, hmoves⟩ := liveStep_poller h
    exact lockInv_poller hs hl hc hmoves
  | thread j =>
    obtain ⟨t, _, ⟨_, rfl⟩ | ⟨_, rfl⟩⟩ := threadStep_cases h
    · exact ⟨hs.held, hs.waits⟩
    · exact ⟨hs.held, hs.waits⟩

/-- **Exclusion**: a servers loop that holds the `clients_lock_` of a server
    during `emplace_back` never appends to an array in use. -/
theorem excluded_of_clients_lock (ls : List Label) (hls : Guarded step TakesClientsLock init ls) :
    Always step Excluded init ls :=
  (always_of_invariant (fun _ _ _ hs hl h => lockInv_step hs hl h) lockInv_init hls).mono
    fun _ h => h.excluded

/-- Two clients: the second one is appended between two turns of the clients
    loop, which has handed over the first one. -/
theorem excluded_of_clients_lock_two :
    Always step Excluded init
      [.addOneServer ⟨5, by decide⟩ true, .acceptor .lock,
        .acceptor (.poll (.ready [⟨true, false⟩])), .acceptor (.accept 7), .acceptor .appended,
        .acceptor (.accept 0), .poller 0 .lock, .poller 0 .read,
        .poller 0 (.poll (.ready [⟨true, false⟩])), .poller 0 .iterate, .poller 0 .mark,
        .poller 0 .iterate, .poller 0 .erase, .poller 0 .erase, .acceptor .lock,
        .acceptor (.poll (.ready [⟨true, false⟩])), .acceptor (.accept 8)] :=
  excluded_of_clients_lock _ (by decide +kernel)

/-- What is done under both locks is done alone. -/
theorem spares_of_clients_lock {ls : List Label} (hls : Guarded step TakesClientsLock init ls) :
    Guarded step Spares init ls := by
  refine hls.strengthen (fun _ _ _ hs hl h => lockInv_step hs hl h) ?_ lockInv_init
  intro s l hs hl
  unfold Spares
  split
  · next client =>
    intro k hk
    unfold reallocates
    cases hc : s.clients_map_[k]? with
    | none => rfl
    | some c =>
      -- the lock is free, so the clients loop does not use its array
      have hpoller : c.poller = .unlocked := by
        by_contra hpc
        have hheld := hs.held k c hc hpc
        rw [hl k hk c hc] at hheld
        cases hheld
      simp [hpoller, Poller.usesArray]
  · -- a loop that reads or erases has the lock, so nothing is appended
    next k =>
    intro c hc hpc hk
    have hwaits := hs.waits k hk c hc
    rw [hpc] at hwaits
    cases hwaits
  · next k =>
    intro c hc hpc _ hk
    have hwaits := hs.waits k hk c hc
    rw [hpc] at hwaits
    cases hwaits
  · trivial

/-! ### A client that comes during `POLL` -/

/-- A client is appended while the clients loop polls the array. -/
def appendsDuringPoll : List Label :=
  [.addOneServer ⟨3, by decide⟩ true, .poller 0 .lock, .poller 0 .read, .acceptor .lock,
    .acceptor (.poll (.ready [⟨true, false⟩])), .acceptor (.accept 7)]

theorem not_excluded_appendsDuringPoll : ¬ ∀ ls : List Label, Always step Excluded init ls := by
  intro hall
  have hend : (run step init appendsDuringPoll).any (fun s => ¬ Excluded s) := by
    decide +kernel
  obtain ⟨s, hrun, hbad⟩ := (Option.any_eq_true _ _).mp hend
  exact of_decide_eq_true hbad (hall appendsDuringPoll appendsDuringPoll s List.prefix_rfl hrun)

end ServersCore
