import JsonRpcServer.ServersCore.Wrapper
import Mathlib.Data.List.Nodup

/-! # Servers and their Keys

  A server has an entry in `servers_` and a key in `clients_map_`. The
  servers loop looks a client's server up by the key.

  * `registered_of_guarded`: the two agree, and the lookup never fails, as
    long as no `listen` fails and no `POLLNVAL` is seen.
-/

namespace ServersCore

open System

/-- The sockets of the entries and of the keys, each once. -/
structure Same (s : State) : Prop where
  sockets : s.sockets.Nodup
  keys : s.keys.Nodup
  mem_iff : ∀ fd, fd ∈ s.sockets ↔ fd ∈ s.keys

/-- `servers_lock_` is free, and `POLLNVAL` has been seen for every server
    that was destroyed. -/
def Observed (s : State) : Prop := s.acceptor = .unlocked ∧ s.destroyed = []

/-- What `addOneServer` and the servers loop rely on. -/
structure Registered (s : State) : Prop where
  same : Observed s → Same s
  resolved : s.fate ≠ .unresolved

/-- An `addOneServer` that throws changes neither container. -/
def Restores (s : State) (l : Label) : Prop :=
  ∀ server listens, l = .addOneServer server listens → throws s server listens = true →
    ∀ s', step s l = some s' → s'.servers_ = s.servers_ ∧ s'.clients_map_ = s.clients_map_

/-- The entry at which the servers loop stands has no `POLLNVAL`. -/
def Acceptor.Valid (servers_ : List AutoClosedSocketFd) : Acceptor → Prop
  | .unlocked | .locked => True
  | .scanning i revents _ | .appending _ _ i revents _ =>
      i < servers_.length → (revent revents i).pollnval = false

instance (servers_ : List AutoClosedSocketFd) : ∀ a : Acceptor, Decidable (a.Valid servers_)
  | .unlocked | .locked => .isTrue trivial
  | .scanning _ _ _ | .appending _ _ _ _ _ => inferInstanceAs (Decidable (_ → _))

/-- `addOneServer` does not throw, and the servers loop sees no `POLLNVAL`. -/
def Registers (s : State) : Label → Prop
  | .addOneServer server listens => throws s server listens = false
  | .acceptor _ => s.acceptor.Valid s.servers_
  | .destroy _ | .poller _ _ | .thread _ => True

instance (s : State) : ∀ l, Decidable (Registers s l)
  | .addOneServer server listens => inferInstanceAs (Decidable (throws s server listens = false))
  | .acceptor _ => inferInstanceAs (Decidable (s.acceptor.Valid s.servers_))
  | .destroy _ | .poller _ _ | .thread _ => .isTrue trivial

/-- The containers agree in every state, and nothing is to be erased. -/
structure Inv (s : State) : Prop where
  same : Same s
  resolved : s.fate ≠ .unresolved
  valid : s.acceptor.invalid_server = false

theorem inv_init : Inv init where
  same := ⟨List.nodup_nil, List.nodup_nil, fun _ => Iff.rfl⟩
  resolved := nofun
  valid := rfl

theorem Inv.registered {s : State} (h : Inv s) : Registered s := ⟨fun _ => h.same, h.resolved⟩

/-! ### Keys -/

/-- A change of one element keeps the keys. -/
theorem keys_setClients {s : State} {k : Nat} {c c' : Clients} (h : s.clients_map_[k]? = some c)
    (hkey : c'.server_socket_ = c.server_socket_) : (s.setClients k c').keys = s.keys := by
  obtain ⟨hlt, rfl⟩ := List.getElem?_eq_some_iff.mp h
  unfold State.keys State.setClients
  dsimp only
  rw [List.map_set, hkey, ← List.map_set, List.set_getElem_self]

/-- What a clients loop leaves as it is. -/
structure Stays (s s' : State) : Prop where
  servers_ : s'.servers_ = s.servers_
  keys : s'.keys = s.keys
  acceptor : s'.acceptor = s.acceptor
  resolved : s.fate = .running → s'.fate ≠ .unresolved

/-- A clients loop changes its own element. -/
theorem stays_setClients {s s' : State} {k : Nat} {c c' : Clients}
    (h : s.clients_map_[k]? = some c) (hkey : c'.server_socket_ = c.server_socket_)
    (hservers : s'.servers_ = s.servers_) (hmap : s'.clients_map_ = s.clients_map_.set k c')
    (hacceptor : s'.acceptor = s.acceptor) (hfate : s'.fate = s.fate) : Stays s s' where
  servers_ := hservers
  keys := (congrArg (List.map _) hmap).trans (keys_setClients h hkey)
  acceptor := hacceptor
  resolved hrun := by
    rw [hfate, hrun]
    nofun

theorem PollerMoves.stays {s s' : State} {k : Nat} {c : Clients} {e : PollerStep}
    (hc : s.clients_map_[k]? = some c) (h : PollerMoves s k c e s') : Stays s s' := by
  cases h with
  | error => exact ⟨rfl, rfl, rfl, nofun⟩
  | undefined => exact ⟨rfl, rfl, rfl, nofun⟩
  | read =>
    refine ⟨rfl, keys_setClients hc rfl, rfl, fun hrun => ?_⟩
    unfold beginPoll
    dsimp only
    split
    · nofun
    · rw [hrun]
      nofun
  | lock | timeout | ready | hand | drop | keep | clean | leave | mark | emptied | erased =>
    refine stays_setClients hc ?_ rfl rfl rfl rfl
    rfl

/-! ### Preservation -/

/-- Steps that touch neither socket nor key keep the agreement. -/
theorem Same.of_eq {s s' : State} (h : Same s) (hsockets : s'.sockets = s.sockets)
    (hkeys : s'.keys = s.keys) : Same s' := by
  refine ⟨?_, ?_, ?_⟩
  · rw [hsockets]
    exact h.sockets
  · rw [hkeys]
    exact h.keys
  · rw [hsockets, hkeys]
    exact h.mem_iff

/-- A server that is not there gets an entry and a key. -/
theorem same_addOneServer {s : State} (h : Same s) {server : WebServer} {listens : Bool}
    (hthrows : throws s server listens = false) : Same (addOneServer s server listens) := by
  unfold addOneServer
  split
  · exact h
  · next hnew =>
    -- an exception would leave an entry without a key
    have hlistens : listens = true := by
      simpa [throws, hnew] using hthrows
    have hkey : server.server_socket_ ∉ s.clients_map_.map Clients.server_socket_ :=
      fun hkey => hnew ((h.mem_iff _).mpr hkey)
    rw [hlistens, if_neg Bool.noConfusion]
    dsimp only
    rw [tryEmplace, if_neg hkey]
    have hsockets : List.map AutoClosedSocketFd.fd
        (s.servers_ ++ [⟨server.server_socket_, POLLIN⟩]) =
          s.sockets ++ [server.server_socket_] := List.map_append
    have hkeys : List.map Clients.server_socket_
        (s.clients_map_ ++ [⟨server.server_socket_, [], MAX_CLIENTS, false, .unlocked⟩]) =
          s.keys ++ [server.server_socket_] := List.map_append
    refine ⟨?_, ?_, fun fd => ?_⟩
    · show (List.map _ _).Nodup
      rw [hsockets, ← List.concat_eq_append]
      exact List.Nodup.concat hnew h.sockets
    · show (List.map _ _).Nodup
      rw [hkeys, ← List.concat_eq_append]
      exact List.Nodup.concat hkey h.keys
    · show fd ∈ List.map _ _ ↔ fd ∈ List.map _ _
      rw [hsockets, hkeys, List.mem_append, List.mem_append, h.mem_iff fd]

/-- An entry without `POLLNVAL`. -/
theorem advance_of_valid {s : State} {i : Nat} {x : AutoClosedSocketFd}
    {revents : List ServerRevents} {invalid_server : Bool}
    (h : (revent revents i).pollnval = false) :
    advance s i x revents invalid_server =
      { s with acceptor := .scanning (i + 1) revents invalid_server } := by
  unfold advance
  rw [h, if_neg Bool.noConfusion]

theorem inv_acceptor {s s' : State} {e : AcceptorStep} (hs : Inv s)
    (hl : s.acceptor.Valid s.servers_) (h : AcceptorMoves s e s') :
    Inv s' := by
  have hvalid := hs.valid
  cases h with
  | lock => exact ⟨hs.same.of_eq rfl rfl, hs.resolved, rfl⟩
  | error hpc => exact ⟨hs.same.of_eq rfl rfl, nofun, hs.valid⟩
  | timeout => exact ⟨hs.same.of_eq rfl rfl, hs.resolved, rfl⟩
  | ready => exact ⟨hs.same.of_eq rfl rfl, hs.resolved, rfl⟩
  | finish hpc =>
    -- nothing is to be erased
    rw [hpc] at hvalid
    cases hvalid
    exact ⟨hs.same.of_eq rfl rfl, hs.resolved, rfl⟩
  | pass hpc hx | zero hpc hx =>
    rw [hpc] at hvalid hl
    rw [advance_of_valid (hl (List.getElem?_eq_some_iff.mp hx).1)]
    exact ⟨hs.same.of_eq rfl rfl, hs.resolved, hvalid⟩
  | @lost client i x revents invalid_server hpc hx hpollin hpos hnew hserver =>
    -- the server of an entry is found
    have hmem : x.fd ∈ s.sockets := List.mem_map_of_mem (List.mem_of_getElem? hx)
    exact absurd ((hs.same.mem_iff _).mp hmem) ((findServer_eq_none_iff _ _).mp hserver)
  | begins hpc =>
    rw [hpc] at hvalid
    refine ⟨hs.same.of_eq rfl rfl, ?_, hvalid⟩
    unfold beginAppend
    dsimp only
    split
    · nofun
    · exact hs.resolved
  | appended hpc hc hx =>
    rw [hpc] at hvalid hl
    rw [advance_of_valid (hl (List.getElem?_eq_some_iff.mp hx).1)]
    exact ⟨hs.same.of_eq rfl (keys_setClients hc rfl), hs.resolved, hvalid⟩

/-- Steps that register keep the invariant. -/
theorem inv_step {s s' : State} {l : Label} (hs : Inv s) (hl : Registers s l)
    (h : step s l = some s') : Inv s' := by
  obtain ⟨hrun, h⟩ := step_eq_some h
  cases l with
  | addOneServer server listens =>
    obtain ⟨_, rfl⟩ := liveStep_addOneServer h
    refine ⟨same_addOneServer hs.same hl, ?_, ?_⟩
    · rw [addOneServer_fate]
      exact hs.resolved
    · rw [addOneServer_acceptor]
      exact hs.valid
  | destroy server =>
    cases h
    exact ⟨hs.same.of_eq rfl rfl, hs.resolved, hs.valid⟩
  | acceptor e => exact inv_acceptor hs hl (acceptorStep_moves h)
  | poller k e =>
    obtain ⟨c, hc, hmoves⟩ := liveStep_poller h
    -- a clients loop touches neither `servers_` nor the keys
    have hstays := hmoves.stays hc
    refine ⟨hs.same.of_eq (congrArg (List.map _) hstays.servers_) hstays.keys,
      hstays.resolved hrun, ?_⟩
    rw [hstays.acceptor]
    exact hs.valid
  | thread j =>
    obtain ⟨t, _, ⟨_, rfl⟩ | ⟨_, rfl⟩⟩ := threadStep_cases h
    · exact ⟨hs.same.of_eq rfl rfl, hs.resolved, hs.valid⟩
    · exact ⟨hs.same.of_eq rfl rfl, hs.resolved, hs.valid⟩

/-! ### Runs -/

theorem restores_of_registers {s : State} {l : Label} (h : Registers s l) : Restores s l := by
  rintro server listens rfl hthrows
  rw [Registers, hthrows] at h
  cases h

/-- **Servers and keys**: in a run whose steps register, the entries and the
    keys agree, every client finds its server, and no `addOneServer` throws. -/
theorem registered_of_guarded (ls : List Label) (hG : Guarded step Registers init ls) :
    Always step Registered init ls ∧ Guarded step Restores init ls := by
  have hinv : Always step Inv init ls :=
    always_of_invariant (fun _ _ _ => inv_step) inv_init hG
  exact ⟨hinv.mono fun _ => Inv.registered, hG.mono fun _ _ => restores_of_registers⟩

/-- Two servers, and a client for the second. -/
theorem registered_of_guarded_two :
    Always step Registered init
        [.addOneServer ⟨5, by decide⟩ true, .addOneServer ⟨6, by decide⟩ true, .acceptor .lock,
          .acceptor (.poll (.ready [⟨false, false⟩, ⟨true, false⟩])), .acceptor (.accept 0),
          .acceptor (.accept 9), .acceptor .appended, .acceptor (.accept 0)] ∧
      Guarded step Restores init
        [.addOneServer ⟨5, by decide⟩ true, .addOneServer ⟨6, by decide⟩ true, .acceptor .lock,
          .acceptor (.poll (.ready [⟨false, false⟩, ⟨true, false⟩])), .acceptor (.accept 0),
          .acceptor (.accept 9), .acceptor .appended, .acceptor (.accept 0)] :=
  registered_of_guarded _ (by decide +kernel)

/-- A server whose `listen` fails stays in `servers_`, so that the next
    attempt to add it is ignored. A server that is destroyed leaves its key
    behind. -/
theorem not_registered_failures :
    ¬ Always step Registered init [.addOneServer ⟨5, by decide⟩ false] ∧
      addOneServer (addOneServer init ⟨5, by decide⟩ false) ⟨5, by decide⟩ true =
        addOneServer init ⟨5, by decide⟩ false ∧
      ¬ Always step Registered init [.addOneServer ⟨5, by decide⟩ true,
        .destroy ⟨5, by decide⟩, .acceptor .lock, .acceptor (.poll (.ready [⟨false, true⟩])),
        .acceptor (.accept 0), .acceptor (.accept 0)] := by
  refine ⟨fun h => ?_, rfl, fun h => ?_⟩
  · have hsame := (h _ _ List.prefix_rfl rfl).same ⟨rfl, rfl⟩
    exact absurd ((hsame.mem_iff 5).mp (by decide)) (by decide)
  · -- the only entry is erased
    have hclean : serversCleanup [⟨-1, 1⟩] 0 = .finished [] [-1] := by
      have hempty : serversCleanup [] 0 = .finished [] [] := by
        rw [serversCleanup]
        rfl
      refine (@serversCleanup_marked [] [] ⟨-1, 1⟩ 0 (by decide) (by simp) rfl).trans ?_
      show (serversCleanup [] 0).closing INVALID_SOCKET = _
      rw [hempty]
      rfl
    have hfinish : finishScan ⟨[⟨-1, 1⟩], [⟨5, [], MAX_CLIENTS, false, .unlocked⟩],
        .scanning 1 [⟨false, true⟩] true, [], [], [], [], .running⟩ true =
          ⟨[], [⟨5, [], MAX_CLIENTS, false, .unlocked⟩], .unlocked, [], [], [-1], [],
            .running⟩ := by
      rw [finishScan, if_pos rfl, hclean]
      rfl
    have hsame := (h _ _ List.prefix_rfl (congrArg some hfinish)).same ⟨rfl, rfl⟩
    exact absurd ((hsame.mem_iff 5).mpr (by decide)) (by decide)

end ServersCore
