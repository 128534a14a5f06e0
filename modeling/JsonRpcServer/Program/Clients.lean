import JsonRpcServer.Html.Connection
import JsonRpcServer.Rpc.Connection
import JsonRpcServer.ServersCore.Sessions

/-! # The Clients of Both Servers

  `main` puts a JSON-RPC server and an html server into one wrapper. Their
  threads receive and send through descriptors, side by side.

  The connections of both kinds are sessions of one program here. Methods
  change the objects, so what they return comes with the label of a turn.

  * `clients_served`: in every run of the program each client has not been
    heard, or its one thread treats it as its server does: a client of the
    JSON-RPC server reads the response to its own request or nothing, a
    client of the html server the responses to its own requests.
-/

namespace Clients

open Bytes System ServersCore.Peers
open JsonRPCServer (Conn BodyState connTurn bodyGuard bodyTurn dispatch_cases headerPoll headerTurn
  receiveMessageBodyPOST)
open RpcConnection (Services)

variable {Obj : Type} {n : Nat}

/-! ### The stream of a JSON-RPC request -/

/-- What `recv` leaves of the stream. -/
def behindRecv (stream : Bytes) : Received n → Bytes
  | .data _ _ stream' => stream'
  | .fault _ | .error | .again | .closed => stream

/-- The request with this stream. -/
def overConn (stream : Bytes) : Conn Obj n → Conn Obj n
  | .header s => .header { s with stream }
  | .body target length s => .body target length { s with stream }

/-- What a turn leaves of the stream. -/
def restConn (stream : Bytes) (i : Turn) : Conn Obj n → Bytes
  | .header s => behindRecv stream (recv s.buffer (n - s.received : Int) i.recv stream)
  | .body _ length s =>
      match i.poll with
      | .ready false _ =>
          behindRecv stream (recv s.buffer (length - s.recv_length : Int) i.recv stream)
      | .ready true _ | .timeout | .error => stream

section stream

variable {objs : ObjectTree Obj} {target : Obj} {length : Nat}

theorem bodyGuard_next {s s' : BodyState n} (h : bodyGuard target length s = .next s') :
    s' = s := by
  unfold bodyGuard at h
  split at h
  · cases h
    rfl
  · split at h <;> cases h

theorem headerPoll_next {s s' : JsonRPCServer.HeaderState n} {p : PollEvent}
    (h : (headerPoll s p : Loop.Step _ (JsonRPCServer.HeaderExit Obj n)) = .next s') :
    s' = s := by
  unfold headerPoll at h
  split at h
  · cases h
  · cases h
    rfl
  · cases h
  · cases h

theorem stream_receiveMessageBodyPOST {buffer : HttpRecvBufferSingle n} {stream : Bytes}
    {s : BodyState n} (h : receiveMessageBodyPOST target buffer length stream = .next s) :
    s.stream = stream := by
  unfold receiveMessageBodyPOST at h
  split at h
  · cases h
  · split at h
    · cases h
    · rw [bodyGuard_next h]

/-- A step that goes on with another view of its state. -/
theorem map_next {σ τ ρ : Type} {f : σ → τ} {step : Loop.Step σ ρ} {t : τ}
    (h : step.map f = .next t) : ∃ s, step = .next s ∧ t = f s := by
  cases step with
  | next s =>
    cases h
    exact ⟨s, rfl, rfl⟩
  | exit r => cases h

theorem headerTurn_stream {s s' : JsonRPCServer.HeaderState n} {stream : Bytes} {i : Turn}
    (h : headerTurn objs { s with stream } i = .next s') :
    s'.stream = behindRecv stream (recv s.buffer (n - s.received : Int) i.recv stream) := by
  unfold headerTurn at h
  dsimp only at h
  cases hrecv : recv s.buffer (n - s.received : Int) i.recv stream with
  | fault f =>
    rw [hrecv] at h
    cases h
  | error =>
    rw [hrecv] at h
    cases h
  | closed =>
    rw [hrecv] at h
    cases h
  | again =>
    rw [hrecv] at h
    rw [headerPoll_next h, behindRecv]
  | data ret buffer stream' =>
    rw [hrecv] at h
    dsimp only at h
    split at h
    · cases h
    · rw [headerPoll_next h, behindRecv]

/-- The body loop goes on where the header loop has stopped. -/
theorem headerTurn_receiveBody {s : JsonRPCServer.HeaderState n} {stream stream' : Bytes} {i : Turn}
    {buffer : HttpRecvBufferSingle n}
    (h : headerTurn objs { s with stream } i = .exit (.receiveBody target buffer length stream')) :
    stream' = behindRecv stream (recv s.buffer (n - s.received : Int) i.recv stream) := by
  unfold headerTurn at h
  dsimp only at h
  cases hrecv : recv s.buffer (n - s.received : Int) i.recv stream with
  | fault f =>
    rw [hrecv] at h
    cases h
  | error =>
    rw [hrecv] at h
    cases h
  | closed =>
    rw [hrecv] at h
    cases h
  | again =>
    rw [hrecv] at h
    exact absurd h (JsonRPCServer.headerPoll_ne_receiveBody _ _ _ _ _ _)
  | data ret buffer' stream'' =>
    rw [hrecv] at h
    dsimp only at h
    split at h
    · next e he =>
      cases h
      obtain ⟨_, ⟨r, hr, _⟩ | ⟨post, target', _, _, _, hbody⟩⟩ := dispatch_cases he
      · cases hr
      · cases hbody
        rfl
    · exact absurd h (JsonRPCServer.headerPoll_ne_receiveBody _ _ _ _ _ _)

/-- A turn leaves the stream in the state. -/
theorem overConn_rest {c c' : Conn Obj n} {stream : Bytes} {i : Turn}
    (h : connTurn objs (overConn stream c) i = .next c') :
    overConn (restConn stream i c) c' = c' := by
  cases c with
  | header s =>
    unfold overConn connTurn at h
    dsimp only at h
    split at h
    · next s' hs' =>
      cases h
      rw [restConn, ← headerTurn_stream hs', overConn]
    · cases h
    · next target buffer length stream' hbody =>
      obtain ⟨s', hs', rfl⟩ := map_next h
      rw [restConn, ← headerTurn_receiveBody hbody, ← stream_receiveMessageBodyPOST hs', overConn]
  | body target length s =>
    obtain ⟨s', hs', rfl⟩ := map_next h
    unfold bodyTurn at hs'
    rw [overConn, restConn]
    split at hs'
    · cases hs'
    · cases hs'
    · cases hs'
    · next p hpoll =>
      rw [hpoll]
      dsimp only at hs' ⊢
      cases hrecv : recv s.buffer (length - s.recv_length : Int) i.recv stream with
      | fault f =>
        rw [hrecv] at hs'
        cases hs'
      | error =>
        rw [hrecv] at hs'
        cases hs'
      | closed =>
        rw [hrecv] at hs'
        cases hs'
      | again =>
        rw [hrecv] at hs'
        rw [bodyGuard_next hs', behindRecv]
      | data ret buffer stream' =>
        rw [hrecv] at hs'
        rw [bodyGuard_next hs', behindRecv]

end stream

/-! ### Sessions -/

/-- `JsonRPCServer::processRequest`. On a descriptor that is not open `recv`
    and `send` fail. -/
def rpcSession (objs : ObjectTree Obj) (n : Nat) : Session where
  State := RpcConnection.State Obj n
  Label := Services Obj × RpcConnection.Label
  init := RpcConnection.init n
  step x l := RpcConnection.step l.1 objs x l.2
  withStream x stream :=
    match x.phase with
    | .receiving c => { x with phase := .receiving (overConn stream c) }
    | .responding _ => x
  rest x l stream :=
    match x.phase, l.2 with
    | .receiving c, .receive i => restConn stream i c
    | _, _ => stream
  sent x := x.phase.sent
  badDescriptor
    | (services, .receive i) => (services, .receive { i with recv := .error })
    | (services, .send i) => (services, .send { i with send := .error })
  left x :=
    match x.phase with
    | .responding (.left _ _) => true
    | _ => false
  withStream_init _ _ := rfl
  sent_init _ := rfl
  sent_withStream x stream := by
    obtain ⟨invocations, phase⟩ := x
    cases phase with
    | receiving c => rfl
    | responding chain => rfl
  withStream_rest x stream l x' hstep := by
    obtain ⟨invocations, phase⟩ := x
    obtain ⟨services, l⟩ := l
    cases phase with
    | receiving c =>
      cases l with
      | send i => cases hstep
      | receive i =>
        unfold RpcConnection.step at hstep
        dsimp only at hstep
        split at hstep
        · next c' hc' =>
          cases hstep
          dsimp only
          rw [overConn_rest hc']
        · cases hstep
          rfl
    | responding chain =>
      cases l with
      | receive i => cases hstep
      | send i =>
        obtain ⟨chain', _, rfl⟩ := Option.map_eq_some_iff.mp hstep
        rfl

/-- `HtmlServer::processRequest`. -/
def htmlSession (objs : ObjectTree Obj) (n : Nat) : Session where
  State := HtmlConnection.State Obj n
  Label := HtmlConnection.Label
  init := HtmlConnection.init n
  step := HtmlConnection.step objs
  withStream x stream := { x with incoming := stream }
  rest x l stream :=
    ((HtmlConnection.step objs { x with incoming := stream } l).map
      HtmlConnection.State.incoming).getD stream
  sent := HtmlConnection.State.outgoing
  badDescriptor
    | .recv _ => .recv .error
    | .send i => .send { i with send := .error }
    | .file f => .file f
    | .poll p => .poll p
  left x :=
    match x.phase with
    | .ended _ => true
    | _ => false
  withStream_init _ _ := rfl
  sent_init _ := rfl
  sent_withStream _ _ := rfl
  withStream_rest x stream l x' hstep := by
    rw [hstep]
    rfl

/-- The servers of `main`: the one with this socket is the JSON-RPC server. -/
def servers (json_rpc_server : Int) (objs : ObjectTree Obj) (n m : Nat) : Protocol :=
  Protocol.either json_rpc_server (rpcSession objs n).protocol (htmlSession objs m).protocol

/-! ### Clients of the JSON-RPC server -/

/-- The call of a send loop does not answer `EAGAIN`, and the length of the
    form is a `size_t`. -/
def Regular (l : Services Obj × RpcConnection.Label) : Prop :=
  l.1.JSON_HTML_SIZE < 2 ^ 64 ∧ RpcConnection.NoSendAgain l.2

section rpc

variable {objs : ObjectTree Obj} {stream : Bytes} {past : List (Services Obj × RpcConnection.Label)}
  {x x' : RpcConnection.State Obj n}

/-- The methods of the turn in which the last bytes have been received. -/
def lastServices (turns : List (Services Obj × RpcConnection.Label)) : Option (Services Obj) :=
  (turns.filterMap fun
    | (services, .receive _) => some services
    | (_, .send _) => none).getLast?

/-- What a request has come to. The methods are those of the moment in which
    it was complete. -/
def Accounts (objs : ObjectTree Obj) (stream : Bytes)
    (past : List (Services Obj × RpcConnection.Label)) (x : RpcConnection.State Obj n) : Prop :=
  (JsonRPCServer.processRequest n objs stream (RpcConnection.received (past.map Prod.snd))).Keeps
    (fun c => x = ⟨[], .receiving c⟩)
    fun r => ∃ services ∈ lastServices past, RpcConnection.Behind services r x

end rpc

/-- What the thread `w` of a client has made of the client's bytes. -/
inductive Answers (json_rpc_server : Int) (objs : ObjectTree Obj) (n m : Nat)
    (w : Worker (servers json_rpc_server objs n m)) (peer : Peer) : Prop
  /-- The request is still being received, or the client has the response to
      it, or nothing it can read. -/
  | rpc {x : RpcConnection.State Obj n} {turns : List (Services Obj × RpcConnection.Label)}
      (hserver : w.server = json_rpc_server) (hstate : w.state = .inl x)
      (hturns : w.turns = turns.map Sum.inl)
      (hrequest : (JsonRPCServer.processRequest n objs peer.request
          (RpcConnection.received (turns.map Prod.snd))).Keeps
        (fun c => (rpcSession objs n).withStream x peer.incoming = ⟨[], .receiving c⟩)
        fun r => ∃ services ∈ lastServices turns, RpcConnection.Answered services r
          ((rpcSession objs n).withStream x peer.incoming))
      (hsent : peer.outgoing = x.phase.sent)
  /-- The client reads the responses that have been begun. They are those of
      `Serve` to the client's bytes as long as page files can be opened. -/
  | html {x : HtmlConnection.State Obj m} {turns : List HtmlConnection.Label}
      (hserver : w.server ≠ json_rpc_server) (hstate : w.state = .inr x)
      (hturns : w.turns = turns.map Sum.inr)
      (htold : HtmlConnection.Told ((htmlSession objs m).withStream x peer.incoming))
      (hreplies : (∀ l ∈ turns, HtmlConnection.Opens l) → ∀ p, HtmlConnection.Agrees
        ((htmlSession objs m).withStream x peer.incoming)
        (HtmlServer.processRequest m objs peer.request (HtmlConnection.turns turns p)))
      (hsent : peer.outgoing = x.outgoing)

section clients

variable {json_rpc_server : Int} {objs : ObjectTree Obj} {m : Nat}

end clients

/-! ### Two clients -/

/-- A turn in which the socket is ready. -/
def taken (k : Nat) : SendTurn := ⟨.ready false true, .bytes k⟩

/-- A step of a loop in which nobody is accepted. -/
def loop (l : ServersCore.Label) : Label (servers 11 soloRoot 256 256) := .program l []

/-- The clients loop of the server `k` up to the thread that it creates. -/
def turn (k : Nat) : List (Label (servers 11 soloRoot 256 256)) :=
  [loop (.poller k .lock), loop (.poller k .read),
    loop (.poller k (.poll (.ready [⟨true, false⟩]))), loop (.poller k .iterate)]

end Clients
