import JsonRpcServer.Database.ObjectTree
import JsonRpcServer.Framework.Loop
import JsonRpcServer.Http.Patterns
import JsonRpcServer.Http.Socket

/-! # The Html Server

  `HtmlServer::processRequest` as one loop over one buffer: receive, answer
  what the patterns find in the text so far, wait.

  Sending is abstract. A response stands for the bytes of `sendResponse`,
  all of which the client takes.
-/

namespace HtmlServer

open Bytes Regex Http Loop HttpRecvBufferSingle

/-- What `sendResponse` sends. -/
inductive Response (Obj : Type) where
  /-- `sendResponse<OK, close>` with the page of an object. -/
  | page (close : Bool) (resource : Obj)
  /-- `sendResponse<BAD_REQUEST>`. -/
  | badRequest
  /-- `sendResponse<NOT_FOUND, close>`. -/
  | notFound (close : Bool)
  deriving DecidableEq

/-- The object whose page the response is. -/
def Response.resource? {Obj : Type} : Response Obj → Option Obj
  | .page _ resource => some resource
  | .badRequest | .notFound _ => none

/-- How `processRequest` ends. -/
inductive Exit where
  /-- The program has left its buffer. -/
  | fault (f : Fault)
  | recvFailed
  | closed
  /-- "Buffer overload". -/
  | overload
  /-- "Can't resolve http method". -/
  | noMethod
  /-- "Can't match GET". -/
  | noMatch
  /-- "Can't resolve URI". -/
  | noURI
  /-- "Can't find corresponding object". -/
  | noObject
  /-- `processRequestPOST`, which does nothing. -/
  | post
  /-- The client has asked to close the connection. -/
  | answered
  | timeout
  | pollError
  deriving DecidableEq

/-- The end of a connection, with everything sent on it. -/
structure Result (Obj : Type) where
  exit : Exit
  responses : List (Response Obj)
  deriving DecidableEq

/-- The loop waits in `recv`. -/
structure State (Obj : Type) (n : Nat) where
  buffer : HttpRecvBufferSingle n
  received : Int
  stream : Bytes
  responses : List (Response Obj)

variable {Obj : Type} {n : Nat}

/-- Send one more response. -/
def State.send (s : State Obj n) (r : Response Obj) : State Obj n :=
  { s with responses := s.responses ++ [r] }

/-- Leave the loop. -/
def State.leave (s : State Obj n) (e : Exit) : Step (State Obj n) (Result Obj) :=
  .exit ⟨e, s.responses⟩

/-- `processRequestGET<close>`. The page file of an object can always be
    opened. -/
def processRequestGET (objs : ObjectTree Obj) (close : Bool) (uri : List Bytes)
    (s : State Obj n) : Step (State Obj n) (Result Obj) :=
  match objs.resolve uri with
  | none => (s.send (.notFound close)).leave .noObject
  | some resource => .next (s.send (.page close resource))

/-- One round of the loop over the matches of `http_general_req`. -/
def answer (objs : ObjectTree Obj) (s : State Obj n) (general : Thread UInt8 Group) :
    Step (State Obj n) (Result Obj) :=
  let method := captured general .http_method
  if method = [] then (s.send .badRequest).leave .noMethod
  else if method = ascii "POST" then s.leave .post
  else if method = ascii "GET" then
    match matchFirst http_html_GET s.buffer.toQString with
    | none => (s.send .badRequest).leave .noMatch
    | some get =>
        let uri := captured get .http_URI
        if uri = [] then (s.send .badRequest).leave .noURI
        else if captured get .http_connection = ascii "close" then
          match processRequestGET objs true (targetPath uri) s with
          | .next s' => s'.leave .answered
          | .exit r => .exit r
        else processRequestGET objs false (targetPath uri) s
  else .next s

/-- The check for a full buffer, after `received` bytes. -/
def checkOverload (buffer : HttpRecvBufferSingle n) (received : Int) :
    Except Exit (HttpRecvBufferSingle n) :=
  if received = n then
    match buffer.cleanBuffer with
    | .error f => .error (.fault f)
    | .ok (cleaned, buffer') => if cleaned = 0 then .error .overload else .ok buffer'
  else .ok buffer

/-- The `POLL` at the end of a turn. It asks for `POLLIN`, and for `POLLOUT`
    once a response has been sent; the next turn does not depend on which
    was reported. -/
def poll (s : State Obj n) : PollEvent → Step (State Obj n) (Result Obj)
  | .ready true _ => s.leave .closed
  | .ready false _ => .next s
  | .timeout => s.leave .timeout
  | .error => s.leave .pollError

/-- What follows a `recv` that returned `ret`. -/
def afterRecv (objs : ObjectTree Obj) (s : State Obj n) (ret : Int) (p : PollEvent) :
    Step (State Obj n) (Result Obj) :=
  match checkOverload s.buffer (s.received + ret) with
  | .error e => s.leave e
  | .ok buffer =>
      match run (answer objs) { s with buffer, received := s.received + ret }
          (globalMatch http_general_req buffer.toQString) with
      | .running s' => poll s' p
      | .exited r _ => .exit r

/-- One turn of the loop. A `recv` that fails with `EAGAIN` counts as -1. -/
def turn (objs : ObjectTree Obj) (s : State Obj n) (t : Turn) :
    Step (State Obj n) (Result Obj) :=
  match recv s.buffer (n - s.received) t.recv s.stream with
  | .fault f => s.leave (.fault f)
  | .error => s.leave .recvFailed
  | .closed => s.leave .closed
  | .again => afterRecv objs s (-1) t.poll
  | .data ret buffer stream => afterRecv objs { s with buffer, stream } ret t.poll

/-- The start of `processRequest` with a fresh block. -/
def start (n : Nat) (stream : Bytes) : State Obj n := ⟨zeroed n, 0, stream, []⟩

/-- `processRequest` for a peer that sends `stream`. -/
def processRequest (n : Nat) (objs : ObjectTree Obj) (stream : Bytes) (turns : List Turn) :
    Outcome (State Obj n) (Result Obj) Turn :=
  run (turn objs) (start n stream) turns

end HtmlServer
