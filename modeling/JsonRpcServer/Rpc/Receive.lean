import JsonRpcServer.Database.ObjectTree
import JsonRpcServer.Framework.Loop
import JsonRpcServer.Http.Markers
import JsonRpcServer.Http.Socket

/-! # Receiving a JSON-RPC Request

  `JsonRPCServer::processRequest` and `receiveMessageBodyPOST` as two loops
  over one buffer.

  ## Protocol

  1. **Header loop**: receive, try the patterns on the text so far, wait.
  2. **Body loop**: entered when a POST request has its header section and
     its path names an object; wait, receive, until `length` bytes follow
     the first blank line.

  A turn of a loop ends where the code asks the environment again. What the
  request ends in is a `Result`.
-/

namespace JsonRPCServer

open Bytes Regex Http Loop HttpRecvBufferSingle

/-! ### Results -/

/-- `QString::toInt` of a digit string: 0 if the value is no `int`. -/
def toInt (ds : Bytes) : Nat := if digitsValue ds < 2 ^ 31 then digitsValue ds else 0

/-- How the processing of a request ends. -/
inductive Result (Obj : Type) where
  /-- The program has left its buffer. -/
  | fault (f : Fault)
  | recvFailed
  | closed
  | timeout
  | pollError
  /-- "Can't resolve http method". -/
  | noMethod
  /-- "Error finding body length". -/
  | noBodyLength
  /-- `sendJsonResponseError(0, ObjectNotFound)`. -/
  | objectNotFound
  /-- `processRequestGET`. -/
  | get
  /-- `processRequestPOST(target, body)`. -/
  | post (target : Obj) (body : Bytes)
  deriving DecidableEq

variable {Obj : Type} {n : Nat}

/-! ### The body loop -/

/-- The body loop waits in `POLL`. -/
structure BodyState (n : Nat) where
  buffer : HttpRecvBufferSingle n
  recv_length : Nat
  stream : Bytes

/-- The guard of the body loop, and what follows the loop. -/
def bodyGuard (target : Obj) (length : Nat) (s : BodyState n) :
    Step (BodyState n) (Result Obj) :=
  if s.recv_length < length then .next s
  else
    match s.buffer.requestBody length with
    | .ok body => .exit (.post target body)
    | .error f => .exit (.fault f)

/-- One turn of the body loop: `POLL`, then `recv`. -/
def bodyTurn (target : Obj) (length : Nat) (s : BodyState n) (turn : Turn) :
    Step (BodyState n) (Result Obj) :=
  match turn.poll with
  | .ready true _ => .exit .closed
  | .timeout => .exit .timeout
  | .error => .exit .pollError
  | .ready false _ =>
      match recv s.buffer (length - s.recv_length : Int) turn.recv s.stream with
      | .fault f => .exit (.fault f)
      | .error => .exit .recvFailed
      | .again => bodyGuard target length s
      | .closed => .exit .closed
      | .data ret buffer stream =>
          bodyGuard target length ⟨buffer, s.recv_length + ret, stream⟩

/-- `receiveMessageBodyPOST`, up to its first wait. -/
def receiveMessageBodyPOST (target : Obj) (buffer : HttpRecvBufferSingle n) (length : Nat)
    (stream : Bytes) : Step (BodyState n) (Result Obj) :=
  match buffer.receivedContentLength with
  | .error f => .exit (.fault f)
  | .ok recv_length =>
      if recv_length < 0 then .exit .noBodyLength
      else bodyGuard target length ⟨buffer, recv_length.toNat, stream⟩

/-! ### The header loop -/

/-- The header loop waits in `recv`. -/
structure HeaderState (n : Nat) where
  buffer : HttpRecvBufferSingle n
  received : Nat
  stream : Bytes

/-- How the header loop ends. -/
inductive HeaderExit (Obj : Type) (n : Nat) where
  | done (r : Result Obj)
  /-- The call of `receiveMessageBodyPOST`. -/
  | receiveBody (target : Obj) (buffer : HttpRecvBufferSingle n) (length : Nat)
      (stream : Bytes)

/-- What the header loop does with the text received so far; `none` means
    that it waits for more. -/
def dispatch (objs : ObjectTree Obj) (s : HeaderState n) : Option (HeaderExit Obj n) :=
  match matchFirst http_general_req s.buffer.toQString with
  | none => none
  | some general =>
      let method := captured general .http_method
      if method = [] then some (.done .noMethod)
      else if method = ascii "POST" then
        match matchFirst http_json_POST s.buffer.toQString with
        | none => none
        | some post =>
            let length := captured post .http_length
            if length = [] then none
            else
              match objs.resolve (targetPath (captured post .http_URI)) with
              | none => some (.done .objectNotFound)
              | some target =>
                  some (.receiveBody target s.buffer (toInt length) s.stream)
      else if method = ascii "GET" then
        match globalMatch http_json_GET s.buffer.toQString with
        | [] => none
        | _ :: _ => some (.done .get)
      else none

/-- The `POLL` at the end of a turn of the header loop. -/
def headerPoll (s : HeaderState n) : PollEvent → Step (HeaderState n) (HeaderExit Obj n)
  | .ready true _ => .exit (.done .closed)
  | .ready false _ => .next s
  | .timeout => .exit (.done .timeout)
  | .error => .exit (.done .pollError)

/-- One turn of the header loop: `recv`, the patterns, `POLL`. -/
def headerTurn (objs : ObjectTree Obj) (s : HeaderState n) (turn : Turn) :
    Step (HeaderState n) (HeaderExit Obj n) :=
  match recv s.buffer (n - s.received : Int) turn.recv s.stream with
  | .fault f => .exit (.done (.fault f))
  | .error => .exit (.done .recvFailed)
  | .closed => .exit (.done .closed)
  | .again => headerPoll s turn.poll
  | .data ret buffer stream =>
      match dispatch objs ⟨buffer, s.received + ret, stream⟩ with
      | some e => .exit e
      | none => headerPoll ⟨buffer, s.received + ret, stream⟩ turn.poll

/-! ### The whole request -/

/-- Where a request thread waits. -/
inductive Conn (Obj : Type) (n : Nat) where
  | header (s : HeaderState n)
  | body (target : Obj) (length : Nat) (s : BodyState n)

/-- One turn of the loop the request is in. When the header loop hands the
    request over, the body loop starts in the same turn. -/
def connTurn (objs : ObjectTree Obj) : Conn Obj n → Turn → Step (Conn Obj n) (Result Obj)
  | .header s, turn =>
      match headerTurn objs s turn with
      | .next s' => .next (.header s')
      | .exit (.done r) => .exit r
      | .exit (.receiveBody target buffer length stream) =>
          (receiveMessageBodyPOST target buffer length stream).map (.body target length)
  | .body target length s, turn => (bodyTurn target length s turn).map (.body target length)

/-- The start of `processRequest` with a fresh block. -/
def start (n : Nat) (stream : Bytes) : Conn Obj n := .header ⟨zeroed n, 0, stream⟩

/-- `processRequest` for a peer that sends `stream`. -/
def processRequest (n : Nat) (objs : ObjectTree Obj) (stream : Bytes) (turns : List Turn) :
    Outcome (Conn Obj n) (Result Obj) Turn :=
  run (connTurn objs) (start n stream) turns

/-! ### What the header loop does -/

/-- Without a blank line the header loop waits. -/
theorem dispatch_of_not_blank (objs : ObjectTree Obj) {s : HeaderState n}
    (h : ¬ Blank s.buffer.toQString) : dispatch objs s = none := by
  rw [dispatch, matchFirst, http_general_req_none h]

/-- The header loop ends with a report, or it hands over its own buffer with
    what `http_json_POST` has found in it. -/
theorem dispatch_cases {objs : ObjectTree Obj} {s : HeaderState n} {e : HeaderExit Obj n}
    (h : dispatch objs s = some e) : Blank s.buffer.toQString ∧
      ((∃ r, e = .done r ∧ ∀ f, r ≠ .fault f) ∨
        ∃ post target, matchFirst http_json_POST s.buffer.toQString = some post ∧
          captured post .http_length ≠ [] ∧
          objs.resolve (targetPath (captured post .http_URI)) = some target ∧
          e = .receiveBody target s.buffer (toInt (captured post .http_length)) s.stream) := by
  -- without a blank line there is no match, and no answer
  have hblank : Blank s.buffer.toQString := by
    by_contra hn
    rw [dispatch_of_not_blank objs hn] at h
    cases h
  refine ⟨hblank, ?_⟩
  rw [dispatch] at h
  split at h
  · cases h
  · dsimp only at h
    split at h
    · cases h
      exact Or.inl ⟨_, rfl, by simp⟩
    · split at h
      · split at h
        · cases h
        · next post hpost =>
          split at h
          · cases h
          · next hlen =>
            split at h
            · cases h
              exact Or.inl ⟨_, rfl, by simp⟩
            · next target htarget =>
              cases h
              exact Or.inr ⟨post, target, hpost, hlen, htarget, rfl⟩
      · split at h
        · split at h
          · cases h
          · cases h
            exact Or.inl ⟨_, rfl, by simp⟩
        · cases h

/-- On a text that starts with a POST request line the header loop does what
    `http_json_POST` says. -/
theorem dispatch_POST (objs : ObjectTree Obj) {s : HeaderState n} {t : Target} {rest : Bytes}
    (htext : s.buffer.toQString = ascii "POST " ++ (t.line ++ rest)) :
    dispatch objs s =
      match matchFirst http_json_POST s.buffer.toQString with
      | none => none
      | some post =>
          if captured post .http_length = [] then none
          else
            match objs.resolve (targetPath (captured post .http_URI)) with
            | none => some (.done .objectNotFound)
            | some target =>
                some (.receiveBody target s.buffer (toInt (captured post .http_length)) s.stream) := by
  have hline : ascii "POST " ++ (t.line ++ rest) =
      80 :: ascii "OST" ++ (ascii " " ++ (t.line ++ rest)) := by
    simp [ascii]
  have hgeneral := http_general_req_match 80 (ascii "OST") (by decide) t rest
  rw [← hline, ← htext] at hgeneral
  rw [dispatch]
  -- `http_json_POST` needs the blank line that `http_general_req` misses
  rcases hgeneral with ⟨hm, hno⟩ | ⟨general, hm, hmethod, _⟩
  · have hnone : matchFirst http_json_POST s.buffer.toQString = none := by
      rw [← Option.map_eq_none_iff (f := Thread.caps), htext, http_json_POST_match,
        tailCaps_eq_none_iff]
      exact fun h => hno h.2
    rw [hm, hnone]
  · have hpost : captured general .http_method = ascii "POST" := hmethod
    rw [hm]
    dsimp only
    rw [hpost, if_neg (by decide), if_pos rfl]

/-- Waiting hands nothing over. -/
theorem headerPoll_ne_receiveBody (s : HeaderState n) (p : PollEvent) (target : Obj)
    (buffer : HttpRecvBufferSingle n) (length : Nat) (stream : Bytes) :
    headerPoll s p ≠ .exit (.receiveBody target buffer length stream) := by
  match p with
  | .ready true _ => simp [headerPoll]
  | .ready false _ => simp [headerPoll]
  | .timeout => simp [headerPoll]
  | .error => simp [headerPoll]

/-- A hand-over comes from the patterns. -/
theorem dispatch_of_headerTurn {objs : ObjectTree Obj} {s : HeaderState n} {turn : Turn}
    {target : Obj} {buffer : HttpRecvBufferSingle n} {length : Nat} {stream : Bytes}
    (h : headerTurn objs s turn = .exit (.receiveBody target buffer length stream)) :
    ∃ s', dispatch objs s' = some (.receiveBody target buffer length stream) := by
  rw [headerTurn] at h
  split at h
  · cases h
  · cases h
  · cases h
  · exact absurd h (headerPoll_ne_receiveBody _ _ _ _ _ _)
  · split at h
    · next e he =>
      cases h
      exact ⟨_, he⟩
    · exact absurd h (headerPoll_ne_receiveBody _ _ _ _ _ _)

/-! ### The start of the body loop -/

/-- What the body loop starts from. -/
theorem receiveMessageBodyPOST_eq {buffer : HttpRecvBufferSingle n}
    (hb : Blank buffer.toQString) (target : Obj) (length : Nat) (stream : Bytes) :
    receiveMessageBodyPOST target buffer length stream =
      if 0 < buffer.nulCount then
        bodyGuard target length
          ⟨buffer, buffer.appendOffset - bodyStart buffer.toQString, stream⟩
      else .exit (.fault .scan) := by
  rw [receiveMessageBodyPOST, receivedContentLength_eq hb]
  by_cases hpos : 0 < buffer.nulCount
  · rw [if_pos hpos, if_pos hpos]
    dsimp only
    rw [if_neg (by omega), Int.toNat_natCast]
  · rw [if_neg hpos, if_neg hpos]

end JsonRPCServer
