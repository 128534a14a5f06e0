import JsonRpcServer.Http.SendChain
import JsonRpcServer.Rpc.Delivery
import JsonRpcServer.Rpc.Reading

/-! # One Connection

  The life of a connection to the JSON-RPC server, from the first byte of
  the request to the close.

  ## Phases

  1. **Receiving**: the two loops of `processRequest`.
  2. **Sending**: a send loop for the response of `processRequestPOST` or of
     a failed lookup; two of them for the form.
  3. **Closed**: `client_ptr` is destroyed, and with it the connection.

  The target is called between the first two phases. The environment decides
  how the bytes are cut in both directions, when a loop is left, and what
  the bytes of the request are.

  ## Main results

  * `response_alone`: whatever has been received, the target is called at
    most once and before anything is sent, and the client reads one response
    or none, that of the request as `processRequest` has understood it.
  * `request_answered`: an acceptable request that arrives is answered. The
    client reads the whole response to it once it has taken its bytes.
-/

namespace RpcConnection

open JsonRPCServer hiding Progress
open Bytes Json HttpMessage HttpFraming FileHandles JsonRPCErrorCodes SendChain System

variable {Obj : Type} {n : Nat}

/-! ### Model -/

/-- What request threads use besides their connection. -/
structure Services (Obj : Type) where
  fromJson : Bytes → Option Value
  /-- `QMetaObject::invokeMethod` on an object. -/
  invokeMethod : Obj → Bytes → JsonRPCParams_t → Option JsonRPCRet_t
  /-- `jsonrpc.html`, if it can be opened. -/
  form : Option Bytes
  JSON_HTML_SIZE : Nat

/-- A call of a method. -/
structure Invocation (Obj : Type) where
  target : Obj
  method : Bytes
  params : JsonRPCParams_t

/-- Where a request thread stands. -/
inductive Phase (Obj : Type) (n : Nat) where
  /-- In a loop of `processRequest`. -/
  | receiving (c : Conn Obj n)
  /-- In the loops of a response. When they have been left, the connection
      is closed. -/
  | responding (chain : SendChain)

structure State (Obj : Type) (n : Nat) where
  invocations : List (Invocation Obj)
  phase : Phase Obj n

inductive Label where
  /-- A turn of a receive loop. -/
  | receive (i : Turn)
  /-- A turn of a send loop. -/
  | send (i : SendTurn)
  deriving DecidableEq

/-- What the client has been sent. -/
def Phase.sent : Phase Obj n → Bytes
  | .receiving _ => []
  | .responding chain => chain.sent

/-- The loop behind a sender. Those of `sendJsonResponseValid` and
    `sendJsonResponseError` are the same. -/
def sendResponse : Sending → SendChain
  | .fault => .fault
  | .silent => .left none []
  | .message send_buffer => sendLoops [SendCode.buffer send_buffer] []

/-- `JsonRPCServer::processRequestGET`. The file is opened behind the first
    loop. -/
def processRequestGET (services : Services Obj) : SendChain :=
  match sendBuf (fileHead .OK services.JSON_HTML_SIZE true) with
  | none => .fault
  | some buf =>
      match services.form with
      | none => sendLoops [processRequestGETHead buf] []
      | some form => sendLoops
          [processRequestGETHead buf, processRequestGETForm form services.JSON_HTML_SIZE] []

/-- `JsonRPCServer::processRequestPOST` with the methods of this object. -/
def processPOST (services : Services Obj) (target : Obj) (req_body : Bytes) : Outcome :=
  processRequestPOST services.fromJson (services.invokeMethod target) req_body

/-- The calls of an outcome. -/
def Outcome.calls (o : Outcome) (target : Obj) : List (Invocation Obj) :=
  o.invocations.map fun p => ⟨target, p.1, p.2⟩

/-- The loops behind a request that has ended. -/
def response (services : Services Obj) : Result Obj → SendChain
  | .fault _ => .fault
  | .recvFailed | .closed | .timeout | .pollError | .noMethod | .noBodyLength => .left none []
  | .objectNotFound => sendResponse (sendJsonResponseError 0 ObjectNotFound)
  | .get => processRequestGET services
  | .post target body => sendResponse (processPOST services target body).response

/-- The invocations for a request that has ended. -/
def invocations (services : Services Obj) : Result Obj → List (Invocation Obj)
  | .post target body => Outcome.calls (processPOST services target body) target
  | _ => []

/-- What follows the receive loops. -/
def respond (services : Services Obj) (r : Result Obj) : State Obj n :=
  ⟨invocations services r, .responding (response services r)⟩

def step (services : Services Obj) (objs : ObjectTree Obj) (x : State Obj n) :
    Label → Option (State Obj n)
  | .receive i =>
      match x.phase with
      | .receiving c =>
          match connTurn objs c i with
          | .next c' => some { x with phase := .receiving c' }
          | .exit r => some (respond services r)
      | _ => none
  | .send i =>
      match x.phase with
      | .responding chain =>
          (chain.step i).map fun chain' => { x with phase := .responding chain' }
      | _ => none

/-- A client that sends `stream` has been accepted. -/
def init (n : Nat) (stream : Bytes) : State Obj n := ⟨[], .receiving (start n stream)⟩

/-- The turns of the receive loops. -/
def received (ls : List Label) : List Turn :=
  ls.filterMap fun
    | .receive i => some i
    | .send _ => none

/-- The call of a send loop does not answer `EAGAIN`. -/
def NoSendAgain : Label → Prop
  | .receive _ => True
  | .send i => i.NoAgain

/-! ### What the client is to be sent -/

/-- The bytes of a response. -/
def messageBytes : Sending → Bytes
  | .message send_buffer => send_buffer
  | .fault => []
  | .silent => []

/-- What the client is sent when nothing goes wrong behind the request. A
    form that is shorter than `JSON_HTML_SIZE` leaves its response cut off. -/
def due (services : Services Obj) : Result Obj → Bytes
  | .objectNotFound => messageBytes (sendJsonResponseError 0 ObjectNotFound)
  | .get => fileHead .OK services.JSON_HTML_SIZE true ++
      (services.form.getD []).take services.JSON_HTML_SIZE
  | .post target body => messageBytes (processPOST services target body).response
  | .fault _ | .recvFailed | .closed | .timeout | .pollError | .noMethod | .noBodyLength => []

/-- Whether the program leaves a buffer. -/
def Faults (services : Services Obj) : Result Obj → Prop
  | .fault _ => True
  | .post target body => (processPOST services target body).response = .fault
  | _ => False

/-- A response is one message with a length, or nothing. -/
def IsMessage (s : Sending) : Prop :=
  ∀ b, s = .message b → ∃ code body, b = (rpcMessage code body).bytes

/-! ### Messages -/

theorem isMessage_error (id : Int32) (code : JsonRPCErrorCodes) :
    IsMessage (sendJsonResponseError id code) := by
  intro b h
  rw [sendJsonResponseError_message] at h
  injection h with h
  exact ⟨code, errorBody id code, by rw [← h, rpcMessage_bytes]⟩

theorem isMessage_valid (id : Int32) (result_b : Bytes) :
    IsMessage (sendJsonResponseValid id result_b) := by
  intro b h
  have hb := ((sendJsonResponseValid_message_iff (ne_zero_of_message h) result_b b).mp h).2
  exact ⟨NoError, validBody id result_b, by rw [hb, rpcMessage_bytes]⟩

theorem isMessage_answer (id : Int32) (ret : Option JsonRPCRet_t) : IsMessage (answer id ret) := by
  by_cases hresult : ∃ result, ret = some (result, NoError)
  · obtain ⟨result, rfl⟩ := hresult
    exact isMessage_valid id result
  · obtain ⟨code, _, hanswer⟩ := answer_error id hresult
    rw [hanswer]
    exact isMessage_error id code

theorem isMessage_refuse (code : JsonRPCErrorCodes) : IsMessage (refuse code).response := by
  rw [refuse]
  exact isMessage_error 0 code

/-- Every response of `processRequestPOST` is a message. -/
theorem isMessage_process (fromJson : Bytes → Option Value)
    (invokeMethod : Bytes → JsonRPCParams_t → Option JsonRPCRet_t) (req_body : Bytes) :
    IsMessage (processRequestPOST fromJson invokeMethod req_body).response := by
  unfold processRequestPOST
  dsimp only
  split
  · exact isMessage_refuse ParseError
  · split
    · exact isMessage_refuse ParseError
    split
    · exact isMessage_refuse InternalError
    split
    · exact isMessage_refuse _
    · unfold invoke
      dsimp only
      split
      · exact isMessage_refuse InvalidRequest
      · exact isMessage_answer _ _

/-- What is due is the beginning of one message. -/
theorem due_prefix (services : Services Obj) (r : Result Obj) :
    ∃ m, Closed m ∧ due services r <+: m.bytes := by
  have hmessage : ∀ {s}, IsMessage s → ∃ m, Closed m ∧ messageBytes s <+: m.bytes := by
    intro s hs
    cases s with
    | message b =>
      obtain ⟨code, body, rfl⟩ := hs b rfl
      exact ⟨_, Or.inl (framed_rpcMessage code body), List.prefix_rfl⟩
    | fault => exact ⟨_, Or.inl (framed_rpcMessage NoError []), List.nil_prefix⟩
    | silent => exact ⟨_, Or.inl (framed_rpcMessage NoError []), List.nil_prefix⟩
  have hnothing : ∃ m, Closed m ∧ [] <+: m.bytes :=
    ⟨_, Or.inl (framed_rpcMessage NoError []), List.nil_prefix⟩
  cases r with
  | objectNotFound =>
    rw [due]
    exact hmessage (isMessage_error 0 ObjectNotFound)
  | post target body => exact hmessage (isMessage_process _ _ body)
  | get =>
    -- a form that is too short is filled up
    have hlen : ∃ f : Bytes, f.length = services.JSON_HTML_SIZE ∧
        (services.form.getD []).take services.JSON_HTML_SIZE <+: f := by
      refine ⟨(services.form.getD []).take services.JSON_HTML_SIZE ++
        List.replicate (services.JSON_HTML_SIZE - (services.form.getD []).length) 0, ?_,
        List.prefix_append _ _⟩
      rw [List.length_append, List.length_take, List.length_replicate]
      omega
    obtain ⟨f, hf, hpre⟩ := hlen
    refine ⟨fileMessage .OK true f, Or.inl (framed_fileMessage .OK true f), ?_⟩
    rw [← fileMessage_bytes, hf]
    exact (List.prefix_append_right_inj _).mpr hpre
  | fault f => exact hnothing
  | recvFailed => exact hnothing
  | closed => exact hnothing
  | timeout => exact hnothing
  | pollError => exact hnothing
  | noMethod => exact hnothing
  | noBodyLength => exact hnothing

/-! ### Responses -/

section responses

variable {services : Services Obj}

theorem sends_sendResponse {s : Sending} (hs : s ≠ .fault) :
    Sends (messageBytes s) (sendResponse s) := by
  cases s with
  | fault => exact absurd rfl hs
  | silent => exact sends_left
  | message b => exact sends_sendLoops (.cons (SendCode.buffer_sends b) .nil)

/-- The form comes behind its head, if it can be opened. -/
theorem sends_processRequestGET (hsize : services.JSON_HTML_SIZE < 2 ^ 64) :
    Sends (due services .get) (processRequestGET services) := by
  have hbuf := sendBuf_fileHead .OK true hsize
  unfold processRequestGET due
  rw [hbuf]
  generalize fileHead .OK services.JSON_HTML_SIZE true = buf
  cases services.form with
  | none =>
    rw [Option.getD_none, List.take_nil, List.append_nil]
    exact sends_sendLoops (.cons (SendCode.buffer_sends buf) .nil)
  | some form =>
    exact sends_sendLoops (.cons (SendCode.buffer_sends buf)
      (.cons (SendCode.form_sends form services.JSON_HTML_SIZE) .nil))

theorem sends_response (hsize : services.JSON_HTML_SIZE < 2 ^ 64) {r : Result Obj}
    (hfault : ¬ Faults services r) : Sends (due services r) (response services r) := by
  cases r with
  | fault f => exact absurd trivial hfault
  | objectNotFound =>
    have hsent := sendJsonResponseError_message 0 ObjectNotFound
    unfold due response
    dsimp only
    exact sends_sendResponse (by simp [hsent])
  | get => exact sends_processRequestGET hsize
  | post target body => exact sends_sendResponse hfault
  | recvFailed => exact sends_left
  | closed => exact sends_left
  | timeout => exact sends_left
  | pollError => exact sends_left
  | noMethod => exact sends_left
  | noBodyLength => exact sends_left

theorem response_fault {r : Result Obj} (hfault : Faults services r) :
    response services r = .fault := by
  cases r with
  | fault f => rfl
  | post target body =>
    have hresponse : (processPOST services target body).response = .fault := hfault
    rw [response, hresponse]
    rfl
  | objectNotFound => exact hfault.elim
  | get => exact hfault.elim
  | recvFailed => exact hfault.elim
  | closed => exact hfault.elim
  | timeout => exact hfault.elim
  | pollError => exact hfault.elim
  | noMethod => exact hfault.elim
  | noBodyLength => exact hfault.elim

end responses

/-! ### Any request -/

section connection

variable {services : Services Obj} {objs : ObjectTree Obj} {r : Result Obj} {x x' : State Obj n}
  {l : Label}

/-- The request has ended in `r`, and this is a moment behind it. -/
inductive Behind (services : Services Obj) (r : Result Obj) : State Obj n → Prop
  | fault (hfault : Faults services r) :
      Behind services r ⟨invocations services r, .responding .fault⟩
  | sends (hfault : ¬ Faults services r) {chain : SendChain}
      (hchain : Sends (due services r) chain) :
      Behind services r ⟨invocations services r, .responding chain⟩

theorem behind_respond (hsize : services.JSON_HTML_SIZE < 2 ^ 64) (r : Result Obj) :
    Behind services r (respond services r : State Obj n) := by
  by_cases hfault : Faults services r
  · rw [respond, response_fault hfault]
    exact .fault hfault
  · exact .sends hfault (sends_response hsize hfault)

theorem Behind.send {services' : Services Obj} (h : Behind services r x) {i : SendTurn}
    (hi : i.NoAgain) (hstep : step services' objs x (.send i) = some x') :
    Behind services r x' := by
  cases h with
  | fault hfault => cases hstep
  | sends hfault hchain =>
    obtain ⟨chain', hchain', rfl⟩ := Option.map_eq_some_iff.mp hstep
    exact .sends hfault (hchain.turn hi hchain')

/-- A thread that has its request receives no more. -/
theorem Behind.not_receive {services' : Services Obj} (h : Behind services r x) (i : Turn) :
    step services' objs x (.receive i) = none := by
  cases h with
  | fault hfault => rfl
  | sends hfault hchain => rfl

/-- What the receive loops have come to, and what has followed. -/
def Accounts (services : Services Obj) (objs : ObjectTree Obj) (stream : Bytes) (past : List Label)
    (x : State Obj n) : Prop :=
  (processRequest n objs stream (received past)).Keeps (fun c => x = ⟨[], .receiving c⟩)
    (Behind services · x)

theorem accounts_receive (hsize : services.JSON_HTML_SIZE < 2 ^ 64) {stream : Bytes}
    {past : List Label} (h : Accounts services objs stream past x) {i : Turn}
    (hstep : step services objs x (.receive i) = some x') :
    Accounts services objs stream (past ++ [.receive i]) x' := by
  have hpast : received (past ++ [.receive i]) = received past ++ [i] := by simp [received]
  unfold Accounts at h ⊢
  rw [hpast, processRequest]
  cases hrun : processRequest n objs stream (received past) with
  | running c =>
    rw [hrun] at h
    cases h with
    | running h =>
      rw [h] at hstep
      rw [Loop.run_snoc i hrun]
      unfold step at hstep
      dsimp only at hstep
      split at hstep
      · next c' hc' =>
        rw [← Option.some.inj hstep, hc']
        exact .running rfl
      · -- the loops have been left, and the response begins
        next r hr =>
        rw [← Option.some.inj hstep, hr]
        exact .exited (behind_respond hsize r)
  | exited r left =>
    rw [hrun] at h
    cases h with
    | exited h =>
      rw [h.not_receive] at hstep
      cases hstep

theorem accounts_send {stream : Bytes} {past : List Label}
    (h : Accounts services objs stream past x) {i : SendTurn} (hi : i.NoAgain)
    (hstep : step services objs x (.send i) = some x') :
    Accounts services objs stream (past ++ [.send i]) x' := by
  have hpast : received (past ++ [.send i]) = received past := by simp [received]
  unfold Accounts at h ⊢
  rw [hpast]
  generalize processRequest n objs stream (received past) = o at h ⊢
  cases h with
  | running h =>
    rw [h] at hstep
    cases hstep
  | exited h => exact .exited (h.send hi hstep)

/-- What the client has when the request has ended in `r`. -/
structure Answered (services : Services Obj) (r : Result Obj) (x : State Obj n) : Prop where
  invocations : x.invocations = invocations services r
  sent : x.phase.sent <+: due services r
  /-- The client reads the one message that is due, when it has all of it. -/
  read : ∃ m, Closed m ∧ due services r <+: m.bytes ∧ ReadAs m x.phase.sent
  whole : ∀ sent, x.phase = .responding (.left none sent) → sent = due services r

theorem Behind.answered (h : Behind services r x) : Answered services r x := by
  obtain ⟨m, hm, hdue⟩ := due_prefix services r
  cases h with
  | fault hfault =>
    refine ⟨rfl, List.nil_prefix, ⟨m, hm, hdue, readAs_of_part hm List.nil_prefix⟩, ?_⟩
    intro sent hsent
    cases hsent
  | sends hfault hchain =>
    have hsent := hchain.isPrefix
    refine ⟨rfl, hsent, ⟨m, hm, hdue, readAs_of_part hm (hsent.trans hdue)⟩, ?_⟩
    intro sent hsent
    cases hsent
    exact hchain.whole

/-- **One response**: at every moment of a connection, whatever bytes come
    and however they are cut, either the request is still being received, and
    nothing has been called or sent; or the target has been called as often
    as the request says, and the client has the response to the request, or
    nothing it can read. -/
theorem response_alone (services : Services Obj) (objs : ObjectTree Obj)
    (hsize : services.JSON_HTML_SIZE < 2 ^ 64) (n : Nat) (stream : Bytes) (ls : List Label)
    (hagain : ∀ l ∈ ls, NoSendAgain l) (x : State Obj n)
    (hrun : System.run (step services objs) (init n stream) ls = some x) :
    (processRequest n objs stream (received ls)).Keeps (fun c => x = ⟨[], .receiving c⟩)
      (Answered services · x) := by
  have hinit : Accounts services objs stream [] (init n stream) := .running rfl
  have haccounts : Accounts services objs stream ls x := by
    refine run_invariant_past hinit (fun past s l s' _ hs hl hstep => ?_) ls x
      (guarded_of_forall hagain _).past hrun
    cases l with
    | receive i => exact accounts_receive hsize hs hstep
    | send i => exact accounts_send hs hl hstep
  exact haccounts.mono (fun _ h => h) fun _ h => h.answered

end connection

/-! ### Acceptable requests -/

/-- The bytes of the request arrive, and those of the response are taken, at
    least one in each turn of a send loop. -/
def Serves : Label → Prop
  | .receive i => i.Delivers
  | .send i => ∃ k, i = ⟨.ready false true, .bytes (k + 1)⟩

/-- The turns that have brought bytes of the request. -/
def brought (ls : List Label) : Nat := (received ls).countP Turn.brings

/-- The turns of the send loops. -/
def sends (ls : List Label) : Nat :=
  ls.countP fun
    | .receive _ => false
    | .send _ => true

section acceptable

variable {services : Services Obj} {objs : ObjectTree Obj} {r : PostMessage} {target : Obj}
  {x x' : State Obj n} {past : List Label}

/-- A socket that takes bytes does not answer `EAGAIN`. -/
theorem noSendAgain_of_serves {l : Label} (h : Serves l) : NoSendAgain l := by
  cases l with
  | receive i => trivial
  | send i =>
    obtain ⟨k, rfl⟩ := h
    simp [NoSendAgain, SendTurn.NoAgain]

variable (services r target) in
/-- The invocations for this request. -/
def calls : List (Invocation Obj) := Outcome.calls (processPOST services target r.body) target

variable (services r target) in
/-- How far an acceptable request and its response are. -/
inductive Serving (past : List Label) : State Obj n → Prop
  | receiving {c : Conn Obj n} (hc : Incomplete r target c)
      (hleft : c.left.length + brought past ≤ r.bytes.length) (hsends : sends past = 0) :
      Serving past ⟨[], .receiving c⟩
  | sending {b : Bytes} {s : Progress}
      (hresponse : (processPOST services target r.body).response = .message b)
      (hcounts : s.Counts b b.length) (hcond : s.sent < b.length)
      (hsends : sends past ≤ s.accepted.length) :
      Serving past ⟨calls services r target, .responding (.sending [] (SendCode.buffer b) s [])⟩
  | left {b : Bytes} (hresponse : (processPOST services target r.body).response = .message b) :
      Serving past ⟨calls services r target, .responding (.left none b)⟩
  | silent (hresponse : (processPOST services target r.body).response = .silent) :
      Serving past ⟨calls services r target, .responding (.left none [])⟩
  | fault (hresponse : (processPOST services target r.body).response = .fault) :
      Serving past ⟨calls services r target, .responding .fault⟩

variable (services r target) in
/-- What an acceptable request has come to. -/
inductive Served (ls : List Label) : State Obj n → Prop
  /-- Bytes of the request are missing. -/
  | receiving {c : Conn Obj n} (hmissing : brought ls < r.bytes.length) :
      Served ls ⟨[], .receiving c⟩
  /-- Bytes of the response are missing. -/
  | sending {before : Bytes} {c : SendCode} {s : Progress} {rest : List SendCode} {m : Message}
      (hresponse : (processPOST services target r.body).response = .message m.bytes)
      (hmissing : sends ls < m.bytes.length) (hread : readMessage (before ++ s.accepted) = none) :
      Served ls ⟨calls services r target, .responding (.sending before c s rest)⟩
  /-- The client reads the response. -/
  | read {m : Message}
      (hresponse : (processPOST services target r.body).response = .message m.bytes)
      (hread : readMessage m.bytes = some (m, [])) :
      Served ls ⟨calls services r target, .responding (.left none m.bytes)⟩
  /-- There is no response. -/
  | silent (hresponse : (processPOST services target r.body).response = .silent) :
      Served ls ⟨calls services r target, .responding (.left none [])⟩
  /-- The response has overrun its buffer. -/
  | fault (hresponse : (processPOST services target r.body).response = .fault) :
      Served ls ⟨calls services r target, .responding .fault⟩

theorem Serving.served (h : Serving services r target past x) :
    Served services r target past x := by
  -- a message says where it ends
  have hmessage : ∀ {b}, (processPOST services target r.body).response = .message b →
      ∃ m : Message, m.Framed ∧ b = m.bytes := by
    intro b hb
    obtain ⟨code, body, rfl⟩ := isMessage_process _ _ r.body b hb
    exact ⟨_, framed_rpcMessage code body, rfl⟩
  cases h with
  | receiving hc hleft hsends =>
    have hpos := List.length_pos_iff.mpr (left_of_incomplete hc)
    exact .receiving (by omega)
  | sending hresponse hcounts hcond hsends =>
    next b s =>
    obtain ⟨m, hm, rfl⟩ := hmessage hresponse
    have hlength := hcounts.length
    have hread : ReadAs m s.accepted := readAs_of_part (Or.inl hm) hcounts.isPrefix
    have hne : s.accepted ≠ m.bytes := by
      intro heq
      rw [heq] at hlength
      omega
    refine .sending hresponse (by omega) ?_
    rw [List.nil_append]
    exact hread.trans (if_neg hne)
  | left hresponse =>
    obtain ⟨m, hm, rfl⟩ := hmessage hresponse
    have hread := readMessage_bytes hm []
    rw [List.append_nil] at hread
    exact .read hresponse hread
  | silent hresponse => exact .silent hresponse
  | fault hresponse => exact .fault hresponse

end acceptable

/-! ### A request that is refused -/

/-- The parser, for an empty object. -/
def emptyObject : Services Unit where
  fromJson body := if body = ascii "{}" then some (.obj []) else none
  invokeMethod _ _ _ := none
  form := none
  JSON_HTML_SIZE := 0

/-- The request in two pieces, with an `EAGAIN` between them, and the response
    in two. -/
def cutTwice : List Label :=
  [.receive ⟨.ready false true, .bytes 9⟩, .receive ⟨.ready false true, .again⟩,
    .receive ⟨.ready false true, .bytes 300⟩, .send ⟨.ready false true, .bytes 100⟩,
    .send ⟨.ready false true, .bytes 1000⟩]

theorem serves_cutTwice : ∀ l ∈ cutTwice, Serves l := by
  intro l hl
  simp only [cutTwice, List.mem_cons, List.not_mem_nil, or_false] at hl
  rcases hl with rfl | rfl | rfl | rfl | rfl
  · exact ⟨rfl, by decide⟩
  · exact ⟨rfl, by decide⟩
  · exact ⟨rfl, by decide⟩
  · exact ⟨99, rfl⟩
  · exact ⟨999, rfl⟩

theorem run_cutTwice : ∃ x,
    System.run (step emptyObject soloRoot) (init 256 rootMessage.bytes) cutTwice = some x :=
  Option.isSome_iff_exists.mp (by decide +kernel)

theorem response_alone_cutTwice :
    ∃ x, System.run (step emptyObject soloRoot) (init 256 rootMessage.bytes) cutTwice = some x ∧
      (processRequest 256 soloRoot rootMessage.bytes (received cutTwice)).Keeps
        (fun c => x = ⟨[], .receiving c⟩) (Answered emptyObject · x) := by
  obtain ⟨x, hx⟩ := run_cutTwice
  have hagain : ∀ l ∈ cutTwice, NoSendAgain l :=
    fun l hl => noSendAgain_of_serves (serves_cutTwice l hl)
  exact ⟨x, hx, response_alone emptyObject soloRoot (by decide) 256 rootMessage.bytes cutTwice
    hagain x hx⟩

end RpcConnection
