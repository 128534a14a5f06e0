import JsonRpcServer.Html.Serve
import JsonRpcServer.Http.Framing
import JsonRpcServer.Http.SendChain

/-! # A Connection to the Html Server

  `HtmlServer::processRequest` with its send loops. `Serve` answers all the
  matches of a text in one turn and takes every response as sent; here the
  thread waits for a page file and in each of the loops, and both may fail.

  ## Phases

  1. **Receiving**: in front of `recv`.
  2. **Opening**: in `getHTMLFile` of an object.
  3. **Sending**: in a loop of `sendResponse`. What follows it is the next
     match, or the end of the thread.
  4. **Polling**: the matches have been answered.
  5. **Ended**: `client_ptr` is destroyed, and with it the connection.

  ## Main results

  * `replies_read`: at every moment the client reads the responses that have
    been begun, except that the last one may still be incomplete.
  * `replies_refine`: as long as page files can be opened, these are the
    responses that `Serve` gives to the same bytes, received in the same
    pieces.
-/

namespace HtmlConnection

open Bytes Regex Http HttpRecvBufferSingle HttpMessage HttpFraming FileHandles HtmlServer SendChain
  System

variable {Obj : Type} {n : Nat}

/-! ### Responses -/

/-- A response, with the page file that is sent. -/
inductive Reply (Obj : Type) where
  | page (close : Bool) (resource : Obj) (f : Bytes)
  | badRequest
  | notFound (close : Bool)
  deriving DecidableEq

namespace Reply

def response : Reply Obj → Response Obj
  | .page close resource _ => .page close resource
  | .badRequest => .badRequest
  | .notFound close => .notFound close

/-- What `snprintf` writes. -/
def head : Reply Obj → Bytes
  | .page close _ f => fileHead .OK f.length close
  | .badRequest => errorHead .BAD_REQUEST true
  | .notFound close => errorHead .NOT_FOUND close

/-- The file is null in an error response, and its length 0. -/
def file : Reply Obj → Bytes
  | .page _ _ f => f
  | .badRequest => []
  | .notFound _ => []

def message : Reply Obj → Message
  | .page close _ f => fileMessage .OK close f
  | .badRequest => errorMessage .BAD_REQUEST true
  | .notFound close => errorMessage .NOT_FOUND close

/-- The loops of `sendResponse`. -/
def loops (r : Reply Obj) : Option (List SendCode) :=
  (sendBuf r.head).map fun buf => [sendResponseHead buf, sendResponseFile r.file r.file.length]

end Reply

/-! ### Model -/

/-- A match of `http_general_req`. -/
abbrev Match := Thread UInt8 Group

/-- The variables of `processRequest`. -/
structure Locals (n : Nat) where
  buffer : HttpRecvBufferSingle n
  received : Int

/-- How a request thread ends. -/
inductive End where
  /-- As in `Serve`. -/
  | exit (e : Exit)
  /-- "Can't open corresponding html page". -/
  | noPage
  /-- An exception of `sendResponse`. -/
  | report (r : Report)
  deriving DecidableEq

/-- What follows `sendResponse`. -/
inductive Next (n : Nat) where
  /-- The matches behind the one that has been answered. -/
  | answering (v : Locals n) (rest : List Match)
  | leave (e : End)

/-- Where a request thread stands. -/
inductive Phase (Obj : Type) (n : Nat) where
  | receiving (v : Locals n)
  | opening (close : Bool) (resource : Obj) (v : Locals n) (rest : List Match)
  | sending (chain : SendChain) (next : Next n)
  | polling (v : Locals n)
  | ended (e : End)
  /-- The program has left the buffer of a head. -/
  | fault

structure State (Obj : Type) (n : Nat) where
  /-- The responses that have been begun. -/
  replies : List (Reply Obj)
  /-- What loops that have been left have sent. -/
  sent : Bytes
  /-- What has not been received. -/
  incoming : Bytes
  phase : Phase Obj n

inductive Label where
  | recv (e : RecvEvent)
  /-- `getHTMLFile` returns. -/
  | file (f : Option Bytes)
  /-- A turn of a send loop. -/
  | send (i : SendTurn)
  | poll (p : PollEvent)
  deriving DecidableEq

def leave (e : End) (x : State Obj n) : State Obj n := { x with phase := .ended e }

/-- Behind a turn of the loops; `k` stands for the code that `next` says. -/
def behindLoops (k : State Obj n → State Obj n) (next : Next n) (x : State Obj n) :
    SendChain → State Obj n
  | .sending before c s rest => { x with phase := .sending (.sending before c s rest) next }
  | .left none sent => k { x with sent := x.sent ++ sent }
  | .left (some report) sent => leave (.report report) { x with sent := x.sent ++ sent }
  | .fault => { x with phase := .fault }

/-- `sendResponse`. -/
def sendResponse (r : Reply Obj) (next : Next n) (k : State Obj n → State Obj n)
    (x : State Obj n) : State Obj n :=
  match r.loops with
  | none => { x with replies := x.replies ++ [r], phase := .fault }
  | some loops => behindLoops k next { x with replies := x.replies ++ [r] } (sendLoops loops [])

/-- An error response, with an exception behind it. -/
def refuse (r : Reply Obj) (e : End) (x : State Obj n) : State Obj n :=
  sendResponse r (.leave e) (leave e) x

/-- `processRequestGET<close>`, up to `getHTMLFile`. -/
def processRequestGET (objs : ObjectTree Obj) (close : Bool) (uri : List Bytes) (v : Locals n)
    (rest : List Match) (x : State Obj n) : State Obj n :=
  match objs.resolve uri with
  | none => refuse (.notFound close) (.exit .noObject) x
  | some resource => { x with phase := .opening close resource v rest }

/-- The loop over the matches of `http_general_req`. -/
def answering (objs : ObjectTree Obj) (v : Locals n) : List Match → State Obj n → State Obj n
  | [], x => { x with phase := .polling v }
  | general :: rest, x =>
      let method := captured general .http_method
      if method = [] then refuse .badRequest (.exit .noMethod) x
      else if method = ascii "POST" then leave (.exit .post) x
      else if method = ascii "GET" then
        match matchFirst http_html_GET v.buffer.toQString with
        | none => refuse .badRequest (.exit .noMatch) x
        | some get =>
            let uri := captured get .http_URI
            if uri = [] then refuse .badRequest (.exit .noURI) x
            else if captured get .http_connection = ascii "close" then
              processRequestGET objs true (targetPath uri) v rest x
            else processRequestGET objs false (targetPath uri) v rest x
      else answering objs v rest x

def follow (objs : ObjectTree Obj) : Next n → State Obj n → State Obj n
  | .answering v rest => answering objs v rest
  | .leave e => leave e

/-- Behind `getHTMLFile`. `processRequest` returns behind a response that
    closes the connection. -/
def opened (objs : ObjectTree Obj) (close : Bool) (resource : Obj) (v : Locals n)
    (rest : List Match) (x : State Obj n) : Option Bytes → State Obj n
  | none => refuse (.notFound close) .noPage x
  | some f =>
      let next : Next n := if close = true then .leave (.exit .answered) else .answering v rest
      sendResponse (.page close resource f) next (follow objs next) x

/-- Behind a `recv` that has returned `ret`. -/
def afterRecv (objs : ObjectTree Obj) (v : Locals n) (ret : Int) (x : State Obj n) : State Obj n :=
  match checkOverload v.buffer (v.received + ret) with
  | .error e => leave (.exit e) x
  | .ok buffer =>
      answering objs { v with buffer, received := v.received + ret }
        (globalMatch http_general_req buffer.toQString) x

def recvStep (objs : ObjectTree Obj) (v : Locals n) (x : State Obj n) (e : RecvEvent) :
    State Obj n :=
  match recv v.buffer (n - v.received) e x.incoming with
  | .fault f => leave (.exit (.fault f)) x
  | .error => leave (.exit .recvFailed) x
  | .closed => leave (.exit .closed) x
  | .again => afterRecv objs v (-1) x
  | .data ret buffer incoming => afterRecv objs { v with buffer } ret { x with incoming }

def pollStep (v : Locals n) (x : State Obj n) : PollEvent → State Obj n
  | .ready true _ => leave (.exit .closed) x
  | .ready false _ => { x with phase := .receiving v }
  | .timeout => leave (.exit .timeout) x
  | .error => leave (.exit .pollError) x

def step (objs : ObjectTree Obj) (x : State Obj n) : Label → Option (State Obj n)
  | .recv e =>
      match x.phase with
      | .receiving v => some (recvStep objs v x e)
      | _ => none
  | .file f =>
      match x.phase with
      | .opening close resource v rest => some (opened objs close resource v rest x f)
      | _ => none
  | .send i =>
      match x.phase with
      | .sending chain next => (chain.step i).map (behindLoops (follow objs next) next x)
      | _ => none
  | .poll p =>
      match x.phase with
      | .polling v => some (pollStep v x p)
      | _ => none

/-- A client that sends `stream` has been accepted. -/
def init (n : Nat) (stream : Bytes) : State Obj n :=
  ⟨[], [], stream, .receiving ⟨zeroed n, 0⟩⟩

/-- What the client has been sent. -/
def State.outgoing (x : State Obj n) : Bytes :=
  match x.phase with
  | .sending chain _ => x.sent ++ chain.sent
  | _ => x.sent

/-! ### What is sent -/

/-- No call of a send loop answers `EAGAIN`, and the length of a page file is
    a `size_t`. -/
def Regular : Label → Prop
  | .send i => i.NoAgain
  | .file (some f) => f.length < 2 ^ 64
  | .file none | .recv _ | .poll _ => True

/-- The responses on the wire. -/
def bytesOf (replies : List (Reply Obj)) : Bytes :=
  ((replies.map Reply.message).map Message.bytes).flatten

/-- All of them say where they end. -/
def Framed (replies : List (Reply Obj)) : Prop := ∀ r ∈ replies, r.message.Framed

/-- The loop goes on without a send loop. -/
inductive Phase.Idle : Phase Obj n → Prop
  | receiving {v : Locals n} : Idle (.receiving v)
  | opening {close : Bool} {resource : Obj} {v : Locals n} {rest : List Match} :
      Idle (.opening close resource v rest)
  | polling {v : Locals n} : Idle (.polling v)

/-- What the client has been sent of the responses that have been begun. A
    response without a length is the last one. -/
inductive Delivers : State Obj n → Prop
  | idle {replies : List (Reply Obj)} {incoming : Bytes} {phase : Phase Obj n}
      (hphase : phase.Idle) (hreplies : Framed replies) :
      Delivers ⟨replies, bytesOf replies, incoming, phase⟩
  | sending {done : List (Reply Obj)} {r : Reply Obj} {incoming : Bytes} {chain : SendChain}
      {next : Next n}
      (hdone : Framed done) (hnext : ∀ v rest, next = .answering v rest → r.message.Framed)
      (hchain : Sends r.message.bytes chain) :
      Delivers ⟨done ++ [r], bytesOf done, incoming, .sending chain next⟩
  | ended {replies : List (Reply Obj)} {incoming : Bytes} {e : End}
      (hreplies : Framed replies.dropLast) :
      Delivers ⟨replies, bytesOf replies, incoming, .ended e⟩
  | stopped {done : List (Reply Obj)} {r : Reply Obj} {part incoming : Bytes} {report : Report}
      (hdone : Framed done) (hpart : part <+: r.message.bytes) :
      Delivers ⟨done ++ [r], bytesOf done ++ part, incoming, .ended (.report report)⟩

section delivery

variable {objs : ObjectTree Obj} {x x' : State Obj n} {replies done : List (Reply Obj)}
  {r : Reply Obj} {v : Locals n} {rest : List Match}

theorem Framed.dropLast (h : Framed replies) : Framed replies.dropLast :=
  fun r hr => h r (List.mem_of_mem_dropLast hr)

theorem Framed.concat (h : Framed done) (hr : r.message.Framed) : Framed (done ++ [r]) := by
  intro r' hr'
  rcases List.mem_append.mp hr' with hr' | hr'
  · exact h r' hr'
  · rw [List.mem_singleton.mp hr']
    exact hr

theorem bytesOf_concat (done : List (Reply Obj)) (r : Reply Obj) :
    bytesOf (done ++ [r]) = bytesOf done ++ r.message.bytes := by
  simp [bytesOf]

/-- A head and a file make the message. -/
theorem Reply.message_bytes (r : Reply Obj) : r.head ++ r.file = r.message.bytes := by
  cases r with
  | page close resource f => exact fileMessage_bytes .OK close f
  | badRequest => exact (List.append_nil _).trans (errorMessage_bytes .BAD_REQUEST true)
  | notFound close => exact (List.append_nil _).trans (errorMessage_bytes .NOT_FOUND close)

/-- Both loops send the message. -/
theorem Reply.loops_carry (h : r.file.length < 2 ^ 64) :
    ∃ loops, r.loops = some loops ∧ Carries r.message.bytes [] loops := by
  have herror : ∀ code close, sendBuf (errorHead code close) = some (errorHead code close) := by
    intro code close
    rw [sendBuf_errorHead, errorMessage_bytes]
  have hbuf : sendBuf r.head = some r.head := by
    cases r with
    | page close resource f => exact sendBuf_fileHead .OK close h
    | badRequest => exact herror .BAD_REQUEST true
    | notFound close => exact herror .NOT_FOUND close
  refine ⟨[sendResponseHead r.head, sendResponseFile r.file r.file.length], ?_, ?_⟩
  · rw [Reply.loops, hbuf]
    rfl
  · have hfile := SendCode.file_sends r.file r.file.length
    rw [List.take_length] at hfile
    refine .cons (SendCode.buffer_sends r.head) (.cons hfile ?_)
    rw [List.nil_append, r.message_bytes]
    exact .nil

theorem delivers_leave (hreplies : Framed x.replies.dropLast) (hsent : x.sent = bytesOf x.replies)
    (e : End) : Delivers (leave e x) := by
  unfold leave
  rw [hsent]
  exact .ended hreplies

/-- A turn of the loops of `r`. -/
theorem delivers_behindLoops {k : State Obj n → State Obj n} {next : Next n}
    (hreplies : x.replies = done ++ [r]) (hsent : x.sent = bytesOf done) (hdone : Framed done)
    (hnext : ∀ v rest, next = .answering v rest → r.message.Framed)
    (hk : Delivers (k { x with sent := bytesOf (done ++ [r]) })) {chain : SendChain}
    (hchain : Sends r.message.bytes chain) : Delivers (behindLoops k next x chain) := by
  obtain ⟨replies, sent, incoming, phase⟩ := x
  dsimp only at hreplies hsent
  subst hreplies hsent
  cases chain with
  | sending before c s rest => exact .sending hdone hnext hchain
  | left report sent =>
    cases report with
    | none =>
      rw [behindLoops, hchain.whole, ← bytesOf_concat]
      exact hk
    | some report => exact .stopped hdone hchain.isPrefix
  | fault => cases hchain

/-- The response is begun behind whole ones. -/
theorem delivers_sendResponse {k : State Obj n → State Obj n} {next : Next n}
    (hreplies : Framed x.replies) (hsent : x.sent = bytesOf x.replies)
    (hfile : r.file.length < 2 ^ 64)
    (hnext : ∀ v rest, next = .answering v rest → r.message.Framed)
    (hk : Delivers (k { x with
      replies := x.replies ++ [r], sent := bytesOf (x.replies ++ [r]) })) :
    Delivers (sendResponse r next k x) := by
  obtain ⟨loops, hloops, hcarries⟩ := r.loops_carry hfile
  unfold sendResponse
  rw [hloops]
  exact delivers_behindLoops (x := { x with replies := x.replies ++ [r] }) rfl hsent hreplies hnext
    hk (sends_sendLoops hcarries)

theorem delivers_refuse (hreplies : Framed x.replies) (hsent : x.sent = bytesOf x.replies)
    (hfile : r.file.length < 2 ^ 64) (e : End) : Delivers (refuse r e x) := by
  refine delivers_sendResponse hreplies hsent hfile (by simp) (delivers_leave ?_ rfl e)
  rw [List.dropLast_concat]
  exact hreplies

theorem delivers_processRequestGET (hreplies : Framed x.replies)
    (hsent : x.sent = bytesOf x.replies) (close : Bool) (uri : List Bytes) :
    Delivers (processRequestGET objs close uri v rest x) := by
  unfold processRequestGET
  split
  · exact delivers_refuse hreplies hsent (by simp [Reply.file]) _
  · rw [hsent]
    exact .idle .opening hreplies

theorem delivers_answering (hreplies : Framed x.replies) (hsent : x.sent = bytesOf x.replies)
    (rest : List Match) : Delivers (answering objs v rest x) := by
  induction rest with
  | nil =>
    unfold answering
    rw [hsent]
    exact .idle .polling hreplies
  | cons general rest ih =>
    unfold answering
    dsimp only
    split
    · exact delivers_refuse hreplies hsent (by simp [Reply.file]) _
    split
    · exact delivers_leave hreplies.dropLast hsent _
    split
    · split
      · exact delivers_refuse hreplies hsent (by simp [Reply.file]) _
      split
      · exact delivers_refuse hreplies hsent (by simp [Reply.file]) _
      split
      · exact delivers_processRequestGET hreplies hsent true _
      · exact delivers_processRequestGET hreplies hsent false _
    · exact ih

/-- Behind a whole response. -/
theorem delivers_follow (hreplies : Framed x.replies.dropLast) (hsent : x.sent = bytesOf x.replies)
    {next : Next n} (hnext : ∀ v rest, next = .answering v rest → Framed x.replies) :
    Delivers (follow objs next x) := by
  cases next with
  | answering v rest => exact delivers_answering (hnext v rest rfl) hsent rest
  | leave e => exact delivers_leave hreplies hsent e

theorem delivers_opened (hreplies : Framed x.replies) (hsent : x.sent = bytesOf x.replies)
    (close : Bool) (resource : Obj) {f : Option Bytes} (hf : Regular (.file f)) :
    Delivers (opened objs close resource v rest x f) := by
  cases f with
  | none => exact delivers_refuse hreplies hsent (by simp [Reply.file]) _
  | some f =>
    have hpage : (Reply.page close resource f).message.Framed := framed_fileMessage .OK close f
    have hfollow : ∀ next : Next n, Delivers (follow objs next { x with
        replies := x.replies ++ [.page close resource f]
        sent := bytesOf (x.replies ++ [.page close resource f]) }) := by
      intro next
      refine delivers_follow ?_ rfl fun _ _ _ => hreplies.concat hpage
      dsimp only
      rw [List.dropLast_concat]
      exact hreplies
    unfold opened
    dsimp only
    exact delivers_sendResponse hreplies hsent hf (fun _ _ _ => hpage) (hfollow _)

theorem delivers_recvStep (hreplies : Framed x.replies) (hsent : x.sent = bytesOf x.replies)
    (e : RecvEvent) : Delivers (recvStep objs v x e) := by
  have hafter : ∀ v ret incoming, Delivers (afterRecv objs v ret { x with incoming }) := by
    intro v ret incoming
    unfold afterRecv
    split
    · exact delivers_leave (x := { x with incoming }) hreplies.dropLast hsent _
    · exact delivers_answering (x := { x with incoming }) hreplies hsent _
  unfold recvStep
  split
  · exact delivers_leave hreplies.dropLast hsent _
  · exact delivers_leave hreplies.dropLast hsent _
  · exact delivers_leave hreplies.dropLast hsent _
  · exact hafter v (-1) x.incoming
  · exact hafter _ _ _

theorem delivers_pollStep (hreplies : Framed x.replies) (hsent : x.sent = bytesOf x.replies)
    (p : PollEvent) : Delivers (pollStep v x p) := by
  unfold pollStep
  split
  · exact delivers_leave hreplies.dropLast hsent _
  · rw [hsent]
    exact .idle .receiving hreplies
  · exact delivers_leave hreplies.dropLast hsent _
  · exact delivers_leave hreplies.dropLast hsent _

theorem delivers_step {l : Label} (h : Delivers x) (hl : Regular l)
    (hstep : step objs x l = some x') : Delivers x' := by
  cases h with
  | idle hphase hreplies =>
    cases hphase with
    | receiving =>
      cases l with
      | recv e =>
        cases hstep
        exact delivers_recvStep hreplies rfl e
      | file f => cases hstep
      | send i => cases hstep
      | poll p => cases hstep
    | opening =>
      cases l with
      | file f =>
        cases hstep
        exact delivers_opened hreplies rfl _ _ hl
      | recv e => cases hstep
      | send i => cases hstep
      | poll p => cases hstep
    | polling =>
      cases l with
      | poll p =>
        cases hstep
        exact delivers_pollStep hreplies rfl p
      | recv e => cases hstep
      | file f => cases hstep
      | send i => cases hstep
  | sending hdone hnext hchain =>
    cases l with
    | send i =>
      obtain ⟨chain', hchain', rfl⟩ := Option.map_eq_some_iff.mp hstep
      refine delivers_behindLoops rfl rfl hdone hnext (delivers_follow ?_ rfl ?_)
        (hchain.turn hl hchain')
      · rw [List.dropLast_concat]
        exact hdone
      · exact fun v rest heq => hdone.concat (hnext v rest heq)
    | recv e => cases hstep
    | file f => cases hstep
    | poll p => cases hstep
  | ended hreplies => cases l <;> cases hstep
  | stopped hdone hpart => cases l <;> cases hstep

theorem delivers_of_run {stream : Bytes} {ls : List Label} (hls : ∀ l ∈ ls, Regular l)
    (hrun : run (step objs) (init n stream) ls = some x) : Delivers x := by
  have hinit : Delivers (init n stream : State Obj n) := .idle .receiving (by simp [Framed])
  exact run_invariant (fun _ _ _ h hl hstep => delivers_step h hl hstep) ls _ x hinit
    (guarded_of_forall hls _) hrun

end delivery

/-! ### What has been sent stays sent -/

section growth

variable {objs : ObjectTree Obj} {x x' : State Obj n} {v : Locals n}

end growth

/-! ### What is read -/

/-- The client reads the responses that have been begun. -/
inductive Told (x : State Obj n) : Prop
  | whole (hread : readSoFar x.outgoing = (x.replies.map Reply.message, []))
  /-- The last one is incomplete, in a send loop or for good. -/
  | missing {done : List (Reply Obj)} {r : Reply Obj} {part : Bytes}
      (hreplies : x.replies = done ++ [r])
      (hread : readSoFar x.outgoing = (done.map Reply.message, part))
      (hpart : part <+: r.message.bytes) (hmissing : part ≠ r.message.bytes)
      (hphase : (∃ chain next, x.phase = .sending chain next) ∨
        ∃ report, x.phase = .ended (.report report))

theorem Reply.closed (r : Reply Obj) : Closed r.message := by
  cases r with
  | page close resource f => exact Or.inl (framed_fileMessage .OK close f)
  | badRequest => exact Or.inr ⟨unframed_errorMessage .BAD_REQUEST true, rfl⟩
  | notFound close => exact Or.inr ⟨unframed_errorMessage .NOT_FOUND close, rfl⟩

section reading

variable {objs : ObjectTree Obj} {x : State Obj n} {replies done : List (Reply Obj)} {r : Reply Obj}

theorem framed_messages (h : Framed replies) : ∀ m ∈ replies.map Reply.message, m.Framed := by
  intro m hm
  obtain ⟨r, hr, rfl⟩ := List.mem_map.mp hm
  exact h r hr

theorem readSoFar_whole (h : Framed replies) :
    readSoFar (bytesOf replies) = (replies.map Reply.message, []) := by
  have hread := readSoFar_bytes (framed_messages h) (show readMessage [] = none from rfl)
  rw [List.append_nil] at hread
  exact hread

/-- The last response may have no length. -/
theorem readSoFar_concat (h : Framed done) (r : Reply Obj) :
    readSoFar (bytesOf done ++ r.message.bytes) = ((done ++ [r]).map Reply.message, []) := by
  have hlast : readMessage r.message.bytes = some (r.message, []) :=
    (readAs_of_part r.closed List.prefix_rfl).trans (if_pos rfl)
  rw [List.map_append, List.map_singleton]
  exact readSoFar_last (framed_messages h) hlast

/-- In the last response. -/
theorem told_part (hdone : Framed done) (hreplies : x.replies = done ++ [r]) {part : Bytes}
    (houtgoing : x.outgoing = bytesOf done ++ part) (hpart : part <+: r.message.bytes)
    (hphase : (∃ chain next, x.phase = .sending chain next) ∨
      ∃ report, x.phase = .ended (.report report)) : Told x := by
  by_cases hall : part = r.message.bytes
  · apply Told.whole
    rw [houtgoing, hreplies, hall]
    exact readSoFar_concat hdone r
  · have hnone : readMessage part = none := (readAs_of_part r.closed hpart).trans (if_neg hall)
    refine .missing hreplies ?_ hpart hall hphase
    rw [houtgoing]
    exact readSoFar_bytes (framed_messages hdone) hnone

theorem Delivers.told (h : Delivers x) : Told x := by
  cases h with
  | idle hphase hreplies =>
    apply Told.whole
    cases hphase with
    | receiving => exact readSoFar_whole hreplies
    | opening => exact readSoFar_whole hreplies
    | polling => exact readSoFar_whole hreplies
  | sending hdone hnext hchain =>
    exact told_part hdone rfl rfl hchain.isPrefix (Or.inl ⟨_, _, rfl⟩)
  | @ended replies incoming e hreplies =>
    apply Told.whole
    show readSoFar (bytesOf replies) = (replies.map Reply.message, [])
    by_cases hnil : replies = []
    · rw [hnil]
      rfl
    · rw [← List.dropLast_append_getLast hnil, bytesOf_concat]
      exact readSoFar_concat hreplies _
  | stopped hdone hpart => exact told_part hdone rfl rfl hpart (Or.inr ⟨_, rfl⟩)

theorem Delivers.ne_fault (h : Delivers x) : x.phase ≠ .fault := by
  cases h with
  | idle hphase hreplies =>
    cases hphase with
    | receiving => simp
    | opening => simp
    | polling => simp
  | sending hdone hnext hchain => simp
  | ended hreplies => simp
  | stopped hdone hpart => simp

/-- **Keep-alive**: at every moment of a connection, whatever arrives and
    however the bytes are cut in both directions, no head has left its buffer,
    and the client reads the responses that have been begun, in order. Only the
    last one can be incomplete, while it is being sent or behind a report. -/
theorem replies_read (objs : ObjectTree Obj) (n : Nat) (stream : Bytes) (ls : List Label)
    (hls : ∀ l ∈ ls, Regular l) (x : State Obj n)
    (hrun : run (step objs) (init n stream) ls = some x) : x.phase ≠ .fault ∧ Told x := by
  have hdelivers := delivers_of_run hls hrun
  exact ⟨hdelivers.ne_fault, hdelivers.told⟩

end reading

/-! ### What `Serve` answers -/

/-- Page files can be opened. -/
def Opens : Label → Prop
  | .file none => False
  | .file (some _) | .recv _ | .send _ | .poll _ => True

/-- The results of `recv`. -/
def recvs (ls : List Label) : List RecvEvent :=
  ls.filterMap fun
    | .recv e => some e
    | _ => none

/-- The results of the `POLL` behind the matches. -/
def polls (ls : List Label) : List PollEvent :=
  ls.filterMap fun
    | .poll p => some p
    | _ => none

/-- The turns of `Serve` in which the same pieces are received. In a turn
    that has not come to its `POLL`, this will answer `p`. -/
def turns (ls : List Label) (p : PollEvent) : List Turn :=
  List.zipWith Turn.mk (polls ls ++ [p]) (recvs ls)

/-- The state of `Serve`. -/
def Locals.state (v : Locals n) (incoming : Bytes) (replies : List (Reply Obj)) :
    HtmlServer.State Obj n :=
  ⟨v.buffer, v.received, incoming, replies.map Reply.response⟩

/-- The rest of a turn of `Serve`, from the matches on. -/
def finish (objs : ObjectTree Obj) (s : HtmlServer.State Obj n) (rest : List Match)
    (p : PollEvent) : Loop.Step (HtmlServer.State Obj n) (Result Obj) :=
  match Loop.run (answer objs) s rest with
  | .running s' => poll s' p
  | .exited r _ => .exit r

/-- What `Serve` does where the thread goes on with `next`. -/
inductive Follows (objs : ObjectTree Obj) (incoming : Bytes) (replies : List (Reply Obj)) :
    Next n → (PollEvent → Loop.Step (HtmlServer.State Obj n) (Result Obj)) → Prop
  | answering {v : Locals n} {rest : List Match} :
      Follows objs incoming replies (.answering v rest)
        (finish objs (v.state incoming replies) rest)
  | leave {e : Exit} :
      Follows objs incoming replies (.leave (.exit e))
        fun _ => .exit ⟨e, replies.map Reply.response⟩

/-- What is left of the turn of `Serve`, by the answer of its `POLL`. -/
inductive Ahead (objs : ObjectTree Obj) :
    State Obj n → (PollEvent → Loop.Step (HtmlServer.State Obj n) (Result Obj)) → Prop
  | opening {replies : List (Reply Obj)} {sent incoming : Bytes} {resource : Obj} {v : Locals n}
      {rest : List Match} : Ahead objs ⟨replies, sent, incoming, .opening false resource v rest⟩
        (finish objs ((v.state incoming replies).send (.page false resource)) rest)
  | openingLast {replies : List (Reply Obj)} {sent incoming : Bytes} {resource : Obj} {v : Locals n}
      {rest : List Match} : Ahead objs ⟨replies, sent, incoming, .opening true resource v rest⟩
        fun _ => ((v.state incoming replies).send (.page true resource)).leave .answered
  | sending {replies : List (Reply Obj)} {sent incoming : Bytes} {chain : SendChain} {next : Next n}
      {k : PollEvent → Loop.Step (HtmlServer.State Obj n) (Result Obj)}
      (hnext : Follows objs incoming replies next k) :
      Ahead objs ⟨replies, sent, incoming, .sending chain next⟩ k
  /-- A send has failed, or the program has left a buffer. -/
  | stopped {replies : List (Reply Obj)} {sent incoming : Bytes} {phase : Phase Obj n}
      {next : Next n} {k : PollEvent → Loop.Step (HtmlServer.State Obj n) (Result Obj)}
      (hnext : Follows objs incoming replies next k)
      (hphase : phase = .fault ∨ ∃ report, phase = .ended (.report report)) :
      Ahead objs ⟨replies, sent, incoming, phase⟩ k
  | polling {replies : List (Reply Obj)} {sent incoming : Bytes} {v : Locals n} :
      Ahead objs ⟨replies, sent, incoming, .polling v⟩ (poll (v.state incoming replies))
  | ended {replies : List (Reply Obj)} {sent incoming : Bytes} {e : Exit} :
      Ahead objs ⟨replies, sent, incoming, .ended (.exit e)⟩
        fun _ => .exit ⟨e, replies.map Reply.response⟩

/-- `Serve` is where the thread is. -/
inductive Refines (objs : ObjectTree Obj) (stream : Bytes) (ls : List Label) : State Obj n → Prop
  | receiving {replies : List (Reply Obj)} {sent incoming : Bytes} {v : Locals n}
      (hlength : (recvs ls).length = (polls ls).length)
      (hrun : processRequest n objs stream (List.zipWith Turn.mk (polls ls) (recvs ls)) =
        .running (v.state incoming replies)) :
      Refines objs stream ls ⟨replies, sent, incoming, .receiving v⟩
  | inTurn {x : State Obj n} {s : HtmlServer.State Obj n} {es : List RecvEvent} {e : RecvEvent}
      {k : PollEvent → Loop.Step (HtmlServer.State Obj n) (Result Obj)}
      (hrecvs : recvs ls = es ++ [e]) (hlength : es.length = (polls ls).length)
      (hrun : processRequest n objs stream (List.zipWith Turn.mk (polls ls) es) = .running s)
      (hturn : ∀ p, turn objs s ⟨p, e⟩ = k p) (hahead : Ahead objs x k) : Refines objs stream ls x
  | polled {replies : List (Reply Obj)} {sent incoming : Bytes} {e : Exit}
      (hlength : (recvs ls).length = (polls ls).length)
      (hrun : processRequest n objs stream (List.zipWith Turn.mk (polls ls) (recvs ls)) =
        .exited ⟨e, replies.map Reply.response⟩ []) :
      Refines objs stream ls ⟨replies, sent, incoming, .ended (.exit e)⟩

section refinement

variable {objs : ObjectTree Obj} {x x' : State Obj n} {v : Locals n} {rest : List Match}
  {k : PollEvent → Loop.Step (HtmlServer.State Obj n) (Result Obj)} {stream : Bytes}
  {ls : List Label}

theorem recvs_append (ls ls' : List Label) : recvs (ls ++ ls') = recvs ls ++ recvs ls' :=
  List.filterMap_append

theorem polls_append (ls ls' : List Label) : polls (ls ++ ls') = polls ls ++ polls ls' :=
  List.filterMap_append

theorem state_concat (v : Locals n) (incoming : Bytes) (replies : List (Reply Obj))
    (r : Reply Obj) :
    v.state incoming (replies ++ [r]) = (v.state incoming replies).send r.response := by
  simp [Locals.state, HtmlServer.State.send]

theorem finish_cons (s : HtmlServer.State Obj n) (general : Match) (rest : List Match) :
    finish objs s (general :: rest) =
      match answer objs s general with
      | .next s' => finish objs s' rest
      | .exit r => fun _ => .exit r := by
  funext p
  unfold finish
  rw [Loop.run_cons]
  cases answer objs s general with
  | next s' => rfl
  | exit r => rfl

/-- Behind a turn of the loops nothing has changed for `Serve`. -/
theorem ahead_behindLoops {after : State Obj n → State Obj n} {next : Next n}
    (hnext : Follows objs x.incoming x.replies next k)
    (hafter : ∀ sent, Ahead objs (after { x with sent }) k) (chain : SendChain) :
    Ahead objs (behindLoops after next x chain) k := by
  cases chain with
  | sending before c s rest => exact .sending hnext
  | left report sent =>
    cases report with
    | none => exact hafter _
    | some report => exact .stopped hnext (Or.inr ⟨report, rfl⟩)
  | fault => exact .stopped hnext (Or.inl rfl)

theorem ahead_sendResponse {r : Reply Obj} {after : State Obj n → State Obj n} {next : Next n}
    (hnext : Follows objs x.incoming (x.replies ++ [r]) next k)
    (hafter : ∀ sent, Ahead objs (after { x with replies := x.replies ++ [r], sent }) k) :
    Ahead objs (sendResponse r next after x) k := by
  unfold sendResponse
  split
  · exact .stopped hnext (Or.inl rfl)
  · exact ahead_behindLoops (x := { x with replies := x.replies ++ [r] }) hnext hafter _

/-- An error response is the last one of `Serve`. -/
theorem ahead_refuse (v : Locals n) (r : Reply Obj) (e : Exit) :
    Ahead objs (refuse r (.exit e) x)
      fun _ => ((v.state x.incoming x.replies).send r.response).leave e := by
  rw [← state_concat]
  exact ahead_sendResponse .leave fun sent => .ended

theorem ahead_answering (v : Locals n) (rest : List Match) (x : State Obj n) :
    Ahead objs (answering objs v rest x) (finish objs (v.state x.incoming x.replies) rest) := by
  induction rest with
  | nil => exact .polling
  | cons general rest ih =>
    rw [finish_cons]
    unfold answering answer
    dsimp only
    by_cases hmethod : captured general .http_method = []
    · rw [if_pos hmethod, if_pos hmethod]
      exact ahead_refuse v .badRequest .noMethod
    rw [if_neg hmethod, if_neg hmethod]
    by_cases hpost : captured general .http_method = ascii "POST"
    · rw [if_pos hpost, if_pos hpost]
      exact .ended
    rw [if_neg hpost, if_neg hpost]
    by_cases hget : captured general .http_method = ascii "GET"
    · rw [if_pos hget, if_pos hget, show (v.state x.incoming x.replies).buffer = v.buffer from rfl]
      cases matchFirst http_html_GET v.buffer.toQString with
      | none => exact ahead_refuse v .badRequest .noMatch
      | some get =>
        dsimp only
        by_cases huri : captured get .http_URI = []
        · rw [if_pos huri, if_pos huri]
          exact ahead_refuse v .badRequest .noURI
        rw [if_neg huri, if_neg huri]
        unfold processRequestGET HtmlServer.processRequestGET
        by_cases hclose : captured get .http_connection = ascii "close"
        · rw [if_pos hclose, if_pos hclose]
          cases objs.resolve (targetPath (captured get .http_URI)) with
          | none => exact ahead_refuse v (.notFound true) .noObject
          | some resource => exact .openingLast
        · rw [if_neg hclose, if_neg hclose]
          cases objs.resolve (targetPath (captured get .http_URI)) with
          | none => exact ahead_refuse v (.notFound false) .noObject
          | some resource => exact .opening
    · rw [if_neg hget, if_neg hget]
      exact ih

theorem ahead_follow {next : Next n} (hnext : Follows objs x.incoming x.replies next k) :
    Ahead objs (follow objs next x) k := by
  cases hnext with
  | answering => exact ahead_answering _ _ x
  | leave => exact .ended

/-- A file changes nothing for `Serve`. -/
theorem ahead_opened {close : Bool} {resource : Obj} (hx : x.phase = .opening close resource v rest)
    (h : Ahead objs x k) (f : Bytes) :
    Ahead objs (opened objs close resource v rest x (some f)) k := by
  have hsend : ∀ next, Follows objs x.incoming (x.replies ++ [.page close resource f]) next k →
      Ahead objs (sendResponse (.page close resource f) next (follow objs next) x) k :=
    fun next hnext => ahead_sendResponse hnext fun sent => ahead_follow hnext
  unfold opened
  dsimp only
  cases h with
  | opening =>
    cases hx
    refine hsend _ ?_
    rw [if_neg Bool.false_ne_true, show Response.page false resource =
      (Reply.page false resource f).response from rfl, ← state_concat]
    exact .answering
  | openingLast =>
    cases hx
    refine hsend _ ?_
    rw [if_pos rfl, show Response.page true resource =
      (Reply.page true resource f).response from rfl, ← state_concat]
    exact .leave
  | stopped hnext hphase =>
    cases hx
    rcases hphase with hphase | ⟨report, hphase⟩ <;> cases hphase
  | sending hnext => cases hx
  | polling => cases hx
  | ended => cases hx

theorem ahead_afterRecv (v : Locals n) (ret : Int) (x : State Obj n) :
    ∃ k, (∀ p, HtmlServer.afterRecv objs (v.state x.incoming x.replies) ret p = k p) ∧
      Ahead objs (afterRecv objs v ret x) k := by
  unfold HtmlServer.afterRecv afterRecv
  rw [show (v.state x.incoming x.replies).buffer = v.buffer from rfl,
    show (v.state x.incoming x.replies).received = v.received from rfl]
  cases checkOverload v.buffer (v.received + ret) with
  | error e => exact ⟨_, fun _ => rfl, .ended⟩
  | ok buffer => exact ⟨_, fun _ => rfl, ahead_answering _ _ x⟩

theorem ahead_recvStep (objs : ObjectTree Obj) (v : Locals n) (x : State Obj n) (e : RecvEvent) :
    ∃ k, (∀ p, turn objs (v.state x.incoming x.replies) ⟨p, e⟩ = k p) ∧
      Ahead objs (recvStep objs v x e) k := by
  have hleave : ∀ e' : Exit, Ahead objs (leave (.exit e') x)
      fun _ => (v.state x.incoming x.replies).leave e' := fun e' => .ended
  unfold turn recvStep
  rw [show (v.state x.incoming x.replies).buffer = v.buffer from rfl,
    show (v.state x.incoming x.replies).received = v.received from rfl,
    show (v.state x.incoming x.replies).stream = x.incoming from rfl]
  dsimp only
  cases recv v.buffer (n - v.received) e x.incoming with
  | fault f => exact ⟨_, fun _ => rfl, hleave _⟩
  | error => exact ⟨_, fun _ => rfl, hleave _⟩
  | closed => exact ⟨_, fun _ => rfl, hleave _⟩
  | again => exact ahead_afterRecv v (-1) x
  | data ret buffer incoming => exact ahead_afterRecv { v with buffer } ret { x with incoming }

/-- Behind the matches. -/
theorem refines_pollStep {es : List RecvEvent} {e : RecvEvent} {s : HtmlServer.State Obj n}
    (hrecvs : recvs ls = es ++ [e]) (hlength : es.length = (polls ls).length)
    (hrun : processRequest n objs stream (List.zipWith Turn.mk (polls ls) es) = .running s)
    (hturn : ∀ p, turn objs s ⟨p, e⟩ = poll (v.state x.incoming x.replies) p) (p : PollEvent) :
    Refines objs stream (ls ++ [.poll p]) (pollStep v x p) := by
  have hrecvs' : recvs (ls ++ [.poll p]) = es ++ [e] := by
    rw [recvs_append, hrecvs]
    exact List.append_nil _
  have hpolls' : polls (ls ++ [.poll p]) = polls ls ++ [p] := polls_append ls [.poll p]
  have hlength' : (recvs (ls ++ [.poll p])).length = (polls (ls ++ [.poll p])).length := by
    rw [hrecvs', hpolls', List.length_append, List.length_append, hlength]
    rfl
  have hrun' : processRequest n objs stream
      (List.zipWith Turn.mk (polls (ls ++ [.poll p])) (recvs (ls ++ [.poll p]))) =
        Loop.enter (turn objs) (poll (v.state x.incoming x.replies) p) [] := by
    rw [hrecvs', hpolls', List.zipWith_append hlength.symm, List.zipWith_cons_cons,
      List.zipWith_nil_left, processRequest, Loop.run_snoc _ hrun, hturn]
  unfold pollStep
  unfold poll at hrun'
  split
  · exact .polled hlength' hrun'
  · exact .receiving hlength' hrun'
  · exact .polled hlength' hrun'
  · exact .polled hlength' hrun'

theorem refines_step {l : Label} (h : Refines objs stream ls x) (hl : Opens l)
    (hstep : step objs x l = some x') : Refines objs stream (ls ++ [l]) x' := by
  cases h with
  | @receiving replies sent incoming v hlength hrun =>
    cases l with
    | recv e =>
      cases hstep
      obtain ⟨k, hturn, hahead⟩ :=
        ahead_recvStep objs v ⟨replies, sent, incoming, .receiving v⟩ e
      have hrecvs : recvs (ls ++ [.recv e]) = recvs ls ++ [e] := recvs_append ls [.recv e]
      have hpolls : polls (ls ++ [.recv e]) = polls ls := by
        rw [polls_append]
        exact List.append_nil _
      refine .inTurn hrecvs (by rw [hpolls]; exact hlength) ?_ hturn hahead
      rw [hpolls]
      exact hrun
    | file f => cases hstep
    | send i => cases hstep
    | poll p => cases hstep
  | @inTurn _ s es e k hrecvs hlength hrun hturn hahead =>
    -- in the middle of a turn `Serve` waits
    have hwait : recvs [l] = [] → polls [l] = [] → Ahead objs x' k →
        Refines objs stream (ls ++ [l]) x' := by
      intro hrecv hpoll hahead'
      have hrecvs' : recvs (ls ++ [l]) = recvs ls := by
        rw [recvs_append, hrecv, List.append_nil]
      have hpolls' : polls (ls ++ [l]) = polls ls := by
        rw [polls_append, hpoll, List.append_nil]
      exact .inTurn (hrecvs'.trans hrecvs) (by rw [hpolls']; exact hlength)
        (by rw [hpolls']; exact hrun) hturn hahead'
    cases l with
    | recv e =>
      cases hahead with
      | stopped hnext hphase =>
        rcases hphase with rfl | ⟨report, rfl⟩ <;> cases hstep
      | opening => cases hstep
      | openingLast => cases hstep
      | sending hnext => cases hstep
      | polling => cases hstep
      | ended => cases hstep
    | file f =>
      cases f with
      | none => exact hl.elim
      | some f =>
        refine hwait rfl rfl ?_
        obtain ⟨replies, sent, incoming, phase⟩ := x
        cases phase with
        | opening close resource v rest =>
          have hx' : opened objs close resource v rest
              ⟨replies, sent, incoming, .opening close resource v rest⟩ (some f) = x' :=
            Option.some.inj hstep
          rw [← hx']
          exact ahead_opened rfl hahead f
        | receiving v => cases hstep
        | sending chain next => cases hstep
        | polling v => cases hstep
        | ended e => cases hstep
        | fault => cases hstep
    | send i =>
      refine hwait rfl rfl ?_
      cases hahead with
      | sending hnext =>
        obtain ⟨chain', _, rfl⟩ := Option.map_eq_some_iff.mp hstep
        exact ahead_behindLoops hnext (fun sent => ahead_follow hnext) chain'
      | stopped hnext hphase =>
        rcases hphase with rfl | ⟨report, rfl⟩ <;> cases hstep
      | opening => cases hstep
      | openingLast => cases hstep
      | polling => cases hstep
      | ended => cases hstep
    | poll p =>
      cases hahead with
      | polling =>
        cases hstep
        exact refines_pollStep hrecvs hlength hrun hturn p
      | stopped hnext hphase =>
        rcases hphase with rfl | ⟨report, rfl⟩ <;> cases hstep
      | opening => cases hstep
      | openingLast => cases hstep
      | sending hnext => cases hstep
      | ended => cases hstep
  | polled hlength hrun => cases l <;> cases hstep

/-- The responses of a moment of `Serve`. -/
def responses :
    Loop.Outcome (HtmlServer.State Obj n) (Result Obj) Turn → List (Response Obj)
  | .running s => s.responses
  | .exited r _ => r.responses

/-- The thread has begun what `Serve` has sent, and is behind it at most
    within one turn. -/
structure Agrees (x : State Obj n)
    (o : Loop.Outcome (HtmlServer.State Obj n) (Result Obj) Turn) : Prop where
  begun : x.replies.map Reply.response <+: responses o
  receiving : ∀ v, x.phase = .receiving v → o = .running (v.state x.incoming x.replies)
  ended : ∀ e, x.phase = .ended (.exit e) → o = .exited ⟨e, x.replies.map Reply.response⟩ []

/-- Responses are added behind those that have been sent. -/
def Extends (sent : List (Response Obj)) :
    Loop.Step (HtmlServer.State Obj n) (Result Obj) → Prop :=
  Loop.Step.Keeps (fun s => sent <+: s.responses) fun r => sent <+: r.responses

theorem Extends.enter {sent : List (Response Obj)}
    {step : Loop.Step (HtmlServer.State Obj n) (Result Obj)} (h : Extends sent step) :
    sent <+: responses (Loop.enter (turn objs) step []) := by
  cases step with
  | next s => exact h
  | exit r => exact h

theorem answer_extends {sent : List (Response Obj)} {s : HtmlServer.State Obj n}
    (h : sent <+: s.responses) (general : Match) : Extends sent (answer objs s general) := by
  have hsend : ∀ r, sent <+: (s.send r).responses := fun r => h.trans (List.prefix_append _ _)
  have hget : ∀ close uri, Extends sent (HtmlServer.processRequestGET objs close uri s) := by
    intro close uri
    unfold HtmlServer.processRequestGET
    split
    · exact hsend _
    · exact hsend _
  unfold answer
  dsimp only
  split
  · exact hsend _
  split
  · exact h
  split
  · split
    · exact hsend _
    · next get _ =>
      split
      · exact hsend _
      split
      · have hclose := hget true (targetPath (captured get .http_URI))
        split
        · next s' hs' =>
          rw [hs'] at hclose
          exact hclose
        · next r hr =>
          rw [hr] at hclose
          exact hclose
      · exact hget false _
  · exact h

theorem poll_extends {sent : List (Response Obj)} {s : HtmlServer.State Obj n}
    (h : sent <+: s.responses) (p : PollEvent) : Extends sent (poll s p) := by
  unfold poll
  split
  · exact h
  · exact h
  · exact h
  · exact h

theorem finish_extends {sent : List (Response Obj)} {s : HtmlServer.State Obj n}
    (h : sent <+: s.responses) (rest : List Match) (p : PollEvent) :
    Extends sent (finish objs s rest p) := by
  have hanswer : ∀ (s : HtmlServer.State Obj n) (general : Match), True → sent <+: s.responses →
      Extends sent (answer objs s general) := fun s general _ hs => answer_extends hs general
  have hmatches := Loop.run_keeps hanswer rest s (fun _ _ => trivial) h
  unfold finish
  split
  · next s' hs' =>
    rw [hs'] at hmatches
    cases hmatches with
    | running h' => exact poll_extends h' p
  · next r left hr =>
    rw [hr] at hmatches
    cases hmatches with
    | exited h' => exact h'

theorem ahead_extends (h : Ahead objs x k) (p : PollEvent) :
    Extends (x.replies.map Reply.response) (k p) := by
  have hfollows : ∀ {incoming : Bytes} {replies : List (Reply Obj)} {next : Next n},
      Follows objs incoming replies next k → Extends (replies.map Reply.response) (k p) := by
    intro incoming replies next hnext
    cases hnext with
    | answering => exact finish_extends List.prefix_rfl _ p
    | leave => exact List.prefix_rfl
  cases h with
  | opening => exact finish_extends (List.prefix_append _ _) _ p
  | openingLast => exact List.prefix_append _ _
  | sending hnext => exact hfollows hnext
  | stopped hnext hphase => exact hfollows hnext
  | polling => exact poll_extends List.prefix_rfl p
  | ended => exact List.prefix_rfl

theorem Refines.agrees (h : Refines objs stream ls x) (p : PollEvent) :
    Agrees x (processRequest n objs stream (turns ls p)) := by
  -- the answer is not asked for between two turns
  have hbetween : (recvs ls).length = (polls ls).length →
      turns ls p = List.zipWith Turn.mk (polls ls) (recvs ls) := by
    intro hlength
    have happend : List.zipWith Turn.mk (polls ls ++ [p]) (recvs ls ++ []) =
        List.zipWith Turn.mk (polls ls) (recvs ls) ++ List.zipWith Turn.mk [p] [] :=
      List.zipWith_append hlength.symm
    rw [List.append_nil, List.zipWith_nil_right, List.append_nil] at happend
    exact happend
  cases h with
  | receiving hlength hrun =>
    rw [hbetween hlength, hrun]
    refine ⟨List.prefix_rfl, fun v hv => ?_, fun e he => ?_⟩
    · cases hv
      rfl
    · cases he
  | polled hlength hrun =>
    rw [hbetween hlength, hrun]
    refine ⟨List.prefix_rfl, fun v hv => ?_, fun e he => ?_⟩
    · cases hv
    · cases he
      rfl
  | inTurn hrecvs hlength hrun hturn hahead =>
    rw [turns, hrecvs, List.zipWith_append hlength.symm, List.zipWith_cons_cons,
      List.zipWith_nil_left, processRequest, Loop.run_snoc _ hrun, hturn]
    refine ⟨(ahead_extends hahead p).enter, fun v hv => ?_, fun e he => ?_⟩
    · cases hahead with
      | stopped hnext hphase =>
        cases hv
        rcases hphase with hphase | ⟨report, hphase⟩ <;> cases hphase
      | opening => cases hv
      | openingLast => cases hv
      | sending hnext => cases hv
      | polling => cases hv
      | ended => cases hv
    · cases hahead with
      | stopped hnext hphase =>
        cases he
        rcases hphase with hphase | ⟨report, hphase⟩ <;> cases hphase
      | ended =>
        cases he
        rfl
      | opening => cases he
      | openingLast => cases he
      | sending hnext => cases he
      | polling => cases he

theorem refines_of_run (hls : ∀ l ∈ ls, Opens l)
    (hrun : run (step objs) (init n stream) ls = some x) : Refines objs stream ls x := by
  have hinit : Refines objs stream [] (init n stream : State Obj n) := .receiving rfl rfl
  exact run_invariant_past hinit (fun past s l s' _ hs hl hstep => refines_step hs hl hstep) ls x
    (guarded_of_forall hls _).past hrun

/-- **Refinement**: as long as page files can be opened, the thread begins
    the responses that `Serve` gives when it receives the same pieces. In
    front of `recv` it is where `Serve` is, and it ends as `Serve` does
    unless a send fails. -/
theorem replies_refine (objs : ObjectTree Obj) (n : Nat) (stream : Bytes) (ls : List Label)
    (hls : ∀ l ∈ ls, Opens l) (x : State Obj n)
    (hrun : run (step objs) (init n stream) ls = some x) (p : PollEvent) :
    Agrees x (processRequest n objs stream (turns ls p)) := by
  exact (refines_of_run hls hrun).agrees p

end refinement

/-! ### A page that is cut -/

/-- A request for the root object. -/
def rootStream : Bytes :=
  ascii "GET / HTTP/1.1\r\nConnection: keep-alive\r\n\r\n"

/-- The request in two pieces, and the response in three. -/
def onePage : List Label :=
  [.recv (.bytes 9), .poll (.ready false true), .recv (.bytes 300), .file (some (ascii "page")),
    .send ⟨.ready false true, .bytes 50⟩, .send ⟨.ready false true, .bytes 1000⟩,
    .send ⟨.ready false true, .bytes 1000⟩, .poll (.ready false true)]

theorem run_onePage : ∃ x, run (step soloRoot) (init 256 rootStream) onePage = some x :=
  Option.isSome_iff_exists.mp (by decide +kernel)

theorem replies_read_onePage :
    ∃ x, run (step soloRoot) (init 256 rootStream) onePage = some x ∧ x.phase ≠ .fault ∧
      Told x := by
  obtain ⟨x, hx⟩ := run_onePage
  have hls : ∀ l ∈ onePage, Regular l := by
    simp [onePage, Regular, SendTurn.NoAgain, ascii]
  exact ⟨x, hx, replies_read soloRoot 256 rootStream onePage hls x hx⟩

theorem replies_refine_onePage :
    ∃ x, run (step soloRoot) (init 256 rootStream) onePage = some x ∧
      Agrees x (processRequest 256 soloRoot rootStream (turns onePage .timeout)) := by
  obtain ⟨x, hx⟩ := run_onePage
  have hls : ∀ l ∈ onePage, Opens l := by
    simp [onePage, Opens]
  exact ⟨x, hx, replies_refine soloRoot 256 rootStream onePage hls x hx .timeout⟩

end HtmlConnection
