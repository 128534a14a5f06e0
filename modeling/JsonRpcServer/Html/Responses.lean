import JsonRpcServer.Html.Serve
import JsonRpcServer.Http.Lines

/-! # One Response per Request

  A connection that is kept open is meant to carry several requests, each
  answered with the page of its own path.

  The loop never marks a request as consumed. It matches the whole text
  after every `recv`, and one match spans all requests in it.

  ## Main results

  * `answersAll_iff`: a sequence of requests is answered in order, however
    it is cut into receive results, exactly when it has at most one request,
    with a `Connection` header that the pattern can read.

  ## Proof idea

  * Requests that arrive together get one response: `http_general_req` has
    one match in any text.
  * While a single request is incomplete its text has no blank line, so
    nothing matches; its last byte completes the blank line.
-/

namespace HtmlServer

open Bytes Regex Http Loop HttpRecvBufferSingle

/-! ### Requests -/

/-- A GET request: request line, header lines and a blank line. -/
structure GetRequest where
  target : Target
  noNul : (0 : UInt8) ∉ target.path
  lines : List Bytes
  lines_ok : ∀ l ∈ lines, LineText l

/-- The bytes on the wire. -/
def GetRequest.bytes (r : GetRequest) : Bytes :=
  ascii "GET " ++ (r.target.line ++ headerText r.lines)

/-- The request has a `Connection` header the pattern can read. -/
def GetRequest.Readable (r : GetRequest) : Prop := ∃ l ∈ r.lines, ConnectionLine l

/-- The requests of a connection, one behind the other. -/
def requestStream (reqs : List GetRequest) : Bytes := (reqs.map GetRequest.bytes).flatten

variable {Obj : Type} {n : Nat}

/-- One response per request, in order, each the page of the object that the
    path of the request names. -/
def Answers (objs : ObjectTree Obj) (reqs : List GetRequest) (responses : List (Response Obj)) :
    Prop :=
  responses.map Response.resource? =
    reqs.map fun r => objs.resolve (targetPath r.target.bytes)

instance [DecidableEq Obj] (objs : ObjectTree Obj) (reqs : List GetRequest)
    (responses : List (Response Obj)) : Decidable (Answers objs reqs responses) :=
  inferInstanceAs (Decidable (_ = _))

/-- The turn cuts a piece off the stream. -/
def Cuts (i : Turn) : Prop :=
  (i.poll = .ready false true ∨ i.poll = .ready false false) ∧ i.brings

instance (i : Turn) : Decidable (Cuts i) := inferInstanceAs (Decidable (_ ∧ _))

/-- However the stream is cut, all requests are answered in order once it
    has been received or the connection has ended. -/
def AnswersAll (n : Nat) (objs : ObjectTree Obj) (reqs : List GetRequest) : Prop :=
  ∀ turns : List Turn, (∀ i ∈ turns, Cuts i) →
    (processRequest n objs (requestStream reqs) turns).Keeps
      (fun s => s.stream = [] → Answers objs reqs s.responses)
      (fun r => Answers objs reqs r.responses)

/-! ### The bytes of a request -/

/-- The request line is a line like the others. -/
theorem GetRequest.bytes_eq (r : GetRequest) :
    r.bytes = headerText ((ascii "GET " ++ (r.target.bytes ++ ascii " HTTP/1.1")) :: r.lines) := by
  rw [headerText_cons, bytes, Target.line]
  simp [ascii]

theorem GetRequest.requestLine_ok (r : GetRequest) :
    LineText (ascii "GET " ++ (r.target.bytes ++ ascii " HTTP/1.1")) := by
  refine ⟨by simp [ascii], fun b hb => ?_⟩
  have hfixed : ∀ b ∈ ascii "GET " ++ ([47] ++ ascii " HTTP/1.1"), b ≠ 13 ∧ b ≠ 10 ∧ b ≠ 0 := by
    decide
  -- a byte of the path, or one of the fixed texts
  by_cases hpath : b ∈ r.target.path
  · have hspace := r.target.nonSpace b hpath
    exact ⟨nonSpace_ne_cr hspace, nonSpace_ne_lf hspace, fun h => r.noNul (h ▸ hpath)⟩
  · refine hfixed b ?_
    simp only [Target.bytes, List.mem_append, List.mem_cons] at hb ⊢
    tauto

theorem GetRequest.allLines_ok (r : GetRequest) :
    ∀ l ∈ (ascii "GET " ++ (r.target.bytes ++ ascii " HTTP/1.1")) :: r.lines, LineText l :=
  List.forall_mem_cons.mpr ⟨r.requestLine_ok, r.lines_ok⟩

/-- A part of the request has no blank line. -/
theorem GetRequest.not_blank_of_part (r : GetRequest) {u v : Bytes} (h : u ++ v = r.bytes)
    (hv : v ≠ []) : ¬ Blank u := by
  intro h'
  obtain ⟨a, z, hz⟩ := h'
  have hend := headerText_blank r.allLines_ok (a := a) (z := z ++ v) (by
    rw [← r.bytes_eq, ← h, ← hz]
    simp)
  exact hv (List.append_eq_nil_iff.mp hend).2

theorem zero_not_mem_headerText {lines : List Bytes} (hlines : ∀ l ∈ lines, LineText l) :
    (0 : UInt8) ∉ headerText lines := by
  have hcrlf : (0 : UInt8) ∉ crlf := by decide
  simp only [headerText, List.mem_append, List.mem_flatten, List.mem_map, not_or]
  refine ⟨?_, hcrlf⟩
  intro h
  obtain ⟨_, ⟨l, hl, rfl⟩, h0⟩ := h
  rcases List.mem_append.mp h0 with h0 | h0
  · exact ((hlines l hl).2 0 h0).2.2 rfl
  · exact hcrlf h0

theorem GetRequest.zero_not_mem (r : GetRequest) : (0 : UInt8) ∉ r.bytes :=
  r.bytes_eq ▸ zero_not_mem_headerText r.allLines_ok

theorem zero_not_mem_requestStream (reqs : List GetRequest) :
    (0 : UInt8) ∉ requestStream reqs := by
  rw [requestStream, List.mem_flatten]
  intro h
  obtain ⟨_, hr, h0⟩ := h
  obtain ⟨r, _, rfl⟩ := List.mem_map.mp hr
  exact r.zero_not_mem h0

theorem GetRequest.bytes_ne_nil (r : GetRequest) : r.bytes ≠ [] := by
  simp [bytes, ascii]

/-- `http_general_req` finds the method of a complete request. -/
theorem GetRequest.http_general_req_bytes (r : GetRequest) (hr : r.Readable) :
    ∃ general, matchFirst http_general_req r.bytes = some general ∧
      captured general .http_method = ascii "GET" := by
  have hblank : Blank (headerText r.lines) := by
    obtain ⟨l, hl, _⟩ := hr
    exact blank_headerText (List.ne_nil_of_mem hl)
  have hbytes : r.bytes =
      71 :: ascii "ET" ++ (ascii " " ++ (r.target.line ++ headerText r.lines)) := by
    simp [bytes, ascii]
  rcases http_general_req_match 71 (ascii "ET") (by decide) r.target
    (headerText r.lines) with ⟨_, hno⟩ | ⟨general, hm, hmethod, _⟩
  · exact absurd hblank hno
  · exact ⟨general, hbytes ▸ hm, hmethod⟩

/-! ### One match, one response -/

/-- At most one response is added, and no page unless the pattern matches. -/
def OneMore (text : Bytes) (before after : List (Response Obj)) : Prop :=
  after = before ∨ ∃ x, after = before ++ [x] ∧
    (x.resource?.isSome → (matchFirst http_html_GET text).isSome)

/-- No access has left the block. -/
def Inside (r : Result Obj) : Prop := ∀ f, r.exit ≠ .fault f

section answer

variable {objs : ObjectTree Obj} {s : State Obj n}

theorem processRequestGET_spec (objs : ObjectTree Obj) (s : State Obj n) (close : Bool)
    (uri : List Bytes) {text : Bytes} (htext : (matchFirst http_html_GET text).isSome) :
    (processRequestGET objs close uri s).Keeps
      (fun s' => s' = { s with responses := s'.responses } ∧
        OneMore text s.responses s'.responses)
      (fun r => Inside r ∧ OneMore text s.responses r.responses) := by
  rw [processRequestGET]
  cases objs.resolve uri with
  | none => exact ⟨fun f => nofun, Or.inr ⟨_, rfl, fun _ => htext⟩⟩
  | some resource => exact ⟨rfl, Or.inr ⟨_, rfl, fun _ => htext⟩⟩

/-- A match changes the responses only, by at most one. -/
theorem answer_spec (objs : ObjectTree Obj) (s : State Obj n) (general : Thread UInt8 Group) :
    (answer objs s general).Keeps
      (fun s' => s' = { s with responses := s'.responses } ∧
        OneMore s.buffer.toQString s.responses s'.responses)
      (fun r => Inside r ∧ OneMore s.buffer.toQString s.responses r.responses) := by
  have hbad : ∀ r : Result Obj, Inside r → r.responses = s.responses ++ [.badRequest] →
      Inside r ∧ OneMore s.buffer.toQString s.responses r.responses :=
    fun r hr hresponses => ⟨hr, Or.inr ⟨.badRequest, hresponses, nofun⟩⟩
  rw [answer]
  dsimp only
  split
  · exact hbad _ (fun f => nofun) rfl
  split
  · exact ⟨fun f => nofun, Or.inl rfl⟩
  split
  · cases hget : matchFirst http_html_GET s.buffer.toQString with
    | none => exact hbad _ (fun f => nofun) rfl
    | some get =>
      dsimp only
      split
      · exact hbad _ (fun f => nofun) rfl
      have hsome : (matchFirst http_html_GET s.buffer.toQString).isSome := by rw [hget]; rfl
      have hpage := fun close uri => processRequestGET_spec objs s close uri hsome
      split
      · have := hpage true (targetPath (captured get .http_URI))
        match processRequestGET objs true (targetPath (captured get .http_URI)) s, this with
        | .next s', h => exact ⟨fun f => nofun, h.2⟩
        | .exit r, h => exact h
      · exact hpage false _
  · exact ⟨rfl, Or.inl rfl⟩

/-- As long as the block is not full, a turn answers the one match there may
    be. -/
theorem afterRecv_eq {ret : Int} (hfull : s.received + ret ≠ n) (p : PollEvent) :
    afterRecv objs s ret p =
      match matchFirst http_general_req s.buffer.toQString with
      | none => poll { s with received := s.received + ret } p
      | some general =>
          match answer objs { s with received := s.received + ret } general with
          | .next s' => poll s' p
          | .exit r => .exit r := by
  rw [afterRecv, checkOverload, if_neg hfull]
  dsimp only
  rw [http_general_req_global]
  cases matchFirst http_general_req s.buffer.toQString with
  | none => rfl
  | some general =>
    rw [Option.toList_some, run_cons]
    dsimp only
    cases answer objs { s with received := s.received + ret } general <;> rfl

/-- Waiting for a socket that is not hung up changes nothing. -/
theorem poll_of_cuts {i : Turn} (hi : Cuts i) : poll s i.poll = .next s := by
  rcases hi.1 with h | h <;> rw [h, poll]

/-- The complete request is answered with its page. -/
theorem answer_page (s : State Obj n) {r : GetRequest} {resource : Obj}
    (htext : s.buffer.toQString = r.bytes) (hr : r.Readable)
    (hobj : objs.resolve (targetPath r.target.bytes) = some resource)
    {general : Thread UInt8 Group} (hm : captured general .http_method = ascii "GET") :
    (answer objs s general).Keeps
      (fun s' => ∃ close, s' = s.send (.page close resource))
      (fun res => ∃ close, res.responses = s.responses ++ [.page close resource]) := by
  rcases http_html_GET_match r.target r.lines_ok with ⟨get, hget, huri, _⟩ | ⟨_, hno⟩
  · -- whatever the header asks for, the page is that of the path
    have hpage : ∀ close, processRequestGET objs close (targetPath (captured get .http_URI)) s =
        .next (s.send (.page close resource)) := by
      intro close
      rw [processRequestGET, huri, hobj]
    rw [answer]
    dsimp only
    rw [hm, if_neg (by decide), if_neg (by decide), if_pos rfl, htext, GetRequest.bytes, hget]
    dsimp only
    rw [if_neg (by simp [huri, Target.bytes]), hpage, hpage]
    split
    · exact ⟨true, rfl⟩
    · exact ⟨false, rfl⟩
  · exact absurd hr hno

end answer

/-! ### Requests that arrive together -/

/-- A turn in which everything arrives. -/
def allAtOnce (n : Nat) : Turn := ⟨.ready false true, .bytes n⟩

theorem turn_allAtOnce (objs : ObjectTree Obj) {stream : Bytes} (hne : stream ≠ [])
    (h0 : (0 : UInt8) ∉ stream) (hfit : stream.length < n) :
    (turn objs (start n stream) (allAtOnce n)).Keeps
      (fun s => s.stream = [] ∧ OneMore stream [] s.responses)
      (fun r => OneMore stream [] r.responses) := by
  -- `recv` takes the whole stream
  have hrecv : recv (zeroed n) ((n : Int) - 0) (.bytes n) stream =
      .data stream.length ((zeroed n).append stream) [] := by
    have hoff := appendOffset_of_holds (holds_zeroed n) (by simp)
    rw [List.length_nil] at hoff
    exact recv_all (by omega) hne (by omega) (by omega)
  have hholds := holds_append (holds_zeroed n) (d := stream) (by simp) (by
    rw [List.nil_append]
    omega)
  have htext : ((zeroed n).append stream).toQString = stream := toQString_of_holds hholds h0
  rw [turn, start, allAtOnce]
  dsimp only
  rw [hrecv]
  dsimp only
  rw [afterRecv_eq (by dsimp only; omega)]
  dsimp only
  rw [htext]
  cases matchFirst http_general_req stream with
  | none => exact ⟨rfl, Or.inl rfl⟩
  | some general =>
    dsimp only
    have hanswer := answer_spec objs
      ⟨(zeroed n).append stream, 0 + (stream.length : Int), [], []⟩ general
    dsimp only at hanswer
    rw [htext] at hanswer
    match answer objs ⟨(zeroed n).append stream, 0 + (stream.length : Int), [], []⟩ general,
      hanswer with
    | .next s', h => exact ⟨by rw [h.1], h.2⟩
    | .exit r, h => exact h.2

/-- Requests that are all answered are at most one, and readable. -/
theorem readable_of_answersAll {objs : ObjectTree Obj} {reqs : List GetRequest}
    (hfit : (requestStream reqs).length < n)
    (hobj : ∀ r ∈ reqs, (objs.resolve (targetPath r.target.bytes)).isSome)
    (h : AnswersAll n objs reqs) : reqs.length ≤ 1 ∧ ∀ r ∈ reqs, r.Readable := by
  cases reqs with
  | nil => exact ⟨Nat.zero_le _, by simp⟩
  | cons r reqs =>
    have hne : requestStream (r :: reqs) ≠ [] := by
      simp [requestStream, r.bytes_ne_nil]
    obtain ⟨responses, hresponses, hmore⟩ : ∃ responses, Answers objs (r :: reqs) responses ∧
        OneMore (requestStream (r :: reqs)) [] responses := by
      have hall := h [allAtOnce n] (by simp [allAtOnce, Cuts, Turn.brings])
      have hturn := turn_allAtOnce objs hne (zero_not_mem_requestStream _) hfit
      rw [processRequest, run_cons] at hall
      match turn objs (start n (requestStream (r :: reqs))) (allAtOnce n), hturn, hall with
      | .next s', ht, .running ha => exact ⟨_, ha ht.1, ht.2⟩
      | .exit res, ht, .exited ha => exact ⟨_, ha, ht⟩
    rw [Answers] at hresponses
    -- one turn has sent at most one response
    have hlen := congrArg List.length hresponses
    rw [List.length_map, List.length_map, List.length_cons] at hlen
    rcases hmore with rfl | ⟨x, rfl, hx⟩
    · simp at hlen
    · obtain rfl : reqs = [] := by
        simp at hlen
        exact hlen
      refine ⟨Nat.le_refl _, fun r' hr' => ?_⟩
      obtain rfl := List.mem_singleton.mp hr'
      obtain ⟨hpage, _⟩ := List.cons.inj hresponses
      -- the response is a page, so the pattern has matched
      have hget := hx (by rw [hpage]; exact hobj r' (by simp))
      rw [requestStream, List.map_singleton, List.flatten_singleton] at hget
      rcases http_html_GET_match r'.target r'.lines_ok with ⟨_, _, _, hconn⟩ | ⟨hnone, _⟩
      · exact hconn
      · rw [GetRequest.bytes, hnone] at hget
        cases hget

/-! ### A single request -/

/-- Where a connection with one request stands: nothing has been sent before
    its last byte, and its page after that. -/
def Serving (objs : ObjectTree Obj) (r : GetRequest) (s : State Obj n) : Prop :=
  ∃ u, s.buffer.Holds u ∧ s.received = u.length ∧ u ++ s.stream = r.bytes ∧
    (s.stream ≠ [] → s.responses = []) ∧ (s.stream = [] → Answers objs [r] s.responses)

theorem turn_serving {objs : ObjectTree Obj} {r : GetRequest} {resource : Obj}
    (hr : r.Readable) (hobj : objs.resolve (targetPath r.target.bytes) = some resource)
    (hfit : r.bytes.length < n) {s : State Obj n} {i : Turn} (hi : Cuts i)
    (hs : Serving objs r s) :
    (turn objs s i).Keeps (Serving objs r) (fun res => Answers objs [r] res.responses) := by
  obtain ⟨buffer, received, stream, responses⟩ := s
  obtain ⟨u, hbuf, rfl, hu, hbefore, hafter⟩ := hs
  dsimp only at hbuf hu hbefore hafter
  have hlen := congrArg List.length hu
  rw [List.length_append] at hlen
  have h0 : (0 : UInt8) ∉ u := fun h => r.zero_not_mem (hu ▸ List.mem_append_left _ h)
  have hoff := appendOffset_of_holds hbuf h0
  have hbrings := hi.2
  rw [turn]
  dsimp only
  -- a turn that cuts brings bytes, or finds the end of the stream
  rcases recv_cases buffer (n - u.length : Int) (by omega) (by omega)
    i.recv stream with ⟨_, hev⟩ | ⟨_, hev⟩ | ⟨hr', hnil | hzero⟩ | ⟨d, stream', hd, _, hsplit, hr'⟩
  · simp [Turn.brings, hev] at hbrings
  · simp [Turn.brings, hev] at hbrings
  · rw [hr']
    exact hafter hnil
  · omega
  · rw [hr']
    subst hsplit
    obtain rfl : responses = [] := hbefore (by simp [hd])
    rw [← List.append_assoc] at hu
    rw [List.length_append] at hlen
    have hbuf' := holds_append hbuf h0 (d := d) (by rw [List.length_append]; omega)
    have h0' : (0 : UInt8) ∉ u ++ d := fun h => r.zero_not_mem (hu ▸ List.mem_append_left _ h)
    have htext := toQString_of_holds hbuf' h0'
    dsimp only
    rw [afterRecv_eq (by dsimp only; omega)]
    dsimp only
    rw [htext]
    by_cases hend : stream' = []
    · -- the last byte
      subst hend
      rw [List.append_nil] at hu
      obtain ⟨general, hgeneral, hmethod⟩ := r.http_general_req_bytes hr
      have hpage := answer_page ⟨buffer.append d, (u.length : Int) + d.length, [], []⟩
        (htext.trans hu) hr hobj hmethod
      rw [hu, hgeneral]
      dsimp only
      match answer objs ⟨buffer.append d, (u.length : Int) + d.length, [], []⟩ general, hpage with
      | .next s', ⟨close, hs'⟩ =>
        subst hs'
        dsimp only
        rw [poll_of_cuts hi]
        refine ⟨u ++ d, hbuf', by simp [State.send], ?_, fun h => absurd rfl h, fun _ => ?_⟩
        · simpa [State.send] using hu
        · simp [Answers, State.send, Response.resource?, hobj]
      | .exit res, ⟨close, hres⟩ =>
        dsimp only
        rw [Step.Keeps, hres]
        simp [Answers, Response.resource?, hobj]
    · rw [show matchFirst http_general_req (u ++ d) = none from
        http_general_req_none (r.not_blank_of_part hu hend)]
      dsimp only
      rw [poll_of_cuts hi]
      exact ⟨u ++ d, hbuf', by simp, hu, fun _ => rfl, fun h => absurd h hend⟩

theorem answersAll_of_single {objs : ObjectTree Obj} {r : GetRequest} (hr : r.Readable)
    (hfit : r.bytes.length < n)
    (hobj : (objs.resolve (targetPath r.target.bytes)).isSome) : AnswersAll n objs [r] := by
  intro turns hturns
  obtain ⟨resource, hresource⟩ := Option.isSome_iff_exists.mp hobj
  have hstream : requestStream [r] = r.bytes := by simp [requestStream]
  have hstart : Serving objs r (start n r.bytes : State Obj n) :=
    ⟨[], holds_zeroed n, rfl, rfl, fun _ => rfl, fun h => absurd h r.bytes_ne_nil⟩
  have hbody : ∀ (s : State Obj n) (i : Turn), Cuts i → Serving objs r s →
      (turn objs s i).Keeps (Serving objs r) (fun res => Answers objs [r] res.responses) :=
    fun s i hi hs => turn_serving hr hresource hfit hi hs
  rw [processRequest, hstream]
  refine (run_keeps hbody turns _ hturns hstart).mono (fun s hs => ?_) fun _ h => h
  obtain ⟨_, _, _, _, _, hafter⟩ := hs
  exact hafter

/-- Without requests nothing is sent. -/
theorem answersAll_nil (objs : ObjectTree Obj) : AnswersAll n objs [] := by
  intro turns hturns
  have hbody : ∀ (s : State Obj n) (i : Turn), Cuts i → s = start n [] →
      (turn objs s i).Keeps (· = start n []) (fun r => r.responses = []) := by
    rintro s i hi rfl
    have hoff := appendOffset_of_holds (holds_zeroed n) (by simp)
    rw [List.length_nil] at hoff
    have hbrings := hi.2
    rw [turn, start]
    dsimp only
    rcases recv_cases (zeroed n) ((n : Int) - 0) (by omega) (by omega) i.recv []
      with ⟨_, hev⟩ | ⟨_, hev⟩ | ⟨hr, _⟩ | ⟨d, stream', hd, _, hsplit, _⟩
    · simp [Turn.brings, hev] at hbrings
    · simp [Turn.brings, hev] at hbrings
    · rw [hr]
      exact rfl
    · exact absurd (List.append_eq_nil_iff.mp hsplit.symm).1 hd
  refine (run_keeps hbody turns _ hturns rfl).mono ?_ ?_
  · rintro s rfl _
    rfl
  · intro r hr
    rw [hr]
    rfl

/-- **Responses**: the requests of a connection are answered in order for
    every way of cutting them into receive results exactly when there is at
    most one, and its `Connection` header is readable. -/
theorem answersAll_iff (objs : ObjectTree Obj) (reqs : List GetRequest)
    (hfit : (requestStream reqs).length < n)
    (hobj : ∀ r ∈ reqs, (objs.resolve (targetPath r.target.bytes)).isSome) :
    AnswersAll n objs reqs ↔ reqs.length ≤ 1 ∧ ∀ r ∈ reqs, r.Readable := by
  refine ⟨readable_of_answersAll hfit hobj, fun ⟨hlen, hr⟩ => ?_⟩
  match reqs, hlen with
  | [], _ => exact answersAll_nil objs
  | [r], _ =>
    rw [requestStream, List.map_singleton, List.flatten_singleton] at hfit
    exact answersAll_of_single (hr r (by simp)) hfit (hobj r (by simp))

/-! ### Two requests -/

/-- A request for the root object. -/
def rootRequest (connection : Bytes) (h : LineText (connectionText ++ connection)) : GetRequest :=
  ⟨.root, List.not_mem_nil, [ascii "Host: Test", connectionText ++ connection],
    by simpa using ⟨by decide, h⟩⟩

/-- Two requests on one connection. -/
def twoRequests : List GetRequest :=
  [rootRequest (ascii "keep-alive") (by decide), rootRequest (ascii "close") (by decide)]

theorem answersAll_iff_twoRequests : AnswersAll 2048 soloRoot twoRequests ↔
    twoRequests.length ≤ 1 ∧ ∀ r ∈ twoRequests, r.Readable :=
  answersAll_iff soloRoot twoRequests (by decide +kernel) (by decide +kernel)

/-- Both requests arrive at once, and one page is sent. -/
theorem not_answersAll_twoRequests : ¬ ∀ reqs : List GetRequest,
    (requestStream reqs).length < 2048 →
    (∀ r ∈ reqs, (soloRoot.resolve (targetPath r.target.bytes)).isSome) →
    (∀ r ∈ reqs.dropLast, connectionText ++ ascii "keep-alive" ∈ r.lines) →
    (∀ r ∈ reqs.getLast?, connectionText ++ ascii "close" ∈ r.lines) →
      AnswersAll 2048 soloRoot reqs := by
  intro hall
  have hanswers := hall twoRequests (by decide +kernel) (by decide +kernel) (by decide +kernel)
    (by decide +kernel) [allAtOnce 2048] (by decide)
  have hone : ¬ (processRequest 2048 soloRoot (requestStream twoRequests) [allAtOnce 2048]).Keeps
      (fun s => s.stream = [] → Answers soloRoot twoRequests s.responses)
      (fun r => Answers soloRoot twoRequests r.responses) := by
    decide +kernel
  exact hone hanswers

end HtmlServer
