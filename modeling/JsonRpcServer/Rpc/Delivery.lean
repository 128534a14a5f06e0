import JsonRpcServer.Rpc.Receive

/-! # Delivery of a POST Request

  A request that arrives in pieces is processed exactly like one that
  arrives at once: `processRequestPOST` is called with the object its path
  names and with its body, as soon as the last byte is there.

  ## Proof idea

  While the request is incomplete the buffer holds a prefix of it and zeros.

  * Header loop: the prefix has no blank line, so no pattern matches.
  * Body loop: the prefix reaches into the body. The body has no line feed,
    so the markers found are those of the header section alone, and the
    first blank line is the one in front of the body.

  Every turn that brings bytes shortens the rest of the request.
-/

namespace JsonRPCServer

open Bytes Regex Http Loop HttpRecvBufferSingle

/-- A POST request. `headers` are the header lines, without the line end of
    the last one. -/
structure PostMessage where
  uri : Bytes
  headers : Bytes
  body : Bytes

namespace PostMessage

/-- Everything in front of the blank line. -/
def head (r : PostMessage) : Bytes :=
  ascii "POST " ++ (r.uri ++ (ascii " HTTP/1.1\r\n" ++ r.headers))

/-- The bytes on the wire. -/
def bytes (r : PostMessage) : Bytes := r.head ++ (crlf2 ++ r.body)

/-- The request is one the server is meant to accept, and it fits a block of
    `n` bytes. -/
structure Acceptable (n : Nat) (r : PostMessage) : Prop where
  noNul : (0 : UInt8) ∉ r.head
  noBlank : ¬ Blank r.head
  /-- The pattern matches, with the URI and the length of the body. -/
  matched : ∃ post, matchFirst http_json_POST (r.head ++ crlf2) = some post ∧
    captured post .http_URI = r.uri ∧ captured post .http_length ≠ [] ∧
    digitsValue (captured post .http_length) = r.body.length
  body : ∀ b ∈ r.body, b ≠ 0 ∧ b ≠ 13 ∧ b ≠ 10
  fits : r.head.length + 4 + r.body.length < n

end PostMessage

/-! ### The blank line -/

/-- No blank line is complete before the last byte of the one in front of
    the body. -/
theorem not_blank_of_partial {H : Bytes} (hb : ¬ Blank H) (he : ¬ crlf <:+ H) :
    ¬ Blank (H ++ [13, 10, 13]) := by
  have hend : ∀ {w : Bytes} {x : UInt8}, x ≠ 10 → ¬ crlf2 <:+ w ++ [x] := by
    rintro w x hx ⟨t, ht⟩
    have h := congrArg List.getLast? ht
    rw [List.getLast?_append, List.getLast?_concat] at h
    exact hx (Option.some.inj h).symm
  -- a blank line ends in a line feed, so the carriage returns complete none
  have h₁ : ¬ crlf2 <:+: H ++ [13] := by
    rw [List.infix_concat_iff, not_or]
    exact ⟨hend (by decide), hb⟩
  have h₂ : ¬ crlf2 <:+: H ++ [13] ++ [10] := by
    rw [List.infix_concat_iff, not_or]
    refine ⟨?_, h₁⟩
    -- a blank line that ends here has the line end of the last header in it
    intro h'
    obtain ⟨t, ht⟩ := h'
    refine he ⟨t, ?_⟩
    have hcut : t ++ crlf ++ [13, 10] = H ++ [13, 10] := by
      rw [List.append_assoc]
      exact ht.trans (by simp)
    exact List.append_cancel_right hcut
  have h₃ : ¬ crlf2 <:+: H ++ [13] ++ [10] ++ [13] := by
    rw [List.infix_concat_iff, not_or]
    exact ⟨hend (by decide), h₂⟩
  simpa [Blank] using h₃

/-- A prefix of the message with a blank line reaches into the body. -/
theorem body_of_blank {H u v B : Bytes} (hb : ¬ Blank H) (he : ¬ crlf <:+ H)
    (h : u ++ v = H ++ (crlf2 ++ B)) (hu : Blank u) :
    ∃ B', u = H ++ (crlf2 ++ B') ∧ B' ++ v = B := by
  rw [← List.append_assoc] at h
  rcases List.append_eq_append_iff.mp h with ⟨w, hw, hv⟩ | ⟨B', hu', hB⟩
  · -- `u` ends in front of the blank line: then its last byte is missing
    cases w using List.reverseRecOn with
    | nil => exact ⟨[], by simpa using hw.symm, by simpa using hv⟩
    | append_singleton w x =>
      exfalso
      have hcut : H ++ [13, 10, 13] ++ [10] = u ++ w ++ [x] := by
        rw [List.append_assoc u, ← hw]
        simp [crlf2, ascii]
      have hpre : H ++ [13, 10, 13] = u ++ w := (List.append_inj' hcut rfl).1
      refine not_blank_of_partial hb he ?_
      rw [hpre]
      exact hu.trans (List.prefix_append u w).isInfix
  · exact ⟨B', by rw [hu', List.append_assoc], hB.symm⟩

/-- The body starts behind the first blank line. -/
theorem bodyStart_head {H : Bytes} (h0 : (0 : UInt8) ∉ H) (hb : ¬ Blank H) (he : ¬ crlf <:+ H) :
    bodyStart (H ++ crlf2) = H.length + 4 := by
  have h0' : (0 : UInt8) ∉ H ++ crlf2 := by
    rw [List.mem_append, not_or]
    exact ⟨h0, by decide⟩
  obtain ⟨j, _, h₂, hlen, hj⟩ := CString.strstrFrom_append (w := crlf2) (by decide) [] 0 h0'
    (List.suffix_append H crlf2).isInfix
  have hlen' : j + 4 ≤ H.length + 4 := by simpa [crlf2, ascii] using hlen
  have hstart : bodyStart (H ++ crlf2) = j + 4 := by
    rw [bodyStart, CString.strstr, h₂, Nat.zero_add]
  by_contra hne
  -- an earlier occurrence would end before the last byte
  have htake : (H ++ crlf2).take (j + 4) ++ (H ++ crlf2).drop (j + 4) = H ++ (crlf2 ++ []) := by
    simp
  have hblank : Blank ((H ++ crlf2).take (j + 4)) := by
    have hfour : ((H ++ crlf2).drop j).take 4 = crlf2 := (List.prefix_iff_eq_take.mp hj).symm
    rw [List.take_add, hfour]
    exact (List.suffix_append _ _).isInfix
  obtain ⟨B', hB', _⟩ := body_of_blank hb he htake hblank
  have := congrArg List.length hB'
  simp [crlf2, ascii] at this
  omega

/-! ### The patterns on an incomplete body -/

section patterns

variable {Obj : Type} {n : Nat} {objs : ObjectTree Obj} {target : Obj} {r : PostMessage}

/-- The URI the pattern has found is the path of the request line. -/
theorem PostMessage.Acceptable.requestLine (hr : r.Acceptable n) :
    ∃ t : Target, r.head = ascii "POST " ++ (t.line ++ r.headers) := by
  obtain ⟨post, hpost, huri, _⟩ := hr.matched
  have hpat : http_json_POST = afterMethod (ascii "POST ") (.seq anyStar (postRounds 3)) := rfl
  rw [hpat] at hpost
  obtain ⟨t, ht⟩ := target_of_matchFirst
    (by simp [Captures, anyStar, postRounds, times, markerAlt, plus]) hpost
  refine ⟨t, ?_⟩
  rw [PostMessage.head, Target.line, ← ht, huri, List.append_assoc]

/-- The header section is read the same way whatever part of the body has
    arrived. -/
theorem http_json_POST_body (hr : r.Acceptable n) {B : Bytes} (hB : (10 : UInt8) ∉ B)
    {post : Thread UInt8 Group} (h : matchFirst http_json_POST (r.head ++ crlf2) = some post) :
    ∃ post', matchFirst http_json_POST (r.head ++ (crlf2 ++ B)) = some post' ∧
      post'.caps = post.caps := by
  obtain ⟨t, ht⟩ := hr.requestLine
  have hpart : (matchFirst http_json_POST (r.head ++ crlf2)).map Thread.caps =
      some post.caps := by rw [h, Option.map_some]
  have hwhole : (matchFirst http_json_POST (r.head ++ (crlf2 ++ B))).map Thread.caps =
      some post.caps := by
    rw [ht, List.append_assoc, List.append_assoc, http_json_POST_match] at hpart ⊢
    rwa [← List.append_assoc, tailCaps_append_body hB]
  exact Option.map_eq_some_iff.mp hwhole

/-- Once the blank line is there, the header loop hands the request over. -/
theorem dispatch_acceptable (hr : r.Acceptable n) (hn : n ≤ 2 ^ 31)
    (hobj : objs.resolve (targetPath r.uri) = some target) {s : HeaderState n}
    {B : Bytes} (hB : (10 : UInt8) ∉ B) (htext : s.buffer.toQString = r.head ++ (crlf2 ++ B)) :
    dispatch objs s = some (.receiveBody target s.buffer r.body.length s.stream) := by
  obtain ⟨t, ht⟩ := hr.requestLine
  have hline : s.buffer.toQString =
      ascii "POST " ++ (t.line ++ (r.headers ++ (crlf2 ++ B))) := by
    rw [htext, ht, List.append_assoc, List.append_assoc]
  obtain ⟨post, hpost, huri, hne, hlen⟩ := hr.matched
  obtain ⟨post', hpost', hcaps⟩ := http_json_POST_body hr hB hpost
  have hcaptured : ∀ k, captured post' k = captured post k := by
    intro k
    rw [captured, hcaps, captured]
  -- the length fits an `int` because the request fits the block
  have hint : toInt (captured post .http_length) = r.body.length := by
    have := hr.fits
    rw [toInt, if_pos (by omega), hlen]
  rw [dispatch_POST objs hline, htext, hpost']
  dsimp only
  rw [hcaptured, hcaptured, if_neg hne, huri, hobj, hint]

/-! ### The invariant -/

/-- What is still to come. -/
def Conn.left : Conn Obj n → Bytes
  | .header s => s.stream
  | .body _ _ s => s.stream

/-- Where an incomplete request stands. -/
def Incomplete (r : PostMessage) (target : Obj) : Conn Obj n → Prop
  | .header s => ∃ u, s.buffer.Holds u ∧ s.received = u.length ∧
      u ++ s.stream = r.bytes ∧ ¬ Blank u
  | .body target' length s => target' = target ∧ length = r.body.length ∧
      ∃ B, s.buffer.Holds (r.head ++ (crlf2 ++ B)) ∧ s.recv_length = B.length ∧
        B ++ s.stream = r.body ∧ B.length < r.body.length

/-- Something is still to come. -/
theorem left_of_incomplete {c : Conn Obj n} (h : Incomplete r target c) : c.left ≠ [] := by
  intro hleft
  cases c with
  | header s =>
    obtain ⟨u, _, _, hu, hblank⟩ := h
    rw [show s.stream = [] from hleft, List.append_nil] at hu
    refine hblank (hu ▸ ?_)
    exact (List.prefix_append crlf2 r.body).isInfix.trans (List.suffix_append r.head _).isInfix
  | body target' length s =>
    obtain ⟨_, _, B, _, _, hB, hlt⟩ := h
    rw [show s.stream = [] from hleft, List.append_nil] at hB
    rw [hB] at hlt
    exact Nat.lt_irrefl _ hlt

/-- One turn's effect: the request stays incomplete and loses bytes if the
    turn brings any, or it is processed. -/
def Progress (r : PostMessage) (target : Obj) (c : Conn Obj n) (turn : Turn) :
    Step (Conn Obj n) (Result Obj) → Prop :=
  Step.Keeps (fun c' => Incomplete r target c' ∧
    c'.left.length + (if turn.brings then 1 else 0) ≤ c.left.length) (· = .post target r.body)

/-- The block is never full. -/
theorem PostMessage.Acceptable.bytes_length (hr : r.Acceptable n) : r.bytes.length < n := by
  have := hr.fits
  simp only [PostMessage.bytes, List.length_append]
  have h4 : crlf2.length = 4 := by decide
  omega

theorem PostMessage.Acceptable.zero_not_mem (hr : r.Acceptable n) : (0 : UInt8) ∉ r.bytes := by
  simp only [PostMessage.bytes, List.mem_append, not_or]
  exact ⟨hr.noNul, by decide, fun h => (hr.body 0 h).1 rfl⟩

/-- The guard of the body loop, with the part `B` of the body in the block. -/
theorem bodyGuard_incomplete (hr : r.Acceptable n) (he : ¬ crlf <:+ r.head)
    {buffer : HttpRecvBufferSingle n} {B stream : Bytes}
    (hbuf : buffer.Holds (r.head ++ (crlf2 ++ B))) (hB : B ++ stream = r.body) {c : Conn Obj n}
    {turn : Turn} (hleft : stream.length + (if turn.brings then 1 else 0) ≤ c.left.length) :
    Progress r target c turn ((bodyGuard target r.body.length ⟨buffer, B.length, stream⟩).map
      (.body target r.body.length)) := by
  rw [bodyGuard]
  by_cases hlt : B.length < r.body.length
  · rw [if_pos hlt]
    exact ⟨⟨rfl, rfl, B, hbuf, rfl, hB, hlt⟩, hleft⟩
  · -- the body is complete, nothing is left of the request
    obtain rfl : stream = [] := by
      have := congrArg List.length hB
      rw [List.length_append] at this
      exact List.eq_nil_of_length_eq_zero (by omega)
    rw [List.append_nil] at hB
    subst hB
    have h0 := hr.zero_not_mem
    have hhead : (0 : UInt8) ∉ r.head ++ crlf2 := by
      rw [List.mem_append, not_or]
      exact ⟨hr.noNul, by decide⟩
    have hblank : crlf2 <:+: r.head ++ crlf2 := (List.suffix_append _ _).isInfix
    have htext := toQString_of_holds hbuf h0
    -- the first blank line is the one in front of the body
    have hstart : bodyStart buffer.toQString = (r.head ++ crlf2).length := by
      rw [htext, ← List.append_assoc, (bodyStart_append hhead hblank _).1,
        bodyStart_head hr.noNul hr.noBlank he]
      simp [crlf2, ascii]
    have hblank' : crlf2 <:+: buffer.toQString := by
      rw [htext, ← List.append_assoc]
      exact hblank.trans (List.prefix_append _ _).isInfix
    have hfit : bodyStart buffer.toQString + r.body.length ≤ n := by
      rw [hstart]
      have := hbuf.2
      rw [← List.append_assoc, List.length_append] at this
      exact this
    rw [if_neg hlt, requestBody_eq hblank' hfit, hstart, hbuf.1, ← List.append_assoc,
      List.append_assoc _ r.body, List.drop_left, List.take_left]
    exact rfl

/-- A part of the request in the block leaves room for all of it. -/
theorem appendOffset_of_part (hr : r.Acceptable n) {buffer : HttpRecvBufferSingle n}
    {u v : Bytes} (hbuf : buffer.Holds u) (h : u ++ v = r.bytes) :
    (0 : UInt8) ∉ u ∧ buffer.appendOffset = u.length ∧ u.length + v.length < n := by
  have h0 : (0 : UInt8) ∉ u := fun hu =>
    hr.zero_not_mem (h ▸ List.mem_append_left v hu)
  refine ⟨h0, appendOffset_of_holds hbuf h0, ?_⟩
  rw [← List.length_append, h]
  exact hr.bytes_length

/-- A turn of the body loop. -/
theorem bodyTurn_incomplete (hr : r.Acceptable n) (he : ¬ crlf <:+ r.head) {s : BodyState n}
    {turn : Turn} (ht : turn.Delivers)
    (h : Incomplete r target (.body target r.body.length s)) :
    Progress r target (.body target r.body.length s) turn
      (connTurn objs (.body target r.body.length s) turn) := by
  have hleft := left_of_incomplete h
  obtain ⟨buffer, recv_length, stream⟩ := s
  obtain ⟨_, _, B, hbuf, rfl, hB, hlt⟩ := h
  obtain ⟨hpoll, hrecv⟩ := ht
  dsimp only at hbuf hB
  have hpart : r.head ++ (crlf2 ++ B) ++ stream = r.bytes := by
    simp [PostMessage.bytes, ← hB]
  obtain ⟨h0, hoff, hfit⟩ := appendOffset_of_part hr hbuf hpart
  have hlen := congrArg List.length hB
  rw [List.length_append] at hlen
  rw [connTurn, bodyTurn, hpoll]
  dsimp only
  -- the window always has room for what is left
  rcases recv_cases buffer (r.body.length - B.length : Int) (by omega) (by omega)
    turn.recv stream with
    ⟨hr', hev⟩ | ⟨hr', hev⟩ | ⟨_, hnil | hzero⟩ | ⟨d, stream', hd, _, hsplit, hr'⟩
  · exact absurd hev hrecv
  · rw [hr']
    exact bodyGuard_incomplete hr he hbuf hB (by simp [Turn.brings, hev, Conn.left])
  · exact absurd hnil hleft
  · omega
  · rw [hr']
    subst hsplit
    have hfit' : (r.head ++ (crlf2 ++ B) ++ d).length ≤ n := by
      have h₁ : (r.head ++ (crlf2 ++ B) ++ d).length = _ := List.length_append
      have h₂ : (d ++ stream').length = _ := List.length_append
      omega
    have hbuf' := holds_append hbuf h0 hfit'
    rw [List.append_assoc, List.append_assoc] at hbuf'
    dsimp only
    rw [← List.length_append]
    refine bodyGuard_incomplete hr he hbuf' (by rw [List.append_assoc, hB]) ?_
    have := List.length_pos_iff.mpr hd
    rw [Conn.left, List.length_append]
    split <;> omega

/-- A turn of the header loop. -/
theorem headerTurn_incomplete (hr : r.Acceptable n) (he : ¬ crlf <:+ r.head) (hn : n ≤ 2 ^ 31)
    (hobj : objs.resolve (targetPath r.uri) = some target) {s : HeaderState n}
    {turn : Turn} (ht : turn.Delivers) (h : Incomplete r target (.header s)) :
    Progress r target (.header s) turn (connTurn objs (.header s) turn) := by
  have hleft := left_of_incomplete h
  obtain ⟨buffer, received, stream⟩ := s
  obtain ⟨u, hbuf, rfl, hu, hblank⟩ := h
  obtain ⟨hpoll, hrecv⟩ := ht
  dsimp only at hbuf hu
  obtain ⟨h0, hoff, hfit⟩ := appendOffset_of_part hr hbuf hu
  rw [connTurn, headerTurn]
  dsimp only
  rcases recv_cases buffer (n - u.length : Int) (by omega) (by omega)
    turn.recv stream with
    ⟨hr', hev⟩ | ⟨hr', hev⟩ | ⟨_, hnil | hzero⟩ | ⟨d, stream', hd, _, hsplit, hr'⟩
  · exact absurd hev hrecv
  · rw [hr', hpoll]
    exact ⟨⟨u, hbuf, rfl, hu, hblank⟩, by simp [Turn.brings, hev]⟩
  · exact absurd hnil hleft
  · omega
  · rw [hr', hpoll]
    subst hsplit
    have hfit' : (u ++ d).length ≤ n := by
      rw [List.length_append] at hfit ⊢
      omega
    have hbuf' := holds_append hbuf h0 hfit'
    rw [← List.append_assoc] at hu
    obtain ⟨h0', hoff', hfit''⟩ := appendOffset_of_part hr hbuf' hu
    have htext := toQString_of_holds hbuf' h0'
    -- every piece has a byte
    have hless : stream'.length + (if turn.brings then 1 else 0) ≤ (d ++ stream').length := by
      have := List.length_pos_iff.mpr hd
      rw [List.length_append]
      split <;> omega
    dsimp only
    by_cases hblank' : Blank (u ++ d)
    · -- the header section is complete: the body loop starts in this turn
      obtain ⟨B, hB, hrest⟩ := body_of_blank hr.noBlank he hu hblank'
      have hlf : (10 : UInt8) ∉ B := fun h =>
        (hr.body 10 (hrest ▸ List.mem_append_left _ h)).2.2 rfl
      rw [hB] at htext hbuf' hoff' hfit'' h0'
      rw [dispatch_acceptable hr hn hobj hlf htext]
      dsimp only
      have hpos : 0 < (buffer.append d).nulCount := by
        rw [nulCount_of_holds hbuf' h0']
        omega
      have hhead : (0 : UInt8) ∉ r.head ++ crlf2 := by
        rw [List.mem_append, not_or]
        exact ⟨hr.noNul, by decide⟩
      have hcount : (buffer.append d).appendOffset - bodyStart (buffer.append d).toQString =
          B.length := by
        rw [htext, ← List.append_assoc, (bodyStart_append hhead
          (List.suffix_append _ _).isInfix _).1, bodyStart_head hr.noNul hr.noBlank he, hoff']
        simp [crlf2, ascii]
        omega
      rw [receiveMessageBodyPOST_eq (by rw [htext, ← hB]; exact hblank'), if_pos hpos, hcount]
      exact bodyGuard_incomplete hr he hbuf' hrest hless
    · rw [dispatch_of_not_blank objs (by rw [htext]; exact hblank')]
      exact ⟨⟨u ++ d, hbuf', by rw [List.length_append], hu, hblank'⟩, hless⟩

/-- **Delivery**: for every way of cutting an acceptable request into
    receive results, with `EAGAIN` in between, the request is processed with
    its own target and body, at the latest when all its bytes have been
    brought. The last header line must not be followed by a line end before
    the blank line. -/
theorem processRequest_delivers (objs : ObjectTree Obj) (r : PostMessage) (target : Obj)
    (hn : n ≤ 2 ^ 31) (hr : r.Acceptable n) (he : ¬ crlf <:+ r.head)
    (hobj : objs.resolve (targetPath r.uri) = some target) (turns : List Turn)
    (hturns : ∀ i ∈ turns, i.Delivers) :
    (processRequest n objs r.bytes turns).Keeps
      (fun _ => turns.countP Turn.brings < r.bytes.length) (· = .post target r.body) := by
  have hstart : Incomplete r target (start n r.bytes : Conn Obj n) :=
    ⟨[], holds_zeroed n, rfl, rfl, by decide⟩
  have hbody : ∀ (c : Conn Obj n) (turn : Turn), turn.Delivers → Incomplete r target c →
      Progress r target c turn (connTurn objs c turn) := by
    intro c turn ht hc
    cases c with
    | header s => exact headerTurn_incomplete hr he hn hobj ht hc
    | body target' length s =>
      obtain ⟨rfl, rfl, _⟩ := id hc
      exact bodyTurn_incomplete hr he ht hc
  have hrun := run_progress hbody turns _ hturns hstart
  refine hrun.mono (fun c h => ?_) fun _ h => h
  have hpos := List.length_pos_iff.mpr (left_of_incomplete h.1)
  have hall : (start n r.bytes : Conn Obj n).left.length = r.bytes.length := rfl
  have hle := h.2
  omega

end patterns

/-! ### Two requests -/

/-- The headers of the bundled test requests, for a body of two bytes. -/
def twoByteHeaders : Bytes :=
  ascii "HOST: Test\r\nContent-Type: application/json-rpc 2.0\r\nContent-Length: 2\r\n"
    ++ ascii "Accept: application/json-rpc 2.0\r\nConnection: close"

/-- A request for the root object with an empty JSON object. -/
def rootMessage : PostMessage := ⟨ascii "/", twoByteHeaders, ascii "{}"⟩

/-- Cuts inside the request line, the length and the blank line. -/
def threeCuts : List Turn :=
  [⟨.ready false true, .bytes 9⟩, ⟨.ready false true, .again⟩, ⟨.ready false true, .bytes 72⟩,
    ⟨.ready false true, .bytes 52⟩, ⟨.ready false true, .bytes 2000⟩]

theorem acceptable_of_match {n : Nat} {r : PostMessage}
    (hmatch : (match matchFirst http_json_POST (r.head ++ crlf2) with
      | some post => decide (captured post .http_URI = r.uri ∧
          captured post .http_length ≠ [] ∧
          digitsValue (captured post .http_length) = r.body.length)
      | none => false) = true)
    (hhead : (0 : UInt8) ∉ r.head ∧ ¬ Blank r.head)
    (hbody : ∀ b ∈ r.body, b ≠ 0 ∧ b ≠ 13 ∧ b ≠ 10)
    (hfits : r.head.length + 4 + r.body.length < n) : r.Acceptable n := by
  refine ⟨hhead.1, hhead.2, ?_, hbody, hfits⟩
  split at hmatch
  · next post hpost => exact ⟨post, hpost, of_decide_eq_true hmatch⟩
  · cases hmatch

theorem acceptable_rootMessage : rootMessage.Acceptable 2048 :=
  acceptable_of_match (by decide +kernel) (by decide +kernel) (by decide) (by decide +kernel)

theorem processRequest_delivers_root :
    (processRequest 2048 soloRoot rootMessage.bytes threeCuts).Keeps
      (fun _ => threeCuts.countP Turn.brings < rootMessage.bytes.length)
      (· = .post () rootMessage.body) := by
  have hend : ¬ crlf <:+ rootMessage.head := by decide +kernel
  have hobj : soloRoot.resolve (targetPath rootMessage.uri) = some () := by
    decide +kernel
  exact processRequest_delivers soloRoot rootMessage () (by decide) acceptable_rootMessage hend
    hobj threeCuts (by decide)

/-- Everything arrives in one piece. -/
def onePiece : List Turn := [⟨.ready false true, .bytes 2047⟩]

/-- The same request with a line end behind the last header line: the blank
    line found for the body is not the one in front of it. -/
def trailingMessage : PostMessage := ⟨ascii "/", twoByteHeaders ++ crlf, ascii "{}"⟩

theorem processRequest_trailing : ¬ ∀ (r : PostMessage) (target : Unit), r.Acceptable 2048 →
    soloRoot.resolve (targetPath r.uri) = some target → ∀ turns : List Turn,
      (∀ i ∈ turns, i.Delivers) →
        (processRequest 2048 soloRoot r.bytes turns).Keeps
          (fun _ => turns.countP Turn.brings < r.bytes.length) (· = .post target r.body) := by
  intro hall
  have hacc : trailingMessage.Acceptable 2048 :=
    acceptable_of_match (by decide +kernel) (by decide +kernel) (by decide) (by decide +kernel)
  have hobj : soloRoot.resolve (targetPath trailingMessage.uri) = some () := by
    decide +kernel
  have hrun : ¬ (processRequest 2048 soloRoot trailingMessage.bytes onePiece).Keeps
      (fun _ => onePiece.countP Turn.brings < trailingMessage.bytes.length)
      (· = .post () trailingMessage.body) := by
    decide +kernel
  exact hrun (hall trailingMessage () hacc hobj onePiece (by decide))

end JsonRPCServer
