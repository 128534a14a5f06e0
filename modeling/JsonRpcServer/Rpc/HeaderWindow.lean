import JsonRpcServer.Rpc.Receive

/-! # The Window of the Header Loop

  `JsonRPCServer::processRequest` asks `recv` for `buffer_size - received`
  bytes, but the conversion of the buffer puts them behind the first NUL of
  the block. The counter and the place of the store are two different
  measures of what has been received.

  ## Main results

  * `recvWindow_of_header`: at every `recv` of every run, whatever the peer
    sends, the text ends at or before the counter, so the window lies inside
    the block. Without NUL bytes in the stream the two measures agree, and
    the block starts with the bytes received so far.

  ## Proof idea

  Every store ends in front of the new value of the counter, so the block
  stays zero from the counter on. A NUL in the stream moves only the store,
  and only to the front.
-/

namespace JsonRPCServer

open Bytes CString Loop HttpRecvBufferSingle

variable {Obj : Type} {n : Nat}

/-- What a `recv` of the header loop finds, for a peer that sends `stream`. -/
structure RecvWindow (stream : Bytes) (s : HeaderState n) : Prop where
  strnlen_le : s.buffer.appendOffset ≤ s.received
  received_le : s.received ≤ n
  /-- The window lies inside the block. -/
  window : s.buffer.appendOffset + (n - s.received) ≤ n
  inside : ∀ e f, recv s.buffer (n - s.received) e s.stream ≠ .fault f
  /-- The counter is the number of bytes received so far. -/
  counted : s.received ≤ stream.length ∧ s.stream = stream.drop s.received
  /-- Without NULs the block starts with them. -/
  kept : 0 ∉ stream → s.buffer.mem.take s.received = stream.take s.received

/-! ### The invariant -/

/-- The first `received` bytes of the stream have been stored in front of
    index `received`. -/
structure Stored (stream : Bytes) (s : HeaderState n) : Prop where
  le : s.received ≤ n
  /-- Nothing has been stored from there on. -/
  zero : ∀ x ∈ s.buffer.mem.drop s.received, x = 0
  counted : s.received ≤ stream.length ∧ s.stream = stream.drop s.received
  holds : 0 ∉ stream → s.buffer.Holds (stream.take s.received)

section Stored

variable {stream : Bytes} {s : HeaderState n}

theorem stored_start (n : Nat) (stream : Bytes) :
    Stored stream (⟨zeroed n, 0, stream⟩ : HeaderState n) where
  le := Nat.zero_le n
  zero := by
    intro x hx
    exact List.eq_of_mem_replicate (List.mem_of_mem_drop hx)
  counted := ⟨Nat.zero_le _, rfl⟩
  holds _ := holds_zeroed n

theorem Stored.appendOffset_le (h : Stored stream s) : s.buffer.appendOffset ≤ s.received :=
  strnlen_le_of_zero h.zero

/-- One store of received bytes. -/
theorem Stored.append (h : Stored stream s) {d stream' : Bytes}
    (hfit : d.length ≤ n - s.received) (hd : s.stream = d ++ stream') :
    Stored stream ⟨s.buffer.append d, s.received + d.length, stream'⟩ := by
  have hoff := h.appendOffset_le
  have hle := h.le
  obtain ⟨hcount, hleft⟩ := h.counted
  have hrest : stream.drop s.received = d ++ stream' := hleft.symm.trans hd
  have hlen : stream.length - s.received = d.length + stream'.length := by
    rw [← List.length_drop, hrest, List.length_append]
  -- the bytes received so far, with the new ones
  have htake : stream.take (s.received + d.length) = stream.take s.received ++ d := by
    rw [List.take_add, hrest, List.take_left]
  have hdrop : stream.drop (s.received + d.length) = stream' := by
    rw [← List.drop_drop, hrest, List.drop_left]
  constructor
  · show s.received + d.length ≤ n
    omega
  · exact zero_append hoff (by omega) h.zero
  · exact ⟨show s.received + d.length ≤ stream.length by omega, hdrop.symm⟩
  · intro h0
    have h0' : (0 : UInt8) ∉ stream.take s.received := fun hm => h0 (List.mem_of_mem_take hm)
    show (s.buffer.append d).Holds (stream.take (s.received + d.length))
    rw [htake]
    apply holds_append (h.holds h0) h0'
    rw [← htake, List.length_take]
    omega

/-- The invariant is enough for the next `recv`. -/
theorem Stored.recvWindow (h : Stored stream s) : RecvWindow stream s := by
  have hoff := h.appendOffset_le
  have hle := h.le
  constructor
  · exact hoff
  · exact hle
  · omega
  · intro e f hfault
    rcases recv_cases s.buffer (n - s.received : Int) (by omega) (by omega) e s.stream with
      ⟨hrecv, _⟩ | ⟨hrecv, _⟩ | ⟨hrecv, _⟩ | ⟨d, stream', _, _, _, hrecv⟩
    all_goals
      rw [hrecv] at hfault
      cases hfault
  · exact h.counted
  · intro h0
    obtain ⟨hcount, _⟩ := h.counted
    have hlen : (stream.take s.received).length = s.received := by
      rw [List.length_take]
      omega
    rw [(h.holds h0).1]
    exact List.take_left' hlen

/-! ### Turns -/

theorem headerPoll_keeps (h : Stored stream s) (p : PollEvent) :
    (headerPoll s p : Step _ (HeaderExit Obj n)).Keeps (Stored stream) (fun _ => True) := by
  match p with
  | .ready true _ => trivial
  | .ready false _ => exact h
  | .timeout => trivial
  | .error => trivial

/-- `EAGAIN` stores and counts nothing, a piece of the stream is stored and
    counted. -/
theorem headerTurn_keeps (objs : ObjectTree Obj) (h : Stored stream s) (turn : Turn) :
    (headerTurn objs s turn).Keeps (Stored stream) (fun _ => True) := by
  have hoff := h.appendOffset_le
  have hle := h.le
  unfold headerTurn
  rcases recv_cases s.buffer (n - s.received : Int) (by omega) (by omega) turn.recv s.stream with
    ⟨hrecv, _⟩ | ⟨hrecv, _⟩ | ⟨hrecv, _⟩ | ⟨d, stream', _, hfit, hd, hrecv⟩
  · rw [hrecv]
    trivial
  · rw [hrecv]
    exact headerPoll_keeps h turn.poll
  · rw [hrecv]
    trivial
  · rw [hrecv]
    dsimp only
    have hstored := h.append (by omega) hd
    cases dispatch objs ⟨s.buffer.append d, s.received + d.length, stream'⟩ with
    | none => exact headerPoll_keeps hstored turn.poll
    | some e => trivial

end Stored

/-! ### Runs -/

/-- The invariant of a request that may have left the header loop. -/
def Conn.Stored (stream : Bytes) : Conn Obj n → Prop
  | .header s => JsonRPCServer.Stored stream s
  | .body _ _ _ => True

theorem map_body_keeps (stream : Bytes) (target : Obj) (length : Nat)
    (step : Step (BodyState n) (Result Obj)) :
    (step.map (Conn.body target length)).Keeps (Conn.Stored stream) (fun _ => True) := by
  cases step with
  | next s => trivial
  | exit r => trivial

theorem connTurn_keeps (objs : ObjectTree Obj) {stream : Bytes} {c : Conn Obj n}
    (h : c.Stored stream) (turn : Turn) :
    (connTurn objs c turn).Keeps (Conn.Stored stream) (fun _ => True) := by
  cases c with
  | header s =>
    have hkeeps := headerTurn_keeps objs h turn
    unfold connTurn
    dsimp only
    cases hturn : headerTurn objs s turn with
    | next s' =>
      rw [hturn] at hkeeps
      exact hkeeps
    | exit e =>
      -- the loop is left, for the body of the request or for good
      cases e with
      | done r => trivial
      | receiveBody target buffer length stream' => exact map_body_keeps stream target length _
  | body target length s => exact map_body_keeps stream target length _

/-- **The window of the header loop**: wherever a run of `processRequest`
    waits in the `recv` of the header loop, the text of the block ends at or
    before the counter, the window lies inside the block, and as long as the
    peer sends no NUL the block starts with the bytes received so far. -/
theorem recvWindow_of_header (objs : ObjectTree Obj) (stream : Bytes) (turns : List Turn)
    (s : HeaderState n) (h : processRequest n objs stream turns = .running (.header s)) :
    RecvWindow stream s := by
  have hrun := run_keeps (P := fun _ => True)
    (fun c turn _ hc => connTurn_keeps objs hc turn) turns (start n stream) (fun _ _ => trivial)
    (stored_start n stream)
  rw [processRequest] at h
  rw [h] at hrun
  cases hrun with
  | running hstored => exact hstored.recvWindow

/-- Two pieces, the first with a NUL and another byte behind it. -/
def nulStream : Bytes := [71, 69, 0, 84, 32, 47]

def nulTurns : List Turn :=
  [⟨.ready false true, .bytes 3⟩, ⟨.ready false true, .again⟩, ⟨.ready false true, .bytes 7⟩]

/-- The second piece is stored over the NUL and the byte behind it. -/
theorem recvWindow_of_header_nul : ∃ s : HeaderState 8,
    processRequest 8 soloRoot nulStream nulTurns = .running (.header s) ∧ s.received = 6 ∧
      s.buffer.mem = [71, 69, 32, 47, 0, 0, 0, 0] ∧ RecvWindow nulStream s := by
  refine ⟨_, rfl, rfl, rfl, ?_⟩
  exact recvWindow_of_header soloRoot nulStream nulTurns _ rfl

end JsonRPCServer
