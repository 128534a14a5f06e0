import JsonRpcServer.Rpc.Receive

/-! # The Window of the Body Loop

  The body loop writes behind the text of the buffer, but counts what is
  still to come with the client's `Content-Length`. Nothing relates that
  number to the size of the block. What decides is the number of NUL bytes
  the block holds at the hand-over: every byte received uses up at most one
  of them, and a peer that sends no NUL one byte at a time uses up exactly
  one per byte.

  * `receiveMessageBodyPOST_safe_iff`: no access of the body loop leaves the
    block, whatever the peer and `POLL` do, exactly when the block holds a
    NUL and as many of them as bytes of the body are missing.
-/

namespace JsonRPCServer

open Bytes Regex Http Loop HttpRecvBufferSingle

variable {Obj : Type} {n : Nat}

/-- The run has left its buffer. -/
def Faults {σ ι : Type} (o : Outcome σ (Result Obj) ι) : Prop :=
  ∃ f left, o = .exited (.fault f) left

instance {σ ι : Type} (o : Outcome σ (Result Obj) ι) : Decidable (Faults o) :=
  match o with
  | .exited (.fault f) left => isTrue ⟨f, left, rfl⟩
  | .running _ => isFalse (by rintro ⟨_, _, h⟩; cases h)
  | .exited .recvFailed _ => isFalse (by rintro ⟨_, _, h⟩; cases h)
  | .exited .closed _ => isFalse (by rintro ⟨_, _, h⟩; cases h)
  | .exited .timeout _ => isFalse (by rintro ⟨_, _, h⟩; cases h)
  | .exited .pollError _ => isFalse (by rintro ⟨_, _, h⟩; cases h)
  | .exited .noMethod _ => isFalse (by rintro ⟨_, _, h⟩; cases h)
  | .exited .noBodyLength _ => isFalse (by rintro ⟨_, _, h⟩; cases h)
  | .exited .objectNotFound _ => isFalse (by rintro ⟨_, _, h⟩; cases h)
  | .exited .get _ => isFalse (by rintro ⟨_, _, h⟩; cases h)
  | .exited (.post _ _) _ => isFalse (by rintro ⟨_, _, h⟩; cases h)

/-- Some run of the header loop hands this request over. -/
def HandedOver (objs : ObjectTree Obj) (target : Obj) (buffer : HttpRecvBufferSingle n)
    (length : Nat) : Prop :=
  ∃ stream turns s turn stream', processRequest n objs stream turns = .running (.header s) ∧
    headerTurn objs s turn = .exit (.receiveBody target buffer length stream')

/-! ### What is handed over -/

/-- The text handed over has a blank line. -/
theorem blank_of_handedOver {objs : ObjectTree Obj} {target : Obj}
    {buffer : HttpRecvBufferSingle n} {length : Nat}
    (h : HandedOver objs target buffer length) : Blank buffer.toQString := by
  obtain ⟨_, _, s, turn, stream', _, hturn⟩ := h
  obtain ⟨s', hd⟩ := dispatch_of_headerTurn hturn
  obtain ⟨hblank, ⟨r, he, _⟩ | ⟨_, _, _, _, _, he⟩⟩ := dispatch_cases hd
  · cases he
  · cases he
    exact hblank

/-- A request whose first turn is the last one of the header loop. -/
theorem handedOver_of_first {objs : ObjectTree Obj} {stream : Bytes} {turn : Turn}
    {target : Obj} {buffer : HttpRecvBufferSingle n} {length : Nat} {stream' : Bytes}
    (h : headerTurn objs ⟨zeroed n, 0, stream⟩ turn =
      .exit (.receiveBody target buffer length stream')) :
    HandedOver objs target buffer length :=
  ⟨stream, [], ⟨zeroed n, 0, stream⟩, turn, stream', rfl, h⟩

/-! ### Enough free space -/

/-- Room for the body: the block has as many NULs as bytes are missing. -/
structure BodyRoom (length : Nat) (s : BodyState n) : Prop where
  blank : Blank s.buffer.toQString
  /-- The body ends inside the block. -/
  body : bodyStart s.buffer.toQString + length ≤ n
  /-- Every missing byte has a NUL to use up. -/
  nuls : length ≤ s.recv_length + s.buffer.nulCount

/-- What the body loop may not end in. -/
def NoFault (r : Result Obj) : Prop := ∀ f, r ≠ .fault f

/-- The body loop waits, and has room. -/
def Waits (length : Nat) (s : BodyState n) : Prop :=
  BodyRoom length s ∧ s.recv_length < length

theorem bodyGuard_keeps (target : Obj) {length : Nat} {s : BodyState n}
    (h : BodyRoom length s) : (bodyGuard target length s).Keeps (Waits length) NoFault := by
  rw [bodyGuard]
  split
  · next hlt => exact ⟨h, hlt⟩
  · rw [requestBody_eq h.blank h.body]
    intro f hf
    cases hf

/-- Storing received bytes keeps the room. -/
theorem BodyRoom.append {length : Nat} {s : BodyState n} (h : BodyRoom length s) {d : Bytes}
    (hd : d.length ≤ length - s.recv_length) (hlt : s.recv_length < length) (stream : Bytes) :
    BodyRoom length ⟨s.buffer.append d, s.recv_length + d.length, stream⟩ := by
  have hspace := s.buffer.appendOffset_add_nulCount_le
  have hfit : s.buffer.appendOffset + d.length ≤ n := by
    have := h.nuls
    omega
  -- the blank line stays where it was
  have htext := append_toQString hfit
  have h0 : (0 : UInt8) ∉ s.buffer.toQString := CString.zero_not_mem_content _
  refine ⟨?_, ?_, ?_⟩
  · rw [htext]
    exact h.blank.trans (List.prefix_append _ _).isInfix
  · rw [htext, (bodyStart_append h0 h.blank _).1]
    exact h.body
  · have hnul := nulCount_le_append hfit
    have := h.nuls
    dsimp only
    omega

/-- One turn keeps the room and leaves no access outside the block. -/
theorem bodyTurn_keeps (target : Obj) {length : Nat} (s : BodyState n) (turn : Turn)
    (hs : Waits length s) :
    (bodyTurn target length s turn).Keeps (Waits length) NoFault := by
  obtain ⟨h, hlt⟩ := hs
  -- what is missing has NULs behind the text
  have hwindow : (s.buffer.appendOffset : Int) + (length - s.recv_length : Int) ≤ n := by
    have hspace := s.buffer.appendOffset_add_nulCount_le
    have := h.nuls
    omega
  rw [bodyTurn]
  split
  · intro f hf; cases hf
  · intro f hf; cases hf
  · intro f hf; cases hf
  · rcases recv_cases s.buffer _ (by omega) hwindow turn.recv s.stream with
      ⟨hr, _⟩ | ⟨hr, _⟩ | ⟨hr, _⟩ | ⟨d, stream', _, hd, _, hr⟩
    · rw [hr]; intro f hf; cases hf
    · rw [hr]; exact bodyGuard_keeps target h
    · rw [hr]; intro f hf; cases hf
    · rw [hr]
      exact bodyGuard_keeps target (h.append (by omega) hlt stream')

/-! ### Too little free space -/

/-- The peer that uses up the NULs: one byte a turn, never a NUL. -/
def drip : Turn := ⟨.ready false true, .bytes 0⟩

/-- With fewer NULs than missing bytes, the drip leaves the block. -/
theorem faults_of_drip {target : Obj} {length : Nat} : ∀ (nuls : Nat) (s : BodyState n),
    s.buffer.nulCount = nuls → s.recv_length + nuls < length →
      s.stream = List.replicate nuls 65 →
        Faults (run (bodyTurn target length) s (List.replicate (nuls + 1) drip)) := by
  intro nuls
  induction nuls with
  | zero =>
    intro s hnul hlt _
    -- no NUL is left, so the window starts at the end of the block
    have hoff := appendOffset_of_nulCount_zero hnul
    rw [List.replicate_succ, run_cons, bodyTurn]
    dsimp only [drip]
    rw [recv_fault (by omega)]
    exact ⟨_, _, rfl⟩
  | succ nuls ih =>
    intro s hnul hlt hstream
    rw [List.replicate_succ, run_cons, bodyTurn]
    dsimp only [drip]
    by_cases hfit : (s.buffer.appendOffset : Int) + (length - s.recv_length : Int) ≤ n
    · have hone : s.buffer.appendOffset + 1 ≤ n := by omega
      have hnul' := nulCount_append_one (x := 65) (by decide) hone (by omega)
      rw [hstream, List.replicate_succ, recv_one (by omega) hfit]
      dsimp only
      rw [bodyGuard, if_pos (by dsimp only; omega)]
      exact ih _ (by dsimp only; omega) (by dsimp only; omega) rfl
    · rw [recv_fault (by omega)]
      exact ⟨_, _, rfl⟩

/-! ### The exact condition -/

/-- **The window of the body loop.** A request handed over is received
    without leaving the block, for every peer and every answer of `POLL` and
    `recv`, if and only if the block still holds a NUL and holds as many
    NULs as bytes of the body are missing. -/
theorem receiveMessageBodyPOST_safe_iff (objs : ObjectTree Obj) (target : Obj)
    (buffer : HttpRecvBufferSingle n) (length : Nat)
    (h : HandedOver objs target buffer length) :
    (∀ stream turns, ¬ Faults (enter (bodyTurn target length)
        (receiveMessageBodyPOST target buffer length stream) turns)) ↔
      0 < buffer.nulCount ∧
        length ≤ (buffer.appendOffset - bodyStart buffer.toQString) + buffer.nulCount := by
  have hb := blank_of_handedOver h
  constructor
  · intro hsafe
    by_contra hcond
    by_cases hpos : 0 < buffer.nulCount
    · -- the drip runs out of NULs before the body is complete
      refine hsafe (List.replicate buffer.nulCount 65)
        (List.replicate (buffer.nulCount + 1) drip) ?_
      rw [receiveMessageBodyPOST_eq hb, if_pos hpos, bodyGuard, if_pos (by dsimp only; omega)]
      exact faults_of_drip _ _ rfl (by dsimp only; omega) rfl
    · refine hsafe [] [] ?_
      rw [receiveMessageBodyPOST_eq hb, if_neg hpos]
      exact ⟨_, _, rfl⟩
  · rintro ⟨hpos, hlen⟩ stream turns ⟨f, left, hf⟩
    -- the room at the hand-over is kept by every turn
    obtain ⟨_, _, _, hle⟩ := strstr_mem hb
    have hspace := buffer.appendOffset_add_nulCount_le
    have hroom : BodyRoom length
        ⟨buffer, buffer.appendOffset - bodyStart buffer.toQString, stream⟩ :=
      ⟨hb, by dsimp only; omega, hlen⟩
    have hkeeps := enter_keeps (P := fun _ => True)
      (fun s turn _ => bodyTurn_keeps target s turn) (bodyGuard_keeps target hroom) turns
      (fun _ _ => trivial)
    rw [receiveMessageBodyPOST_eq hb, if_pos hpos] at hf
    rw [hf] at hkeeps
    cases hkeeps with
    | exited h => exact h f rfl

/-- For a peer that has sent no NUL so far: the block is not full, and header
    section and body fit it together. -/
theorem room_iff_of_holds {buffer : HttpRecvBufferSingle n} {u : Bytes} (hu : buffer.Holds u)
    (h0 : (0 : UInt8) ∉ u) (hb : Blank u) (length : Nat) :
    (0 < buffer.nulCount ∧
        length ≤ (buffer.appendOffset - bodyStart buffer.toQString) + buffer.nulCount) ↔
      u.length < n ∧ bodyStart u + length ≤ n := by
  have hle := (bodyStart_append h0 hb []).2
  have hn := hu.2
  rw [nulCount_of_holds hu h0, appendOffset_of_holds hu h0, toQString_of_holds hu h0]
  omega

/-! ### Two requests -/

/-- The header section of a request for the root object. -/
def rootRequest (contentLength : String) : Bytes :=
  ascii "POST / HTTP/1.1\r\nHOST: Test\r\nContent-Type: application/json-rpc 2.0\r\nContent-Length: "
    ++ ascii contentLength
    ++ ascii "\r\nAccept: application/json-rpc 2.0\r\nConnection: close\r\n\r\n"

/-- The first turn of a request that arrives in one piece. -/
def wholeTurn (contentLength : String) : Step (HeaderState 2048) (HeaderExit Unit 2048) :=
  headerTurn soloRoot ⟨zeroed 2048, 0, rootRequest contentLength⟩ ⟨.ready false true, .bytes 2047⟩

/-- The condition decides about a request with a five-byte body. -/
theorem receiveMessageBodyPOST_safe_five : ∃ buffer : HttpRecvBufferSingle 2048,
    HandedOver soloRoot () buffer 5 ∧
      ((∀ stream turns, ¬ Faults (enter (bodyTurn () 5)
          (receiveMessageBodyPOST () buffer 5 stream) turns)) ↔
        0 < buffer.nulCount ∧
          5 ≤ (buffer.appendOffset - bodyStart buffer.toQString) + buffer.nulCount) := by
  have hturn : (match wholeTurn "5" with
      | .exit (.receiveBody _ _ length _) => length == 5
      | _ => false) = true := by decide +kernel
  split at hturn
  · next target buffer length stream heq =>
    obtain rfl : length = 5 := by simpa using hturn
    have hover := handedOver_of_first heq
    exact ⟨buffer, hover, receiveMessageBodyPOST_safe_iff soloRoot () buffer 5 hover⟩
  · cases hturn

/-- A `Content-Length` of 5000 takes the first `recv` of the body loop out of
    the block. -/
theorem receiveMessageBodyPOST_unsafe : ¬ ∀ (target : Unit) (buffer : HttpRecvBufferSingle 2048)
    (length : Nat), HandedOver soloRoot target buffer length → ∀ stream turns,
      ¬ Faults (enter (bodyTurn target length)
        (receiveMessageBodyPOST target buffer length stream) turns) := by
  intro hall
  have hturn : (match wholeTurn "5000" with
      | .exit (.receiveBody target buffer length _) =>
          decide (Faults (enter (bodyTurn target length)
            (receiveMessageBodyPOST target buffer length []) [drip]))
      | _ => false) = true := by decide +kernel
  split at hturn
  · next target buffer length stream heq =>
    exact hall target buffer length (handedOver_of_first heq) [] [drip] (of_decide_eq_true hturn)
  · cases hturn

end JsonRPCServer
