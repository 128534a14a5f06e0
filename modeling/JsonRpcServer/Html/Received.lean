import JsonRpcServer.Framework.System
import JsonRpcServer.Html.Responses
import JsonRpcServer.Http.CleanBuffer

/-! # Receive Accounting

  `HtmlServer::processRequest` keeps the free space of its block three
  times: as the counter `received`, as the NUL behind the text, and as what
  `cleanBuffer` returns.

  ## Main results

  * `received_of_guarded`: they agree in every run without an `EAGAIN` and
    without a `recv` that fills the block and leaves work for `cleanBuffer`.

  ## Proof idea

  All bytes are stored in front of index `received`, so the block is zero
  from there on and the text ends there at the latest. `cleanBuffer` and
  `EAGAIN` are what moves the counter and the bytes apart.
-/

namespace HtmlServer

open Bytes CString Regex Http Loop HttpRecvBufferSingle System

variable {Obj : Type} {n : Nat}

/-- The loop from one `recv` to the next. -/
def next (objs : ObjectTree Obj) (s : State Obj n) (t : Turn) : Option (State Obj n) :=
  match turn objs s t with
  | .next s' => some s'
  | .exit _ => none

/-- What the next `recv` finds. -/
structure RecvOk (s : State Obj n) : Prop where
  received_nonneg : 0 ≤ s.received
  received_le : s.received ≤ n
  /-- The window lies inside the block. -/
  window : s.buffer.appendOffset + (n - s.received) ≤ n
  length_pos : 0 < n → 0 < n - s.received
  /-- A result of 0 means that the peer has closed. -/
  closed : 0 < n → ∀ k, recv s.buffer (n - s.received) (.bytes k) s.stream = .closed →
    s.stream = []

/-- The block `cleanBuffer` is called on in this turn. -/
def toClean (s : State Obj n) (t : Turn) : Option (HttpRecvBufferSingle n) :=
  match recv s.buffer (n - s.received) t.recv s.stream with
  | .again => if s.received - 1 = n then some s.buffer else none
  | .data ret buffer _ => if s.received + ret = n then some buffer else none
  | _ => none

/-- A request up to its blank line. -/
def CompleteRequest (w : Bytes) : Prop := crlf2 <:+ w ∧ (matchFirst http_general_req w).isSome

/-- `cleanBuffer` drops a request that ends behind the text of the state, all
    of which has been matched. -/
def DropsUnmatched (s : State Obj n) (b : HttpRecvBufferSingle n) : Prop :=
  ∃ cleaned b' u w v, b.cleanBuffer = .ok (cleaned, b') ∧ b.toQString = u ++ w ++ v ∧
    CompleteRequest w ∧ (u ++ w).length ≤ cleaned ∧ s.buffer.appendOffset < (u ++ w).length

/-- What the turn itself has to keep. -/
structure TurnOk (objs : ObjectTree Obj) (s : State Obj n) (t : Turn) : Prop where
  inside : ∀ f responses, turn objs s t ≠ .exit ⟨.fault f, responses⟩
  matched : ∀ b ∈ toClean s t, ¬ DropsUnmatched s b

/-- No `EAGAIN`, and nothing to do for `cleanBuffer`. -/
def NothingToClean (s : State Obj n) (t : Turn) : Prop :=
  t.recv ≠ .again ∧ ∀ b ∈ toClean s t, 0 ∈ b.mem ∧ ¬ crlf2 <:+: b.toQString

instance (s : State Obj n) (t : Turn) : Decidable (NothingToClean s t) :=
  inferInstanceAs (Decidable (_ ∧ _))

/-! ### The invariant -/

/-- The block is zero from index `received` on. -/
structure ZeroBehind (s : State Obj n) : Prop where
  nonneg : 0 ≤ s.received
  lt : 0 < n → s.received < n
  le : s.received ≤ n
  zero : ∀ x ∈ s.buffer.mem.drop s.received.toNat, x = 0

theorem zeroBehind_start (stream : Bytes) : ZeroBehind (start n stream : State Obj n) where
  nonneg := Int.le_refl 0
  lt h := Int.natCast_pos.mpr h
  le := Int.natCast_nonneg n
  zero := by
    intro x hx
    exact List.eq_of_mem_replicate (List.mem_of_mem_drop hx)

/-- It is a property of the block and the counter. -/
theorem ZeroBehind.congr {s s' : State Obj n} (h : ZeroBehind s) (hbuffer : s'.buffer = s.buffer)
    (hreceived : s'.received = s.received) : ZeroBehind s' where
  nonneg := hreceived ▸ h.nonneg
  lt := hreceived ▸ h.lt
  le := hreceived ▸ h.le
  zero := by
    rw [hbuffer, hreceived]
    exact h.zero

theorem ZeroBehind.appendOffset_le {s : State Obj n} (h : ZeroBehind s) :
    s.buffer.appendOffset ≤ s.received := by
  have hle := strnlen_le_of_zero h.zero
  have hnonneg := h.nonneg
  show (strnlen s.buffer.mem : Int) ≤ s.received
  omega

theorem ZeroBehind.recvOk {s : State Obj n} (h : ZeroBehind s) : RecvOk s where
  received_nonneg := h.nonneg
  received_le := h.le
  window := by
    have hoff := h.appendOffset_le
    omega
  length_pos hn := by
    have hlt := h.lt hn
    omega
  closed hn k hclosed := by
    have hoff := h.appendOffset_le
    have hle := h.le
    have hlt := h.lt hn
    rcases recv_cases s.buffer (n - s.received) (by omega) (by omega) (.bytes k) s.stream with
      ⟨_, hev⟩ | ⟨_, hev⟩ | ⟨_, hnil | hzero⟩ | ⟨d, stream', _, _, _, hdata⟩
    · cases hev
    · cases hev
    · exact hnil
    · omega
    · rw [hclosed] at hdata
      cases hdata

/-! ### Turns -/

theorem poll_keeps (s : State Obj n) (p : PollEvent) : (poll s p).Keeps (· = s) Inside := by
  cases p with
  | ready hup readable =>
    cases hup with
    | false => exact rfl
    | true => exact fun f => nofun
  | timeout => exact fun f => nofun
  | error => exact fun f => nofun

/-- The matches of the text and the wait behind them do the same. -/
theorem matches_keeps {objs : ObjectTree Obj} {s : State Obj n} (hs : ZeroBehind s)
    (generals : List (Thread UInt8 Group)) (p : PollEvent) :
    (match Loop.run (answer objs) s generals with
      | .running s' => poll s' p
      | .exited r _ => .exit r).Keeps ZeroBehind Inside := by
  have hbody : ∀ (s' : State Obj n) (general : Thread UInt8 Group), True →
      (s'.buffer = s.buffer ∧ s'.received = s.received) →
        (answer objs s' general).Keeps
          (fun s'' => s''.buffer = s.buffer ∧ s''.received = s.received) Inside := by
    intro s' general _ h
    have hspec := answer_spec objs s' general
    match answer objs s' general, hspec with
    | .next s'', hs'' =>
      show s''.buffer = s.buffer ∧ s''.received = s.received
      rw [hs''.1]
      exact h
    | .exit r, hr => exact hr.1
  have hrun := Loop.run_keeps hbody generals s (fun _ _ => trivial) ⟨rfl, rfl⟩
  match Loop.run (answer objs) s generals, hrun with
  | .running s', .running h =>
    have hpoll := poll_keeps s' p
    show (poll s' p).Keeps ZeroBehind Inside
    match poll s' p, hpoll with
    | .next s'', heq =>
      show ZeroBehind s''
      rw [heq]
      exact hs.congr h.1 h.2
    | .exit r, hr => exact hr
  | .exited r _, .exited h => exact h

/-- Without anything to clean, a turn counts the bytes it has stored. -/
theorem turn_keeps (objs : ObjectTree Obj) {s : State Obj n} {t : Turn} (hs : ZeroBehind s)
    (ht : NothingToClean s t) : (turn objs s t).Keeps ZeroBehind Inside := by
  have hoff := hs.appendOffset_le
  have hnonneg := hs.nonneg
  have hle := hs.le
  unfold turn
  rcases recv_cases s.buffer (n - s.received) (by omega) (by omega) t.recv s.stream with
    ⟨hrecv, _⟩ | ⟨_, hev⟩ | ⟨hrecv, _⟩ | ⟨d, stream', hd, hlen, _, hrecv⟩
  · rw [hrecv]
    exact fun f => nofun
  · exact absurd hev ht.1
  · rw [hrecv]
    exact fun f => nofun
  · rw [hrecv]
    dsimp only
    unfold afterRecv checkOverload
    by_cases hfull : s.received + (d.length : Int) = n
    · -- the block is full, and `cleanBuffer` finds nothing to drop
      have hclean : s.buffer.append d ∈ toClean s t := by
        unfold toClean
        rw [hrecv]
        exact if_pos hfull
      obtain ⟨h0, hblank⟩ := ht.2 _ hclean
      obtain ⟨b', hok, _⟩ := cleanBuffer_of_not_blank h0 hblank
      dsimp only
      rw [if_pos hfull, hok]
      exact fun f => nofun
    · dsimp only
      rw [if_neg hfull]
      have hstored : ZeroBehind
          { s with
            buffer := s.buffer.append d
            stream := stream'
            received := s.received + d.length } := by
        refine ⟨?_, fun _ => ?_, ?_, ?_⟩
        · show 0 ≤ s.received + (d.length : Int)
          omega
        · show s.received + (d.length : Int) < n
          omega
        · show s.received + (d.length : Int) ≤ n
          omega
        · show ∀ x ∈ (s.buffer.append d).mem.drop (s.received + (d.length : Int)).toNat, x = 0
          have hcount : (s.received + (d.length : Int)).toNat = s.received.toNat + d.length := by
            omega
          rw [hcount]
          exact zero_append (by omega) (by omega) hs.zero
      exact matches_keeps hstored _ t.poll

/-! ### Runs -/

/-- Without anything to clean, a turn is as it should be. -/
theorem turnOk_of_nothingToClean {objs : ObjectTree Obj} {s : State Obj n} {t : Turn}
    (hs : ZeroBehind s) (ht : NothingToClean s t) : TurnOk objs s t where
  inside f responses hexit := by
    have hkeeps := turn_keeps objs hs ht
    rw [hexit] at hkeeps
    exact hkeeps f rfl
  matched b hb := by
    obtain ⟨h0, hblank⟩ := ht.2 b hb
    obtain ⟨b', hok, _⟩ := cleanBuffer_of_not_blank h0 hblank
    intro h
    obtain ⟨cleaned, b'', u, w, v, hok', _, _, hdropped, hbehind⟩ := h
    rw [hok, Except.ok.injEq, Prod.mk.injEq] at hok'
    -- nothing is dropped, so the request would end in front of nothing
    omega

theorem next_keeps {objs : ObjectTree Obj} {s s' : State Obj n} {t : Turn} (hs : ZeroBehind s)
    (ht : NothingToClean s t) (h : next objs s t = some s') : ZeroBehind s' := by
  have hkeeps := turn_keeps objs hs ht
  unfold next at h
  split at h
  · next s₁ hturn =>
    rw [hturn] at hkeeps
    rw [← Option.some.inj h]
    exact hkeeps
  · cases h

/-- **Receive accounting**: in every run without an `EAGAIN`, and without a
    `recv` that fills the block and leaves work for `cleanBuffer`, the window
    of each `recv` is inside the block and not empty, no access leaves the
    block, and no request is dropped before it is matched. -/
theorem received_of_guarded (objs : ObjectTree Obj) (stream : Bytes) (turns : List Turn)
    (hturns : Guarded (next objs) NothingToClean (start n stream) turns) :
    Always (next objs) RecvOk (start n stream) turns ∧
      Guarded (next objs) (TurnOk objs) (start n stream) turns := by
  have hstart : ZeroBehind (start n stream : State Obj n) := zeroBehind_start stream
  constructor
  · have hkeeps := always_of_invariant (fun _ _ _ => next_keeps) hstart hturns
    exact hkeeps.mono fun _ h => h.recvOk
  · exact hturns.strengthen (fun _ _ _ => next_keeps) (fun _ _ => turnOk_of_nothingToClean) hstart

/-! ### Two runs -/

/-- The turn in which everything arrives, with another one to follow. -/
def arrives : Turn := ⟨.ready false true, .bytes 2047⟩

/-- A request for the root object. -/
def rootGet : Bytes := ascii "GET / HTTP/1.1\r\nConnection: close\r\n\r\n"

/-- A request in two pieces. -/
def twoPieces : List Turn := [⟨.ready false true, .bytes 9⟩, ⟨.ready false true, .bytes 99⟩]

theorem received_of_guarded_twoPieces :
    Always (next soloRoot) RecvOk (start 2048 rootGet) twoPieces ∧
      Guarded (next soloRoot) (TurnOk soloRoot) (start 2048 rootGet) twoPieces :=
  received_of_guarded soloRoot rootGet twoPieces (by decide +kernel)

/-- A complete request, with NULs up to the end of the block. -/
def padded : Bytes := rootGet ++ List.replicate 2011 0

theorem dropsUnmatched_padded :
    ∃ b ∈ toClean (start 2048 padded : State Unit 2048) arrives,
      DropsUnmatched (start 2048 padded : State Unit 2048) b := by
  have hclean : (toClean (start 2048 padded : State Unit 2048) arrives).map
      (fun b => (b.toQString, b.cleanBuffer.toOption.map Prod.fst)) =
        some (rootGet, some 37) := by decide +kernel
  rw [Option.map_eq_some_iff] at hclean
  obtain ⟨b, hb, htext⟩ := hclean
  obtain ⟨htext, hcleaned⟩ := Prod.mk.inj htext
  have hrequest : CompleteRequest rootGet := ⟨by decide, by decide +kernel⟩
  have hempty : (start 2048 padded : State Unit 2048).buffer.appendOffset = 0 := by
    decide +kernel
  cases hok : b.cleanBuffer with
  | error f =>
    rw [hok] at hcleaned
    cases hcleaned
  | ok result =>
    obtain ⟨cleaned, b'⟩ := result
    rw [hok] at hcleaned
    obtain rfl : cleaned = 37 := Option.some.inj hcleaned
    -- the request is all of the dropped text, and none of it was there before
    refine ⟨b, hb, 37, b', [], rootGet, [], hok, ?_, hrequest, by decide, ?_⟩
    · rw [htext]
      rfl
    · rw [hempty]
      decide

/-- The next `recv` has no room although the peer is there, and the request
    is dropped before it is matched. -/
theorem not_received_padded :
    ¬ Always (next soloRoot) RecvOk (start 2048 padded) [arrives] ∧
      ¬ Guarded (next soloRoot) (TurnOk soloRoot) (start 2048 padded) [arrives] := by
  constructor
  · intro h
    have hrun : (System.run (next soloRoot) (start 2048 padded) [arrives]).map State.received =
        some 2048 := by decide +kernel
    rw [Option.map_eq_some_iff] at hrun
    obtain ⟨s, hrun, hreceived⟩ := hrun
    have hpos := (h [arrives] s List.prefix_rfl hrun).length_pos (by decide)
    rw [hreceived] at hpos
    exact absurd hpos (by decide)
  · intro h
    obtain ⟨b, hb, hdrops⟩ := dropsUnmatched_padded
    exact h.1.matched b hb hdrops

end HtmlServer
