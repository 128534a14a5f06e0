import JsonRpcServer.Http.RecvBuffer

/-! # Receiving

  The environment of the receive loops: what `POLL` and `recv` can answer
  for the one descriptor a request thread owns.

  The peer is a byte stream. `recv` takes a prefix of what the stream still
  has, of any positive length up to the size of its window; it answers 0
  once the stream has ended.
-/

open Bytes HttpRecvBufferSingle

/-- Answer of `POLL` for one descriptor. -/
inductive PollEvent where
  /-- `ret == 1`, with the bits `POLLHUP` and `POLLIN` of `revents`. -/
  | ready (hup readable : Bool)
  /-- `ret == 0`. -/
  | timeout
  /-- `ret < 0`. -/
  | error
  deriving DecidableEq, Repr

/-- The choice the environment makes in `recv`. -/
inductive RecvEvent where
  /-- Up to `k + 1` bytes have arrived. -/
  | bytes (k : Nat)
  /-- -1 with errno `EAGAIN`, which is `EWOULDBLOCK` here. -/
  | again
  /-- -1 with any other errno. -/
  | error
  deriving DecidableEq, Repr

/-- The answers of the environment in one turn of a receive loop. -/
structure Turn where
  poll : PollEvent
  recv : RecvEvent
  deriving DecidableEq, Repr

/-- The socket is readable, not hung up, and `recv` does not fail. -/
def Turn.Delivers (i : Turn) : Prop :=
  i.poll = .ready false true ∧ i.recv ≠ .error

instance (i : Turn) : Decidable i.Delivers := inferInstanceAs (Decidable (_ ∧ _))

/-- The turn brings bytes. -/
def Turn.brings (i : Turn) : Bool :=
  match i.recv with
  | .bytes _ => true
  | _ => false

/-- What the code sees after `recv(fd, buffer, len, 0)`. -/
inductive Received (n : Nat) where
  /-- The window does not lie inside the block. -/
  | fault (f : Fault)
  /-- -1 with an errno that ends the request. -/
  | error
  /-- -1 with `EAGAIN`. -/
  | again
  /-- 0: the peer has closed the connection. -/
  | closed
  /-- `ret` bytes were stored; `stream` is what the peer has left. -/
  | data (ret : Nat) (buffer : HttpRecvBufferSingle n) (stream : Bytes)

variable {n : Nat}

/-- `recv(fd, buffer, len, 0)`. The conversion of `buffer` makes the data go
    behind the text of the block. -/
def recv (b : HttpRecvBufferSingle n) (len : Int) (e : RecvEvent) (stream : Bytes) :
    Received n :=
  if 0 ≤ len ∧ b.appendOffset + len ≤ n then
    match e with
    | .error => .error
    | .again => .again
    | .bytes k =>
        match stream.take (min (k + 1) len.toNat) with
        | [] => .closed
        | x :: xs => .data (xs.length + 1) (b.append (x :: xs)) (stream.drop (xs.length + 1))
  else .fault (.window b.appendOffset len)

/-- What `recv` does on a window inside the block: nothing, or it moves a
    non-empty prefix of the stream that fits the window into the block. -/
theorem recv_cases (b : HttpRecvBufferSingle n) (len : Int) (h0 : 0 ≤ len)
    (hlen : b.appendOffset + len ≤ n) (e : RecvEvent) (stream : Bytes) :
    (recv b len e stream = .error ∧ e = .error) ∨ (recv b len e stream = .again ∧ e = .again) ∨
      (recv b len e stream = .closed ∧ (stream = [] ∨ len = 0)) ∨
        ∃ d stream', d ≠ [] ∧ d.length ≤ len.toNat ∧ stream = d ++ stream' ∧
          recv b len e stream = .data d.length (b.append d) stream' := by
  rw [recv.eq_def, if_pos ⟨h0, hlen⟩]
  cases e with
  | error => exact Or.inl ⟨rfl, rfl⟩
  | again => exact Or.inr (Or.inl ⟨rfl, rfl⟩)
  | bytes k =>
    refine Or.inr (Or.inr ?_)
    dsimp only
    cases ht : stream.take (min (k + 1) len.toNat) with
    | nil =>
      refine Or.inl ⟨rfl, ?_⟩
      rcases List.take_eq_nil_iff.mp ht with h | h
      · exact Or.inr (by omega)
      · exact Or.inl h
    | cons x xs =>
      have hlen' := congrArg List.length ht
      rw [List.length_take, List.length_cons] at hlen'
      -- the piece is as long as the window and the arrived bytes allow
      refine Or.inr ⟨x :: xs, stream.drop (xs.length + 1), by simp, ?_, ?_, rfl⟩
      · rw [List.length_cons]
        omega
      · have hx : x :: xs = stream.take (xs.length + 1) :=
          List.prefix_iff_eq_take.mp (ht ▸ List.take_prefix _ _)
        rw [hx, List.take_append_drop]

/-- A window outside the block is a fault. -/
theorem recv_fault {b : HttpRecvBufferSingle n} {len : Int} (h : (n : Int) < b.appendOffset + len)
    (e : RecvEvent) (stream : Bytes) :
    recv b len e stream = .fault (.window b.appendOffset len) := by
  rw [recv.eq_def, if_neg (by omega)]

/-- Everything arrives at once. -/
theorem recv_all {b : HttpRecvBufferSingle n} {len : Int} {k : Nat} {stream : Bytes}
    (hlen : b.appendOffset + len ≤ n) (hne : stream ≠ []) (hk : stream.length ≤ k)
    (hfit : (stream.length : Int) ≤ len) :
    recv b len (.bytes k) stream = .data stream.length (b.append stream) [] := by
  have htake : stream.take (min (k + 1) len.toNat) = stream :=
    List.take_of_length_le (by omega)
  rw [recv.eq_def, if_pos ⟨by omega, hlen⟩]
  dsimp only
  rw [htake]
  cases stream with
  | nil => exact absurd rfl hne
  | cons x xs => simp

/-- Bytes that arrive one at a time. -/
theorem recv_one {b : HttpRecvBufferSingle n} {len : Int} (h0 : 0 < len)
    (hlen : b.appendOffset + len ≤ n) (x : UInt8) (xs : Bytes) :
    recv b len (.bytes 0) (x :: xs) = .data 1 (b.append [x]) xs := by
  have hmin : min (0 + 1) len.toNat = 1 := by omega
  rw [recv.eq_def, if_pos ⟨by omega, hlen⟩]
  simp only [hmin]
  rfl
