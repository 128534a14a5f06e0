import JsonRpcServer.Framework.Printf
import JsonRpcServer.Framework.System
import JsonRpcServer.Http.Socket

/-! # Sending

  The loops that bring a message to a client. Each waits for the socket to
  become writable, hands the rest of the message to `send` or `sendfile`,
  and adds the result to `sent`, until `sent` has reached the total.

  - `sendJsonResponseValid` and `sendJsonResponseError` send a buffer.
  - `processRequestGET` and `sendResponse` send a head from a buffer and a
    file behind it.

  `sendResponse` compares `sent` with a `size_t`. The second loop of
  `processRequestGET` has its branches for timeouts and errors of `POLL` in
  the wrong block, and polls again instead.

  ## Main results

  * `sendLoops_sound_iff`: all along a run `sent` counts the bytes that the
    socket has accepted, and these are the first of the message, exactly
    when no call in the run answers `EAGAIN`.
-/

open Bytes Printf System

/-! ### System calls -/

/-- The choice the environment makes in `send` and `sendfile`. -/
inductive SendEvent where
  /-- Up to `k` bytes are taken. -/
  | bytes (k : Nat)
  /-- -1 with errno `EAGAIN`. -/
  | again
  /-- -1 with any other errno. -/
  | error
  deriving DecidableEq, Repr

/-- The answers of the environment in one turn of a send loop. The second
    bit of `poll` is `POLLOUT` here. -/
structure SendTurn where
  poll : PollEvent
  send : SendEvent
  deriving DecidableEq, Repr

/-- What the code sees after `send` or `sendfile`. -/
inductive Sent where
  /-- The window does not lie inside the buffer. -/
  | fault
  | error
  | again
  /-- The socket has accepted these bytes; `ret` is their number. -/
  | data (d : Bytes)
  deriving DecidableEq, Repr

/-- `send(fd, buf + off, len, 0)`. -/
def send (buf : Bytes) (off len : Int) (e : SendEvent) : Sent :=
  if 0 ≤ off ∧ 0 ≤ len ∧ off + len ≤ buf.length then
    match e with
    | .error => .error
    | .again => .again
    | .bytes k => .data ((buf.drop off.toNat).take (min k len.toNat))
  else .fault

/-- `sendfile(fd, f, nullptr, count)` for a file at the position `pos`. -/
def sendfile (f : Bytes) (pos count : Nat) : SendEvent → Sent
  | .error => .error
  | .again => .again
  | .bytes k => .data ((f.drop pos).take (min k count))

/-! ### Loops -/

/-- The variable `sent`, and what the socket has accepted. A file starts at
    its beginning and is moved by `sendfile` only, so its position is the
    number of accepted bytes. -/
structure Progress where
  sent : Int
  accepted : Bytes
  deriving DecidableEq, Repr

/-- An error report: a message, or the text of an exception. -/
inductive Report where
  /-- "Client closed connection". -/
  | closed
  /-- "Send failed, errno". -/
  | failed
  /-- "Send timed out, closing connection". -/
  | timedOut
  /-- "Client send timeout". -/
  | timeout
  /-- "Client send poll error, errno". -/
  | pollError
  deriving DecidableEq, Repr

inductive SendLoop where
  | looping (s : Progress)
  /-- The loop has been left, by its condition if there is no report. -/
  | left (report : Option Report) (accepted : Bytes)
  | fault
  deriving DecidableEq, Repr

/-- The code of a loop: its condition on `sent`, and one turn. -/
structure SendCode where
  cond : Int → Bool
  turn : Progress → SendTurn → SendLoop

namespace SendCode

/-- The test at the head of the loop. -/
def test (cond : Int → Bool) (s : Progress) : SendLoop :=
  if cond s.sent = true then .looping s else .left none s.accepted

/-- The branches behind `ret = send(...)`. -/
def account (cond : Int → Bool) (s : Progress) : Sent → SendLoop
  | .fault => .fault
  | .error => .left (some .failed) s.accepted
  -- `EAGAIN` comes to the last branch, with -1 as `ret`
  | .again => test cond { s with sent := s.sent + -1 }
  | .data [] => .left (some .timedOut) s.accepted
  | .data d => test cond ⟨s.sent + d.length, s.accepted ++ d⟩

/-- A turn of the loops that tell the results of `POLL` apart. -/
def pollTurn (cond : Int → Bool) (call : Progress → SendEvent → Sent) (s : Progress)
    (i : SendTurn) : SendLoop :=
  match i.poll with
  | .ready hup writable =>
      if hup = true then .left (some .closed) s.accepted
      else if writable = true then account cond s (call s i.send)
      else test cond s
  | .timeout => .left (some .timeout) s.accepted
  | .error => .left (some .pollError) s.accepted

/-- The loop over a buffer. -/
def buffer (buf : Bytes) : SendCode where
  cond sent := sent < buf.length
  turn := pollTurn (fun sent => sent < buf.length) fun s => send buf s.sent (buf.length - s.sent)

variable (c : SendCode)

/-- In front of the first turn. -/
def start : SendLoop := test c.cond ⟨0, []⟩

def step : SendLoop → SendTurn → Option SendLoop
  | .looping s, i => some (c.turn s i)
  | .left _ _, _ => none
  | .fault, _ => none

end SendCode

namespace JsonRPCServer

open SendCode

/-- The loop of `sendJsonResponseValid`. -/
def sendJsonResponseValidLoop (send_buffer : Bytes) : SendCode := buffer send_buffer

/-- The loop of `sendJsonResponseError`. -/
def sendJsonResponseErrorLoop (send_buffer : Bytes) : SendCode := buffer send_buffer

/-- The first loop of `processRequestGET`. -/
def processRequestGETHead (buf : Bytes) : SendCode := buffer buf

/-- One turn of the second loop of `processRequestGET`. The branches for the
    other results of `POLL` stand inside the one for 1. -/
def formTurn (form : Bytes) (JSON_HTML_SIZE : Nat) (s : Progress) (i : SendTurn) : SendLoop :=
  match i.poll with
  | .ready hup writable =>
      if hup = true then .left (some .closed) s.accepted
      else if writable = true then
        account (fun sent => sent < JSON_HTML_SIZE) s
          (sendfile form s.accepted.length (toSize (JSON_HTML_SIZE - s.sent)) i.send)
      else test (fun sent => sent < JSON_HTML_SIZE) s
  | .timeout => test (fun sent => sent < JSON_HTML_SIZE) s
  | .error => test (fun sent => sent < JSON_HTML_SIZE) s

/-- The second loop of `processRequestGET`. -/
def processRequestGETForm (form : Bytes) (JSON_HTML_SIZE : Nat) : SendCode where
  cond sent := sent < JSON_HTML_SIZE
  turn := formTurn form JSON_HTML_SIZE

end JsonRPCServer

namespace HtmlServer

open SendCode

/-- The first loop of `sendResponse`. -/
def sendResponseHead (buf : Bytes) : SendCode := buffer buf

/-- The second loop of `sendResponse`. `sent` is converted to `size_t`. -/
def sendResponseFile (f : Bytes) (content_len : Nat) : SendCode where
  cond sent := toSize sent < content_len
  turn := pollTurn (fun sent => toSize sent < content_len) fun s =>
    sendfile f s.accepted.length (toSize (content_len - s.sent))

end HtmlServer

/-! ### Soundness -/

/-- `sent` is the number of accepted bytes, and these come first in the
    message. -/
structure Progress.Counts (s : Progress) (message : Bytes) (total : Nat) : Prop where
  nonneg : 0 ≤ s.sent
  le : s.sent ≤ total
  accepted : s.accepted = message.take s.sent.toNat
  length : (s.accepted.length : Int) = s.sent

/-- What has been accepted is a beginning of the message. -/
theorem Progress.Counts.isPrefix {s : Progress} {message : Bytes} {total : Nat}
    (h : s.Counts message total) : s.accepted <+: message := by
  rw [h.accepted]
  exact List.take_prefix _ _

/-- What the peer may rely on: `sent` counts all along, and a loop that ends
    without a report has sent the whole message. -/
def SendLoop.Sound (message : Bytes) (total : Nat) : SendLoop → Prop
  | .looping s => s.Counts message total
  | .left report accepted =>
      accepted <+: message ∧ (report = none → accepted = message ∧ message.length = total)
  | .fault => False

/-- The call in this turn, if there is one, does not answer `EAGAIN`. -/
def NoAgain : SendLoop → SendTurn → Prop
  | .looping _, i => ¬ (i.poll = .ready false true ∧ i.send = .again)
  | .left _ _, _ => True
  | .fault, _ => True

instance : ∀ s i, Decidable (NoAgain s i)
  | .looping _, i => inferInstanceAs (Decidable (¬ (i.poll = .ready false true ∧ i.send = .again)))
  | .left _ _, _ => .isTrue trivial
  | .fault, _ => .isTrue trivial

namespace SendCode

/-- What the loops have in common: when they call, what the calls give, and
    that the condition fails at the end of the message only. -/
structure Sends (c : SendCode) (call : Progress → SendEvent → Sent) (message : Bytes)
    (total : Nat) : Prop where
  calls : ∀ s i, i.poll = .ready false true → c.turn s i = account c.cond s (call s i.send)
  others : ∀ s i, i.poll ≠ .ready false true →
    (∃ r, c.turn s i = .left (some r) s.accepted) ∨ c.turn s i = test c.cond s
  again : ∀ s, s.Counts message total → call s .again = .again
  error : ∀ s, s.Counts message total → call s .error = .error
  bytes : ∀ s k, s.Counts message total →
    ∃ d, call s (.bytes k) = .data d ∧ s.accepted ++ d <+: message
  fits : message.length ≤ total
  stop : ∀ i : Int, 0 ≤ i → i ≤ total → c.cond i = false → i = total
  back : ∀ i : Int, 0 ≤ i → i ≤ total → c.cond i = true → c.cond (i + -1) = false → i ≠ total

/-- The loop is sound, and its condition holds inside. -/
def Inv (c : SendCode) (message : Bytes) (total : Nat) : SendLoop → Prop
  | .looping s => s.Counts message total ∧ c.cond s.sent = true
  | .left report accepted => (SendLoop.left report accepted).Sound message total
  | .fault => False

section Sends

variable {c : SendCode} {call : Progress → SendEvent → Sent} {message : Bytes} {total : Nat}

theorem Inv.sound {st : SendLoop} (h : c.Inv message total st) : st.Sound message total := by
  cases st with
  | looping s => exact h.1
  | left report accepted => exact h
  | fault => exact h

theorem inv_test (hc : c.Sends call message total) {s : Progress} (h : s.Counts message total) :
    c.Inv message total (test c.cond s) := by
  unfold test
  split
  · next hcond => exact ⟨h, hcond⟩
  · next hcond =>
    refine ⟨h.isPrefix, fun _ => ?_⟩
    have htotal := hc.stop s.sent h.nonneg h.le (Bool.eq_false_iff.mpr hcond)
    have hfits := hc.fits
    have hlength := h.length
    have hprefix := h.isPrefix.length_le
    exact ⟨h.isPrefix.eq_of_length (by omega), by omega⟩

/-- Accepted bytes are counted. -/
theorem counts_data (hc : c.Sends call message total) {s : Progress}
    (h : s.Counts message total) {d : Bytes} (hd : s.accepted ++ d <+: message) :
    Progress.Counts ⟨s.sent + d.length, s.accepted ++ d⟩ message total where
  nonneg := by
    have := h.nonneg
    show 0 ≤ s.sent + d.length
    omega
  le := by
    have hle := hd.length_le
    have hfits := hc.fits
    have hlength := h.length
    rw [List.length_append] at hle
    show s.sent + d.length ≤ total
    omega
  accepted := by
    have hlength := h.length
    have hnat : (s.sent + d.length).toNat = (s.accepted ++ d).length := by
      rw [List.length_append]
      omega
    show s.accepted ++ d = message.take (s.sent + d.length).toNat
    rw [hnat]
    exact List.prefix_iff_eq_take.mp hd
  length := by
    have hlength := h.length
    show ((s.accepted ++ d).length : Int) = s.sent + d.length
    rw [List.length_append]
    omega

/-- A turn without `EAGAIN` keeps the invariant. -/
theorem inv_turn (hc : c.Sends call message total) {s : Progress} (h : s.Counts message total)
    {i : SendTurn} (hi : NoAgain (.looping s) i) : c.Inv message total (c.turn s i) := by
  by_cases hpoll : i.poll = .ready false true
  · rw [hc.calls s i hpoll]
    cases hsend : i.send with
    | again => exact absurd ⟨hpoll, hsend⟩ hi
    | error =>
      rw [hc.error s h]
      exact ⟨h.isPrefix, nofun⟩
    | bytes k =>
      obtain ⟨d, hcall, hd⟩ := hc.bytes s k h
      rw [hcall]
      cases d with
      | nil => exact ⟨h.isPrefix, nofun⟩
      | cons b d => exact inv_test hc (counts_data hc h hd)
  · rcases hc.others s i hpoll with ⟨r, hr⟩ | htest
    · rw [hr]
      exact ⟨h.isPrefix, nofun⟩
    · rw [htest]
      exact inv_test hc h

/-- A turn with `EAGAIN` leaves `sent` one too low, or leaves the loop with
    a byte or more to send. -/
theorem not_sound_again (hc : c.Sends call message total) {s : Progress}
    (h : s.Counts message total) (hcond : c.cond s.sent = true) {i : SendTurn}
    (hi : i.poll = .ready false true ∧ i.send = .again) :
    ¬ (c.turn s i).Sound message total := by
  have hlength := h.length
  rw [hc.calls s i hi.1, hi.2, hc.again s h]
  show ¬ (test c.cond { s with sent := s.sent + -1 }).Sound message total
  unfold test
  split
  · intro hsound
    have hlength' : (s.accepted.length : Int) = s.sent + -1 := hsound.length
    omega
  · next hback =>
    intro hsound
    obtain ⟨heq, htotal⟩ := hsound.2 rfl
    have hne := hc.back s.sent h.nonneg h.le hcond (Bool.eq_false_iff.mpr hback)
    rw [heq] at hlength
    omega

/-- **Soundness of a loop**: it is sound all along a run exactly when no
    call in the run answers `EAGAIN`. -/
theorem sound_iff (hc : c.Sends call message total) (ls : List SendTurn) :
    Always c.step (SendLoop.Sound message total) c.start ls ↔
      Guarded c.step NoAgain c.start ls := by
  refine always_iff_guarded_of_imp (fun st (hst : c.Inv message total st) => hst.sound)
    (fun st i st' hst hi h => ?_) (fun st i hst hi => ?_) ?_ ls
  · cases st with
    | looping s =>
      cases h
      exact inv_turn hc hst.1 hi
    | left report accepted => cases h
    | fault => cases h
  · cases st with
    | looping s => exact ⟨_, rfl, not_sound_again hc hst.1 hst.2 (not_not.mp hi)⟩
    | left report accepted => exact absurd trivial hi
    | fault => exact hst.elim
  · -- nothing is sent yet
    exact inv_test hc ⟨Int.le_refl 0, Int.natCast_nonneg total, rfl, rfl⟩

end Sends

end SendCode

/-! ### The six loops -/

namespace SendCode

theorem pollTurn_calls (cond : Int → Bool) (call : Progress → SendEvent → Sent) (s : Progress)
    {i : SendTurn} (h : i.poll = .ready false true) :
    pollTurn cond call s i = account cond s (call s i.send) := by
  rw [pollTurn, h]
  rfl

theorem pollTurn_others (cond : Int → Bool) (call : Progress → SendEvent → Sent) (s : Progress)
    {i : SendTurn} (h : i.poll ≠ .ready false true) :
    (∃ r, pollTurn cond call s i = .left (some r) s.accepted) ∨
      pollTurn cond call s i = test cond s := by
  unfold pollTurn
  split
  · next hup writable hpoll =>
    rw [hpoll] at h
    cases hup with
    | true => exact Or.inl ⟨.closed, rfl⟩
    | false =>
      cases writable with
      | true => exact absurd rfl h
      | false => exact Or.inr rfl
  · exact Or.inl ⟨.timeout, rfl⟩
  · exact Or.inl ⟨.pollError, rfl⟩

/-- The window of `send` lies inside the buffer as long as `sent` counts. -/
theorem send_eq {buf : Bytes} {s : Progress} (h : s.Counts buf buf.length) (e : SendEvent) :
    send buf s.sent (buf.length - s.sent) e =
      match e with
      | .error => .error
      | .again => .again
      | .bytes k =>
          .data ((buf.drop s.sent.toNat).take (min k (buf.length - s.sent).toNat)) := by
  have hnonneg := h.nonneg
  have hle := h.le
  exact if_pos ⟨by omega, by omega, by omega⟩

theorem buffer_sends (buf : Bytes) :
    (buffer buf).Sends (fun s => send buf s.sent (buf.length - s.sent)) buf buf.length where
  calls s _ h := pollTurn_calls (buffer buf).cond
    (fun s => send buf s.sent (buf.length - s.sent)) s h
  others s _ h := pollTurn_others (buffer buf).cond
    (fun s => send buf s.sent (buf.length - s.sent)) s h
  again s h := send_eq h .again
  error s h := send_eq h .error
  bytes s k h := by
    refine ⟨_, send_eq h (.bytes k), ?_⟩
    -- the accepted bytes and the piece behind them are one beginning of the buffer
    rw [h.accepted, ← List.take_add]
    exact List.take_prefix _ _
  fits := Nat.le_refl _
  stop i _ hle hcond := by
    have : ¬ i < buf.length := of_decide_eq_false hcond
    omega
  back i _ _ hcond hback := by
    have hlt : i < buf.length := of_decide_eq_true hcond
    have hge : ¬ i + -1 < buf.length := of_decide_eq_false hback
    omega

/-- `sendfile` goes on where the accepted bytes end. -/
theorem sendfile_accepted {f : Bytes} {total : Nat} {s : Progress}
    (h : s.Counts (f.take total) total) (k : Nat) :
    ∃ d, sendfile f s.accepted.length (toSize (total - s.sent)) (.bytes k) = .data d ∧
      s.accepted ++ d <+: f.take total := by
  refine ⟨_, rfl, ?_⟩
  have hnonneg := h.nonneg
  have hle := h.le
  have hlength := h.length
  have hcount : toSize (total - s.sent) ≤ (total - s.sent).toNat := by
    unfold toSize
    omega
  have haccepted : s.accepted = f.take s.accepted.length :=
    List.prefix_iff_eq_take.mp (h.isPrefix.trans (List.take_prefix total f))
  have htake : s.accepted ++ (f.drop s.accepted.length).take (min k (toSize (total - s.sent))) =
      f.take (s.accepted.length + min k (toSize (total - s.sent))) := by
    rw [List.take_add, ← haccepted]
  rw [htake]
  exact List.take_prefix_take_left (by omega)

/-- The second loop of `processRequestGET` is left for a hang-up only when it
    makes no call: a timeout or an error of `POLL` makes it poll again. -/
theorem formTurn_others (form : Bytes) (JSON_HTML_SIZE : Nat) (s : Progress) {i : SendTurn}
    (h : i.poll ≠ .ready false true) :
    JsonRPCServer.formTurn form JSON_HTML_SIZE s i = .left (some .closed) s.accepted ∨
      JsonRPCServer.formTurn form JSON_HTML_SIZE s i =
        test (fun sent => sent < JSON_HTML_SIZE) s := by
  unfold JsonRPCServer.formTurn
  split
  · next hup writable hpoll =>
    rw [hpoll] at h
    cases hup with
    | true => exact Or.inl rfl
    | false =>
      cases writable with
      | true => exact absurd rfl h
      | false => exact Or.inr rfl
  · exact Or.inr rfl
  · exact Or.inr rfl

theorem form_sends (form : Bytes) (JSON_HTML_SIZE : Nat) :
    (JsonRPCServer.processRequestGETForm form JSON_HTML_SIZE).Sends
      (fun s => sendfile form s.accepted.length (toSize (JSON_HTML_SIZE - s.sent)))
      (form.take JSON_HTML_SIZE) JSON_HTML_SIZE where
  calls s i h := by
    show JsonRPCServer.formTurn form JSON_HTML_SIZE s i = _
    rw [JsonRPCServer.formTurn, h]
    rfl
  others s i h := by
    show (∃ r, JsonRPCServer.formTurn form JSON_HTML_SIZE s i = .left (some r) s.accepted) ∨
      JsonRPCServer.formTurn form JSON_HTML_SIZE s i = _
    rcases formTurn_others form JSON_HTML_SIZE s h with hclosed | htest
    · exact Or.inl ⟨.closed, hclosed⟩
    · exact Or.inr htest
  again _ _ := rfl
  error _ _ := rfl
  bytes _ k h := sendfile_accepted h k
  fits := List.length_take_le _ _
  stop i _ hle hcond := by
    have : ¬ i < JSON_HTML_SIZE := of_decide_eq_false hcond
    omega
  back i _ _ hcond hback := by
    have hlt : i < JSON_HTML_SIZE := of_decide_eq_true hcond
    have hge : ¬ i + -1 < JSON_HTML_SIZE := of_decide_eq_false hback
    omega

theorem file_sends (f : Bytes) (content_len : Nat) :
    (HtmlServer.sendResponseFile f content_len).Sends
      (fun s => sendfile f s.accepted.length (toSize (content_len - s.sent)))
      (f.take content_len) content_len where
  calls s _ h := pollTurn_calls (HtmlServer.sendResponseFile f content_len).cond
    (fun s => sendfile f s.accepted.length (toSize (content_len - s.sent))) s h
  others s _ h := pollTurn_others (HtmlServer.sendResponseFile f content_len).cond
    (fun s => sendfile f s.accepted.length (toSize (content_len - s.sent))) s h
  again _ _ := rfl
  error _ _ := rfl
  bytes _ k h := sendfile_accepted h k
  fits := List.length_take_le _ _
  stop i hnonneg hle hcond := by
    have hge : ¬ toSize i < content_len := of_decide_eq_false hcond
    unfold toSize at hge
    omega
  back i hnonneg hle hcond hback := by
    have hlt : toSize i < content_len := of_decide_eq_true hcond
    have hge : ¬ toSize (i + -1) < content_len := of_decide_eq_false hback
    unfold toSize at hlt hge
    omega

end SendCode

open JsonRPCServer HtmlServer

/-- **The send loops**: each of the six is sound all along a run exactly when
    no call in the run answers `EAGAIN`. -/
theorem sendLoops_sound_iff (send_buffer buf form f : Bytes) (JSON_HTML_SIZE content_len : Nat)
    (ls : List SendTurn) :
    (Always (sendJsonResponseValidLoop send_buffer).step
        (SendLoop.Sound send_buffer send_buffer.length)
        (sendJsonResponseValidLoop send_buffer).start ls ↔
      Guarded (sendJsonResponseValidLoop send_buffer).step NoAgain
        (sendJsonResponseValidLoop send_buffer).start ls) ∧
    (Always (sendJsonResponseErrorLoop send_buffer).step
        (SendLoop.Sound send_buffer send_buffer.length)
        (sendJsonResponseErrorLoop send_buffer).start ls ↔
      Guarded (sendJsonResponseErrorLoop send_buffer).step NoAgain
        (sendJsonResponseErrorLoop send_buffer).start ls) ∧
    (Always (processRequestGETHead buf).step (SendLoop.Sound buf buf.length)
        (processRequestGETHead buf).start ls ↔
      Guarded (processRequestGETHead buf).step NoAgain (processRequestGETHead buf).start ls) ∧
    (Always (processRequestGETForm form JSON_HTML_SIZE).step
        (SendLoop.Sound (form.take JSON_HTML_SIZE) JSON_HTML_SIZE)
        (processRequestGETForm form JSON_HTML_SIZE).start ls ↔
      Guarded (processRequestGETForm form JSON_HTML_SIZE).step NoAgain
        (processRequestGETForm form JSON_HTML_SIZE).start ls) ∧
    (Always (sendResponseHead buf).step (SendLoop.Sound buf buf.length)
        (sendResponseHead buf).start ls ↔
      Guarded (sendResponseHead buf).step NoAgain (sendResponseHead buf).start ls) ∧
    (Always (sendResponseFile f content_len).step (SendLoop.Sound (f.take content_len) content_len)
        (sendResponseFile f content_len).start ls ↔
      Guarded (sendResponseFile f content_len).step NoAgain
        (sendResponseFile f content_len).start ls) :=
  ⟨SendCode.sound_iff (SendCode.buffer_sends send_buffer) ls,
    SendCode.sound_iff (SendCode.buffer_sends send_buffer) ls,
    SendCode.sound_iff (SendCode.buffer_sends buf) ls,
    SendCode.sound_iff (SendCode.form_sends form JSON_HTML_SIZE) ls,
    SendCode.sound_iff (SendCode.buffer_sends buf) ls,
    SendCode.sound_iff (SendCode.file_sends f content_len) ls⟩

/-- One `EAGAIN` between two partial sends of `ab`: the `a` goes out twice. -/
theorem not_sound_twice :
    run (sendJsonResponseValidLoop (ascii "ab")).step
        (sendJsonResponseValidLoop (ascii "ab")).start
        [⟨.ready false true, .bytes 1⟩, ⟨.ready false true, .again⟩,
          ⟨.ready false true, .bytes 2⟩] = some (.left none (ascii "aab")) ∧
      ¬ (SendLoop.left none (ascii "aab")).Sound (ascii "ab") 2 := by
  refine ⟨by decide, fun hsound => ?_⟩
  exact absurd (hsound.2 rfl).1 (by decide)

/-- `EAGAIN` in the first `sendfile` of a page ends the loop, without a
    report and without a byte of the page. -/
theorem not_sound_nothing :
    run (sendResponseFile (ascii "page") 4).step (sendResponseFile (ascii "page") 4).start
        [⟨.ready false true, .again⟩] = some (.left none []) ∧
      ¬ (SendLoop.left none []).Sound (ascii "page") 4 := by
  refine ⟨by decide, fun hsound => ?_⟩
  exact absurd (hsound.2 rfl).1 (by decide)
