import JsonRpcServer.Http.SendLoop

/-! # Two Copies of One Loop

  `processRequestGET` of the JSON-RPC server and `sendResponse` of the html
  server send a file with two copies of one loop. In the first copy the
  branches for timeouts and errors of `POLL` stand in the wrong block, and
  `sent` is compared with a signed number; in the second it is compared with
  a `size_t`.

  ## Main results

  * `processRequestGETForm_agrees_iff`: the two loops make the same calls,
    send the same bytes and end in the same step with the same report,
    exactly when no `POLL` times out or fails and no `sendfile` answers
    `EAGAIN` in front of the first byte.
-/

open Bytes Printf System

/-! ### Calls -/

/-- A system call of a send loop. -/
inductive Call where
  | poll
  /-- `sendfile` on a file at the position `pos`. -/
  | sendfile (pos count : Nat)
  deriving DecidableEq, Repr

/-- The calls of one turn of a loop over a file. -/
def fileCalls (total : Nat) : SendLoop → SendTurn → List Call
  | .looping s, i =>
      .poll :: if i.poll = .ready false true then
        [.sendfile s.accepted.length (toSize (total - s.sent))] else []
  | .left _ _, _ => []
  | .fault, _ => []

/-- The calls of the second loop of `JsonRPCServer::processRequestGET`. -/
def JsonRPCServer.processRequestGETCalls (JSON_HTML_SIZE : Nat) : SendLoop → SendTurn → List Call :=
  fileCalls JSON_HTML_SIZE

/-- The calls of the second loop of `HtmlServer::sendResponse`. -/
def HtmlServer.sendResponseCalls (content_len : Nat) : SendLoop → SendTurn → List Call :=
  fileCalls content_len

/-- The calls of a run. -/
def SendCode.calls (c : SendCode) (f : SendLoop → SendTurn → List Call) :
    SendLoop → List SendTurn → List Call
  | _, [] => []
  | st, i :: is => f st i ++ (c.step st i).elim [] fun st' => c.calls f st' is

/-- Loops in the same states make the same calls. -/
theorem SendCode.calls_of_agree {c c' : SendCode} (f : SendLoop → SendTurn → List Call)
    {st : SendLoop} {ls : List SendTurn} (h : Agree c.step c'.step st ls) :
    c.calls f st ls = c'.calls f st ls := by
  induction ls generalizing st with
  | nil => rfl
  | cons i ls ih =>
    obtain ⟨hfirst, hrest⟩ := agree_cons.mp h
    rw [SendCode.calls, SendCode.calls, ← hfirst]
    cases hst : c.step st i with
    | none => rfl
    | some st' => exact congrArg _ (ih (hrest st' hst))

/-! ### Agreement -/

open JsonRPCServer HtmlServer SendCode

/-- After every part of the run both loops are in the same state, or ended by
    the same report, have sent the same bytes and made the same calls. -/
def LoopsAgree (f : Bytes) (total : Nat) (ls : List SendTurn) : Prop :=
  ∀ ls', ls' <+: ls →
    run (processRequestGETForm f total).step (processRequestGETForm f total).start ls' =
        run (sendResponseFile f total).step (sendResponseFile f total).start ls' ∧
      (processRequestGETForm f total).calls (processRequestGETCalls total)
          (processRequestGETForm f total).start ls' =
        (sendResponseFile f total).calls (sendResponseCalls total)
          (sendResponseFile f total).start ls'

/-- `POLL` neither times out nor fails, and no `sendfile` answers `EAGAIN` in
    front of the first byte. -/
def KeepsTogether : SendLoop → SendTurn → Prop
  | .looping s, i => i.poll ≠ .timeout ∧ i.poll ≠ .error ∧
      ¬ (i.poll = .ready false true ∧ i.send = .again ∧ s.sent = 0)
  | .left _ _, _ => True
  | .fault, _ => True

instance : ∀ s i, Decidable (KeepsTogether s i)
  | .looping _, _ => inferInstanceAs (Decidable (_ ∧ _ ∧ ¬ _))
  | .left _ _, _ => .isTrue trivial
  | .fault, _ => .isTrue trivial

/-- Inside the loop `sent` is between 0 and the total. -/
def InRange (total : Nat) : SendLoop → Prop
  | .looping s => 0 ≤ s.sent ∧ s.sent < total
  | .left _ _ => True
  | .fault => True

section

variable {f : Bytes} {total : Nat}

/-- From 0 on both loops test alike. -/
theorem test_eq (htotal : total < 2 ^ 64) {s : Progress} (h : 0 ≤ s.sent)
    (hle : s.sent ≤ total) :
    test (sendResponseFile f total).cond s = test (processRequestGETForm f total).cond s := by
  have hsize : toSize s.sent = s.sent.toNat := toSize_of_nonneg h (by omega)
  have hcond : (sendResponseFile f total).cond s.sent = (processRequestGETForm f total).cond s.sent := by
    show decide (toSize s.sent < total) = decide (s.sent < total)
    rw [hsize, decide_eq_decide]
    omega
  unfold test
  rw [hcond]

/-- Below 0 they do not: -1 is a large `size_t`. -/
theorem test_ne (htotal : total < 2 ^ 64) {s : Progress} (h : s.sent = -1) :
    test (sendResponseFile f total).cond s ≠ test (processRequestGETForm f total).cond s := by
  have hleft : test (sendResponseFile f total).cond s = .left none s.accepted := by
    unfold test
    rw [if_neg]
    show ¬ decide (toSize s.sent < total) = true
    rw [h, decide_eq_true_iff]
    unfold toSize
    omega
  have hloop : test (processRequestGETForm f total).cond s = .looping s := by
    unfold test
    rw [if_pos]
    show decide (s.sent < total) = true
    rw [h, decide_eq_true_iff]
    omega
  rw [hleft, hloop]
  nofun

/-- `sendfile` gives no more than what is missing. -/
theorem length_le_of_sendfile {s : Progress} (hlt : s.sent < total) {e : SendEvent} {d : Bytes}
    (hd : sendfile f s.accepted.length (toSize (total - s.sent)) e = .data d) :
    s.sent + d.length ≤ total := by
  cases e with
  | error => cases hd
  | again => cases hd
  | bytes k =>
    injection hd with hd
    have hcount : toSize (total - s.sent) ≤ (total - s.sent).toNat := by
      unfold toSize
      omega
    have hlen := congrArg List.length hd
    rw [List.length_take] at hlen
    omega

/-- Behind `sendfile` the loops go on alike, except for `EAGAIN` at 0. -/
theorem account_eq_iff (htotal : total < 2 ^ 64) {s : Progress} (h : 0 ≤ s.sent)
    (hlt : s.sent < total) (e : SendEvent) :
    account (processRequestGETForm f total).cond s
        (sendfile f s.accepted.length (toSize (total - s.sent)) e) =
      account (sendResponseFile f total).cond s
        (sendfile f s.accepted.length (toSize (total - s.sent)) e) ↔
      ¬ (e = .again ∧ s.sent = 0) := by
  cases hsent : sendfile f s.accepted.length (toSize (total - s.sent)) e with
  | fault => cases e <;> cases hsent
  | error =>
    cases e with
    | error => exact iff_of_true rfl nofun
    | again => cases hsent
    | bytes k => cases hsent
  | again =>
    cases e with
    | error => cases hsent
    | bytes k => cases hsent
    | again =>
      show test _ { s with sent := s.sent + -1 } = test _ { s with sent := s.sent + -1 } ↔ _
      by_cases hzero : s.sent = 0
      · refine iff_of_false (fun heq => ?_) fun hnot => hnot ⟨rfl, hzero⟩
        exact test_ne htotal (s := { s with sent := s.sent + -1 }) (by show s.sent + -1 = -1; omega)
          heq.symm
      · refine iff_of_true ?_ fun hboth => hzero hboth.2
        exact (test_eq htotal (s := { s with sent := s.sent + -1 })
          (by show 0 ≤ s.sent + -1; omega) (by show s.sent + -1 ≤ total; omega)).symm
  | data d =>
    have hle := length_le_of_sendfile hlt hsent
    refine iff_of_true ?_ ?_
    · cases d with
      | nil => rfl
      | cons b d =>
        exact (test_eq htotal (s := ⟨s.sent + (b :: d).length, s.accepted ++ b :: d⟩)
          (by show 0 ≤ s.sent + _; omega) hle).symm
    · intro h'
      obtain ⟨rfl, _⟩ := h'
      cases hsent

/-- The turns on which the loops agree. -/
theorem turn_eq_iff (htotal : total < 2 ^ 64) {s : Progress} (h : 0 ≤ s.sent)
    (hlt : s.sent < total) (i : SendTurn) :
    (processRequestGETForm f total).turn s i = (sendResponseFile f total).turn s i ↔
      KeepsTogether (.looping s) i := by
  have hloop : test (processRequestGETForm f total).cond s = .looping s := by
    unfold test
    exact if_pos (decide_eq_true hlt)
  have hform : (processRequestGETForm f total).turn s i = formTurn f total s i := rfl
  have hfile : (sendResponseFile f total).turn s i =
      pollTurn (sendResponseFile f total).cond
        (fun s => sendfile f s.accepted.length (toSize (total - s.sent))) s i := rfl
  rw [hform, hfile]
  obtain ⟨poll, e⟩ := i
  show _ ↔ poll ≠ .timeout ∧ poll ≠ .error ∧
    ¬ (poll = .ready false true ∧ e = .again ∧ s.sent = 0)
  unfold formTurn pollTurn
  cases poll with
  | timeout => exact iff_of_false (fun heq => by cases hloop.symm.trans heq) fun hk => hk.1 rfl
  | error => exact iff_of_false (fun heq => by cases hloop.symm.trans heq) fun hk => hk.2.1 rfl
  | ready hup writable =>
    cases hup with
    | true => exact iff_of_true rfl ⟨nofun, nofun, nofun⟩
    | false =>
      cases writable with
      | false =>
        exact iff_of_true (test_eq htotal h (Int.le_of_lt hlt)).symm ⟨nofun, nofun, nofun⟩
      | true =>
        refine (account_eq_iff (f := f) htotal h hlt e).trans ?_
        exact ⟨fun hnot => ⟨nofun, nofun, fun hk => hnot hk.2⟩, fun hk hnot => hk.2.2 ⟨rfl, hnot⟩⟩

theorem inRange_test {s : Progress} (h : 0 ≤ s.sent) :
    InRange total (test (processRequestGETForm f total).cond s) := by
  unfold test
  split
  · next hcond => exact ⟨h, of_decide_eq_true hcond⟩
  · trivial

/-- The first loop stays in its range as long as the loops agree. -/
theorem inRange_turn {s : Progress} (h : 0 ≤ s.sent) {i : SendTurn}
    (hi : KeepsTogether (.looping s) i) :
    InRange total ((processRequestGETForm f total).turn s i) := by
  obtain ⟨poll, e⟩ := i
  show InRange total (formTurn f total s ⟨poll, e⟩)
  unfold formTurn
  cases poll with
  | timeout => exact absurd rfl hi.1
  | error => exact absurd rfl hi.2.1
  | ready hup writable =>
    cases hup with
    | true => trivial
    | false =>
      cases writable with
      | false => exact inRange_test (f := f) h
      | true =>
        cases e with
        | error => trivial
        | again =>
          refine inRange_test (f := f) (s := { s with sent := s.sent + -1 }) ?_
          have hne : s.sent ≠ 0 := fun hzero => hi.2.2 ⟨rfl, rfl, hzero⟩
          show 0 ≤ s.sent + -1
          omega
        | bytes k =>
          show InRange total (account _ s (.data _))
          cases (f.drop s.accepted.length).take (min k (toSize (total - s.sent))) with
          | nil => trivial
          | cons b d =>
            refine inRange_test (f := f)
              (s := ⟨s.sent + (b :: d).length, s.accepted ++ b :: d⟩) ?_
            show 0 ≤ s.sent + _
            omega

end

/-- **Agreement**: along a run the two loops make the same calls, send the
    same bytes and end in the same step with the same report, exactly when no
    `POLL` times out or fails and no `sendfile` answers `EAGAIN` in front of
    the first byte. -/
theorem processRequestGETForm_agrees_iff (f : Bytes) (total : Nat) (htotal : total < 2 ^ 64)
    (ls : List SendTurn) :
    LoopsAgree f total ls ↔
      Guarded (processRequestGETForm f total).step KeepsTogether
        (processRequestGETForm f total).start ls := by
  have hstart : (sendResponseFile f total).start = (processRequestGETForm f total).start :=
    test_eq htotal (Int.le_refl 0) (Int.natCast_nonneg total)
  have hagree : LoopsAgree f total ls ↔
      Agree (processRequestGETForm f total).step (sendResponseFile f total).step
        (processRequestGETForm f total).start ls := by
    unfold LoopsAgree
    rw [hstart]
    refine ⟨fun h ls' hpre => (h ls' hpre).1, fun h ls' hpre => ⟨h ls' hpre, ?_⟩⟩
    exact calls_of_agree (fileCalls total) fun ls'' hpre' => h ls'' (hpre'.trans hpre)
  rw [hagree]
  have hinit : InRange total (processRequestGETForm f total).start :=
    inRange_test (f := f) (s := ⟨0, []⟩) (Int.le_refl 0)
  refine agree_iff_guarded ?_ ?_ hinit ls
  · intro st i st' hst hi hstep
    cases st with
    | looping s =>
      cases hstep
      exact inRange_turn hst.1 hi
    | left report accepted => cases hstep
    | fault => cases hstep
  · intro st i hst
    cases st with
    | looping s =>
      show some _ = some _ ↔ _
      rw [Option.some.injEq]
      exact turn_eq_iff htotal hst.1 hst.2 i
    | left report accepted => exact iff_of_true rfl trivial
    | fault => exact iff_of_true rfl trivial

/-! ### Two runs -/

/-- An `EAGAIN` behind the first byte. -/
theorem processRequestGETForm_agrees_again :
    LoopsAgree (ascii "page") 4
      [⟨.ready false true, .bytes 3⟩, ⟨.ready false true, .again⟩,
        ⟨.ready false true, .bytes 2⟩] :=
  (processRequestGETForm_agrees_iff (ascii "page") 4 (by decide) _).mpr (by decide)

/-- A timeout of `POLL`: the html server gives up, the JSON-RPC server polls
    again. -/
theorem processRequestGETForm_disagrees_timeout :
    ¬ ∀ (f : Bytes) (total : Nat), total < 2 ^ 64 → ∀ ls : List SendTurn, LoopsAgree f total ls := by
  intro hall
  have h := (hall (ascii "page") 4 (by decide) [⟨.timeout, .bytes 0⟩] _ List.prefix_rfl).1
  revert h
  decide
