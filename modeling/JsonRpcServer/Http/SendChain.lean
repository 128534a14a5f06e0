import JsonRpcServer.Http.SendLoop

/-! # Send Loops in a Row

  A response is sent by loops that stand one behind the other. Each starts
  where the one in front of it has been left by its condition; a report
  leaves all of them.

  * `Sends`: what has been sent is a beginning of the response, and without
    a report it is all of it.
-/

open Bytes

/-- The call in this turn, if there is one, does not answer `EAGAIN`. -/
def SendTurn.NoAgain (i : SendTurn) : Prop := ¬ (i.poll = .ready false true ∧ i.send = .again)

/-- Where the loops of a response are. -/
inductive SendChain where
  /-- In the loop `c`; `before` has been sent by loops before it, and `rest`
      are the ones behind it. -/
  | sending (before : Bytes) (c : SendCode) (s : Progress) (rest : List SendCode)
  /-- The loops have been left; `sent` is all they have sent. -/
  | left (report : Option Report) (sent : Bytes)
  | fault

namespace SendChain

/-! ### Model -/

/-- Behind a turn of the loop `c`. A loop that is left with a report is the
    last one; `next` stands for the code behind the loop. -/
def behind (before : Bytes) (c : SendCode) (rest : List SendCode) (next : Bytes → SendChain) :
    SendLoop → SendChain
  | .looping s => .sending before c s rest
  | .left none accepted => next (before ++ accepted)
  | .left (some report) accepted => .left (some report) (before ++ accepted)
  | .fault => .fault

/-- In front of the first turn; `before` has been sent. -/
def sendLoops : List SendCode → Bytes → SendChain
  | [] => .left none
  | c :: rest => fun before => behind before c rest (sendLoops rest) c.start

/-- What the peer has been sent. -/
def sent : SendChain → Bytes
  | .sending before _ s _ => before ++ s.accepted
  | .left _ sent => sent
  | .fault => []

def step : SendChain → SendTurn → Option SendChain
  | .sending before c s rest, i => some (behind before c rest (sendLoops rest) (c.turn s i))
  | .left _ _, _ => none
  | .fault, _ => none

/-! ### What the loops send -/

/-- The loops send `all`, of which `before` has been sent. -/
inductive Carries (all : Bytes) : Bytes → List SendCode → Prop
  | nil : Carries all all []
  | cons {before part : Bytes} {c : SendCode} {call : Progress → SendEvent → Sent} {total : Nat}
      {rest : List SendCode} (hc : c.Sends call part total)
      (hrest : Carries all (before ++ part) rest) : Carries all before (c :: rest)

/-- The peer is being sent `all`. Without a report it has been sent all of
    it. -/
inductive Sends (all : Bytes) : SendChain → Prop
  | sending {before part : Bytes} {c : SendCode} {call : Progress → SendEvent → Sent} {total : Nat}
      {s : Progress} {rest : List SendCode} (hc : c.Sends call part total)
      (hrest : Carries all (before ++ part) rest) (hinv : c.Inv part total (.looping s)) :
      Sends all (.sending before c s rest)
  | left {report : Option Report} {sent : Bytes} (hpre : sent <+: all)
      (hall : report = none → sent = all) : Sends all (.left report sent)

section chain

variable {all before part : Bytes} {c : SendCode} {call : Progress → SendEvent → Sent} {total : Nat}
  {rest : List SendCode}

theorem Carries.isPrefix (h : Carries all before rest) : before <+: all := by
  induction h with
  | nil => exact List.prefix_rfl
  | cons hc hrest ih => exact (List.prefix_append _ _).trans ih

/-- Nothing is left to be sent. -/
theorem sends_left : Sends all (.left none all) := .left List.prefix_rfl fun _ => rfl

theorem sends_behind (hc : c.Sends call part total) (hrest : Carries all (before ++ part) rest)
    {next : Bytes → SendChain} (hnext : Sends all (next (before ++ part))) {st : SendLoop}
    (hst : c.Inv part total st) : Sends all (behind before c rest next st) := by
  cases st with
  | looping s => exact .sending hc hrest hst
  | left report accepted =>
    obtain ⟨hpart, hall⟩ := hst
    cases report with
    | none =>
      rw [behind, (hall rfl).1]
      exact hnext
    | some report =>
      have hpre := (List.prefix_append_right_inj before).mpr hpart
      exact .left (hpre.trans hrest.isPrefix) (by simp)
  | fault => exact hst.elim

/-- Nothing has been sent in front of the first turn. -/
theorem inv_start (hc : c.Sends call part total) : c.Inv part total c.start :=
  SendCode.inv_test hc ⟨Int.le_refl 0, Int.natCast_nonneg total, rfl, rfl⟩

theorem sends_sendLoops (h : Carries all before rest) : Sends all (sendLoops rest before) := by
  induction h with
  | nil => exact sends_left
  | cons hc hrest ih => exact sends_behind hc hrest ih (inv_start hc)

/-- A turn of a loop. -/
theorem Sends.turn {x x' : SendChain} (h : Sends all x) {i : SendTurn} (hi : i.NoAgain)
    (hstep : step x i = some x') : Sends all x' := by
  cases h with
  | sending hc hrest hinv =>
    cases hstep
    exact sends_behind hc hrest (sends_sendLoops hrest) (SendCode.inv_turn hc hinv.1 hi)
  | left hpre hall => cases hstep

/-- What has been sent is a beginning. -/
theorem Sends.isPrefix {x : SendChain} (h : Sends all x) : x.sent <+: all := by
  cases h with
  | sending hc hrest hinv =>
    exact ((List.prefix_append_right_inj _).mpr hinv.1.isPrefix).trans hrest.isPrefix
  | left hpre hall => exact hpre

theorem Sends.whole {sent : Bytes} (h : Sends all (.left none sent)) : sent = all := by
  cases h with
  | left hpre hall => exact hall rfl

end chain

end SendChain
