import JsonRpcServer.Program.Consistency
import JsonRpcServer.Rpc.Connection

/-! # The Program on its Sockets

  In the model of the program a request has been received and a response is
  handed over whole. Here both go through a connection: the request arrives
  in pieces, its thread waits for the main thread, and the response leaves
  in pieces.

  ## Parties

  1. **Connections** of the JSON-RPC server, each with the thread that works
     on it.
  2. **The program**: the event queue, the main thread, the refresh thread
     and the html clients. A thread is one of its request threads from the
     moment in which its request is complete.

  A client sees a reply when its connection is closed behind it.

  * `replies_linearizable`: what the clients read on their sockets are the
    replies of one sequential object.
-/

namespace Wire

open Bytes System Linearizability HttpMessage HttpFraming SendChain
open DatabaseObj.PingPong (Page)
open JsonRPCServer (Conn Result connTurn start processRequest Sending)
open Program (Qt Request Contents serve contents Serves)
open RpcConnection (Services messageBytes due)

variable {n : Nat}

/-! ### Model -/

/-- Where the thread of a connection stands. -/
inductive Stage (n : Nat) where
  /-- In a loop of `processRequest`. -/
  | receiving (c : Conn Unit n)
  /-- In `processRequestPOST`, as this thread of the program. -/
  | calling (i : Nat)
  /-- In the loops of a response. -/
  | responding (caller : Option Nat) (chain : SendChain)

/-- The thread of the program. -/
def Stage.caller : Stage n → Option Nat
  | .receiving _ => none
  | .calling i => some i
  | .responding caller _ => caller

/-- What the client has been sent. -/
def Stage.sent : Stage n → Bytes
  | .receiving _ => []
  | .calling _ => []
  | .responding _ chain => chain.sent

structure Connection (n : Nat) where
  /-- All that the client sends. -/
  stream : Bytes
  /-- The turns of the receive loops. -/
  turns : List Turn
  /-- What opening `jsonrpc.html` gives in the last one. -/
  form : Option Bytes
  stage : Stage n

structure State (n : Nat) where
  connections : List (Connection n)
  program : Program.State
  /-- A connection has left its buffer. -/
  ended : Bool

inductive Label where
  /-- A client that sends these bytes has been accepted. -/
  | accept (stream : Bytes)
  /-- A turn of the receive loops of a connection. If the request is complete,
      its `Header` would be built in this memory, and this is what opening
      `jsonrpc.html` gives. -/
  | receive (k : Nat) (i : Turn) (junk : Int) (form : Option Bytes)
  /-- The thread of a connection has its response. -/
  | respond (k : Nat)
  /-- A turn of the send loops of a connection. -/
  | send (k : Nat) (i : SendTurn)
  /-- A step of the program between these. -/
  | program (l : Program.Label)

namespace State

def setConnection (s : State n) (k : Nat) (c : Connection n) : State n :=
  { s with connections := s.connections.set k c }

end State

/-- The servers listen; page files that exist keep their content. -/
def init (n : Nat) (files : Page → Bytes) : State n := ⟨[], Program.init files, false⟩

/-- The program has left the buffer of a response. -/
def isFault : SendChain → Bool
  | .fault => true
  | .sending _ _ _ _ | .left _ _ => false

/-- The steps of the program that are not those of a connection. -/
def isInner : Program.Label → Bool
  | .receive _ | .send _ => false
  | .process _ | .exec | .refresh | .getHTMLFile | .client _ _ => true

/-- The client of this thread has its reply. -/
def delivered : Option Nat → SendChain → List (Event Request Bytes)
  | some i, .left none sent => [.ret i sent]
  | some _, _ => []
  | none, _ => []

/-- What a state comes to, and what clients see of it. -/
abbrev Outcome (n : Nat) := State n × List (Event Request Bytes)

/-- The thread of a connection is in these loops. -/
def responding (s : State n) (k : Nat) (c : Connection n) (caller : Option Nat)
    (chain : SendChain) : Outcome n :=
  ({ s.setConnection k { c with stage := .responding caller chain } with ended := isFault chain },
    delivered caller chain)

section step

variable (qt : Qt) (JSON_HTML_SIZE : Nat)

/-- What a thread uses that does not call a method. -/
def services (form : Option Bytes) : Services Unit :=
  ⟨qt.fromJson, fun _ _ _ => none, form, JSON_HTML_SIZE⟩

/-- A turn of the receive loops. A program without children has one object:
    a request that has come through the walk is for the root. -/
def receiveStep (s : State n) (k : Nat) (c : Connection n) (x : Conn Unit n) (i : Turn)
    (junk : Int) (form : Option Bytes) : Option (Outcome n) :=
  let c' := { c with turns := c.turns ++ [i], form := form }
  match connTurn soloRoot x i with
  | .next x' => some (s.setConnection k { c' with stage := .receiving x' }, [])
  | .exit (.post _ req_body) =>
      let req : Request := ⟨ascii "/", req_body, junk⟩
      let i := s.program.threads.length
      (Program.step qt s.program (.receive req)).map fun program =>
        ({ s.setConnection k { c' with stage := .calling i } with program := program },
          [.call i req])
  | .exit r => some (responding s k c' none
      (RpcConnection.response (services qt JSON_HTML_SIZE form) r))

/-- The main thread has released the thread of a connection. -/
def respondStep (s : State n) (k : Nat) (c : Connection n) (i : Nat) : Option (Outcome n) :=
  match s.program.threads[i]? with
  | some (.sending response) =>
      (Program.step qt s.program (.send i)).map fun program =>
        responding { s with program := program } k c (some i) (RpcConnection.sendResponse response)
  | _ => none

/-- A step, with what clients see of it. -/
def act (s : State n) : Label → Option (Outcome n)
  | .accept stream =>
      some ({ s with
        connections := s.connections ++ [⟨stream, [], none, .receiving (start n stream)⟩] }, [])
  | .receive k i junk form =>
      s.connections[k]?.bind fun c =>
        match c.stage with
        | .receiving x => receiveStep qt JSON_HTML_SIZE s k c x i junk form
        | _ => none
  | .respond k =>
      s.connections[k]?.bind fun c =>
        match c.stage with
        | .calling i => respondStep qt s k c i
        | _ => none
  | .send k i =>
      s.connections[k]?.bind fun c =>
        match c.stage with
        | .responding caller chain => (chain.step i).map (responding s k c caller)
        | _ => none
  | .program l =>
      if isInner l then
        (Program.step qt s.program l).map fun program => ({ s with program := program }, [])
      else none

def step (s : State n) (l : Label) : Option (State n) :=
  if s.ended || s.program.ended then none else (act qt JSON_HTML_SIZE s l).map Prod.fst

/-- What clients see of a step. -/
def observed (s : State n) (l : Label) : List (Event Request Bytes) :=
  ((act qt JSON_HTML_SIZE s l).map Prod.snd).getD []

/-- What clients see of a run. -/
def history (n : Nat) (files : Page → Bytes) (ls : List Label) : List (Event Request Bytes) :=
  trace (step qt JSON_HTML_SIZE) (observed qt JSON_HTML_SIZE) (init n files) ls

end step

/-- No call of a send loop answers `EAGAIN`. -/
def NoSendAgain : Label → Prop
  | .send _ i => i.NoAgain
  | .accept _ | .receive _ _ _ _ | .respond _ | .program _ => True

/-! ### The invariant -/

section invariant

variable (qt : Qt) (JSON_HTML_SIZE : Nat)

/-- The program has left a buffer, or a part of these bytes has been sent. -/
def Delivers (all : Bytes) (chain : SendChain) : Prop := chain = .fault ∨ Sends all chain

/-- How a connection and its thread are related to what the program has been
    asked and has answered, and to what its client has seen. -/
inductive Stands (hist : List (Event Request Sending)) (seen : List (Event Request Bytes))
    (c : Connection n) : Prop
  | receiving {x : Conn Unit n} (hstage : c.stage = .receiving x)
      (hrequest : processRequest n soloRoot c.stream c.turns = .running x)
  | calling {i : Nat} {req : Request} (hstage : c.stage = .calling i)
      (hrequest : processRequest n soloRoot c.stream c.turns = .exited (.post () req.req_body) [])
      (hcall : .call i req ∈ hist) (hret : ∀ r, .ret i r ∉ hist)
  | answered {i : Nat} {req : Request} {response : Sending} {chain : SendChain}
      (hstage : c.stage = .responding (some i) chain)
      (hrequest : processRequest n soloRoot c.stream c.turns = .exited (.post () req.req_body) [])
      (hcall : .call i req ∈ hist) (hret : .ret i response ∈ hist)
      (hchain : Delivers (messageBytes response) chain)
      (hseen : ∀ b, .ret i b ∈ seen → chain = .left none b)
  /-- The request has not come to a method. -/
  | other {r : Result Unit} {chain : SendChain} (hstage : c.stage = .responding none chain)
      (hrequest : processRequest n soloRoot c.stream c.turns = .exited r [])
      (hr : ∀ body, r ≠ .post () body)
      (hchain : Delivers (due (services qt JSON_HTML_SIZE c.form) r) chain)

structure Inv (hist : List (Event Request Sending)) (seen : List (Event Request Bytes))
    (order : List (Entry Request Sending)) (a : Contents) (s : State n) : Prop where
  serves : Serves qt hist order a s.program
  delayed : Delayed messageBytes hist seen
  wellFormed : WellFormed seen
  stands : ∀ (k : Nat) (c : Connection n), s.connections[k]? = some c →
    Stands qt JSON_HTML_SIZE hist seen c
  /-- A thread of the program works on one connection. -/
  apart : ∀ (k k' : Nat) (c c' : Connection n) (i : Nat), s.connections[k]? = some c →
    s.connections[k']? = some c' → c.stage.caller = some i → c'.stage.caller = some i → k = k'

end invariant

section preservation

variable {qt : Qt} {JSON_HTML_SIZE : Nat} {hist hist' : List (Event Request Sending)}
  {seen seen' : List (Event Request Bytes)} {order order' : List (Entry Request Sending)}
  {a a' : Contents} {s s' : State n} {c c' : Connection n} {k : Nat}

/-- What has been asked has been asked by a thread. -/
theorem Stands.called (h : Stands qt JSON_HTML_SIZE hist seen c) {i : Nat}
    (hi : c.stage.caller = some i) : ∃ req, .call i req ∈ hist := by
  cases h with
  | receiving hstage hrequest =>
    rw [hstage] at hi
    simp [Stage.caller] at hi
  | @calling _ req hstage hrequest hcall hret =>
    rw [hstage] at hi
    simp only [Stage.caller, Option.some.injEq] at hi
    exact ⟨req, hi ▸ hcall⟩
  | @answered _ req _ _ hstage hrequest hcall hret hchain hseen =>
    rw [hstage] at hi
    simp only [Stage.caller, Option.some.injEq] at hi
    exact ⟨req, hi ▸ hcall⟩
  | other hstage hrequest hr hchain =>
    rw [hstage] at hi
    simp [Stage.caller] at hi

theorem Stands.running (h : Stands qt JSON_HTML_SIZE hist seen c) {x : Conn Unit n}
    (hstage : c.stage = .receiving x) :
    processRequest n soloRoot c.stream c.turns = .running x := by
  cases h with
  | receiving hstage' hrequest =>
    rw [hstage] at hstage'
    cases hstage'
    exact hrequest
  | calling hstage' => simp [hstage] at hstage'
  | answered hstage' => simp [hstage] at hstage'
  | other hstage' => simp [hstage] at hstage'

theorem Stands.asked (h : Stands qt JSON_HTML_SIZE hist seen c) {i : Nat}
    (hstage : c.stage = .calling i) : ∃ req : Request,
      processRequest n soloRoot c.stream c.turns = .exited (.post () req.req_body) [] ∧
        .call i req ∈ hist ∧ ∀ r, .ret i r ∉ hist := by
  cases h with
  | receiving hstage' => simp [hstage] at hstage'
  | @calling _ req hstage' hrequest hcall hnot =>
    rw [hstage] at hstage'
    cases hstage'
    exact ⟨req, hrequest, hcall, hnot⟩
  | answered hstage' => simp [hstage] at hstage'
  | other hstage' => simp [hstage] at hstage'

/-- What concerns other threads changes nothing. -/
theorem Stands.frame (h : Stands qt JSON_HTML_SIZE hist seen c) (hsub : hist ⊆ hist')
    (hret : ∀ i r, c.stage.caller = some i → .ret i r ∈ hist' → .ret i r ∈ hist)
    (hseen : ∀ i b, c.stage.caller = some i → .ret i b ∈ seen' → .ret i b ∈ seen) :
    Stands qt JSON_HTML_SIZE hist' seen' c := by
  cases h with
  | receiving hstage hrequest => exact .receiving hstage hrequest
  | @calling i _ hstage hrequest hcall hnot =>
    have hcaller : c.stage.caller = some i := by rw [hstage]; rfl
    exact .calling hstage hrequest (hsub hcall) fun r hr => hnot r (hret i r hcaller hr)
  | @answered i _ _ _ hstage hrequest hcall hreturned hchain hold =>
    have hcaller : c.stage.caller = some i := by rw [hstage]; rfl
    exact .answered hstage hrequest (hsub hcall) (hsub hreturned) hchain
      fun b hb => hold b (hseen i b hcaller hb)
  | other hstage hrequest hr hchain => exact .other hstage hrequest hr hchain

/-- A connection moves. -/
theorem Inv.move (h : Inv qt JSON_HTML_SIZE hist seen order a s)
    (hc : s.connections[k]? = some c) {program : Program.State} {ended : Bool}
    (hserves : Serves qt hist' order' a' program) (hdelayed : Delayed messageBytes hist' seen')
    (hwellFormed : WellFormed seen') (hstands : Stands qt JSON_HTML_SIZE hist' seen' c')
    (hothers : ∀ j d, j ≠ k → s.connections[j]? = some d → Stands qt JSON_HTML_SIZE hist' seen' d)
    (hcaller : ∀ i, c'.stage.caller = some i → ∀ j d, j ≠ k → s.connections[j]? = some d →
      d.stage.caller ≠ some i) :
    Inv qt JSON_HTML_SIZE hist' seen' order' a' ⟨s.connections.set k c', program, ended⟩ := by
  have hcases : ∀ {j d}, (s.connections.set k c')[j]? = some d →
      (j = k ∧ d = c') ∨ (j ≠ k ∧ s.connections[j]? = some d) := by
    intro j d hd
    by_cases hj : j = k
    · left
      obtain ⟨hlt, _⟩ := List.getElem?_eq_some_iff.mp hc
      rw [hj, List.getElem?_set_self hlt, Option.some.injEq] at hd
      exact ⟨hj, hd.symm⟩
    · right
      rw [List.getElem?_set_ne (Ne.symm hj)] at hd
      exact ⟨hj, hd⟩
  refine ⟨hserves, hdelayed, hwellFormed, ?_, ?_⟩
  · intro j d hd
    rcases hcases hd with ⟨_, rfl⟩ | ⟨hj, hd⟩
    · exact hstands
    · exact hothers j d hj hd
  · intro j j' d d' i hd hd' hi hi'
    rcases hcases hd with ⟨hj, heq⟩ | ⟨hj, hold⟩
    · rcases hcases hd' with ⟨hj', _⟩ | ⟨hj', hold'⟩
      · rw [hj, hj']
      · exact absurd hi' (hcaller i (heq ▸ hi) j' d' hj' hold')
    · rcases hcases hd' with ⟨hj', heq'⟩ | ⟨hj', hold'⟩
      · exact absurd hi (hcaller i (heq' ▸ hi') j d hj hold)
      · exact h.apart j j' d d' i hold hold' hi hi'

/-- The thread of a connection is in the loops of its response, and its
    client sees the reply when they have been left. -/
theorem Inv.enters (h : Inv qt JSON_HTML_SIZE hist seen order a s)
    (hc : s.connections[k]? = some c) {i : Nat} {req : Request} {response : Sending}
    {chain : SendChain} (hi : c.stage.caller = some i)
    (hrequest : processRequest n soloRoot c.stream c.turns = .exited (.post () req.req_body) [])
    (hcall : .call i req ∈ hist') (hret : .ret i response ∈ hist')
    (hchain : Delivers (messageBytes response) chain) (hseen : ∀ b, .ret i b ∉ seen)
    {program : Program.State} (hserves : Serves qt hist' order' a' program)
    (hdelayed : Delayed messageBytes hist' seen)
    (hothers : ∀ j d, j ≠ k → s.connections[j]? = some d → Stands qt JSON_HTML_SIZE hist' seen d) :
    Inv qt JSON_HTML_SIZE hist' (seen ++ delivered (some i) chain) order' a'
      (responding { s with program := program } k c (some i) chain).1 := by
  have hcaller : ∀ i', some i = some i' → ∀ j d, j ≠ k → s.connections[j]? = some d →
      d.stage.caller ≠ some i' := by
    intro i' hi' j d hj hd hcaller
    exact hj (h.apart j k d c i' hd hc hcaller (hi.trans hi'))
  have hleft : (∃ b, chain = .left none b) ∨ delivered (some i) chain = [] := by
    cases chain with
    | sending before code progress rest => exact Or.inr rfl
    | left report sent =>
      cases report with
      | none => exact Or.inl ⟨sent, rfl⟩
      | some report => exact Or.inr rfl
    | fault => exact Or.inr rfl
  rcases hleft with ⟨b, rfl⟩ | hdelivered
  · -- the client has all of it, so the reply happens now
    have hb : b = messageBytes response := by
      rcases hchain with hfault | hsends
      · cases hfault
      · exact hsends.whole
    have hevents : delivered (some i) (.left none b) =
        [(.ret i (messageBytes response) : Event Request Bytes)] := by
      rw [delivered, hb]
    rw [hevents]
    refine h.move hc hserves (hdelayed.late hret) ?_ ?_ ?_ hcaller
    · exact h.wellFormed.ret ((hdelayed.called i req).mpr hcall) hseen _
    · refine .answered rfl hrequest hcall hret hchain ?_
      intro b' hb'
      rcases List.mem_append.mp hb' with hb' | hb'
      · exact absurd hb' (hseen b')
      · rw [List.mem_singleton] at hb'
        injection hb' with _ hb'
        rw [hb', hb]
    · -- a reply of the thread `i` is no other client's
      intro j d hj hd
      refine (hothers j d hj hd).frame (fun _ he => he) (fun _ _ _ he => he) ?_
      intro i' b' hi' hb'
      rcases List.mem_append.mp hb' with hb' | hb'
      · exact hb'
      · rw [List.mem_singleton] at hb'
        injection hb' with hii
        exact absurd hi' (hcaller i' (congrArg some hii.symm) j d hj hd)
  · rw [hdelivered, List.append_nil]
    refine h.move hc hserves hdelayed h.wellFormed ?_ hothers hcaller
    exact .answered rfl hrequest hcall hret hchain fun b hb => absurd hb (hseen b)

/-- A client is accepted. -/
theorem Inv.accept (h : Inv qt JSON_HTML_SIZE hist seen order a s) (stream : Bytes) :
    Inv qt JSON_HTML_SIZE hist seen order a { s with
      connections := s.connections ++ [⟨stream, [], none, .receiving (start n stream)⟩] } := by
  have hcases : ∀ (j : Nat) (d : Connection n),
      (s.connections ++ [(⟨stream, [], none, .receiving (start n stream)⟩ : Connection n)])[j]? =
          some d →
        s.connections[j]? = some d ∨ d = ⟨stream, [], none, .receiving (start n stream)⟩ := by
    intro j d hd
    by_cases hj : j < s.connections.length
    · rw [List.getElem?_append_left hj] at hd
      exact Or.inl hd
    · rw [List.getElem?_append_right (by omega)] at hd
      exact Or.inr (List.mem_singleton.mp (List.mem_of_getElem? hd))
  -- no thread of the program works for the new client
  have hnone : ∀ {d : Connection n} {i : Nat},
      d = ⟨stream, [], none, .receiving (start n stream)⟩ → d.stage.caller ≠ some i := by
    intro d i hd
    rw [hd]
    simp [Stage.caller]
  refine ⟨h.serves, h.delayed, h.wellFormed, ?_, ?_⟩
  · intro j d hd
    rcases hcases j d hd with hd | rfl
    · exact h.stands j d hd
    · exact .receiving rfl rfl
  · intro j j' d d' i hd hd' hi hi'
    rcases hcases j d hd with hd | hd
    · rcases hcases j' d' hd' with hd' | hd'
      · exact h.apart j j' d d' i hd hd' hi hi'
      · exact absurd hi' (hnone hd')
    · exact absurd hi (hnone hd)

/-- A turn of the receive loops. -/
theorem Inv.receive (h : Inv qt JSON_HTML_SIZE hist seen order a s)
    (hsize : JSON_HTML_SIZE < 2 ^ 64) (hc : s.connections[k]? = some c) {x : Conn Unit n}
    (hstage : c.stage = .receiving x) {i : Turn} {junk : Int} {form : Option Bytes}
    {o : Outcome n} (hact : receiveStep qt JSON_HTML_SIZE s k c x i junk form = some o) :
    ∃ hist' order' a', Inv qt JSON_HTML_SIZE hist' (seen ++ o.2) order' a' o.1 := by
  have hnext : processRequest n soloRoot c.stream (c.turns ++ [i]) =
      Loop.enter (connTurn soloRoot) (connTurn soloRoot x i) [] :=
    Loop.run_snoc i ((h.stands k c hc).running hstage)
  -- a request without a call goes on to the loops of its response
  have hother : ∀ r, (∀ body, r ≠ .post () body) → connTurn soloRoot x i = .exit r →
      ∃ hist' order' a', Inv qt JSON_HTML_SIZE hist' (seen ++ []) order' a'
        (responding s k { c with turns := c.turns ++ [i], form := form } none
          (RpcConnection.response (services qt JSON_HTML_SIZE form) r)).1 := by
    intro r hr hturn
    rw [hturn] at hnext
    have hchain : Delivers (due (services qt JSON_HTML_SIZE form) r)
        (RpcConnection.response (services qt JSON_HTML_SIZE form) r) := by
      by_cases hfault : RpcConnection.Faults (services qt JSON_HTML_SIZE form) r
      · exact Or.inl (RpcConnection.response_fault hfault)
      · exact Or.inr (RpcConnection.sends_response hsize hfault)
    rw [List.append_nil]
    exact ⟨hist, order, a, h.move hc h.serves h.delayed h.wellFormed
      (.other rfl hnext hr hchain) (fun j d _ hd => h.stands j d hd) (by simp [Stage.caller])⟩
  unfold receiveStep at hact
  dsimp only at hact
  cases hturn : connTurn soloRoot x i with
  | next x' =>
    rw [hturn] at hact hnext
    cases hact
    rw [List.append_nil]
    exact ⟨hist, order, a, h.move hc h.serves h.delayed h.wellFormed (.receiving rfl hnext)
      (fun j d _ hd => h.stands j d hd) (by simp [Stage.caller])⟩
  | exit r =>
    rw [hturn] at hact
    cases r with
    | post target req_body =>
      rw [hturn] at hnext
      have hrequest : processRequest n soloRoot c.stream (c.turns ++ [i]) =
          .exited (.post () (⟨ascii "/", req_body, junk⟩ : Request).req_body) [] := hnext
      obtain ⟨program, hprogram, rfl⟩ := Option.map_eq_some_iff.mp hact
      obtain ⟨order', a', hserves⟩ := Program.serves_step h.serves hprogram
      -- the thread is new
      have hfresh : ∀ i' req, .call i' req ∈ hist → i' ≠ s.program.threads.length := by
        intro i' req hmem heq
        have hlt := h.serves.numbered i' (List.mem_filterMap.mpr ⟨_, hmem, rfl⟩)
        omega
      have hnew : s.program.threads.length ∉ seen.filterMap Event.called := by
        intro hmem
        obtain ⟨e, he, hcalled⟩ := List.mem_filterMap.mp hmem
        cases e with
        | call i' req =>
          exact hfresh i' req ((h.delayed.called _ _).mp he) (Option.some.inj hcalled)
        | ret i' b => cases hcalled
      have hret : ∀ r, .ret s.program.threads.length r ∉ hist := by
        intro r hmem
        obtain ⟨req, hprec⟩ := h.serves.wellFormed.behind _ r hmem
        exact hfresh _ req hprec.mem rfl
      refine ⟨_, order', a', h.move hc hserves (h.delayed.call _ _) (h.wellFormed.call hnew _)
        (.calling rfl hrequest (List.mem_append_right _ List.mem_cons_self) ?_) ?_ ?_⟩
      · intro r hmem
        rcases List.mem_append.mp hmem with hmem | hmem
        · exact hret r hmem
        · simp [Program.observed] at hmem
      · intro j d _ hd
        refine (h.stands j d hd).frame (List.subset_append_left _ _) ?_ ?_
        · intro i' r _ hmem
          rcases List.mem_append.mp hmem with hmem | hmem
          · exact hmem
          · simp [Program.observed] at hmem
        · intro i' b _ hmem
          rcases List.mem_append.mp hmem with hmem | hmem
          · exact hmem
          · simp at hmem
      · intro i' hi' j d _ hd hcaller
        obtain ⟨req, hcall⟩ := (h.stands j d hd).called hcaller
        exact hfresh i' req hcall (Option.some.inj hi').symm
    | fault f =>
      cases hact
      exact hother _ (by simp) hturn
    | recvFailed =>
      cases hact
      exact hother _ (by simp) hturn
    | closed =>
      cases hact
      exact hother _ (by simp) hturn
    | timeout =>
      cases hact
      exact hother _ (by simp) hturn
    | pollError =>
      cases hact
      exact hother _ (by simp) hturn
    | noMethod =>
      cases hact
      exact hother _ (by simp) hturn
    | noBodyLength =>
      cases hact
      exact hother _ (by simp) hturn
    | objectNotFound =>
      cases hact
      exact hother _ (by simp) hturn
    | get =>
      cases hact
      exact hother _ (by simp) hturn

/-- The main thread has released the thread of a connection. -/
theorem Inv.respond (h : Inv qt JSON_HTML_SIZE hist seen order a s)
    (hc : s.connections[k]? = some c) {i : Nat} (hstage : c.stage = .calling i) {o : Outcome n}
    (hact : respondStep qt s k c i = some o) :
    ∃ hist' order' a', Inv qt JSON_HTML_SIZE hist' (seen ++ o.2) order' a' o.1 := by
  have hcaller : c.stage.caller = some i := by
    rw [hstage]
    rfl
  obtain ⟨req, hrequest, hcall, hnot⟩ := (h.stands k c hc).asked hstage
  unfold respondStep at hact
  split at hact
  · next response hpc =>
    obtain ⟨program, hprogram, rfl⟩ := Option.map_eq_some_iff.mp hact
    obtain ⟨order', a', hserves⟩ := Program.serves_step h.serves hprogram
    have hobserved : Program.observed s.program (.send i) = [.ret i response] := by
      rw [Program.observed, hpc]
    rw [hobserved] at hserves
    have hchain : Delivers (messageBytes response) (RpcConnection.sendResponse response) := by
      by_cases hfault : response = .fault
      · left
        rw [hfault]
        rfl
      · exact Or.inr (RpcConnection.sends_sendResponse hfault)
    have hseen : ∀ b, .ret i b ∉ seen := by
      intro b hb
      obtain ⟨r, hr, _⟩ := h.delayed.returned i b hb
      exact hnot r hr
    refine ⟨_, order', a', h.enters hc hcaller hrequest (List.mem_append_left _ hcall)
      (List.mem_append_right _ List.mem_cons_self) hchain hseen hserves
      (h.delayed.early i response) ?_⟩
    intro j d hj hd
    refine (h.stands j d hd).frame (List.subset_append_left _ _) ?_ (fun _ _ _ he => he)
    intro i' r hi' hmem
    rcases List.mem_append.mp hmem with hmem | hmem
    · exact hmem
    · rw [List.mem_singleton] at hmem
      injection hmem with hii
      -- the other connection has another thread
      rw [hii] at hi'
      exact absurd (h.apart j k d c i hd hc hi' hcaller) hj
  · cases hact

/-- A turn of the send loops. -/
theorem Inv.send (h : Inv qt JSON_HTML_SIZE hist seen order a s)
    (hc : s.connections[k]? = some c) {caller : Option Nat} {chain chain' : SendChain}
    (hstage : c.stage = .responding caller chain) {i : SendTurn} (hi : i.NoAgain)
    (hchain : chain.step i = some chain') :
    Inv qt JSON_HTML_SIZE hist (seen ++ (responding s k c caller chain').2) order a
      (responding s k c caller chain').1 := by
  have hturn : ∀ {all}, Delivers all chain → Delivers all chain' := by
    intro all hall
    rcases hall with rfl | hsends
    · cases hchain
    · exact Or.inr (hsends.turn hi hchain)
  cases h.stands k c hc with
  | receiving hstage' => simp [hstage] at hstage'
  | calling hstage' => simp [hstage] at hstage'
  | @answered j _ _ _ hstage' hrequest hcall hret hold hseen =>
    have hcaller : c.stage.caller = some j := by
      rw [hstage']
      rfl
    rw [hstage] at hstage'
    cases hstage'
    refine h.enters hc hcaller hrequest hcall hret (hturn hold) ?_ h.serves h.delayed
      fun j d _ hd => h.stands j d hd
    intro b hb
    -- loops that have been left take no turn
    rw [hseen b hb] at hchain
    cases hchain
  | other hstage' hrequest hr hold =>
    rw [hstage] at hstage'
    cases hstage'
    have hevents : (responding s k c none chain').2 = [] := rfl
    rw [hevents, List.append_nil]
    exact h.move hc h.serves h.delayed h.wellFormed (.other rfl hrequest hr (hturn hold))
      (fun j d _ hd => h.stands j d hd) (by simp [Stage.caller])

/-- A step of the program between those of connections. -/
theorem Inv.program (h : Inv qt JSON_HTML_SIZE hist seen order a s) {l : Program.Label}
    (hl : isInner l = true) {program : Program.State}
    (hprogram : Program.step qt s.program l = some program) :
    ∃ order' a', Inv qt JSON_HTML_SIZE hist seen order' a' { s with program := program } := by
  obtain ⟨order', a', hserves⟩ := Program.serves_step h.serves hprogram
  have hobserved : Program.observed s.program l = [] := by
    cases l with
    | receive req => cases hl
    | send i => cases hl
    | process i => rfl
    | exec => rfl
    | refresh => rfl
    | getHTMLFile => rfl
    | client i e => rfl
  rw [hobserved, List.append_nil] at hserves
  exact ⟨order', a', hserves, h.delayed, h.wellFormed, h.stands, h.apart⟩

theorem inv_act (h : Inv qt JSON_HTML_SIZE hist seen order a s) (hsize : JSON_HTML_SIZE < 2 ^ 64)
    {l : Label} (hl : NoSendAgain l) {o : Outcome n}
    (hact : act qt JSON_HTML_SIZE s l = some o) :
    ∃ hist' order' a', Inv qt JSON_HTML_SIZE hist' (seen ++ o.2) order' a' o.1 := by
  cases l with
  | accept stream =>
    cases hact
    rw [List.append_nil]
    exact ⟨hist, order, a, h.accept stream⟩
  | receive k i junk form =>
    obtain ⟨c, hc, hact⟩ := Option.bind_eq_some_iff.mp hact
    split at hact
    · next x hstage => exact h.receive hsize hc hstage hact
    · cases hact
  | respond k =>
    obtain ⟨c, hc, hact⟩ := Option.bind_eq_some_iff.mp hact
    split at hact
    · next i hstage => exact h.respond hc hstage hact
    · cases hact
  | send k i =>
    obtain ⟨c, hc, hact⟩ := Option.bind_eq_some_iff.mp hact
    split at hact
    · next caller chain hstage =>
      obtain ⟨chain', hchain, rfl⟩ := Option.map_eq_some_iff.mp hact
      exact ⟨hist, order, a, h.send hc hstage hl hchain⟩
    · cases hact
  | program l =>
    rw [act] at hact
    split at hact
    · next hinner =>
      obtain ⟨program, hprogram, rfl⟩ := Option.map_eq_some_iff.mp hact
      obtain ⟨order', a', h'⟩ := h.program hinner hprogram
      rw [List.append_nil]
      exact ⟨hist, order', a', h'⟩
    · cases hact

theorem inv_step (h : ∃ hist order a, Inv qt JSON_HTML_SIZE hist seen order a s)
    (hsize : JSON_HTML_SIZE < 2 ^ 64) {l : Label} (hl : NoSendAgain l)
    (hstep : step qt JSON_HTML_SIZE s l = some s') :
    ∃ hist order a,
      Inv qt JSON_HTML_SIZE hist (seen ++ observed qt JSON_HTML_SIZE s l) order a s' := by
  obtain ⟨hist, order, a, h⟩ := h
  unfold step at hstep
  split at hstep
  · cases hstep
  · obtain ⟨o, hact, rfl⟩ := Option.map_eq_some_iff.mp hstep
    have hevents : observed qt JSON_HTML_SIZE s l = o.2 := by
      rw [observed, hact]
      rfl
    rw [hevents]
    exact inv_act h hsize hl hact

end preservation

/-! ### What clients read -/

/-- What the client of a connection reads. -/
inductive Told (qt : Qt) (JSON_HTML_SIZE : Nat) (seen : List (Event Request Bytes))
    (order : List (Entry Request Bytes)) (c : Connection n) : Prop
  /-- The request is still being received. -/
  | nothing {x : Conn Unit n}
      (hrequest : processRequest n soloRoot c.stream c.turns = .running x)
      (hsent : c.stage.sent = [])
  /-- The client has been sent nothing yet, or a part of the reply of the
      sequential object to its request, which it reads when it has all of
      it. -/
  | reply {i : Nat} {req : Request} (hcaller : c.stage.caller = some i)
      (hrequest : processRequest n soloRoot c.stream c.turns = .exited (.post () req.req_body) [])
      (hcall : .call i req ∈ seen)
      (hread : c.stage.sent = [] ∨ ∃ e ∈ order, e.id = i ∧ c.stage.sent <+: e.reply ∧
        (readMessage c.stage.sent = none ∨
          ∃ m, m.bytes = e.reply ∧ readMessage c.stage.sent = some (m, [])))
      (hseen : ∀ b, .ret i b ∈ seen → c.stage.sent = b)
  /-- No method is due. The client has been sent a part of what is due
      instead, which it reads when it has all of it. -/
  | other {r : Result Unit} (hcaller : c.stage.caller = none)
      (hrequest : processRequest n soloRoot c.stream c.turns = .exited r [])
      (hr : ∀ body, r ≠ .post () body)
      (hsent : c.stage.sent <+: due (services qt JSON_HTML_SIZE c.form) r)
      (hread : ∃ m, Closed m ∧ due (services qt JSON_HTML_SIZE c.form) r <+: m.bytes ∧
        ReadAs m c.stage.sent)

section reading

variable {qt : Qt} {JSON_HTML_SIZE : Nat} {hist : List (Event Request Sending)}
  {seen : List (Event Request Bytes)} {order : List (Entry Request Sending)} {a : Contents}
  {s : State n} {c : Connection n}

theorem Delivers.isPrefix {all : Bytes} {chain : SendChain} (h : Delivers all chain) :
    chain.sent <+: all := by
  rcases h with rfl | h
  · exact List.nil_prefix
  · exact h.isPrefix

theorem isMessage_prepare {req : Request} {response : Sending}
    (h : Program.prepare qt req = .error response) : RpcConnection.IsMessage response := by
  unfold Program.prepare at h
  split at h
  · injection h with h
    rw [← h]
    exact RpcConnection.isMessage_error 0 _
  · split at h
    · injection h with h
      rw [← h]
      exact RpcConnection.isMessage_error 0 _
    · split at h
      · injection h with h
        rw [← h]
        exact RpcConnection.isMessage_answer _ none
      · cases h

/-- The sequential object answers with messages. -/
theorem isMessage_serve {req : Request} {response : Sending} {a' : Contents}
    (h : serve qt a req = some (a', response)) : RpcConnection.IsMessage response := by
  unfold serve at h
  split at h
  · next response' hprepare =>
    have hresponse : response' = response := (Prod.mk.inj (Option.some.inj h)).2
    rw [← hresponse]
    exact isMessage_prepare hprepare
  · obtain ⟨next, _, heq⟩ := Option.map_eq_some_iff.mp h
    have hresponse := (Prod.mk.inj heq).2
    rw [← hresponse]
    exact RpcConnection.isMessage_answer _ _

/-- A part of a response reads as nothing, or it is all of it. -/
theorem read_of_part {response : Sending} (hmessage : RpcConnection.IsMessage response)
    {sent : Bytes} (hpart : sent <+: messageBytes response) :
    readMessage sent = none ∨
      ∃ m, m.bytes = messageBytes response ∧ readMessage sent = some (m, []) := by
  cases response with
  | message b =>
    obtain ⟨code, body, rfl⟩ := hmessage b rfl
    have hread := readAs_of_part (Or.inl (framed_rpcMessage code body)) hpart
    by_cases hall : sent = (rpcMessage code body).bytes
    · exact Or.inr ⟨_, rfl, hread.trans (if_pos hall)⟩
    · exact Or.inl (hread.trans (if_neg hall))
  | fault =>
    left
    rw [List.prefix_nil.mp hpart]
    rfl
  | silent =>
    left
    rw [List.prefix_nil.mp hpart]
    rfl

theorem Inv.told (h : Inv qt JSON_HTML_SIZE hist seen order a s) {k : Nat}
    (hc : s.connections[k]? = some c) :
    Told qt JSON_HTML_SIZE seen (order.map (Entry.through messageBytes)) c := by
  cases h.stands k c hc with
  | receiving hstage hrequest =>
    refine .nothing hrequest ?_
    rw [hstage]
    rfl
  | @calling i req hstage hrequest hcall hnot =>
    have hcaller : c.stage.caller = some i := by
      rw [hstage]
      rfl
    have hsent : c.stage.sent = [] := by
      rw [hstage]
      rfl
    refine .reply hcaller hrequest ((h.delayed.called i req).mpr hcall)
      (Or.inl hsent) ?_
    -- what a client has, the thread has sent
    intro b hb
    obtain ⟨r, hr, _⟩ := h.delayed.returned i b hb
    exact absurd hr (hnot r)
  | @answered i req response chain hstage hrequest hcall hret hchain hseen =>
    have hcaller : c.stage.caller = some i := by
      rw [hstage]
      rfl
    have hsent : c.stage.sent = chain.sent := by
      rw [hstage]
      rfl
    -- the reply is the one of the entry of this request
    obtain ⟨e, he, hid, rfl⟩ := h.serves.linear.answered i response hret
    obtain ⟨_, _, hserve⟩ := op_of_mem h.serves.linear.legal he
    refine .reply hcaller hrequest ((h.delayed.called i req).mpr hcall) ?_ ?_
    · rw [hsent]
      exact Or.inr ⟨e.through messageBytes, List.mem_map_of_mem he, hid, hchain.isPrefix,
        read_of_part (isMessage_serve hserve) hchain.isPrefix⟩
    · intro b hb
      rw [hsent, hseen b hb]
      rfl
  | @other r chain hstage hrequest hr hchain =>
    obtain ⟨m, hm, hdue⟩ := RpcConnection.due_prefix (services qt JSON_HTML_SIZE c.form) r
    have hcaller : c.stage.caller = none := by
      rw [hstage]
      rfl
    have hsent : c.stage.sent <+: due (services qt JSON_HTML_SIZE c.form) r := by
      rw [hstage]
      exact hchain.isPrefix
    exact .other hcaller hrequest hr hsent ⟨m, hm, hdue, readAs_of_part hm (hsent.trans hdue)⟩

end reading

/-- All that has been sent arrives. -/
def wholeTurn : Turn := ⟨.ready false true, .bytes 500⟩

end Wire
