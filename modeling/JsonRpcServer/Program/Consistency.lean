import JsonRpcServer.Program.Service

/-! # Clients See One Object

  The requests of the clients are worked on by many threads at once, and the
  pages are written by another. For the clients there is one object, which
  takes the requests one after the other.

  ## Main results

  * `requests_linearizable`: the requests and responses of every run are
    linearizable. The sequential object is `serve`: one request at a time,
    answered as `processRequestPOST` answers it (`serve_response`).
  * `published_of_served`: when everything is quiet, the page that html
    clients get is the rendering of the object that the requests have left,
    or the file of the start when there has been no update.

  ## Proof idea

  A request takes effect when its method returns, or when its thread refuses
  it. While the main thread is in a method, what is left of the method does
  to the object what the whole method does to the object of the requests
  served so far.
-/

namespace Program

open Bytes System Linearizability JsonRPCServer JsonRPCErrorCodes DatabaseObj
open Json (Value)
open PingPong (Page)

/-! ### The sequential object -/

/-- What the requests read and write of an object. -/
structure Contents where
  objectName : Bytes
  dynamic : Table PropValue
  deriving DecidableEq, Repr

/-- The object with these contents and no refresh due. -/
def Contents.object (a : Contents) : Object := ⟨a.objectName, a.dynamic, 0⟩

def contents (o : Object) : Contents := ⟨o.objectName, o.dynamic⟩

/-- What a call leaves, and what it returns, if it does. -/
def result : DatabaseObj.Outcome → Option (Contents × Ret)
  | .returned o ret => some (contents o, ret)
  | .nullDeref | .badCast => none

/-- A method on the contents of an object. -/
def Invocation.apply (qt : Qt) (call : Invocation) (a : Contents) : Option (Contents × Ret) :=
  result ((call.body qt a.object).run qt.types a.object)

/-- One request at the object. -/
def serve (qt : Qt) (a : Contents) (req : Request) : Option (Contents × Sending) :=
  match prepare qt req with
  | .error response => some (a, response)
  | .ok call => (call.apply qt a).map fun next => (next.1, answer call.id (some next.2))

/-- The target of `invokeMethod` when the object has these contents. -/
def target (qt : Qt) (a : Contents) (junk : Int) (name : Bytes) (params : JsonRPCParams_t) :
    Option Ret :=
  (qt.indexOfMethod name).bind fun method =>
    ((Invocation.mk 0 method (toVariantMap params) junk).apply qt a).map Prod.snd

/-! ### It answers as `processRequestPOST` -/

theorem refuse_response (code : JsonRPCErrorCodes) :
    (refuse code).response = sendJsonResponseError 0 code := rfl

theorem processRequestPOST_eq (fromJson : Bytes → Option Value)
    (invokeMethod : Bytes → JsonRPCParams_t → Option Ret) (req_body : Bytes) :
    (processRequestPOST fromJson invokeMethod req_body).response =
      match readRequest fromJson req_body with
      | .error code => sendJsonResponseError 0 code
      | .ok (id, name, params) => answer id (invokeMethod name params) := by
  unfold processRequestPOST readRequest
  cases fromJson req_body with
  | none => exact refuse_response ParseError
  | some doc =>
    -- no document is an object and an array
    have hboth : ¬ (QJsonValue.isObject doc = true ∧ QJsonValue.isArray doc = true) := by
      intro h
      cases doc with
      | obj ms => exact Bool.noConfusion h.2
      | _ => exact Bool.noConfusion h.1
    dsimp only
    rw [if_neg hboth]
    by_cases hjsonrpc :
        QJsonValue.toString (member (QJsonValue.toObject doc) (ascii "jsonrpc")) ≠ ascii "2.0"
    · rw [if_pos hjsonrpc, if_pos hjsonrpc, refuse_response]
    · rw [if_neg hjsonrpc, if_neg hjsonrpc]
      cases requestId (member (QJsonValue.toObject doc) (ascii "id")) with
      | error code => exact refuse_response code
      | ok id =>
        dsimp only
        unfold invoke
        dsimp only
        by_cases hmethod :
            QJsonValue.isString (member (QJsonValue.toObject doc) (ascii "method")) = false
        · rw [if_pos hmethod, if_pos hmethod, refuse_response]
        · rw [if_neg hmethod, if_neg hmethod]

/-- The sequential object sends what `processRequestPOST` sends. -/
theorem serve_response {qt : Qt} {a a' : Contents} {req : Request} {response : Sending}
    (hpath : soloRoot.resolve (targetPath req.http_URI) = some ())
    (h : serve qt a req = some (a', response)) :
    response =
      (processRequestPOST qt.fromJson (target qt a req.junk) req.req_body).response := by
  rw [processRequestPOST_eq]
  unfold serve prepare at h
  rw [hpath] at h
  dsimp only at h
  cases hread : readRequest qt.fromJson req.req_body with
  | error code =>
    rw [hread] at h
    cases h
    rfl
  | ok found =>
    obtain ⟨id, name, params⟩ := found
    rw [hread] at h
    dsimp only at h ⊢
    unfold target
    cases hmethod : qt.indexOfMethod name with
    | none =>
      rw [hmethod] at h
      cases h
      rfl
    | some method =>
      rw [hmethod] at h
      dsimp only at h
      obtain ⟨⟨a₁, ret⟩, happly, heq⟩ := Option.map_eq_some_iff.mp h
      have hret : (Invocation.mk 0 method (toVariantMap params) req.junk).apply qt a =
          some (a₁, ret) := happly
      rw [Option.bind_some, hret]
      injection heq with _ heq
      exact heq.symm

/-! ### Contents -/

section contents

variable {qt : Qt}

/-- A method reads the contents only. -/
theorem body_congr (call : Invocation) {o o' : Object} (h : contents o = contents o') :
    call.body qt o = call.body qt o' := by
  obtain ⟨name, dynamic, n⟩ := o
  obtain ⟨name', dynamic', n'⟩ := o'
  injection h with hname hdynamic
  cases hname
  cases hdynamic
  unfold Invocation.body
  cases call.method <;> rfl

theorem contents_setProperty (types : MetaTypes) (o : Object) (name : Bytes)
    (value : Option PropValue) : contents (o.setProperty types name value) =
      contents ((contents o).object.setProperty types name value) := by
  unfold Object.setProperty
  by_cases hobject : name = ascii "objectName"
  · rw [if_pos hobject, if_pos hobject]
    match value with
    | some (.other type) => rfl
    | some (.hyperLink _ _) | some (.text _) | some (.header _ _) | none => rfl
  · rw [if_neg hobject, if_neg hobject]
    rfl

/-- So does what is left of it. -/
theorem result_run_congr (types : MetaTypes) (b : Body) {o o' : Object}
    (h : contents o = contents o') : result (b.run types o) = result (b.run types o') := by
  induction b generalizing o o' with
  | effect e rest ih =>
    apply ih
    cases e with
    | setProperty name value =>
      show contents (o.setProperty types name value) = contents (o'.setProperty types name value)
      rw [contents_setProperty, h, ← contents_setProperty]
    | notifyRefresh => exact h
  | ret r => exact congrArg (fun a => some (a, r)) h
  | nullDeref => rfl
  | badCast => rfl

/-- An effect on the object of the program. -/
theorem effectStep_contents {s s' : State} {e : Effect} (h : effectStep qt s e = some s') :
    contents s'.object = contents (e.apply qt.types s.object) := by
  obtain ⟨display, hstep, rfl⟩ := effectStep_eq_some_iff.mp h
  cases e with
  | setProperty name value =>
    obtain ⟨_, rfl⟩ := PingPong.step_setProperty hstep
    show Contents.mk _ _ = Contents.mk _ _
    congr 1
    show (if name = ascii "objectName" then s.display.table
      else s.display.table.setProperty name value) =
        (s.object.setProperty qt.types name value).dynamic
    unfold Object.setProperty
    by_cases hobject : name = ascii "objectName"
    · rw [if_pos hobject, if_pos hobject]
      match value with
      | some (.other type) => rfl
      | some (.hyperLink _ _) | some (.text _) | some (.header _ _) | none => rfl
    · rw [if_neg hobject, if_neg hobject]
      rfl
  | notifyRefresh =>
    obtain ⟨_, rfl⟩ := PingPong.step_notifyRefresh hstep
    rfl

/-- The refresh thread and the clients of the html server change no
    properties. -/
theorem page_table {s s' : State} {l : Label} {page : PingPong.Label PropValue}
    (hpage : l.page? = some page) (h : displayStep qt s page = some s') :
    s'.display.table = s.display.table := by
  obtain ⟨display, hstep, rfl⟩ := displayStep_eq_some_iff.mp h
  show display.table = s.display.table
  cases l with
  | refresh =>
    cases hpage
    cases hstep
    rw [PingPong.refreshStep.eq_def]
    split <;> first | rfl | (split <;> rfl)
  | getHTMLFile =>
    cases hpage
    cases hstep
    rfl
  | client i e =>
    cases hpage
    obtain ⟨c, _, hclient⟩ := PingPong.step_client hstep
    rcases PingPong.clientStep_cases hclient with ⟨_, _, rfl⟩ | ⟨_, _, rfl⟩ | ⟨_, _, _, _, rfl⟩ |
      ⟨_, _, _, rfl⟩ <;> rfl
  | receive | process | exec | send => cases hpage

end contents

/-! ### What clients see -/

/-- The requests and responses of a step. -/
def observed (s : State) : Label → List (Event Request Sending)
  | .receive req => [.call s.threads.length req]
  | .send i =>
      match s.threads[i]? with
      | some (.sending response) => [.ret i response]
      | _ => []
  | .process _ | .exec | .refresh | .getHTMLFile | .client _ _ => []

/-- The requests and responses of a run. -/
def history (qt : Qt) (files : Page → Bytes) (ls : List Label) : List (Event Request Sending) :=
  trace (step qt) observed (init files) ls

/-- The contents of the object that `main` makes. -/
def Contents.initial : Contents := ⟨ascii "DatabaseRoot", []⟩

/-! ### The invariant -/

section invariant

variable (qt : Qt)

/-- The thread waits for this call. -/
def Waits (s : State) (i : Nat) (call : Invocation) : Prop :=
  ∃ req, s.threads[i]? = some (.waiting req call.id) ∧ prepare qt req = .ok call

/-- What is left of the method ends as the whole method does. -/
def MainServes (a : Contents) (s : State) : MainPc → Prop
  | .loop => contents s.object = a
  | .inMethod i rest => i ∉ s.events.map MetaCallEvent.thread ∧
      ∃ call, Waits qt s i call ∧ result (rest.run qt.types s.object) = call.apply qt a

structure Serves (hist : List (Event Request Sending)) (order : List (Entry Request Sending))
    (a : Contents) (s : State) : Prop where
  linear : Linearization (serve qt) .initial hist order a
  wellFormed : WellFormed hist
  numbered : ∀ k ∈ hist.filterMap Event.called, k < s.threads.length
  received : ∀ i req, s.threads[i]? = some (.received req) →
    .call i req ∈ hist ∧ i ∉ order.map Entry.id
  waiting : ∀ i req id, s.threads[i]? = some (.waiting req id) →
    .call i req ∈ hist ∧ i ∉ order.map Entry.id
  sending : ∀ i response, s.threads[i]? = some (.sending response) →
    (∃ e ∈ order, e.id = i ∧ e.reply = response) ∧ ∀ r, .ret i r ∉ hist
  events : ∀ e ∈ s.events, Waits qt s e.thread e.call
  distinct : (s.events.map MetaCallEvent.thread).Nodup
  main : MainServes qt a s s.main

end invariant

section preservation

variable {qt : Qt} {hist : List (Event Request Sending)} {order : List (Entry Request Sending)}
  {a : Contents} {s s' : State}

theorem serves_init (files : Page → Bytes) :
    Serves qt [] [] .initial (init files) where
  linear := ⟨List.nodup_nil, nofun, nofun, nofun, rfl⟩
  wellFormed := ⟨List.nodup_nil, List.nodup_nil, nofun⟩
  numbered := nofun
  received := nofun
  waiting := nofun
  sending := nofun
  events := nofun
  distinct := List.nodup_nil
  main := rfl

/-- A thread that waits is not moved by the others. -/
theorem Waits.setThread {i j : Nat} {call : Invocation} {pc : RequestPc}
    (h : Waits qt s j call) (hj : j ≠ i) : Waits qt (s.setThread i pc) j call := by
  obtain ⟨req, hpc, hprepare⟩ := h
  exact ⟨req, by rw [setThread_ne hj]; exact hpc, hprepare⟩

theorem Waits.ne_of_received {i j : Nat} {call : Invocation} {req : Request}
    (h : Waits qt s j call) (hi : s.threads[i]? = some (.received req)) : j ≠ i := by
  rintro rfl
  obtain ⟨_, hpc, _⟩ := h
  rw [hi] at hpc
  cases hpc

theorem Waits.ne_of_sending {i j : Nat} {call : Invocation} {response : Sending}
    (h : Waits qt s j call) (hi : s.threads[i]? = some (.sending response)) : j ≠ i := by
  rintro rfl
  obtain ⟨_, hpc, _⟩ := h
  rw [hi] at hpc
  cases hpc

/-- The main thread goes on when its thread still waits. -/
theorem MainServes.of_waits {pc : MainPc} (h : MainServes qt a s pc)
    (hobject : s'.object = s.object)
    (hevents : s'.events.map MetaCallEvent.thread = s.events.map MetaCallEvent.thread)
    (hwaits : ∀ i call, Waits qt s i call → Waits qt s' i call) : MainServes qt a s' pc := by
  cases pc with
  | loop =>
    show contents s'.object = a
    rw [hobject]
    exact h
  | inMethod i rest =>
    obtain ⟨hi, call, hcall, hrest⟩ := h
    refine ⟨hevents ▸ hi, call, hwaits i call hcall, ?_⟩
    rw [hobject]
    exact hrest

/-- A step of the pages. -/
theorem Serves.page (h : Serves qt hist order a s) {l : Label}
    {page : PingPong.Label PropValue} (hnext : next qt s l = some s')
    (hpage : l.page? = some page) : Serves qt hist order a s' := by
  rw [next_page hpage] at hnext
  have htable := page_table hpage hnext
  obtain ⟨display, _, rfl⟩ := displayStep_eq_some_iff.mp hnext
  refine ⟨h.linear, h.wellFormed, h.numbered, h.received, h.waiting, h.sending, h.events,
    h.distinct, ?_⟩
  have hcontents : contents (State.object { s with display := display }) = contents s.object := by
    show Contents.mk s.objectName display.table = Contents.mk s.objectName s.display.table
    exact congrArg _ htable
  have hmain := h.main
  unfold MainServes at hmain ⊢
  cases hpc : s.main with
  | loop =>
    rw [hpc] at hmain
    exact hcontents.trans hmain
  | inMethod i rest =>
    rw [hpc] at hmain
    obtain ⟨hi, call, hcall, hrest⟩ := hmain
    exact ⟨hi, call, hcall, (result_run_congr qt.types rest hcontents).trans hrest⟩

/-- A request arrives. -/
theorem Serves.receive (h : Serves qt hist order a s) (req : Request) :
    Serves qt (hist ++ [.call s.threads.length req]) order a
      { s with threads := s.threads ++ [.received req] } := by
  have hnew : s.threads.length ∉ hist.filterMap Event.called :=
    fun hmem => Nat.lt_irrefl _ (h.numbered _ hmem)
  have hold : ∀ {i : Nat} {pc : RequestPc}, s.threads[i]? = some pc →
      (s.threads ++ [RequestPc.received req])[i]? = some pc := by
    intro i pc hpc
    obtain ⟨hlt, _⟩ := List.getElem?_eq_some_iff.mp hpc
    rw [List.getElem?_append_left hlt]
    exact hpc
  have hwaits : ∀ i call, Waits qt s i call →
      Waits qt { s with threads := s.threads ++ [.received req] } i call := by
    rintro i call ⟨req', hpc, hprepare⟩
    exact ⟨req', hold hpc, hprepare⟩
  refine ⟨h.linear.call hnew, h.wellFormed.call hnew req, ?_, ?_, ?_, ?_, ?_, h.distinct, ?_⟩
  · intro k hk
    show k < (s.threads ++ [RequestPc.received req]).length
    rw [List.length_append, List.length_singleton]
    rw [List.filterMap_append, List.mem_append] at hk
    rcases hk with hk | hk
    · exact Nat.lt_succ_of_lt (h.numbered k hk)
    · have hk' : k = s.threads.length := by simpa [Event.called] using hk
      omega
  · intro i req' hpc
    rcases receive_cases hpc with hpc | ⟨rfl, heq⟩
    · exact ⟨List.mem_append_left _ (h.received i req' hpc).1, (h.received i req' hpc).2⟩
    · cases heq
      refine ⟨List.mem_append_right _ List.mem_cons_self, ?_⟩
      intro hmem
      -- what has been served has been called before
      obtain ⟨e, he, hid⟩ := List.mem_map.mp hmem
      exact hnew (List.mem_filterMap.mpr ⟨_, h.linear.called e he, congrArg some hid⟩)
  · intro i req' id hpc
    rcases receive_cases hpc with hpc | ⟨_, heq⟩
    · exact ⟨List.mem_append_left _ (h.waiting i req' id hpc).1, (h.waiting i req' id hpc).2⟩
    · cases heq
  · intro i response hpc
    rcases receive_cases hpc with hpc | ⟨_, heq⟩
    · refine ⟨(h.sending i response hpc).1, ?_⟩
      intro r hmem
      rcases List.mem_append.mp hmem with hmem | hmem
      · exact (h.sending i response hpc).2 r hmem
      · simp at hmem
    · cases heq
  · intro e he
    exact hwaits _ _ (h.events e he)
  · exact h.main.of_waits rfl rfl hwaits

/-- A request takes effect, and its thread is about to send. -/
theorem Serves.point (h : Serves qt hist order a s) {i : Nat} {req : Request} {response : Sending}
    {a' : Contents} (hcall : .call i req ∈ hist) (hi : i ∉ order.map Entry.id)
    (hthreads : s'.threads = (s.setThread i (.sending response)).threads)
    (hserve : serve qt a req = some (a', response))
    (hevents : ∀ e ∈ s'.events, Waits qt s' e.thread e.call)
    (hdistinct : (s'.events.map MetaCallEvent.thread).Nodup)
    (hmain : MainServes qt a' s' s'.main) :
    Serves qt hist (order ++ [⟨i, req, response⟩]) a' s' := by
  -- the requests of the other threads have not been put into the order
  have hother : ∀ {j}, j ∉ order.map Entry.id → j ≠ i →
      j ∉ (order ++ [Entry.mk i req response]).map Entry.id := by
    intro j hj hne hmem
    rw [List.map_append, List.mem_append] at hmem
    rcases hmem with hmem | hmem
    · exact hj hmem
    · exact hne (by simpa using hmem)
  refine ⟨h.linear.point hcall hi hserve, h.wellFormed, ?_, ?_, ?_, ?_, hevents, hdistinct, hmain⟩
  · rw [hthreads, setThread_length]
    exact h.numbered
  · intro j req' hpc
    rw [hthreads] at hpc
    rcases setThread_cases hpc with ⟨_, heq⟩ | ⟨hne, hpc⟩
    · cases heq
    · exact ⟨(h.received j req' hpc).1, hother (h.received j req' hpc).2 hne⟩
  · intro j req' id hpc
    rw [hthreads] at hpc
    rcases setThread_cases hpc with ⟨_, heq⟩ | ⟨hne, hpc⟩
    · cases heq
    · exact ⟨(h.waiting j req' id hpc).1, hother (h.waiting j req' id hpc).2 hne⟩
  · intro j response' hpc
    rw [hthreads] at hpc
    rcases setThread_cases hpc with ⟨rfl, heq⟩ | ⟨_, hpc⟩
    · cases heq
      exact ⟨⟨_, List.mem_append_right _ List.mem_cons_self, rfl, rfl⟩, h.linear.ret_not_mem hi⟩
    · obtain ⟨⟨e, he, hid, hreply⟩, hret⟩ := h.sending j response' hpc
      exact ⟨⟨e, List.mem_append_left _ he, hid, hreply⟩, hret⟩

/-- A thread refuses its request, or posts an event. -/
theorem Serves.process (h : Serves qt hist order a s) {i : Nat} {req : Request}
    (hpc : s.threads[i]? = some (.received req)) :
    ∃ order' a', Serves qt hist order' a' (processStep qt s i req) := by
  obtain ⟨hcall, hi⟩ := h.received i req hpc
  have hwaits : ∀ pc j call, Waits qt s j call → Waits qt (s.setThread i pc) j call :=
    fun pc j call hj => hj.setThread (hj.ne_of_received hpc)
  unfold processStep
  cases hprepare : prepare qt req with
  | error response =>
    -- a request that is refused takes effect at once
    refine ⟨order ++ [⟨i, req, response⟩], a, h.point hcall hi rfl ?_ ?_ h.distinct ?_⟩
    · rw [serve, hprepare]
    · intro e he
      exact hwaits _ _ _ (h.events e he)
    · exact h.main.of_waits rfl rfl (hwaits _)
  | ok call =>
    -- the other one waits in the queue, where its thread has no event yet
    have hposted : i ∉ s.events.map MetaCallEvent.thread := by
      intro hmem
      obtain ⟨e, he, hthread⟩ := List.mem_map.mp hmem
      exact (h.events e he).ne_of_received hpc hthread
    have hmine : Waits qt (s.setThread i (.waiting req call.id)) i call :=
      ⟨req, setThread_self hpc, hprepare⟩
    refine ⟨order, a, h.linear, h.wellFormed, ?_, ?_, ?_, ?_, ?_, ?_, ?_⟩
    · show ∀ k ∈ _, k < (s.setThread i (.waiting req call.id)).threads.length
      rw [setThread_length]
      exact h.numbered
    · intro j req' hj
      rcases setThread_cases hj with ⟨_, heq⟩ | ⟨_, hj⟩
      · cases heq
      · exact h.received j req' hj
    · intro j req' id hj
      rcases setThread_cases hj with ⟨rfl, heq⟩ | ⟨_, hj⟩
      · cases heq
        exact ⟨hcall, hi⟩
      · exact h.waiting j req' id hj
    · intro j response hj
      rcases setThread_cases hj with ⟨_, heq⟩ | ⟨_, hj⟩
      · cases heq
      · exact h.sending j response hj
    · intro e he
      rcases List.mem_append.mp he with he | he
      · exact hwaits _ _ _ (h.events e he)
      · rw [List.mem_singleton.mp he]
        exact hmine
    · show ((s.events ++ [MetaCallEvent.mk i call]).map MetaCallEvent.thread).Nodup
      rw [List.map_append, List.nodup_append]
      refine ⟨h.distinct, by simp, ?_⟩
      intro j hj k hk heq
      have hk' : k = i := by simpa using hk
      exact hposted (hk' ▸ heq ▸ hj)
    · have hmain := h.main
      show MainServes qt a _ s.main
      cases hloop : s.main with
      | loop =>
        rw [hloop] at hmain
        exact hmain
      | inMethod j rest =>
        rw [hloop] at hmain
        obtain ⟨hj, call', hcall', hrest⟩ := hmain
        refine ⟨?_, call', hwaits _ j call' hcall', hrest⟩
        show j ∉ (s.events ++ [MetaCallEvent.mk i call]).map MetaCallEvent.thread
        rw [List.map_append, List.mem_append]
        rintro (hmem | hmem)
        · exact hj hmem
        · exact hcall'.ne_of_received hpc (by simpa using hmem)

/-- The main thread takes an event. -/
theorem Serves.enter (h : Serves qt hist order a s) {e : MetaCallEvent}
    {events : List MetaCallEvent} (hloop : s.main = .loop) (hevents : s.events = e :: events) :
    Serves qt hist order a
      { s with events := events, main := .inMethod e.thread (e.call.body qt s.object) } := by
  have hmem : ∀ e' ∈ events, e' ∈ s.events := by
    intro e' he'
    rw [hevents]
    exact List.mem_cons_of_mem e he'
  have hdistinct := h.distinct
  rw [hevents, List.map_cons, List.nodup_cons] at hdistinct
  refine ⟨h.linear, h.wellFormed, h.numbered, h.received, h.waiting, h.sending, ?_,
    hdistinct.2, hdistinct.1, e.call, ?_, ?_⟩
  · intro e' he'
    exact h.events e' (hmem e' he')
  · apply h.events e
    rw [hevents]
    exact List.mem_cons_self
  · have hmain := h.main
    rw [hloop] at hmain
    -- a method begins on the object that the order has left
    have hcontents : contents s.object = contents a.object := hmain
    show result ((e.call.body qt s.object).run qt.types s.object) = e.call.apply qt a
    rw [result_run_congr qt.types _ hcontents, body_congr e.call hcontents]
    rfl

/-- One effect of a method. -/
theorem Serves.effect (h : Serves qt hist order a s) {i : Nat} {e : Effect} {rest : Body}
    (hmain : s.main = .inMethod i (.effect e rest)) (hstep : effectStep qt s e = some s') :
    Serves qt hist order a { s' with main := .inMethod i rest } := by
  have hcontents := effectStep_contents hstep
  obtain ⟨display, _, rfl⟩ := effectStep_eq_some_iff.mp hstep
  have hserves := h.main
  rw [hmain] at hserves
  obtain ⟨hi, call, hcall, hrest⟩ := hserves
  refine ⟨h.linear, h.wellFormed, h.numbered, h.received, h.waiting, h.sending, h.events,
    h.distinct, hi, call, hcall, ?_⟩
  exact (result_run_congr qt.types rest hcontents).trans hrest

/-- A method returns. -/
theorem Serves.returns (h : Serves qt hist order a s) {i : Nat} {ret : Ret}
    (hmain : s.main = .inMethod i (.ret ret)) (hstep : returnTo s i ret = some s') :
    ∃ order' a', Serves qt hist order' a' s' := by
  have hserves := h.main
  rw [hmain] at hserves
  obtain ⟨hi, call, ⟨req, hpc, hprepare⟩, hrest⟩ := hserves
  obtain ⟨req', id, hpc', rfl⟩ := returnTo_eq_some hstep
  rw [hpc] at hpc'
  cases hpc'
  -- the request takes effect when its method returns
  obtain ⟨hcall, hnew⟩ := h.waiting i req call.id hpc
  refine ⟨order ++ [⟨i, req, answer call.id (some ret)⟩], contents s.object, ?_⟩
  refine h.point hcall hnew (by rfl) ?_ ?_ h.distinct (by rfl)
  · rw [serve, hprepare]
    dsimp only
    rw [← hrest]
    rfl
  · intro e he
    have hne : e.thread ≠ i := fun heq => hi (heq ▸ List.mem_map_of_mem he)
    exact (h.events e he).setThread hne

/-- A response is sent. -/
theorem Serves.send (h : Serves qt hist order a s) {i : Nat} {response : Sending} {ended : Bool}
    (hpc : s.threads[i]? = some (.sending response)) :
    Serves qt (hist ++ [.ret i response]) order a
      { s.setThread i .finished with ended := ended } := by
  obtain ⟨⟨e, he, hid, hreply⟩, hret⟩ := h.sending i response hpc
  have hwaits : ∀ j call, Waits qt s j call →
      Waits qt { s.setThread i .finished with ended := ended } j call :=
    fun j call hj => hj.setThread (hj.ne_of_sending hpc)
  have hmem : ∀ {j req}, .call j req ∈ hist →
      Event.call j req ∈ hist ++ [Event.ret i response] := List.mem_append_left _
  refine ⟨?_, ?_, ?_, ?_, ?_, ?_, ?_, h.distinct, ?_⟩
  · have hlinear := h.linear.ret he
    rw [hid, hreply] at hlinear
    exact hlinear
  · have hcalled := h.linear.called e he
    rw [hid] at hcalled
    exact h.wellFormed.ret hcalled hret response
  · intro k hk
    rw [List.filterMap_append] at hk
    show k < (s.setThread i .finished).threads.length
    rw [setThread_length]
    exact h.numbered k ((List.mem_append.mp hk).resolve_right List.not_mem_nil)
  · intro j req hj
    rcases setThread_cases hj with ⟨_, heq⟩ | ⟨_, hj⟩
    · cases heq
    · exact ⟨hmem (h.received j req hj).1, (h.received j req hj).2⟩
  · intro j req id hj
    rcases setThread_cases hj with ⟨_, heq⟩ | ⟨_, hj⟩
    · cases heq
    · exact ⟨hmem (h.waiting j req id hj).1, (h.waiting j req id hj).2⟩
  · intro j response' hj
    rcases setThread_cases hj with ⟨_, heq⟩ | ⟨hne, hj⟩
    · cases heq
    · -- the response of another thread has not been sent by this one
      refine ⟨(h.sending j response' hj).1, ?_⟩
      intro r hmem
      rcases List.mem_append.mp hmem with hmem | hmem
      · exact (h.sending j response' hj).2 r hmem
      · rw [List.mem_singleton] at hmem
        injection hmem with heq
        exact hne heq
  · intro e' he'
    exact hwaits _ _ (h.events e' he')
  · exact h.main.of_waits rfl rfl hwaits

theorem serves_step {l : Label} (h : Serves qt hist order a s) (hstep : step qt s l = some s') :
    ∃ order' a', Serves qt (hist ++ observed s l) order' a' s' := by
  obtain ⟨_, hnext⟩ := step_eq_some_iff.mp hstep
  have hsilent : hist ++ [] = hist := List.append_nil hist
  cases l with
  | receive req =>
    cases hnext
    exact ⟨order, a, h.receive req⟩
  | process i =>
    obtain ⟨req, hpc, rfl⟩ := next_process hnext
    rw [observed, hsilent]
    exact h.process hpc
  | exec =>
    rw [observed, hsilent]
    rcases execStep_cases hnext with ⟨e, events, hmain, hevents, rfl⟩ |
      ⟨i, e, rest, s₁, hmain, heffect, rfl⟩ | ⟨i, ret, hmain, hreturn⟩ | ⟨i, _, rfl⟩
    · exact ⟨order, a, h.enter hmain hevents⟩
    · exact ⟨order, a, h.effect hmain heffect⟩
    · exact h.returns hmain hreturn
    · -- the program is over, and nothing else has changed
      exact ⟨order, a, h.linear, h.wellFormed, h.numbered, h.received, h.waiting, h.sending,
        h.events, h.distinct, h.main⟩
  | send i =>
    obtain ⟨response, hpc, rfl⟩ := next_send hnext
    rw [observed, hpc]
    exact ⟨order, a, h.send hpc⟩
  | refresh | getHTMLFile | client i e =>
    rw [observed, hsilent]
    exact ⟨order, a, h.page hnext rfl⟩

theorem serves_of_run {files : Page → Bytes} {ls : List Label}
    (hrun : run (step qt) (init files) ls = some s) :
    ∃ order a, Serves qt (history qt files ls) order a s :=
  @run_trace _ _ _ _ observed (fun hist s => ∃ order a, Serves qt hist order a s)
    (fun _ _ _ _ ⟨_, _, h⟩ hstep => serves_step h hstep) ls [] (init files) s
    ⟨[], .initial, serves_init files⟩ hrun

end preservation

/-- **Requests are linearizable**: in every run there is an order of the
    requests in which the sequential object gives every response that has
    been sent, and which keeps the order of requests that did not overlap.
    Between two methods the object is the one that this order leaves. -/
theorem requests_linearizable (qt : Qt) (files : Page → Bytes) (ls : List Label) (s : State)
    (hrun : run (step qt) (init files) ls = some s) :
    WellFormed (history qt files ls) ∧
      ∃ order a, Linearization (serve qt) .initial (history qt files ls) order a ∧
        (s.main = .loop → contents s.object = a) := by
  obtain ⟨order, a, h⟩ := serves_of_run hrun
  refine ⟨h.wellFormed, order, a, h.linear, ?_⟩
  intro hloop
  have hmain := h.main
  rw [hloop] at hmain
  exact hmain

/-! ### Two requests -/

/-- A link is added. -/
def addLink : Bytes :=
  ascii "\x7b\"jsonrpc\": \"2.0\", \"method\": \"addProperty\", \"params\": \x7b\"name\": \"Link\", \"type\": \"HyperLink\"\x7d, \"id\": 1\x7d"

/-- The properties are listed. -/
def listAll : Bytes :=
  ascii "\x7b\"jsonrpc\": \"2.0\", \"method\": \"listProperties\", \"id\": 2\x7d"

/-- The documents of the two. -/
def twoDocuments (body : Bytes) : Option Value :=
  if body = addLink then
    some (.obj [(ascii "jsonrpc", .str (ascii "2.0")), (ascii "method", .str (ascii "addProperty")),
      (ascii "params", .obj [(ascii "name", .str (ascii "Link")),
        (ascii "type", .str (ascii "HyperLink"))]),
      (ascii "id", .num 1)])
  else if body = listAll then
    some (.obj [(ascii "jsonrpc", .str (ascii "2.0")),
      (ascii "method", .str (ascii "listProperties")), (ascii "id", .num 2)])
  else none

/-- Values that are strings. -/
def twoValues : VariantApi Value :=
  ⟨QJsonValue.toString, QJsonValue.toString,
    fun v => if QJsonValue.isString v then some (QJsonValue.toString v) else none, fun _ => none⟩

def twoMethods (name : Bytes) : Option Method :=
  if name = ascii "addProperty" then some .addProperty
  else if name = ascii "listProperties" then some .listProperties
  else none

def twoQt : Qt := ⟨twoDocuments, twoMethods, withQString, twoValues, fun _ => []⟩

/-- The thread of the second request is faster. -/
def overtaking : List Label :=
  [.receive ⟨ascii "/", addLink, 0⟩, .receive ⟨ascii "/", listAll, 0⟩, .process 1, .process 0] ++
    List.replicate 6 .exec ++ [.send 1]

theorem requests_linearizable_overtaking :
    ∃ s, run (step twoQt) (init fun _ => []) overtaking = some s ∧ ∃ order a,
      Linearization (serve twoQt) .initial (history twoQt (fun _ => []) overtaking) order a := by
  have hend : (run (step twoQt) (init fun _ => []) overtaking).isSome := by decide +kernel
  obtain ⟨s, hrun⟩ := Option.isSome_iff_exists.mp hend
  obtain ⟨_, order, a, hlinear, _⟩ := requests_linearizable twoQt (fun _ => []) overtaking s hrun
  exact ⟨s, hrun, order, a, hlinear⟩

/-! ### The pages of the program -/

/-- The page labels of a step. -/
def pageLabels (s : State) : Label → List (PingPong.Label PropValue)
  | .exec =>
      match s.main with
      | .inMethod _ (.effect e _) => [pageLabel e]
      | _ => []
  | .refresh => [.refresh]
  | .getHTMLFile => [.getHTMLFile]
  | .client i e => [.client i e]
  | .receive _ | .process _ | .send _ => []

/-- The pages and the properties are as at the start. -/
structure Untouched (files : Page → Bytes) (s : State) : Prop where
  semaphore : s.display.refresh_semaphore = 0
  refresher : s.display.refresher = .idle
  state : s.display.ping_pong_state = .initial
  content : ∀ p, (s.display.html_ping_pong p).content = files p
  contents : s.display.mutator = .idle → contents s.object = .initial

section pages

variable {qt : Qt} {files : Page → Bytes} {s s' : State}

/-- Nothing touches them before the first notification. -/
theorem Untouched.page (h : Untouched files s) {l : Label} {page : PingPong.Label PropValue}
    (hnext : next qt s l = some s') (hpage : l.page? = some page) : Untouched files s' := by
  rw [next_page hpage] at hnext
  have htable := page_table hpage hnext
  obtain ⟨display, hstep, rfl⟩ := displayStep_eq_some_iff.mp hnext
  have hcontents : Program.contents (State.object { s with display := display }) =
      Program.contents s.object := by
    show Contents.mk s.objectName display.table = Contents.mk s.objectName s.display.table
    exact congrArg _ htable
  have hframe : display.refresh_semaphore = s.display.refresh_semaphore →
      display.refresher = s.display.refresher →
        display.ping_pong_state = s.display.ping_pong_state →
          display.mutator = s.display.mutator →
            (∀ p, (display.html_ping_pong p).content = (s.display.html_ping_pong p).content) →
              Untouched files { s with display := display } := by
    intro hsemaphore hrefresher hstate hmutator hcontent
    refine ⟨hsemaphore.trans h.semaphore, hrefresher.trans h.refresher, hstate.trans h.state,
      ?_, ?_⟩
    · intro p
      exact (hcontent p).trans (h.content p)
    · intro hidle
      rw [hcontents]
      exact h.contents (hmutator.symm.trans hidle)
  cases l with
  | refresh =>
    cases hpage
    cases hstep
    -- the refresh thread finds no token
    have hidle : PingPong.refreshStep (save qt.saveOther) s.display = s.display := by
      rw [PingPong.refreshStep, h.refresher]
      exact if_neg (by rw [h.semaphore]; exact Nat.lt_irrefl 0)
    rw [hidle] at hframe ⊢
    exact hframe rfl rfl rfl rfl fun _ => rfl
  | getHTMLFile =>
    cases hpage
    cases hstep
    exact hframe rfl rfl rfl rfl fun _ => rfl
  | client i e =>
    cases hpage
    obtain ⟨c, _, hclient⟩ := PingPong.step_client hstep
    rcases PingPong.clientStep_cases hclient with ⟨_, _, rfl⟩ | ⟨_, _, rfl⟩ | ⟨_, _, _, _, rfl⟩ |
      ⟨_, _, _, rfl⟩
    · exact hframe rfl rfl rfl rfl fun _ => rfl
    · exact hframe rfl rfl rfl rfl
        (PingPong.modifyPage_content (f := PingPong.HtmlFileIO.release) fun _ => rfl)
    · exact hframe rfl rfl rfl rfl fun _ => rfl
    · exact hframe rfl rfl rfl rfl
        (PingPong.modifyPage_content (f := PingPong.HtmlFileIO.acquire) fun _ => rfl)
  | receive | process | exec | send => cases hpage

/-- The pages follow their own model. -/
structure Displays (qt : Qt) (files : Page → Bytes) (seen : List (PingPong.Label PropValue))
    (s : State) : Prop where
  run : System.run (PingPong.step (save qt.saveOther)) (PingPong.init files) seen = some s.display
  untouched : .notifyRefresh ∉ seen → Untouched files s

theorem displays_page {seen : List (PingPong.Label PropValue)} {l : Label}
    {page : PingPong.Label PropValue} (h : Displays qt files seen s)
    (hnext : next qt s l = some s') (hpage : l.page? = some page) :
    Displays qt files (seen ++ [page]) s' := by
  constructor
  · have hdisplay := hnext
    rw [next_page hpage] at hdisplay
    obtain ⟨display, hstep, rfl⟩ := displayStep_eq_some_iff.mp hdisplay
    exact run_snoc h.run hstep
  · intro hseen
    exact (h.untouched fun hmem => hseen (List.mem_append_left _ hmem)).page hnext hpage

theorem displays_effect {seen : List (PingPong.Label PropValue)} {e : Effect}
    (h : Displays qt files seen s) (heffect : effectStep qt s e = some s') :
    Displays qt files (seen ++ [pageLabel e]) s' := by
  obtain ⟨display, hstep, rfl⟩ := effectStep_eq_some_iff.mp heffect
  refine ⟨run_snoc h.run hstep, ?_⟩
  intro hseen
  cases e with
  | setProperty name value =>
    -- the notification is due
    have huntouched := h.untouched fun hmem => hseen (List.mem_append_left _ hmem)
    obtain ⟨_, rfl⟩ := PingPong.step_setProperty hstep
    exact ⟨huntouched.semaphore, huntouched.refresher, huntouched.state, huntouched.content, nofun⟩
  | notifyRefresh => exact absurd (List.mem_append_right _ List.mem_cons_self) hseen

/-- The other steps leave the pages and the properties alone. -/
theorem Displays.of_frame {seen : List (PingPong.Label PropValue)} (h : Displays qt files seen s)
    (hdisplay : s'.display = s.display) (hobjectName : s'.objectName = s.objectName) :
    Displays qt files seen s' := by
  refine ⟨hdisplay ▸ h.run, fun hseen => ?_⟩
  obtain ⟨hsemaphore, hrefresher, hstate, hcontent, hcontents⟩ := h.untouched hseen
  refine ⟨hdisplay ▸ hsemaphore, hdisplay ▸ hrefresher, hdisplay ▸ hstate, hdisplay ▸ hcontent, ?_⟩
  intro hidle
  rw [hdisplay] at hidle
  rw [← hcontents hidle]
  show Contents.mk s'.objectName s'.display.table = Contents.mk s.objectName s.display.table
  rw [hobjectName, hdisplay]

theorem displays_step {seen : List (PingPong.Label PropValue)} {l : Label}
    (h : Displays qt files seen s) (hstep : step qt s l = some s') :
    Displays qt files (seen ++ pageLabels s l) s' := by
  obtain ⟨_, hnext⟩ := step_eq_some_iff.mp hstep
  have hsilent : seen ++ [] = seen := List.append_nil seen
  cases l with
  | receive req =>
    cases hnext
    rw [pageLabels, hsilent]
    exact h.of_frame rfl rfl
  | process i =>
    obtain ⟨req, _, rfl⟩ := next_process hnext
    rw [pageLabels, hsilent]
    unfold processStep
    split
    · exact h.of_frame rfl rfl
    · exact h.of_frame rfl rfl
  | exec =>
    rw [pageLabels]
    rcases execStep_cases hnext with ⟨e, events, hmain, _, rfl⟩ |
      ⟨i, e, rest, s₁, hmain, heffect, rfl⟩ | ⟨i, ret, hmain, hreturn⟩ | ⟨i, hmain, rfl⟩
    · rw [hmain, hsilent]
      exact h.of_frame rfl rfl
    · -- an effect is the one step of the main thread that the pages see
      rw [hmain]
      exact (displays_effect h heffect).of_frame rfl rfl
    · rw [hmain, hsilent]
      obtain ⟨_, _, _, rfl⟩ := returnTo_eq_some hreturn
      exact h.of_frame rfl rfl
    · rcases hmain with hmain | hmain <;>
      · rw [hmain, hsilent]
        exact h.of_frame rfl rfl
  | send i =>
    obtain ⟨response, _, rfl⟩ := next_send hnext
    rw [pageLabels, hsilent]
    exact h.of_frame rfl rfl
  | refresh | getHTMLFile | client i e => exact displays_page h hnext rfl

theorem displays_of_run {ls : List Label} (hrun : run (step qt) (init files) ls = some s) :
    Displays qt files (trace (step qt) pageLabels (init files) ls) s :=
  run_trace (fun _ _ _ _ => displays_step) ls [] (init files) s
    ⟨rfl, fun _ => ⟨rfl, rfl, rfl, fun _ => rfl, fun _ => rfl⟩⟩ hrun

/-- What the html clients get in a quiet program, when the requests have left
    these contents. -/
structure Shows (qt : Qt) (files : Page → Bytes) (updated : Prop) (a : Contents) (s : State) :
    Prop where
  object : contents s.object = a
  /-- Behind an update it is the rendering of the object. -/
  rendered : updated → s.display.published = PingPong.renderTable (save qt.saveOther) a.dynamic
  /-- Without one nothing has changed since the start. -/
  untouched : ¬ updated → a = .initial ∧ s.display.published = files .page0

/-- Behind a notification the page of a quiet program is rendered. -/
theorem Displays.published {seen : List (PingPong.Label PropValue)} (h : Displays qt files seen s)
    (hquiet : PingPong.Quiet s.display) (hseen : .notifyRefresh ∈ seen) :
    s.display.published = PingPong.renderTable (save qt.saveOther) s.display.table := by
  obtain ⟨hmutator, hsemaphore, hidle⟩ := hquiet
  rcases (PingPong.publishInv_of_run h.run).published hidle with (hp | hp) | hp | hp
  · rw [hmutator] at hp
    cases hp
  · omega
  · exact absurd hseen hp
  · exact hp

/-- Before it the page is the file of the start. -/
theorem Untouched.published (h : Untouched files s) : s.display.published = files .page0 := by
  unfold PingPong.State.published
  rw [h.state]
  exact h.content .page0

theorem Displays.shows {seen : List (PingPong.Label PropValue)} (h : Displays qt files seen s)
    (hquiet : PingPong.Quiet s.display) :
    Shows qt files (.notifyRefresh ∈ seen) (contents s.object) s where
  object := rfl
  rendered := h.published hquiet
  untouched := by
    intro hseen
    have huntouched := h.untouched hseen
    exact ⟨huntouched.contents hquiet.1, huntouched.published⟩

end pages

/-- An update of the run has notified the refresh thread. -/
def Updated (qt : Qt) (files : Page → Bytes) (ls : List Label) : Prop :=
  .notifyRefresh ∈ trace (step qt) pageLabels (init files) ls

/-- **The page shows what the requests have left**: when no method is
    running and no refresh is due or running, the page that html clients get
    is the rendering of the sequential object behind all requests that have
    taken effect. Without any update the object is the one of the start, and
    the page is the file that was there. -/
theorem published_of_served (qt : Qt) (files : Page → Bytes) (ls : List Label) (s : State)
    (hrun : run (step qt) (init files) ls = some s) (hloop : s.main = .loop)
    (hquiet : PingPong.Quiet s.display) :
    ∃ order a, Linearization (serve qt) .initial (history qt files ls) order a ∧
      Shows qt files (Updated qt files ls) a s := by
  obtain ⟨order, a, h⟩ := serves_of_run hrun
  have hmain := h.main
  rw [hloop] at hmain
  have ha : contents s.object = a := hmain
  refine ⟨order, a, h.linear, ?_⟩
  rw [← ha]
  exact (displays_of_run hrun).shows hquiet

/-- The two requests, and the refresh behind the update. -/
def refreshed : List Label := overtaking ++ List.replicate 9 .refresh

theorem published_of_served_overtaking : ∃ s,
    run (step twoQt) (init fun _ => []) refreshed = some s ∧ ∃ order a,
      Linearization (serve twoQt) .initial (history twoQt (fun _ => []) refreshed) order a ∧
        Shows twoQt (fun _ => []) (Updated twoQt (fun _ => []) refreshed) a s := by
  have hend : (run (step twoQt) (init fun _ => []) refreshed).any (fun s =>
      s.main.isLoop && decide (PingPong.Quiet s.display)) := by
    decide +kernel
  obtain ⟨s, hrun, hs⟩ := (Option.any_eq_true _ _).mp hend
  obtain ⟨hloop, hquiet⟩ := (Bool.and_eq_true _ _).mp hs
  exact ⟨s, hrun, published_of_served twoQt (fun _ => []) refreshed s hrun
    (MainPc.isLoop_iff.mp hloop) (of_decide_eq_true hquiet)⟩

end Program
