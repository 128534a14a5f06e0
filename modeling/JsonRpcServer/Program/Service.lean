import JsonRpcServer.Database.ObjectTree
import JsonRpcServer.Database.Page
import JsonRpcServer.Database.Signals
import JsonRpcServer.Framework.Linearizability
import JsonRpcServer.Rpc.Process

/-! # The Program

  `main` makes one `DatabaseObj` without children, gives it to the two
  servers and enters the event loop.

  ## Parties

  1. **Request threads** of the JSON-RPC server, one for each request.
     `invokeMethod` with a `Qt::BlockingQueuedConnection` posts an event to
     the main thread and waits until it has been processed.
  2. **Main thread**: takes the events in the order in which they were
     posted, and runs the methods of the object.
  3. **Refresh thread** and **clients of the html server**: as in the model
     of the pages, which is a part of the state here.

  A label is one step of one party. A method reads the properties when it is
  entered: nobody else writes them. What it does to the object then comes
  one effect after the other.

  The program is over when a method does what the language gives no meaning
  to, or when a response is stored outside its buffer.
-/

namespace Program

open Bytes JsonRPCServer JsonRPCErrorCodes DatabaseObj
open Json (Value)
open PingPong (ClientStep Page)

/-! ### Requests -/

/-- The methods of `DatabaseObj` that can be invoked. -/
inductive Method where
  | addProperty
  | deleteProperty
  | listProperties
  | setPropertyAttr
  | addChild
  | deleteChild
  | listChildren
  deriving DecidableEq, Repr

/-- Qt's part. -/
structure Qt where
  fromJson : Bytes → Option Value
  /-- What `invokeMethod` finds under a name. -/
  indexOfMethod : Bytes → Option Method
  types : MetaTypes
  api : VariantApi Value
  /-- `QMetaType::save` of the types that are not the program's own. -/
  saveOther : Bytes → Bytes

/-- A request that has been received. -/
structure Request where
  http_URI : Bytes
  req_body : Bytes
  /-- The memory a `Header` is built in. -/
  junk : Int

/-- The arguments of an `invokeMethod`. -/
structure Invocation where
  id : Int32
  method : Method
  params : List (Bytes × Value)
  junk : Int

/-- `processRequestPOST` up to `invokeMethod`. -/
def readRequest (fromJson : Bytes → Option Value) (req_body : Bytes) :
    Except JsonRPCErrorCodes (Int32 × Bytes × JsonRPCParams_t) :=
  match fromJson req_body with
  | none => .error ParseError
  | some doc =>
      let root_obj := QJsonValue.toObject doc
      if QJsonValue.toString (member root_obj (ascii "jsonrpc")) ≠ ascii "2.0" then
        .error InternalError
      else
        match requestId (member root_obj (ascii "id")) with
        | .error code => .error code
        | .ok id =>
            let val := member root_obj (ascii "method")
            if QJsonValue.isString val = false then .error InvalidRequest
            else .ok (id, CString.content (QJsonValue.toString val),
              QJsonValue.toObject (member root_obj (ascii "params")))

/-- `toVariantMap`: of the members of one name the last counts. -/
def toVariantMap (ms : JsonRPCParams_t) : List (Bytes × Value) := ms.reverse

/-- What a request thread does by itself: it sends a response, or it has
    found a method to invoke. -/
def prepare (qt : Qt) (req : Request) : Except Sending Invocation :=
  match soloRoot.resolve (targetPath req.http_URI) with
  | none => .error (sendJsonResponseError 0 ObjectNotFound)
  | some _ =>
      match readRequest qt.fromJson req.req_body with
      | .error code => .error (sendJsonResponseError 0 code)
      | .ok (id, name, params) =>
          match qt.indexOfMethod name with
          | none => .error (answer id none)
          | some method => .ok ⟨id, method, toVariantMap params, req.junk⟩

/-- The method on an object. The methods on children are stubs. -/
def Invocation.body (qt : Qt) (call : Invocation) (o : Object) : Body :=
  match call.method with
  | .addProperty => addPropertyBody qt.types qt.api call.junk call.params o
  | .deleteProperty => deletePropertyBody qt.api call.params o
  | .listProperties => listPropertiesBody o
  | .setPropertyAttr => setPropertyAttrBody qt.api call.junk call.params o
  | .addChild | .deleteChild | .listChildren => .ret ([], NoError)

/-! ### State -/

/-- Where the thread of a request stands. -/
inductive RequestPc where
  /-- The request has been received. -/
  | received (req : Request)
  /-- In `invokeMethod`. -/
  | waiting (req : Request) (id : Int32)
  /-- In front of the send loop. -/
  | sending (response : Sending)
  | finished

/-- An event posted by the thread of a request. -/
structure MetaCallEvent where
  thread : Nat
  call : Invocation

/-- Where the main thread stands. -/
inductive MainPc where
  /-- In the event loop. -/
  | loop
  /-- In a method, with these statements ahead. -/
  | inMethod (thread : Nat) (rest : Body)

def MainPc.isLoop : MainPc → Bool
  | .loop => true
  | .inMethod _ _ => false

structure State where
  objectName : Bytes
  /-- The properties, the pages, the refresh thread and the html clients. -/
  display : PingPong.State PropValue
  events : List MetaCallEvent
  main : MainPc
  threads : List RequestPc
  ended : Bool

/-- The servers listen; page files that exist keep their content. -/
def init (files : Page → Bytes) : State where
  objectName := ascii "DatabaseRoot"
  display := PingPong.init files
  events := []
  main := .loop
  threads := []
  ended := false

namespace State

/-- The object as its methods see it. -/
def object (s : State) : Object := ⟨s.objectName, s.display.table, s.display.refresh_semaphore⟩

/-- Move the thread of a request. -/
def setThread (s : State) (i : Nat) (pc : RequestPc) : State :=
  { s with threads := s.threads.set i pc }

end State

/-! ### Steps -/

inductive Label where
  /-- A request has arrived. -/
  | receive (req : Request)
  /-- The thread of a request works on it up to `invokeMethod`. -/
  | process (i : Nat)
  /-- The next step of the main thread. -/
  | exec
  /-- The thread of a request enters its send loop. -/
  | send (i : Nat)
  | refresh
  | getHTMLFile
  | client (i : Nat) (e : ClientStep)

section step

variable (qt : Qt)

/-- A step that only concerns the pages. -/
def displayStep (s : State) (l : PingPong.Label PropValue) : Option State :=
  (PingPong.step (save qt.saveOther) s.display l).map fun display =>
    { s with display := display }

/-- The page label of an effect. -/
def pageLabel : Effect → PingPong.Label PropValue
  | .setProperty name value => .setProperty name value
  | .notifyRefresh => .notifyRefresh

/-- An effect of a method. -/
def effectStep (s : State) (e : Effect) : Option State :=
  displayStep qt { s with objectName := (e.apply qt.types s.object).objectName } (pageLabel e)

/-- The event has been processed: its thread is released. -/
def returnTo (s : State) (i : Nat) (ret : Ret) : Option State :=
  match s.threads[i]? with
  | some (.waiting _ id) =>
      some { s.setThread i (.sending (answer id (some ret))) with main := .loop }
  | _ => none

/-- The next step of the main thread. -/
def execStep (s : State) : Option State :=
  match s.main, s.events with
  -- the loop waits for an event
  | .loop, [] => none
  | .loop, e :: events =>
      some { s with events := events, main := .inMethod e.thread (e.call.body qt s.object) }
  | .inMethod i (.effect e rest), _ =>
      (effectStep qt s e).map fun s => { s with main := .inMethod i rest }
  | .inMethod i (.ret ret), _ => returnTo s i ret
  | .inMethod _ .nullDeref, _ | .inMethod _ .badCast, _ => some { s with ended := true }

/-- The thread of a request works on it. -/
def processStep (s : State) (i : Nat) (req : Request) : State :=
  match prepare qt req with
  | .error response => s.setThread i (.sending response)
  | .ok call =>
      { s.setThread i (.waiting req call.id) with events := s.events ++ [⟨i, call⟩] }

def next (s : State) : Label → Option State
  | .receive req => some { s with threads := s.threads ++ [.received req] }
  | .process i =>
      match s.threads[i]? with
      | some (.received req) => some (processStep qt s i req)
      | _ => none
  | .exec => execStep qt s
  | .send i =>
      match s.threads[i]? with
      | some (.sending response) =>
          some { s.setThread i .finished with ended := decide (response = .fault) }
      | _ => none
  | .refresh => displayStep qt s .refresh
  | .getHTMLFile => displayStep qt s .getHTMLFile
  | .client i e => displayStep qt s (.client i e)

def step (s : State) (l : Label) : Option State := if s.ended then none else next qt s l

end step

/-! ### What the steps are -/

section cases

variable {qt : Qt}

theorem displayStep_eq_some_iff {s s' : State} {l : PingPong.Label PropValue} :
    displayStep qt s l = some s' ↔
      ∃ display, PingPong.step (save qt.saveOther) s.display l = some display ∧
        s' = { s with display := display } := by
  rw [displayStep, Option.map_eq_some_iff]
  simp only [eq_comm]

/-- A program that takes a step is not over. -/
theorem step_eq_some_iff {s s' : State} {l : Label} :
    step qt s l = some s' ↔ s.ended = false ∧ next qt s l = some s' := by
  rw [step, Option.ite_none_left_eq_some, Bool.not_eq_true]

theorem next_process {s s' : State} {i : Nat} (h : next qt s (.process i) = some s') :
    ∃ req, s.threads[i]? = some (.received req) ∧ s' = processStep qt s i req := by
  rw [next] at h
  split at h
  · next req hpc => exact ⟨req, hpc, (Option.some.inj h).symm⟩
  · cases h

theorem next_send {s s' : State} {i : Nat} (h : next qt s (.send i) = some s') :
    ∃ response, s.threads[i]? = some (.sending response) ∧
      s' = { s.setThread i .finished with ended := decide (response = .fault) } := by
  rw [next] at h
  split at h
  · next response hpc => exact ⟨response, hpc, (Option.some.inj h).symm⟩
  · cases h

/-- The labels of the pages. -/
def Label.page? : Label → Option (PingPong.Label PropValue)
  | .refresh => some .refresh
  | .getHTMLFile => some .getHTMLFile
  | .client i e => some (.client i e)
  | .receive _ | .process _ | .exec | .send _ => none

theorem next_page {s : State} {l : Label} {page : PingPong.Label PropValue}
    (h : l.page? = some page) : next qt s l = displayStep qt s page := by
  cases l with
  | refresh | getHTMLFile | client i e =>
    cases h
    rfl
  | receive | process | exec | send => cases h

theorem returnTo_eq_some {s s' : State} {i : Nat} {ret : Ret} (h : returnTo s i ret = some s') :
    ∃ req id, s.threads[i]? = some (.waiting req id) ∧
      s' = { s.setThread i (.sending (answer id (some ret))) with main := .loop } := by
  rw [returnTo] at h
  split at h
  · next req id hpc => exact ⟨req, id, hpc, (Option.some.inj h).symm⟩
  · cases h

theorem effectStep_eq_some_iff {s s' : State} {e : Effect} :
    effectStep qt s e = some s' ↔
      ∃ display, PingPong.step (save qt.saveOther) s.display (pageLabel e) = some display ∧
        s' = { s with
          objectName := (e.apply qt.types s.object).objectName
          display := display } := by
  rw [effectStep, displayStep_eq_some_iff]

/-- What the main thread can do: enter a method, do one effect of it, return
    from it, or end the program. -/
theorem execStep_cases {s s' : State} (h : execStep qt s = some s') :
    (∃ e events, s.main = .loop ∧ s.events = e :: events ∧
        s' = { s with events := events, main := .inMethod e.thread (e.call.body qt s.object) }) ∨
      (∃ i e rest s₁, s.main = .inMethod i (.effect e rest) ∧ effectStep qt s e = some s₁ ∧
        s' = { s₁ with main := .inMethod i rest }) ∨
      (∃ i ret, s.main = .inMethod i (.ret ret) ∧ returnTo s i ret = some s') ∨
      (∃ i, (s.main = .inMethod i .nullDeref ∨ s.main = .inMethod i .badCast) ∧
        s' = { s with ended := true }) := by
  unfold execStep at h
  split at h
  · cases h
  · next e events hmain hevents =>
    exact Or.inl ⟨e, events, hmain, hevents, (Option.some.inj h).symm⟩
  · next i e rest hmain =>
    obtain ⟨s₁, hstep, heq⟩ := Option.map_eq_some_iff.mp h
    exact Or.inr (Or.inl ⟨i, e, rest, s₁, hmain, hstep, heq.symm⟩)
  · next i ret hmain => exact Or.inr (Or.inr (Or.inl ⟨i, ret, hmain, h⟩))
  · next i hmain =>
    exact Or.inr (Or.inr (Or.inr ⟨i, Or.inl hmain, (Option.some.inj h).symm⟩))
  · next i hmain =>
    exact Or.inr (Or.inr (Or.inr ⟨i, Or.inr hmain, (Option.some.inj h).symm⟩))

end cases

/-! ### Threads -/

theorem MainPc.isLoop_iff {pc : MainPc} : pc.isLoop = true ↔ pc = .loop := by
  cases pc with
  | loop => exact iff_of_true rfl rfl
  | inMethod thread rest => exact iff_of_false Bool.false_ne_true nofun

section threads

variable {s : State} {i j : Nat} {pc pc' : RequestPc}

@[simp] theorem setThread_display (s : State) (i : Nat) (pc : RequestPc) :
    (s.setThread i pc).display = s.display := rfl

@[simp] theorem setThread_main (s : State) (i : Nat) (pc : RequestPc) :
    (s.setThread i pc).main = s.main := rfl

@[simp] theorem setThread_events (s : State) (i : Nat) (pc : RequestPc) :
    (s.setThread i pc).events = s.events := rfl

@[simp] theorem setThread_object (s : State) (i : Nat) (pc : RequestPc) :
    (s.setThread i pc).object = s.object := rfl

@[simp] theorem setThread_length (s : State) (i : Nat) (pc : RequestPc) :
    (s.setThread i pc).threads.length = s.threads.length := List.length_set

theorem setThread_self (h : s.threads[i]? = some pc') :
    (s.setThread i pc).threads[i]? = some pc := by
  obtain ⟨hlt, _⟩ := List.getElem?_eq_some_iff.mp h
  exact List.getElem?_set_self hlt

theorem setThread_ne (h : j ≠ i) : (s.setThread i pc).threads[j]? = s.threads[j]? :=
  List.getElem?_set_ne h.symm

/-- A thread has moved, or stands where it stood. -/
theorem setThread_cases (h : (s.setThread i pc).threads[j]? = some pc') :
    (j = i ∧ pc' = pc) ∨ (j ≠ i ∧ s.threads[j]? = some pc') := by
  by_cases hj : j = i
  · rw [hj] at h
    obtain ⟨hlt, hget⟩ := List.getElem?_eq_some_iff.mp h
    left
    refine ⟨hj, ?_⟩
    rw [← hget]
    exact List.getElem_set_self hlt
  · rw [setThread_ne hj] at h
    exact Or.inr ⟨hj, h⟩

/-- A new thread has the next number. -/
theorem receive_cases {req : Request}
    (h : (s.threads ++ [.received req])[j]? = some pc') :
    s.threads[j]? = some pc' ∨ (j = s.threads.length ∧ pc' = .received req) := by
  by_cases hj : j < s.threads.length
  · rw [List.getElem?_append_left hj] at h
    exact Or.inl h
  · rw [List.getElem?_append_right (by omega)] at h
    obtain ⟨hlt, hget⟩ := List.getElem?_eq_some_iff.mp h
    have hlt' : j - s.threads.length < 1 := by simpa using hlt
    right
    exact ⟨by omega, by simpa using hget.symm⟩

end threads

end Program
