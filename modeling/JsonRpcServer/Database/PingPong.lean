import JsonRpcServer.Database.Properties
import JsonRpcServer.Framework.System
import Mathlib.Data.List.Basic
import Mathlib.Logic.Function.Basic

/-! # Ping-Pong Pages

  The html page of a `DatabaseObj` is kept in two files. Clients read the
  valid one while the refresh thread rewrites the other and then flips
  `ping_pong_state_`.

  ## Parties

  1. **Mutator**: the main thread, one call at a time. A call changes the
     properties and then notifies the refresh thread.
  2. **Refresh thread**: on each timer tick it takes a token of
     `refresh_semaphore_` if there is one, and runs `refreshHtml`.
  3. **Clients**: any number of request threads of the html server, each
     between `getHTMLFile` and the end of its `PingPongClientAccess`.

  A label is one step of one party. The steps are those between which
  another party can be seen: an access to an atomic, to a semaphore, to a
  file, or to the properties. Only the refresh thread takes
  `ping_pong_lock_`, so it has no label.

  Values of properties are abstract. `render` is what `QMetaType::save`
  writes for one.
-/

namespace DatabaseObj.PingPong

open Bytes

/-! ### Pages -/

/-- The entries of `html_ping_pong_`. -/
inductive Page where
  | page0
  | page1
  deriving DecidableEq, Repr

/-- The value of `ping_pong_state_`. -/
structure StatesPair where
  first : Bool
  second : Bool
  deriving DecidableEq, Repr

namespace StatesPair

/-- `StatesPair()`. -/
def initial : StatesPair := ⟨true, false⟩

def flip (state : StatesPair) : StatesPair := ⟨state.second, state.first⟩

/-- The page `getHTMLFile` selects. -/
def valid (state : StatesPair) : Page := if state.first then .page0 else .page1

/-- The page `refreshHtml` selects. -/
def invalid (state : StatesPair) : Page := if state.first then .page1 else .page0

theorem valid_ne_invalid (state : StatesPair) : state.valid ≠ state.invalid := by
  rw [valid, invalid]
  cases state.first <;> decide

end StatesPair

/-- A page file and the semaphore beside it. What is written to the file is
    visible at once. -/
structure HtmlFileIO where
  content : Bytes
  semaphores : Nat
  deriving DecidableEq, Repr

namespace HtmlFileIO

def release (page : HtmlFileIO) : HtmlFileIO := { page with semaphores := page.semaphores + 1 }

def acquire (page : HtmlFileIO) : HtmlFileIO := { page with semaphores := page.semaphores - 1 }

def truncate (page : HtmlFileIO) : HtmlFileIO := { page with content := [] }

def write (data : Bytes) (page : HtmlFileIO) : HtmlFileIO :=
  { page with content := page.content ++ data }

end HtmlFileIO

/-- Written without its NUL. -/
def head : Bytes := ascii "<!DOCTYPE html>\n<html>\n<body>\n"

/-- Written with its NUL. -/
def tail : Bytes := ascii "</body>\n</html>\n" ++ [0]

/-! ### Parties -/

/-- Where the refresh thread stands. -/
inductive Refresher where
  /-- Between two ticks. -/
  | idle
  /-- At the start of `refreshHtml`. -/
  | started
  /-- In the loop on the semaphore of the invalid page. -/
  | waiting (state : StatesPair)
  | truncating (state : StatesPair)
  | head (state : StatesPair)
  /-- In front of `dynamicPropertyNames`. -/
  | names (state : StatesPair)
  /-- The names still to be written. -/
  | rows (state : StatesPair) (names : List Bytes)
  /-- The file is closed. -/
  | publishing (state : StatesPair)
  deriving DecidableEq, Repr

/-- The copy of `ping_pong_state_` a running refresh works with. -/
def Refresher.state? : Refresher → Option StatesPair
  | .idle | .started => none
  | .waiting state | .truncating state | .head state | .names state | .rows state _
  | .publishing state => some state

/-- The page the refresh thread is truncating or writing. -/
def Refresher.writing : Refresher → Option Page
  | .idle | .started | .waiting _ | .publishing _ => none
  | .truncating state | .head state | .names state | .rows state _ => some state.invalid

inductive Mutator where
  | idle
  /-- The properties are changed, the notification is due. -/
  | written
  deriving DecidableEq, Repr

/-- Where a client of the html server stands. -/
inductive ClientPc where
  /-- It has selected its page. -/
  | selected
  /-- It has opened the file and taken its size. -/
  | opened
  /-- The constructor of `PingPongClientAccess` is done. -/
  | reading
  /-- `sendfile` has found the end of the file too early. -/
  | leaving
  /-- The destructor of `PingPongClientAccess` is done. -/
  | destroyed
  deriving DecidableEq, Repr

structure Client where
  page : Page
  pc : ClientPc
  length_ : Nat
  /-- The bytes sent behind the header of the response. -/
  sent : Bytes
  /-- The content of the file when `length_` was taken. -/
  announced : Bytes
  deriving DecidableEq, Repr

/-- The client has selected its page and is not done with it. -/
def Client.Live (c : Client) : Prop := c.pc ≠ .destroyed

/-- The client is between its `release` and its `acquire`. -/
def Client.Holds (c : Client) (p : Page) : Prop :=
  c.page = p ∧ (c.pc = .reading ∨ c.pc = .leaving)

instance (c : Client) : Decidable c.Live := inferInstanceAs (Decidable (_ ≠ _))

instance (c : Client) (p : Page) : Decidable (c.Holds p) := inferInstanceAs (Decidable (_ ∧ _))

/-! ### State -/

variable {V : Type}

structure State (V : Type) where
  table : Table V
  refresh_semaphore : Nat
  ping_pong_state : StatesPair
  html_ping_pong : Page → HtmlFileIO
  mutator : Mutator
  refresher : Refresher
  clients : List Client

/-- After the constructor. Page files that exist keep their content. -/
def init (files : Page → Bytes) : State V where
  table := []
  refresh_semaphore := 0
  ping_pong_state := .initial
  html_ping_pong := fun p => ⟨files p, 0⟩
  mutator := .idle
  refresher := .idle
  clients := []

namespace State

/-- Change one page. -/
def modifyPage (s : State V) (p : Page) (f : HtmlFileIO → HtmlFileIO) : State V :=
  { s with html_ping_pong := Function.update s.html_ping_pong p (f (s.html_ping_pong p)) }

/-- Move the refresh thread. -/
def goto (s : State V) (pc : Refresher) : State V := { s with refresher := pc }

/-- Change one client. -/
def setClient (s : State V) (i : Nat) (c : Client) : State V :=
  { s with clients := s.clients.set i c }

/-- Number of clients between `release` and `acquire` on a page. -/
def readers (s : State V) (p : Page) : Nat := s.clients.countP fun c => c.Holds p

end State

/-! ### Steps -/

/-- Steps of a client. -/
inductive ClientStep where
  /-- `fopen` and `size`. -/
  | openFile
  /-- The constructor of `PingPongClientAccess`. -/
  | release
  /-- `sendfile`, with room for `k + 1` bytes in the socket. -/
  | sendfile (k : Nat)
  /-- The destructor of `PingPongClientAccess`, at the end of the response or
      after a failure of the connection. -/
  | acquire
  deriving DecidableEq, Repr

inductive Label (V : Type) where
  /-- A call changes the properties; `none` deletes one. -/
  | setProperty (name : Bytes) (value : Option V)
  | notifyRefresh
  /-- The next step of the refresh thread. -/
  | refresh
  /-- A client loads `ping_pong_state_` and selects its page. -/
  | getHTMLFile
  | client (i : Nat) (e : ClientStep)

section step

variable (render : V → Bytes)

/-- The next step of the refresh thread. -/
def refreshStep (s : State V) : State V :=
  match s.refresher with
  | .idle =>
      if 0 < s.refresh_semaphore then
        { s with refresh_semaphore := s.refresh_semaphore - 1, refresher := .started }
      else s
  | .started => s.goto (.waiting s.ping_pong_state)
  | .waiting state =>
      -- `while(page.semaphores.try_acquire());`
      if 0 < (s.html_ping_pong state.invalid).semaphores then s.modifyPage state.invalid .acquire
      else s.goto (.truncating state)
  | .truncating state => (s.modifyPage state.invalid .truncate).goto (.head state)
  | .head state => (s.modifyPage state.invalid (.write head)).goto (.names state)
  | .names state => s.goto (.rows state s.table.dynamicPropertyNames)
  | .rows state [] => (s.modifyPage state.invalid (.write tail)).goto (.publishing state)
  | .rows state (name :: names) =>
      -- a property that is gone has the invalid type, which saves nothing
      (s.modifyPage state.invalid (.write ((s.table.property name).elim [] render))).goto
        (.rows state names)
  | .publishing state => { s with ping_pong_state := state.flip, refresher := .idle }

/-- The next bytes `sendfile` takes from the file of a client. -/
def Client.chunk (c : Client) (content : Bytes) (k : Nat) : Bytes :=
  (content.drop c.sent.length).take (min (k + 1) (c.length_ - c.sent.length))

/-- A step of the client `c` at index `i`. -/
def clientStep (s : State V) (i : Nat) (c : Client) : ClientStep → Option (State V)
  | .openFile =>
      if c.pc = .selected then
        some (s.setClient i { c with
          pc := .opened
          length_ := (s.html_ping_pong c.page).content.length
          announced := (s.html_ping_pong c.page).content })
      else none
  | .release =>
      if c.pc = .opened then
        some ((s.modifyPage c.page .release).setClient i { c with pc := .reading })
      else none
  | .sendfile k =>
      if c.pc = .reading ∧ c.sent.length < c.length_ then
        match c.chunk (s.html_ping_pong c.page).content k with
        | [] => some (s.setClient i { c with pc := .leaving })
        | x :: xs => some (s.setClient i { c with sent := c.sent ++ x :: xs })
      else none
  | .acquire =>
      -- blocks at zero
      if (c.pc = .reading ∨ c.pc = .leaving) ∧ 0 < (s.html_ping_pong c.page).semaphores then
        some ((s.modifyPage c.page .acquire).setClient i { c with pc := .destroyed })
      else none

def step (s : State V) : Label V → Option (State V)
  | .setProperty name value =>
      if s.mutator = .idle then
        -- `objectName` is a declared property and has no row on the page
        some { s with
          table := if name = ascii "objectName" then s.table else s.table.setProperty name value
          mutator := .written }
      else none
  | .notifyRefresh =>
      if s.mutator = .written then
        some { s with refresh_semaphore := s.refresh_semaphore + 1, mutator := .idle }
      else none
  | .refresh => some (refreshStep render s)
  | .getHTMLFile =>
      some { s with clients := s.clients ++ [⟨s.ping_pong_state.valid, .selected, 0, [], []⟩] }
  | .client i e => s.clients[i]?.bind fun c => clientStep s i c e

/-- The copy of `ping_pong_state_` of a refresh whose wait loop is about to
    call `try_acquire`. -/
def testing (s : State V) : Label V → Option StatesPair
  | .refresh =>
      match s.refresher with
      | .waiting state => some state
      | _ => none
  | _ => none

theorem testing_refresh {s : State V} {state : StatesPair} :
    state ∈ testing s .refresh ↔ s.refresher = .waiting state := by
  rw [testing, Option.mem_def]
  cases s.refresher <;> simp

/-! ### What a step leaves unchanged -/

section frame

variable {render}

@[simp] theorem modifyPage_refresher (s : State V) (p : Page) (f : HtmlFileIO → HtmlFileIO) :
    (s.modifyPage p f).refresher = s.refresher := rfl

theorem modifyPage_html_ping_pong (s : State V) (p p' : Page) (f : HtmlFileIO → HtmlFileIO) :
    (s.modifyPage p f).html_ping_pong p' =
      if p' = p then f (s.html_ping_pong p) else s.html_ping_pong p' := by
  simp only [State.modifyPage, Function.update_apply]

/-- What is written to a page joins its content. -/
theorem modifyPage_write_content (s : State V) (p : Page) (data : Bytes) :
    ((s.modifyPage p (.write data)).html_ping_pong p).content =
      (s.html_ping_pong p).content ++ data := by
  rw [modifyPage_html_ping_pong, if_pos rfl]
  rfl

@[simp] theorem setClient_clients (s : State V) (i : Nat) (c : Client) :
    (s.setClient i c).clients = s.clients.set i c := rfl

@[simp] theorem setClient_html_ping_pong (s : State V) (i : Nat) (c : Client) :
    (s.setClient i c).html_ping_pong = s.html_ping_pong := rfl

/-- A change that keeps the content of a page keeps that of all pages. -/
theorem modifyPage_content {s : State V} {p : Page} {f : HtmlFileIO → HtmlFileIO}
    (hf : ∀ page, (f page).content = page.content) (p' : Page) :
    ((s.modifyPage p f).html_ping_pong p').content = (s.html_ping_pong p').content := by
  rw [modifyPage_html_ping_pong]
  split
  · next h => rw [hf, h]
  · rfl

/-- A change that keeps the semaphore of a page keeps that of all pages. -/
theorem modifyPage_semaphores {s : State V} {p : Page} {f : HtmlFileIO → HtmlFileIO}
    (hf : ∀ page, (f page).semaphores = page.semaphores) (p' : Page) :
    ((s.modifyPage p f).html_ping_pong p').semaphores = (s.html_ping_pong p').semaphores := by
  rw [modifyPage_html_ping_pong]
  split
  · next h => rw [hf, h]
  · rfl

theorem refreshStep_clients (s : State V) : (refreshStep render s).clients = s.clients := by
  rw [refreshStep.eq_def]
  split <;> first | rfl | (split <;> rfl)

/-- The page being written is the invalid one. -/
theorem writing_eq_invalid {pc : Refresher} {p : Page} (h : pc.writing = some p) :
    ∃ state, pc.state? = some state ∧ p = state.invalid := by
  cases pc with
  | idle => cases h
  | started => cases h
  | waiting state => cases h
  | publishing state => cases h
  | truncating state | head state | names state | rows state names =>
    exact ⟨state, rfl, (Option.some.inj h).symm⟩

/-- The refresh thread changes the file only of the page it is writing. -/
theorem refreshStep_content {s : State V} {p : Page} (h : s.refresher.writing ≠ some p) :
    ((refreshStep render s).html_ping_pong p).content = (s.html_ping_pong p).content := by
  have hother : ∀ (state : StatesPair) (f : HtmlFileIO → HtmlFileIO),
      s.refresher.writing = some state.invalid →
        (s.modifyPage state.invalid f).html_ping_pong p = s.html_ping_pong p := by
    intro state f hw
    rw [modifyPage_html_ping_pong, if_neg fun hp : p = state.invalid => h (hp ▸ hw)]
  rw [refreshStep.eq_def]
  split
  · split <;> rfl
  · rfl
  · split
    · exact modifyPage_content (f := .acquire) (fun _ => rfl) p
    · rfl
  · next state hpc => exact congrArg _ (hother state _ (by rw [hpc]; rfl))
  · next state hpc => exact congrArg _ (hother state _ (by rw [hpc]; rfl))
  · rfl
  · next state hpc => exact congrArg _ (hother state _ (by rw [hpc]; rfl))
  · next state name names hpc => exact congrArg _ (hother state _ (by rw [hpc]; rfl))
  · rfl

/-- A refresh takes its copy of `ping_pong_state_` once, and drops it in the
    step that stores a new value. -/
theorem refreshStep_state? (s : State V) :
    (refreshStep render s).refresher.state? = none ∨
      ((refreshStep render s).ping_pong_state = s.ping_pong_state ∧
        ((refreshStep render s).refresher.state? = s.refresher.state? ∨
          (refreshStep render s).refresher.state? = some s.ping_pong_state)) := by
  rw [refreshStep.eq_def]
  split
  · next hpc =>
    split
    · exact Or.inl rfl
    · exact Or.inl (by rw [hpc]; rfl)
  · exact Or.inr ⟨rfl, Or.inr rfl⟩
  · next hpc =>
    split
    · exact Or.inr ⟨rfl, Or.inl rfl⟩
    · exact Or.inr ⟨rfl, Or.inl (by rw [hpc]; rfl)⟩
  · next hpc => exact Or.inr ⟨rfl, Or.inl (by rw [hpc]; rfl)⟩
  · next hpc => exact Or.inr ⟨rfl, Or.inl (by rw [hpc]; rfl)⟩
  · next hpc => exact Or.inr ⟨rfl, Or.inl (by rw [hpc]; rfl)⟩
  · next hpc => exact Or.inr ⟨rfl, Or.inl (by rw [hpc]; rfl)⟩
  · next hpc => exact Or.inr ⟨rfl, Or.inl (by rw [hpc]; rfl)⟩
  · exact Or.inl rfl

/-- The refresh thread changes a semaphore only when its wait loop finds a
    token. -/
theorem refreshStep_semaphores {s : State V}
    (h : ∀ state, s.refresher = .waiting state →
      (s.html_ping_pong state.invalid).semaphores = 0) (p : Page) :
    ((refreshStep render s).html_ping_pong p).semaphores = (s.html_ping_pong p).semaphores := by
  rw [refreshStep.eq_def]
  split
  · split <;> rfl
  · rfl
  · next state hpc =>
    rw [if_neg (by have := h state hpc; omega)]
    rfl
  · exact modifyPage_semaphores (f := .truncate) (fun _ => rfl) p
  · exact modifyPage_semaphores (f := .write head) (fun _ => rfl) p
  · rfl
  · exact modifyPage_semaphores (f := .write tail) (fun _ => rfl) p
  · exact modifyPage_semaphores (f := .write _) (fun _ => rfl) p
  · rfl

/-- A mutator begins when none is between its two steps. -/
theorem step_setProperty {s s' : State V} {name : Bytes} {value : Option V}
    (h : step render s (.setProperty name value) = some s') :
    s.mutator = .idle ∧ s' = { s with
      table := if name = ascii "objectName" then s.table else s.table.setProperty name value
      mutator := .written } := by
  rw [step, Option.ite_none_right_eq_some] at h
  exact ⟨h.1, (Option.some.inj h.2).symm⟩

/-- It ends with a release of the semaphore. -/
theorem step_notifyRefresh {s s' : State V} (h : step render s .notifyRefresh = some s') :
    s.mutator = .written ∧
      s' = { s with refresh_semaphore := s.refresh_semaphore + 1, mutator := .idle } := by
  rw [step, Option.ite_none_right_eq_some] at h
  exact ⟨h.1, (Option.some.inj h.2).symm⟩

/-- A client that takes a step is there. -/
theorem step_client {s s' : State V} {i : Nat} {e : ClientStep}
    (h : step render s (.client i e) = some s') :
    ∃ c, s.clients[i]? = some c ∧ clientStep s i c e = some s' := by
  rw [step, Option.bind_eq_some_iff] at h
  exact h

/-- What a client can do: move on by itself, announce that it reads, or
    withdraw that. -/
theorem clientStep_cases {s s' : State V} {i : Nat} {c : Client} {e : ClientStep}
    (h : clientStep s i c e = some s') :
    (c.pc = .selected ∧ e = .openFile ∧ s' = s.setClient i { c with
        pc := .opened
        length_ := (s.html_ping_pong c.page).content.length
        announced := (s.html_ping_pong c.page).content }) ∨
      (c.pc = .opened ∧ e = .release ∧
        s' = (s.modifyPage c.page .release).setClient i { c with pc := .reading }) ∨
      (∃ k, c.pc = .reading ∧ e = .sendfile k ∧ c.sent.length < c.length_ ∧
        s' = s.setClient i { c with
          pc := if c.chunk (s.html_ping_pong c.page).content k = [] then .leaving else .reading
          sent := c.sent ++ c.chunk (s.html_ping_pong c.page).content k }) ∨
      ((c.pc = .reading ∨ c.pc = .leaving) ∧ e = .acquire ∧
        0 < (s.html_ping_pong c.page).semaphores ∧
        s' = (s.modifyPage c.page .acquire).setClient i { c with pc := .destroyed }) := by
  cases e with
  | openFile =>
    simp only [clientStep, Option.ite_none_right_eq_some, Option.some.injEq] at h
    exact Or.inl ⟨h.1, rfl, h.2.symm⟩
  | release =>
    simp only [clientStep, Option.ite_none_right_eq_some, Option.some.injEq] at h
    exact Or.inr (Or.inl ⟨h.1, rfl, h.2.symm⟩)
  | sendfile k =>
    rw [clientStep, Option.ite_none_right_eq_some] at h
    obtain ⟨⟨hpc, hlen⟩, h⟩ := h
    refine Or.inr (Or.inr (Or.inl ⟨k, hpc, rfl, hlen, ?_⟩))
    split at h
    · next hchunk =>
      rw [hchunk, if_pos rfl, List.append_nil]
      exact (Option.some.inj h).symm
    · next x xs hchunk =>
      rw [hchunk, if_neg (by simp), ← hpc]
      exact (Option.some.inj h).symm
  | acquire =>
    rw [clientStep, Option.ite_none_right_eq_some] at h
    obtain ⟨⟨hpc, hpos⟩, h⟩ := h
    exact Or.inr (Or.inr (Or.inr ⟨hpc, rfl, hpos, (Option.some.inj h).symm⟩))

end frame

end step

end DatabaseObj.PingPong
