import JsonRpcServer.Database.ObjectTree
import JsonRpcServer.Http.SendLoop

/-! # Page Files

  Both servers open a file for a GET request: the JSON-RPC server its form,
  the html server the page of the object that is asked for. A request is
  left in many places, by a return or by an exception out of a send loop,
  and what closes the file is the destructor of the local variable that
  holds it.

  The constructor of `DatabaseObj` holds its files in an
  `autoCloseFileOutPtr`. `processRequestGET` of the JSON-RPC server holds a
  plain `FILE *`, and `getHTMLFile` returns a `PingPongClientAccess`, which
  has a destructor for the semaphore only.

  A destructor that waits for the semaphore is a request that has not ended
  yet: its next step may come at any time or never.

  ## Main results

  * `files_balanced_iff`: in every state of a run, every request that has
    ended has closed its file once, and no file is open when no request is in
    progress, exactly when none of the requests that have ended had a file.
-/

namespace FileHandles

open Bytes Printf SendCode System

/-! ### Messages -/

inductive StatusCodes where
  | OK
  | BAD_REQUEST
  | NOT_FOUND
  | METHOD_NOT_ALLOWED
  | INTERNAL_SERVER_ERROR
  deriving DecidableEq, Repr

def StatusCodes.value : StatusCodes → Int
  | .OK => 200
  | .BAD_REQUEST => 400
  | .NOT_FOUND => 404
  | .METHOD_NOT_ALLOWED => 405
  | .INTERNAL_SERVER_ERROR => 500

def getReasonPhrase : StatusCodes → Bytes
  | .OK => ascii "OK"
  | .BAD_REQUEST => ascii "Bad Request"
  | .NOT_FOUND => ascii "Not Found"
  | .METHOD_NOT_ALLOWED => ascii "Method Not Allowed"
  | .INTERNAL_SERVER_ERROR => ascii "Internal Server Error"

def getConnectionText (close : Bool) : Bytes := if close = true then ascii "close" else []

/-- `HTTPTemplates::html_get_response_fmt`. -/
def html_get_response_fmt : Bytes :=
  ascii "HTTP/1.1 %d %s\r\nVersion: HTTP/1.1\r\nContent-Type: text/html; charset=utf-8\r\nContent-Length: %lu\r\nConnection: %s\r\n\r\n"

/-- `HTTPTemplates::html_error_response_fmt`. -/
def html_error_response_fmt : Bytes :=
  ascii "HTTP/1.1 %d %s\r\nVersion: HTTP/1.1\r\nConnection: %s\r\n\r\n"

/-- The head in front of a file. -/
def fileHead (code : StatusCodes) (content_len : Nat) (close : Bool) : Bytes :=
  format html_get_response_fmt [.int code.value, .str (getReasonPhrase code), .int content_len,
    .str (getConnectionText close)]

/-- The response without a file. -/
def errorHead (code : StatusCodes) (close : Bool) : Bytes :=
  format html_error_response_fmt [.int code.value, .str (getReasonPhrase code),
    .str (getConnectionText close)]

/-! ### Requests -/

/-- The types of the variables that hold a `FILE *`. -/
inductive Holder where
  /-- `FILE *form`. -/
  | pointer
  | pingPongClientAccess
  | autoCloseFileOutPtr
  deriving DecidableEq, Repr

/-- The destructor calls `fclose`. -/
def Holder.closes : Holder → Bool
  | .pointer | .pingPongClientAccess => false
  | .autoCloseFileOutPtr => true

/-- Where a request stands. A file is given by its number and its content. -/
inductive Phase (Obj : Type) where
  /-- `JsonRPCServer::processRequestGET`: the first loop. -/
  | formHead (st : SendLoop)
  /-- In front of `fopen`. -/
  | openForm
  | form (file : Nat) (f : Bytes) (st : SendLoop)
  /-- `HtmlServer::processRequestGET`: in front of the search for the object. -/
  | resolving
  /-- In front of `getHTMLFile`. -/
  | getHTMLFile (resource : Obj)
  /-- `sendResponse<NOT_FOUND>`, in front of an exception. -/
  | notFound (st : SendLoop)
  /-- `sendResponse<OK>`: its two loops. -/
  | pageHead (file : Nat) (f : Bytes) (length_ : Nat) (st : SendLoop)
  | pageFile (file : Nat) (f : Bytes) (length_ : Nat) (st : SendLoop)
  /-- In front of the destructors, with the report of a loop if one has
      thrown. -/
  | leaving (holder : Option (Holder × Nat)) (report : Option Report)
  | ended (file : Option Nat) (report : Option Report)

/-- The file the request has opened. -/
def Phase.file? {Obj : Type} : Phase Obj → Option Nat
  | .formHead _ | .openForm | .resolving | .getHTMLFile _ | .notFound _ => none
  | .form file _ _ | .pageHead file _ _ _ | .pageFile file _ _ _ => some file
  | .leaving holder _ => holder.map Prod.snd
  | .ended file _ => file

/-- A GET request; `uri` is for the html server. -/
structure Request (Obj : Type) where
  close : Bool
  uri : List Bytes
  phase : Phase Obj

/-- The request is not in progress any more. -/
def Request.Ended {Obj : Type} (r : Request Obj) : Prop :=
  ∃ file report, r.phase = .ended file report

/-! ### Steps -/

variable {Obj : Type}

structure State (Obj : Type) where
  /-- For each `FILE` that has been opened, how often it has been closed. -/
  files : List Nat
  requests : List (Request Obj)

def init : State Obj := ⟨[], []⟩

/-- Number of open `FILE`s. -/
def State.openFiles (s : State Obj) : Nat := s.files.countP fun closed => closed = 0

/-- What the environment answers to a request. -/
inductive Event where
  /-- A turn of a send loop. -/
  | turn (i : SendTurn)
  /-- `fopen`, with the content of the file if it succeeds, and the size the
      page file has then. -/
  | fopen (f : Option Bytes) (size : Nat)
  /-- A step that asks for nothing. -/
  | go

/-- Behind a turn of a loop: the loop goes on, is left by its condition, or
    has thrown. A loop that has left its buffer goes nowhere. -/
def afterTurn (stay : SendLoop → Phase Obj) (next : Phase Obj)
    (holder : Option (Holder × Nat)) : SendLoop → Phase Obj
  | .left none _ => next
  | .left (some report) _ => .leaving holder (some report)
  | .looping s => stay (.looping s)
  | .fault => stay .fault

/-- `processRequestGET` of the JSON-RPC server behind the first loop. -/
def formHeadTurn : SendLoop → Phase Obj :=
  afterTurn .formHead .openForm none

/-- The second loop, and the end of `processRequestGET`. -/
def formTurn (file : Nat) (f : Bytes) : SendLoop → Phase Obj :=
  afterTurn (.form file f) (.leaving (some (.pointer, file)) none) (some (.pointer, file))

/-- `sendResponse<NOT_FOUND>`; an exception follows it. -/
def notFoundTurn : SendLoop → Phase Obj := afterTurn .notFound (.leaving none none) none

/-- The second loop of `sendResponse<OK>`, and the end of
    `processRequestGET`. -/
def pageFileTurn (file : Nat) (f : Bytes) (length_ : Nat) : SendLoop → Phase Obj :=
  afterTurn (.pageFile file f length_) (.leaving (some (.pingPongClientAccess, file)) none)
    (some (.pingPongClientAccess, file))

/-- The first loop of `sendResponse<OK>`. -/
def pageHeadTurn (file : Nat) (f : Bytes) (length_ : Nat) : SendLoop → Phase Obj :=
  afterTurn (.pageHead file f length_)
    (pageFileTurn file f length_ (HtmlServer.sendResponseFile f length_).start)
    (some (.pingPongClientAccess, file))

/-- The destructor of the variable that holds the file. -/
def destroy (files : List Nat) : Option (Holder × Nat) → List Nat
  | some (holder, file) => if holder.closes = true then files.modify file (· + 1) else files
  | none => files

section step

variable (objs : ObjectTree Obj) (JSON_HTML_SIZE : Nat)

/-- The next step of a request: the table of `FILE`s, and where the request
    stands then. -/
def requestStep (files : List Nat) (r : Request Obj) (e : Event) :
    Option (List Nat × Phase Obj) :=
  match r.phase, e with
  | .formHead st, .turn i =>
      ((JsonRPCServer.processRequestGETHead (fileHead .OK JSON_HTML_SIZE true)).step st i).map
        fun st' => (files, formHeadTurn st')
  -- "Can't open jsonrpc.html"
  | .openForm, .fopen none _ => some (files, .leaving none none)
  | .openForm, .fopen (some f) _ =>
      some (files ++ [0], formTurn files.length f
        (JsonRPCServer.processRequestGETForm f JSON_HTML_SIZE).start)
  | .form file f st, .turn i =>
      ((JsonRPCServer.processRequestGETForm f JSON_HTML_SIZE).step st i).map
        fun st' => (files, formTurn file f st')
  | .resolving, .go =>
      match objs.resolve r.uri with
      | none => some (files, notFoundTurn
          (HtmlServer.sendResponseHead (errorHead .NOT_FOUND r.close)).start)
      | some resource => some (files, .getHTMLFile resource)
  | .getHTMLFile _, .fopen none _ =>
      some (files, notFoundTurn (HtmlServer.sendResponseHead (errorHead .NOT_FOUND r.close)).start)
  | .getHTMLFile _, .fopen (some f) size =>
      some (files ++ [0], pageHeadTurn files.length f size
        (HtmlServer.sendResponseHead (fileHead .OK size r.close)).start)
  | .notFound st, .turn i =>
      ((HtmlServer.sendResponseHead (errorHead .NOT_FOUND r.close)).step st i).map
        fun st' => (files, notFoundTurn st')
  | .pageHead file f length_ st, .turn i =>
      ((HtmlServer.sendResponseHead (fileHead .OK length_ r.close)).step st i).map
        fun st' => (files, pageHeadTurn file f length_ st')
  | .pageFile file f length_ st, .turn i =>
      ((HtmlServer.sendResponseFile f length_).step st i).map
        fun st' => (files, pageFileTurn file f length_ st')
  | .leaving holder report, .go =>
      some (destroy files holder, .ended (holder.map Prod.snd) report)
  | _, _ => none

inductive Label where
  /-- The JSON-RPC server gets a GET request. -/
  | getForm
  /-- The html server gets a GET request. -/
  | getPage (close : Bool) (uri : List Bytes)
  /-- The next step of a request. -/
  | request (j : Nat) (e : Event)
  /-- The constructor of a `DatabaseObj` opens both page files. -/
  | construct

/-- Open a file in a variable that closes it. -/
def openAndClose (files : List Nat) : List Nat :=
  destroy (files ++ [0]) (some (.autoCloseFileOutPtr, files.length))

def step (s : State Obj) : Label → Option (State Obj)
  | .getForm =>
      some { s with requests := s.requests ++ [⟨true, [], formHeadTurn
        (JsonRPCServer.processRequestGETHead (fileHead .OK JSON_HTML_SIZE true)).start⟩] }
  | .getPage close uri => some { s with requests := s.requests ++ [⟨close, uri, .resolving⟩] }
  | .request j e =>
      s.requests[j]?.bind fun r =>
        (requestStep objs JSON_HTML_SIZE s.files r e).map fun (files, phase) =>
          ⟨files, s.requests.set j { r with phase }⟩
  | .construct => some { s with files := openAndClose (openAndClose s.files) }

end step

/-! ### The property -/

/-- Every request that has ended has closed its file once, and no file is
    open when no request is in progress. -/
def Balanced (s : State Obj) : Prop :=
  (∀ r ∈ s.requests, ∀ file report, r.phase = .ended (some file) report →
      s.files[file]? = some 1) ∧
    ((∀ r ∈ s.requests, r.Ended) → s.openFiles = 0)

/-- None of the requests that have ended had a file. -/
def EndedWithoutFile (s : State Obj) : Prop :=
  ∀ r ∈ s.requests, r.Ended → r.phase.file? = none

/-! ### What a step does -/

/-- The request holds this file, in a variable that does not close it. -/
structure Phase.Holds (p : Phase Obj) (file : Option Nat) : Prop where
  file?_eq : p.file? = file
  keeps : ∀ holder k report, p = .leaving (some (holder, k)) report → holder.closes = false

theorem holds_leaving {holder : Holder} (h : holder.closes = false) (file : Nat)
    (report : Option Report) :
    (Phase.leaving (some (holder, file)) report : Phase Obj).Holds (some file) where
  file?_eq := rfl
  keeps holder' k report' heq := by
    injection heq with heq _
    injection heq with heq
    exact (Prod.mk.inj heq).1 ▸ h

/-- A loop with a file in front of it, in it and behind it. -/
theorem afterTurn_holds {stay : SendLoop → Phase Obj} {next : Phase Obj} {holder : Holder}
    {file : Nat} (hholder : holder.closes = false) (hstay : ∀ st, (stay st).Holds (some file))
    (hnext : next.Holds (some file)) (st : SendLoop) :
    (afterTurn stay next (some (holder, file)) st).Holds (some file) := by
  unfold afterTurn
  split
  · exact hnext
  · exact holds_leaving hholder file _
  · exact hstay _
  · exact hstay _

/-- A loop without a file. -/
theorem afterTurn_holds_none {stay : SendLoop → Phase Obj} {next : Phase Obj}
    (hstay : ∀ st, (stay st).Holds none) (hnext : next.Holds none) (st : SendLoop) :
    (afterTurn stay next none st).Holds none := by
  unfold afterTurn
  split
  · exact hnext
  · exact ⟨rfl, nofun⟩
  · exact hstay _
  · exact hstay _

theorem formHeadTurn_holds (st : SendLoop) : (formHeadTurn st : Phase Obj).Holds none := by
  unfold formHeadTurn
  refine afterTurn_holds_none (fun _ => ?_) ?_ st
  · exact ⟨rfl, nofun⟩
  · exact ⟨rfl, nofun⟩

theorem notFoundTurn_holds (st : SendLoop) : (notFoundTurn st : Phase Obj).Holds none := by
  unfold notFoundTurn
  refine afterTurn_holds_none (fun _ => ?_) ?_ st
  · exact ⟨rfl, nofun⟩
  · exact ⟨rfl, nofun⟩

theorem formTurn_holds (file : Nat) (f : Bytes) (st : SendLoop) :
    (formTurn file f st : Phase Obj).Holds (some file) := by
  unfold formTurn
  refine afterTurn_holds rfl (fun _ => ?_) (holds_leaving rfl file none) st
  exact ⟨rfl, nofun⟩

theorem pageFileTurn_holds (file : Nat) (f : Bytes) (length_ : Nat) (st : SendLoop) :
    (pageFileTurn file f length_ st : Phase Obj).Holds (some file) := by
  unfold pageFileTurn
  refine afterTurn_holds rfl (fun _ => ?_) (holds_leaving rfl file none) st
  exact ⟨rfl, nofun⟩

theorem pageHeadTurn_holds (file : Nat) (f : Bytes) (length_ : Nat) (st : SendLoop) :
    (pageHeadTurn file f length_ st : Phase Obj).Holds (some file) := by
  unfold pageHeadTurn
  refine afterTurn_holds rfl (fun _ => ?_) (pageFileTurn_holds file f length_ _) st
  exact ⟨rfl, nofun⟩

variable {objs : ObjectTree Obj} {JSON_HTML_SIZE : Nat}

/-- What the step of a request does to the files: it opens its one file, or
    leaves all files as they are. -/
theorem requestStep_effect {files files' : List Nat} {r : Request Obj} {e : Event}
    {p : Phase Obj} (hr : r.phase.Holds r.phase.file?)
    (h : requestStep objs JSON_HTML_SIZE files r e = some (files', p)) :
    files' = files ∧ p.Holds r.phase.file? ∨
      files' = files ++ [0] ∧ p.Holds (some files.length) ∧ r.phase.file? = none := by
  unfold requestStep at h
  split at h
  · next hpc =>
    obtain ⟨st', _, h⟩ := Option.map_eq_some_iff.mp h
    cases h
    rw [hpc]
    exact Or.inl ⟨rfl, formHeadTurn_holds st'⟩
  · next hpc =>
    cases h
    rw [hpc]
    exact Or.inl ⟨rfl, rfl, nofun⟩
  · next hpc =>
    cases h
    rw [hpc]
    exact Or.inr ⟨rfl, formTurn_holds _ _ _, rfl⟩
  · next file f st i hpc =>
    obtain ⟨st', _, h⟩ := Option.map_eq_some_iff.mp h
    cases h
    rw [hpc]
    exact Or.inl ⟨rfl, formTurn_holds file f st'⟩
  · next hpc =>
    rw [hpc]
    split at h
    · cases h
      exact Or.inl ⟨rfl, notFoundTurn_holds _⟩
    · cases h
      exact Or.inl ⟨rfl, rfl, nofun⟩
  · next hpc =>
    cases h
    rw [hpc]
    exact Or.inl ⟨rfl, notFoundTurn_holds _⟩
  · next hpc =>
    cases h
    rw [hpc]
    exact Or.inr ⟨rfl, pageHeadTurn_holds _ _ _ _, rfl⟩
  · next hpc =>
    obtain ⟨st', _, h⟩ := Option.map_eq_some_iff.mp h
    cases h
    rw [hpc]
    exact Or.inl ⟨rfl, notFoundTurn_holds st'⟩
  · next file f length_ st i hpc =>
    obtain ⟨st', _, h⟩ := Option.map_eq_some_iff.mp h
    cases h
    rw [hpc]
    exact Or.inl ⟨rfl, pageHeadTurn_holds file f length_ st'⟩
  · next file f length_ st i hpc =>
    obtain ⟨st', _, h⟩ := Option.map_eq_some_iff.mp h
    cases h
    rw [hpc]
    exact Or.inl ⟨rfl, pageFileTurn_holds file f length_ st'⟩
  · next holder report hpc =>
    -- the destructors
    cases h
    rw [hpc]
    refine Or.inl ⟨?_, rfl, nofun⟩
    unfold destroy
    split
    · next holder file =>
      rw [if_neg]
      rw [hr.keeps holder file report hpc]
      nofun
    · rfl
  · cases h

theorem openAndClose_eq (files : List Nat) : openAndClose files = files ++ [1] := by
  have hcloses : Holder.autoCloseFileOutPtr.closes = true := rfl
  unfold openAndClose destroy
  dsimp only
  rw [if_pos hcloses]
  induction files with
  | nil => rfl
  | cons closed files ih => exact congrArg (closed :: ·) ih

/-! ### The invariant -/

/-- Files of requests are open, and open files are those of requests. -/
structure Inv (s : State Obj) : Prop where
  holds : ∀ r ∈ s.requests, r.phase.Holds r.phase.file?
  unclosed : ∀ r ∈ s.requests, ∀ k, r.phase.file? = some k → s.files[k]? = some 0
  owned : ∀ k, s.files[k]? = some 0 → ∃ r ∈ s.requests, r.phase.file? = some k

theorem inv_init : Inv (init : State Obj) where
  holds r hr := absurd hr List.not_mem_nil
  unclosed r hr := absurd hr List.not_mem_nil
  owned k hk := by cases hk

/-- A new request has no file. -/
theorem inv_get {s : State Obj} (hs : Inv s) (close : Bool) (uri : List Bytes) {p : Phase Obj}
    (hp : p.Holds none) : Inv { s with requests := s.requests ++ [⟨close, uri, p⟩] } where
  holds r' hr' := by
    rcases List.mem_append.mp hr' with hr' | hr'
    · exact hs.holds r' hr'
    · rw [List.mem_singleton.mp hr', hp.file?_eq]
      exact hp
  unclosed r' hr' k hk := by
    rcases List.mem_append.mp hr' with hr' | hr'
    · exact hs.unclosed r' hr' k hk
    · rw [List.mem_singleton.mp hr', hp.file?_eq] at hk
      cases hk
  owned k hk := by
    obtain ⟨r', hr', hfile⟩ := hs.owned k hk
    exact ⟨r', List.mem_append_left _ hr', hfile⟩

/-- A file that is opened and closed is nobody's. -/
theorem inv_construct {s : State Obj} (hs : Inv s) :
    Inv { s with files := openAndClose s.files } where
  holds := hs.holds
  unclosed r hr k hk := by
    have hopen := hs.unclosed r hr k hk
    obtain ⟨hlt, _⟩ := List.getElem?_eq_some_iff.mp hopen
    show (openAndClose s.files)[k]? = some 0
    rw [openAndClose_eq, List.getElem?_append_left hlt]
    exact hopen
  owned k hk := by
    have hopen : (openAndClose s.files)[k]? = some 0 := hk
    rw [openAndClose_eq, List.getElem?_append] at hopen
    split at hopen
    · exact hs.owned k hopen
    · rw [List.getElem?_singleton] at hopen
      split at hopen <;> cases hopen

/-- A request that moves on with its file. -/
theorem inv_move {s : State Obj} (hs : Inv s) {j : Nat} {r : Request Obj}
    (hr : s.requests[j]? = some r) {p : Phase Obj} (hp : p.Holds r.phase.file?) :
    Inv { s with requests := s.requests.set j { r with phase := p } } where
  holds r' hr' := by
    rcases List.mem_or_eq_of_mem_set hr' with hr' | rfl
    · exact hs.holds r' hr'
    · show p.Holds p.file?
      rw [hp.file?_eq]
      exact hp
  unclosed r' hr' k hk := by
    rcases List.mem_or_eq_of_mem_set hr' with hr' | rfl
    · exact hs.unclosed r' hr' k hk
    · exact hs.unclosed r (List.mem_of_getElem? hr) k (hp.file?_eq.symm.trans hk)
  owned k hk := by
    obtain ⟨r', hr', hfile⟩ := hs.owned k hk
    obtain ⟨i, hi⟩ := List.mem_iff_getElem?.mp hr'
    by_cases hij : j = i
    · subst hij
      rw [hr, Option.some.injEq] at hi
      obtain ⟨hlt, _⟩ := List.getElem?_eq_some_iff.mp hr
      refine ⟨{ r with phase := p }, List.mem_of_getElem? (List.getElem?_set_self hlt), ?_⟩
      exact hp.file?_eq.trans (hi ▸ hfile)
    · refine ⟨r', ?_, hfile⟩
      rw [← List.getElem?_set_ne hij] at hi
      exact List.mem_of_getElem? hi

/-- A request that opens its file. -/
theorem inv_open {s : State Obj} (hs : Inv s) {j : Nat} {r : Request Obj}
    (hr : s.requests[j]? = some r) {p : Phase Obj} (hp : p.Holds (some s.files.length))
    (hnone : r.phase.file? = none) :
    Inv ⟨s.files ++ [0], s.requests.set j { r with phase := p }⟩ where
  holds r' hr' := by
    rcases List.mem_or_eq_of_mem_set hr' with hr' | rfl
    · exact hs.holds r' hr'
    · show p.Holds p.file?
      rw [hp.file?_eq]
      exact hp
  unclosed r' hr' k hk := by
    show (s.files ++ [0])[k]? = some 0
    rcases List.mem_or_eq_of_mem_set hr' with hr' | rfl
    · have hopen := hs.unclosed r' hr' k hk
      obtain ⟨hlt, _⟩ := List.getElem?_eq_some_iff.mp hopen
      rw [List.getElem?_append_left hlt]
      exact hopen
    · have hlast : s.files.length = k := Option.some.inj (hp.file?_eq.symm.trans hk)
      rw [← hlast, List.getElem?_concat_length]
  owned k hk := by
    have hopen : (s.files ++ [0])[k]? = some 0 := hk
    obtain ⟨hlt, _⟩ := List.getElem?_eq_some_iff.mp hr
    rw [List.getElem?_append] at hopen
    split at hopen
    · obtain ⟨r', hr', hfile⟩ := hs.owned k hopen
      obtain ⟨i, hi⟩ := List.mem_iff_getElem?.mp hr'
      by_cases hij : j = i
      · -- the request that opens a file had none
        subst hij
        rw [hr, Option.some.injEq] at hi
        rw [← hi, hnone] at hfile
        cases hfile
      · refine ⟨r', ?_, hfile⟩
        rw [← List.getElem?_set_ne hij] at hi
        exact List.mem_of_getElem? hi
    · next hge =>
      refine ⟨{ r with phase := p }, List.mem_of_getElem? (List.getElem?_set_self hlt), ?_⟩
      rw [List.getElem?_singleton] at hopen
      split at hopen
      · have hk : k = s.files.length := by omega
        rw [hk]
        exact hp.file?_eq
      · cases hopen

theorem inv_step {s s' : State Obj} {l : Label} (hs : Inv s)
    (h : step objs JSON_HTML_SIZE s l = some s') : Inv s' := by
  cases l with
  | getForm =>
    cases h
    exact inv_get hs true [] (formHeadTurn_holds _)
  | getPage close uri =>
    cases h
    exact inv_get hs close uri ⟨rfl, nofun⟩
  | construct =>
    cases h
    exact inv_construct (inv_construct hs)
  | request j e =>
    obtain ⟨r, hr, h⟩ := Option.bind_eq_some_iff.mp h
    obtain ⟨⟨files, p⟩, hstep, h⟩ := Option.map_eq_some_iff.mp h
    cases h
    rcases requestStep_effect (hs.holds r (List.mem_of_getElem? hr)) hstep with ⟨rfl, hp⟩ |
      ⟨rfl, hp, hnone⟩
    · exact inv_move hs hr hp
    · exact inv_open hs hr hp hnone

/-! ### Balance -/

/-- **Open files**: in every state of a run, every request that has ended has
    closed its file once, and no file is open when no request is in
    progress, exactly when none of the requests that have ended had a
    file. -/
theorem files_balanced_iff (objs : ObjectTree Obj) (JSON_HTML_SIZE : Nat) (ls : List Label)
    (s : State Obj) (hrun : run (step objs JSON_HTML_SIZE) init ls = some s) :
    Balanced s ↔ EndedWithoutFile s := by
  have hs : Inv s := run_keeps (fun _ _ _ => inv_step) inv_init hrun
  constructor
  · intro h r hr hended
    obtain ⟨file, report, hpc⟩ := hended
    cases file with
    | none => rw [hpc]; rfl
    | some file =>
      -- it would be closed, and it is open
      have hclosed := h.1 r hr file report hpc
      rw [hs.unclosed r hr file (by rw [hpc]; rfl)] at hclosed
      cases hclosed
  · intro h
    constructor
    · intro r hr file report hpc
      have hnone := h r hr ⟨some file, report, hpc⟩
      rw [hpc] at hnone
      cases hnone
    · intro hidle
      unfold State.openFiles
      rw [List.countP_eq_zero]
      intro closed hclosed hzero
      obtain ⟨k, hk⟩ := List.mem_iff_getElem?.mp hclosed
      rw [of_decide_eq_true hzero] at hk
      obtain ⟨r, hr, hfile⟩ := hs.owned k hk
      rw [h r hr (hidle r hr)] at hfile
      cases hfile

/-! ### Two requests -/

/-- A turn of a send loop in which the client takes everything. -/
def takesAll : Event := .turn ⟨.ready false true, .bytes 1000⟩

/-- The page file cannot be opened. -/
def withoutFile : List Label :=
  [.construct, .getPage true [], .request 0 .go, .request 0 (.fopen none 0), .request 0 takesAll,
    .request 0 .go]

theorem files_balanced_withoutFile : ∃ s,
    run (step soloRoot 0) init withoutFile = some s ∧ (∃ r ∈ s.requests, r.Ended) ∧
      Balanced s := by
  have hend : (run (step soloRoot 0) init withoutFile).any (fun s =>
      s.requests.any (fun r => r.phase matches .ended none none) ∧
        s.requests.all fun r => r.phase.file? = none) := by
    decide +kernel
  obtain ⟨s, hrun, hs⟩ := (Option.any_eq_true _ _).mp hend
  obtain ⟨hany, hall⟩ := of_decide_eq_true hs
  refine ⟨s, hrun, ?_, (files_balanced_iff soloRoot 0 withoutFile s hrun).mpr ?_⟩
  · obtain ⟨r, hr, hpc⟩ := List.any_eq_true.mp hany
    refine ⟨r, hr, none, none, ?_⟩
    split at hpc
    · assumption
    · cases hpc
  · intro r hr _
    exact of_decide_eq_true (List.all_eq_true.mp hall r hr)

/-- A page is sent, and its request ends. -/
def withFile : List Label :=
  [.getPage true [], .request 0 .go, .request 0 (.fopen (some (ascii "page")) 4),
    .request 0 takesAll, .request 0 takesAll, .request 0 .go]

theorem not_balanced_withFile :
    ¬ ∀ (objs : ObjectTree Unit) (JSON_HTML_SIZE : Nat) (ls : List Label) (s : State Unit),
      run (step objs JSON_HTML_SIZE) init ls = some s → Balanced s := by
  intro hall
  have hend : (run (step soloRoot 0) init withFile).any (fun s =>
      s.files = [0] ∧ s.requests.any fun r => r.phase matches .ended (some 0) none) := by
    decide +kernel
  obtain ⟨s, hrun, hs⟩ := (Option.any_eq_true _ _).mp hend
  obtain ⟨hfiles, hany⟩ := of_decide_eq_true hs
  obtain ⟨r, hr, hpc⟩ := List.any_eq_true.mp hany
  have hended : r.phase = .ended (some 0) none := by
    split at hpc
    · assumption
    · cases hpc
  have hclosed := (hall soloRoot 0 withFile s hrun).1 r hr 0 none hended
  rw [hfiles] at hclosed
  cases hclosed

end FileHandles
