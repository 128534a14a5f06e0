import JsonRpcServer.Http.PoolTeardown
import JsonRpcServer.ServersCore.Wrapper

/-! # Tearing a Server Down

  What waits for a server to end: the destructor of `loop_handle_`, which
  asks for a stop and joins `clientsListeningLoop`, and the destructor of the
  buffer pool, which waits for the tokens.

  A `std::jthread` puts its own stop token in front of the arguments if the
  callable takes it there. A member function takes its object there, so
  `clientsListeningLoop` runs with the token it is given: `loop_stopper_`,
  which is default-constructed and has no stop state.

  The loop is that of `Wrapper`, with its condition in front of each turn,
  and everything else in the program goes on around it (`program_of_run`).

  ## Main results

  * `not_tornDown`: a teardown never succeeds. The pool deletes each block
    exactly once, and not while there is a token for it, but never leaves
    its loop; and a clients loop leaves at the first check after a stop
    exactly in the runs in which no check follows a stop.
  * `leavesAtStop_of_own`: with the token of its own thread, as the servers
    loop has it, a loop leaves at the first check after a stop.
-/

namespace ServersCore.Teardown

open System

/-! ### Stop tokens -/

/-- `std::stop_token`, with the stop state it refers to. A token that is
    default-constructed has none. -/
structure StopToken where
  stop_state : Option Nat
  deriving DecidableEq, Repr

/-- `stop_requested`; `requested` are the stop states asked to stop. -/
def StopToken.stop_requested (t : StopToken) (requested : List Nat) : Bool :=
  match t.stop_state with
  | none => false
  | some id => decide (id ∈ requested)

/-- The types of what a loop is started with. -/
inductive ArgType where
  | stop_token
  /-- `WebServer *`. -/
  | webServer
  /-- `std::reference_wrapper<CleanUtils::SocketFdsArray>`. -/
  | clients_fds
  deriving DecidableEq, Repr

inductive Arg where
  | stop_token (t : StopToken)
  | this
  | clients_fds
  deriving DecidableEq, Repr

def Arg.type : Arg → ArgType
  | .stop_token _ => .stop_token
  | .this => .webServer
  | .clients_fds => .clients_fds

/-- A function or a member function with the types of its parameters. -/
structure Callable where
  isMember : Bool
  params : List ArgType

/-- `std::is_invocable`: a member function takes its object first. -/
def Callable.isInvocable (f : Callable) (args : List ArgType) : Bool :=
  decide (args = if f.isMember then .webServer :: f.params else f.params)

/-- What the constructor of `std::jthread` calls `f` with; `own` is the token
    of the new thread. -/
def jthreadArgs (f : Callable) (own : StopToken) (args : List Arg) : List Arg :=
  if f.isInvocable (.stop_token :: args.map Arg.type) then .stop_token own :: args else args

/-- The value of the parameter `stopper`. -/
def stopper : List Arg → Option StopToken
  | [] => none
  | .stop_token t :: _ => some t
  | .this :: args | .clients_fds :: args => stopper args

/-- `WebServer::clientsListeningLoop(std::stop_token, CleanUtils::SocketFdsArray &)`. -/
def clientsListeningLoop : Callable := ⟨true, [.stop_token, .clients_fds]⟩

/-- `static ServersWrapper::serversListeningLoop(std::stop_token)`. -/
def serversListeningLoop : Callable := ⟨false, [.stop_token]⟩

/-- `WebServer::loop_stopper_`, which nobody assigns. -/
def loop_stopper_ : StopToken := ⟨none⟩

/-- The servers loop gets the token of its own thread. -/
theorem stopper_serversListeningLoop (own : StopToken) :
    stopper (jthreadArgs serversListeningLoop own []) = some own := rfl

/-- A clients loop gets the token among the arguments. -/
theorem stopper_clientsListeningLoop (own t : StopToken) :
    stopper (jthreadArgs clientsListeningLoop own [.this, .stop_token t, .clients_fds]) =
      some t := rfl

/-! ### The clients loop -/

/-- Where a clients loop stands. -/
inductive LoopPoint where
  /-- In front of `while(!stopper.stop_requested())`. -/
  | checking
  /-- In the body, in a turn of `pollerStep`. -/
  | body
  /-- Behind the loop. -/
  | left
  deriving DecidableEq, Repr

/-- A program, and the condition of the clients loop of one server. -/
structure State where
  stopper : StopToken
  /-- The stop state of `loop_handle_`. -/
  loop_handle_ : Nat
  requested : List Nat
  /-- The place of the server in `clients_map_`. -/
  element : Nat
  program : ServersCore.State
  point : LoopPoint
  deriving DecidableEq

/-- `startListeningLoop` on the server of the element `k`, which has no loop;
    `id` is the stop state of the new thread. -/
def startListeningLoop (id k : Nat) (program : ServersCore.State) : State :=
  { stopper := (stopper (jthreadArgs clientsListeningLoop ⟨some id⟩
      [.this, .stop_token loop_stopper_, .clients_fds])).getD ⟨none⟩
    loop_handle_ := id
    requested := []
    element := k
    program := program
    point := .checking }

/-- A stop is requested on `loop_handle_`. -/
def State.StopRequested (s : State) : Prop := s.loop_handle_ ∈ s.requested

instance (s : State) : Decidable s.StopRequested := inferInstanceAs (Decidable (_ ∈ _))

/-- The condition of the loop is evaluated next. -/
def State.AtCheck (s : State) : Prop := s.program.fate = .running ∧ s.point = .checking

instance (s : State) : Decidable s.AtCheck := inferInstanceAs (Decidable (_ ∧ _))

inductive Label where
  /-- `loop_handle_.request_stop()`, as in its destructor. -/
  | request_stop
  /-- The condition of the loop. -/
  | check
  /-- A step of the program, which may be one of the body. -/
  | program (l : ServersCore.Label)
  deriving DecidableEq

/-- The steps of the clients loop of the element `k`. -/
def isBody (k : Nat) : ServersCore.Label → Bool
  | .poller k' _ => decide (k' = k)
  | .addOneServer _ _ | .destroy _ | .acceptor _ | .thread _ => false

/-- A turn of the clients loop of the element `k` is over when it has left
    `clients_lock_`. -/
def pointIn (program : ServersCore.State) (k : Nat) : LoopPoint :=
  if (program.clients_map_[k]?).any fun c => decide (c.poller = .unlocked) then .checking
  else .body

/-- The body runs behind the condition, and all else at any time. -/
def programStep (s : State) (l : ServersCore.Label) : Option State :=
  if isBody s.element l = true then
    if s.point = .body then
      (ServersCore.step s.program l).map fun program =>
        { s with program := program, point := pointIn program s.element }
    else none
  else (ServersCore.step s.program l).map fun program => { s with program := program }

def step (s : State) : Label → Option State
  | .request_stop => some { s with requested := s.loop_handle_ :: s.requested }
  | .check =>
      if s.AtCheck then
        some { s with point := if s.stopper.stop_requested s.requested then .left else .body }
      else none
  | .program l => programStep s l

/-! ### The properties -/

/-- A check after a stop was requested leaves the loop. -/
def LeavesAtStop (s : State) (l : Label) : Prop :=
  l = .check → s.StopRequested → ∀ s', step s l = some s' → s'.point = .left

/-- The loop is not checked after a stop was requested. -/
def NoCheckAfterStop (s : State) (l : Label) : Prop :=
  ¬ (l = .check ∧ s.StopRequested ∧ s.AtCheck)

instance (s : State) (l : Label) : Decidable (NoCheckAfterStop s l) :=
  inferInstanceAs (Decidable (¬ _))

/-- The teardown of a server is over: the pool has deleted each block once
    and has left its loop, and the clients loop leaves when it is told to. -/
structure TornDown (N : Nat) (busy_flags : Nat → Bool)
    (schedule : Nat → HttpRecvBuffers.Teardown.Label) (id k : Nat)
    (program : ServersCore.State) (ls : List Label) : Prop where
  deletes : HttpRecvBuffers.Teardown.DeletesOnce N busy_flags schedule
  exits : HttpRecvBuffers.Teardown.Exits N busy_flags schedule
  leaves : Guarded step LeavesAtStop (startListeningLoop id k program) ls

/-! ### Checks -/

section checks

variable {s s' : State} {l : Label}

/-- A step of the program takes the program only, and the loop to its
    condition or into its body. -/
theorem programStep_cases {l : ServersCore.Label} (h : programStep s l = some s') :
    ∃ program, ServersCore.step s.program l = some program ∧
      (s' = { s with program := program } ∨
        s' = { s with program := program, point := pointIn program s.element }) := by
  unfold programStep at h
  split at h
  · rw [Option.ite_none_right_eq_some] at h
    obtain ⟨program, hstep, rfl⟩ := Option.map_eq_some_iff.mp h.2
    exact ⟨program, hstep, Or.inr rfl⟩
  · obtain ⟨program, hstep, rfl⟩ := Option.map_eq_some_iff.mp h
    exact ⟨program, hstep, Or.inl rfl⟩

/-- The body of the loop does not leave it. -/
theorem pointIn_ne_left (program : ServersCore.State) (k : Nat) : pointIn program k ≠ .left := by
  unfold pointIn
  split <;> simp

/-- Nobody changes the token of a loop or its thread. -/
theorem step_stopper (h : step s l = some s') :
    s'.stopper = s.stopper ∧ s'.loop_handle_ = s.loop_handle_ := by
  cases l with
  | request_stop =>
    cases h
    exact ⟨rfl, rfl⟩
  | check =>
    unfold step at h
    rw [Option.ite_none_right_eq_some] at h
    obtain ⟨_, h⟩ := h
    cases h
    exact ⟨rfl, rfl⟩
  | program l =>
    obtain ⟨program, _, rfl | rfl⟩ := programStep_cases h
    · exact ⟨rfl, rfl⟩
    · exact ⟨rfl, rfl⟩

/-- The steps of the program. -/
def Label.program? : Label → Option ServersCore.Label
  | .request_stop | .check => none
  | .program l => some l

/-- Around its condition the loop is that of the program. -/
theorem program_of_run {ls : List Label} (h : run step s ls = some s') :
    run ServersCore.step s.program (ls.filterMap Label.program?) = some s'.program := by
  induction ls generalizing s with
  | nil =>
    cases h
    rfl
  | cons l ls ih =>
    rw [run, Option.bind_eq_some_iff] at h
    obtain ⟨s₁, hstep, hrest⟩ := h
    have hrun := ih hrest
    cases l with
    | request_stop =>
      cases hstep
      exact hrun
    | check =>
      unfold step at hstep
      rw [Option.ite_none_right_eq_some] at hstep
      obtain ⟨_, hstep⟩ := hstep
      cases hstep
      exact hrun
    | program l =>
      -- where the loop stands makes no difference to the program
      obtain ⟨program, hprogram, hs₁⟩ := programStep_cases hstep
      show run ServersCore.step s.program (l :: ls.filterMap Label.program?) = some s'.program
      rw [run, hprogram]
      rcases hs₁ with rfl | rfl
      · exact hrun
      · exact hrun

/-- A loop with the token of its own thread leaves. -/
theorem leavesAtStop_of_own_step (h : s.stopper = ⟨some s.loop_handle_⟩) : LeavesAtStop s l := by
  intro hl hstop s' hstep
  rw [hl] at hstep
  unfold step at hstep
  rw [Option.ite_none_right_eq_some] at hstep
  obtain ⟨_, hstep⟩ := hstep
  cases hstep
  have hrequested : s.stopper.stop_requested s.requested = true := by
    rw [h]
    exact decide_eq_true hstop
  exact if_pos hrequested

/-- A loop without a stop state goes on. -/
theorem leavesAtStop_step_iff (h : s.stopper = ⟨none⟩) :
    LeavesAtStop s l ↔ NoCheckAfterStop s l := by
  have hgoes : s.stopper.stop_requested s.requested = false := by
    rw [h]
    rfl
  constructor
  · intro hleaves hcheck
    obtain ⟨rfl, hstop, hpoint⟩ := hcheck
    have hleft := hleaves rfl hstop _ (if_pos hpoint)
    rw [hgoes] at hleft
    cases hleft
  · intro hnone hl hstop s' hstep
    refine absurd ⟨hl, hstop, ?_⟩ hnone
    rw [hl] at hstep
    unfold step at hstep
    rw [Option.ite_none_right_eq_some] at hstep
    exact hstep.1

/-- The loop is still there. -/
def Stays (s : State) : Prop := s.stopper = ⟨none⟩ ∧ s.point ≠ .left

theorem stays_step (hs : Stays s) (h : step s l = some s') : Stays s' := by
  refine ⟨(step_stopper h).1.trans hs.1, ?_⟩
  cases l with
  | request_stop =>
    cases h
    exact hs.2
  | check =>
    unfold step at h
    rw [Option.ite_none_right_eq_some] at h
    obtain ⟨_, h⟩ := h
    cases h
    dsimp only
    rw [hs.1]
    simp [StopToken.stop_requested]
  | program l =>
    obtain ⟨program, _, rfl | rfl⟩ := programStep_cases h
    · exact hs.2
    · exact pointIn_ne_left program s.element

end checks

/-! ### Runs -/

/-- With the token of its own thread the loop leaves at the first check
    after a stop. -/
theorem leavesAtStop_of_own {s : State} (h : s.stopper = ⟨some s.loop_handle_⟩)
    (ls : List Label) : Guarded step LeavesAtStop s ls := by
  -- a loop keeps its token and its handle
  have hkeep : ∀ (s : State) (l : Label) (s' : State), s.stopper = ⟨some s.loop_handle_⟩ →
      step s l = some s' → s'.stopper = ⟨some s'.loop_handle_⟩ := by
    intro s l s' hs hstep
    obtain ⟨hstopper, hhandle⟩ := step_stopper hstep
    rw [hstopper, hhandle]
    exact hs
  exact guarded_of_invariant hkeep (fun s l hs => leavesAtStop_of_own_step hs) h

theorem stopper_startListeningLoop (id k : Nat) (program : ServersCore.State) :
    (startListeningLoop id k program).stopper = ⟨none⟩ := rfl

/-- A clients loop leaves at the first check after a stop exactly when there
    is no such check. -/
theorem leavesAtStop_iff (id k : Nat) (program : ServersCore.State) (ls : List Label) :
    Guarded step LeavesAtStop (startListeningLoop id k program) ls ↔
      Guarded step NoCheckAfterStop (startListeningLoop id k program) ls := by
  apply guarded_congr fun s => s.stopper = ⟨none⟩
  · exact fun s l s' hs hstep => (step_stopper hstep).1.trans hs
  · exact fun s l hs => leavesAtStop_step_iff hs
  · exact stopper_startListeningLoop id k program

/-- A clients loop is never left, so its thread is never joined. -/
theorem not_left {id k : Nat} {program : ServersCore.State} {ls : List Label} {s : State}
    (h : run step (startListeningLoop id k program) ls = some s) : s.point ≠ .left := by
  have hstart : Stays (startListeningLoop id k program) := ⟨rfl, by simp [startListeningLoop]⟩
  exact (run_keeps (fun _ _ _ => stays_step) hstart h).2

/-- **Teardown**: for every pool, every set of flags and every schedule, and
    whatever a clients loop is answered, the teardown of a server does not
    succeed. What holds of it: a fair schedule deletes each block once and
    not while there is a token for it, and a clients loop leaves at the first
    check after a stop exactly when no check follows a stop. -/
theorem not_tornDown (N : Nat) (busy_flags : Nat → Bool)
    (schedule : Nat → HttpRecvBuffers.Teardown.Label) (id k : Nat)
    (program : ServersCore.State) (ls : List Label) :
    ¬ TornDown N busy_flags schedule id k program ls ∧
      (HttpRecvBuffers.Teardown.Fair N busy_flags schedule →
        HttpRecvBuffers.Teardown.DeletesOnce N busy_flags schedule) ∧
      ¬ HttpRecvBuffers.Teardown.Exits N busy_flags schedule ∧
      (Guarded step LeavesAtStop (startListeningLoop id k program) ls ↔
        Guarded step NoCheckAfterStop (startListeningLoop id k program) ls) ∧
      ∀ s, run step (startListeningLoop id k program) ls = some s → s.point ≠ .left := by
  have hexits := HttpRecvBuffers.Teardown.not_exits N busy_flags schedule
  refine ⟨fun h => hexits h.exits, ?_, hexits, leavesAtStop_iff id k program ls, ?_⟩
  · exact fun h => HttpRecvBuffers.Teardown.deletesOnce_of_fair h
  · exact fun s h => not_left h

/-! ### Fixed runs -/

/-- The token of the one block is released in the sixth turn. -/
def lateRelease (k : Nat) : HttpRecvBuffers.Teardown.Label :=
  if k = 5 then .release 0 else .destructor

/-- A server is added. -/
def oneServer : ServersCore.State := addOneServer ServersCore.init ⟨21, by decide⟩ true

/-- The clients loop has a turn without answers, and is asked to stop. -/
def oneTurn : List Label :=
  [.check, .program (.poller 0 .lock), .program (.poller 0 .read),
    .program (.poller 0 (.poll .timeout)), .request_stop, .check]

theorem not_tornDown_lateRelease :
    ¬ TornDown 1 (fun _ => true) lateRelease 7 0 oneServer oneTurn ∧
      HttpRecvBuffers.Teardown.DeletesOnce 1 (fun _ => true) lateRelease := by
  have hmain := not_tornDown 1 (fun _ => true) lateRelease 7 0 oneServer oneTurn
  have hfair : HttpRecvBuffers.Teardown.Fair 1 (fun _ => true) lateRelease := by
    constructor
    · intro k
      exact ⟨k + 6, by omega, if_neg (by omega)⟩
    · intro i hi _
      obtain rfl : i = 0 := by omega
      exact ⟨5, rfl⟩
  exact ⟨hmain.1, hmain.2.1 hfair⟩

/-- A pool that nobody uses, and a loop that is asked to stop behind its
    first turn. -/
theorem teardown_hangs :
    HttpRecvBuffers.Teardown.Fair 1 (fun _ => false) (fun _ => .destructor) ∧
      ¬ HttpRecvBuffers.Teardown.Exits 1 (fun _ => false) (fun _ => .destructor) ∧
      ¬ Guarded step LeavesAtStop (startListeningLoop 7 0 oneServer) oneTurn := by
  refine ⟨?_, ?_, ?_⟩
  · constructor
    · intro k
      exact ⟨k, Nat.le_refl k, rfl⟩
    · intro i _ h
      cases h
  · exact HttpRecvBuffers.Teardown.not_exits 1 _ _
  · rw [leavesAtStop_iff]
    decide

end ServersCore.Teardown
