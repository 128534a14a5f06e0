import JsonRpcServer.Framework.Execution
import JsonRpcServer.Program.Consistency

/-! # Every Request Is Answered

  The threads of the program are scheduled again and again. Here an
  execution is endless, and a turn of a thread that has to wait does
  nothing.

  ## Main results

  * `requests_answered`: every request that has been received is responded
    to, unless the program is over first.

  ## Proof idea

  A request in the queue is served behind those in front of it, and a method
  takes at most three steps of the main thread. So the turns of the main
  thread bring its response nearer (`turnsLeft`), and no other turn puts it
  off: events join the queue at its end.
-/

namespace Program

open Bytes System Execution Linearizability JsonRPCServer JsonRPCErrorCodes DatabaseObj
open PingPong (Page Mutator)

/-! ### Turns -/

/-- The program, and the requests and responses so far. -/
abbrev World := State × List (Event Request Sending)

/-- A thread has a turn. -/
def turn (qt : Qt) (w : World) (l : Label) : World :=
  match step qt w.1 l with
  | none => w
  | some s' => (s', w.2 ++ observed w.1 l)

/-- The program at each moment of an execution. -/
def world (qt : Qt) (files : Page → Bytes) (schedule : Nat → Label) (k : Nat) : World :=
  exec (turn qt) (init files, []) schedule k

/-- Every thread of the program gets turns again and again. -/
structure Fair (schedule : Nat → Label) : Prop where
  process : ∀ i, Recurs schedule (.process i)
  exec : Recurs schedule .exec
  send : ∀ i, Recurs schedule (.send i)
  refresh : Recurs schedule .refresh

/-! ### Methods are short -/

/-- What the main thread and the notifications of an update agree on. -/
inductive Stage : Mutator → MainPc → Prop where
  | loop : Stage .idle .loop
  | setProperty {i : Nat} {name : Bytes} {value : Option PropValue} {ret : Ret} :
      Stage .idle
        (.inMethod i (.effect (.setProperty name value) (.effect .notifyRefresh (.ret ret))))
  | notifyRefresh {i : Nat} {ret : Ret} :
      Stage .written (.inMethod i (.effect .notifyRefresh (.ret ret)))
  | ret {i : Nat} {ret : Ret} : Stage .idle (.inMethod i (.ret ret))
  | nullDeref {i : Nat} : Stage .idle (.inMethod i .nullDeref)
  | badCast {i : Nat} : Stage .idle (.inMethod i .badCast)

theorem stage_refuse (i : Nat) : Stage .idle (.inMethod i .refuse) := .ret

theorem stage_update (i : Nat) (name : Bytes) (value : Option PropValue) (text : Bytes) :
    Stage .idle (.inMethod i (.update name value text)) := .setProperty

theorem stage_body (qt : Qt) (i : Nat) (call : Invocation) (o : Object) :
    Stage .idle (.inMethod i (call.body qt o)) := by
  unfold Invocation.body
  cases call.method with
  | addProperty =>
    dsimp only
    rcases addPropertyBody_cases qt.types qt.api o call.junk call.params with
      hbody | ⟨name, _, v, text, _, _, _, hbody⟩
    · rw [hbody]
      exact stage_refuse i
    · rw [hbody]
      exact stage_update i name (some v) text
  | deleteProperty =>
    dsimp only
    rcases deletePropertyBody_cases qt.api o call.params with hbody | ⟨name, text, _, _, hbody⟩
    · rw [hbody]
      exact stage_refuse i
    · rw [hbody]
      exact stage_update i name none text
  | listProperties => exact .ret
  | setPropertyAttr =>
    dsimp only
    rcases setPropertyAttrBody_cases qt.api o call.junk call.params with
      hbody | hbody | hbody | ⟨property, v, text, _, _, hbody⟩
    · rw [hbody]
      exact stage_refuse i
    · rw [hbody]
      exact .nullDeref
    · rw [hbody]
      exact .badCast
    · rw [hbody]
      exact stage_update i property (some v) text
  | addChild | deleteChild | listChildren => exact .ret

/-! ### The invariant -/

/-- The event of a thread is in the queue, or the main thread is in its
    method. -/
def Posted (s : State) (i : Nat) : Prop :=
  i ∈ s.events.map MetaCallEvent.thread ∨ ∃ rest, s.main = .inMethod i rest

structure Live (qt : Qt) (files : Page → Bytes) (w : World) : Prop where
  serves : ∃ order a, Serves qt w.2 order a w.1
  displays : ∃ seen, Displays qt files seen w.1
  stage : Stage w.1.display.mutator w.1.main
  posted : ∀ i req id, w.1.threads[i]? = some (.waiting req id) → Posted w.1 i
  finished : ∀ i, w.1.threads[i]? = some .finished → ∃ response, .ret i response ∈ w.2

/-- What a thread does in one step. -/
inductive Moves : RequestPc → RequestPc → Prop where
  | refused {req : Request} {response : Sending} : Moves (.received req) (.sending response)
  | posted {req : Request} {id : Int32} : Moves (.received req) (.waiting req id)
  | returned {req : Request} {id : Int32} {response : Sending} :
      Moves (.waiting req id) (.sending response)
  | sent {response : Sending} : Moves (.sending response) .finished

section steps

variable {qt : Qt} {files : Page → Bytes} {s s' : State} {l : Label} {i : Nat} {pc : RequestPc}

/-- The thread of a request is moved by no step of another. -/
theorem thread_step (h : step qt s l = some s') (hpc : s.threads[i]? = some pc) :
    s'.threads[i]? = some pc ∨ ∃ pc', s'.threads[i]? = some pc' ∧ Moves pc pc' := by
  obtain ⟨_, hnext⟩ := step_eq_some_iff.mp h
  have hset : ∀ {j : Nat} {pc₀ pc' : RequestPc}, s.threads[j]? = some pc₀ → Moves pc₀ pc' →
      (s.setThread j pc').threads[i]? = some pc ∨
        ∃ pc'', (s.setThread j pc').threads[i]? = some pc'' ∧ Moves pc pc'' := by
    intro j pc₀ pc' hj hmoves
    by_cases hij : i = j
    · rw [hij] at hpc ⊢
      rw [hj] at hpc
      cases hpc
      exact Or.inr ⟨pc', setThread_self hj, hmoves⟩
    · left
      rw [setThread_ne hij]
      exact hpc
  cases l with
  | receive req =>
    cases hnext
    left
    obtain ⟨hlt, _⟩ := List.getElem?_eq_some_iff.mp hpc
    show (s.threads ++ [RequestPc.received req])[i]? = some pc
    rw [List.getElem?_append_left hlt]
    exact hpc
  | process j =>
    obtain ⟨req, hj, rfl⟩ := next_process hnext
    unfold processStep
    split
    · exact hset hj .refused
    · exact hset hj .posted
  | exec =>
    rcases execStep_cases hnext with ⟨_, _, _, _, rfl⟩ | ⟨_, _, _, s₁, _, heffect, rfl⟩ |
      ⟨j, ret, _, hreturn⟩ | ⟨_, _, rfl⟩
    · exact Or.inl hpc
    · obtain ⟨_, _, rfl⟩ := effectStep_eq_some_iff.mp heffect
      exact Or.inl hpc
    · obtain ⟨req, id, hj, rfl⟩ := returnTo_eq_some hreturn
      exact hset hj .returned
    · exact Or.inl hpc
  | send j =>
    obtain ⟨response, hj, rfl⟩ := next_send hnext
    exact hset hj .sent
  | refresh | getHTMLFile | client j e =>
    rw [next_page rfl] at hnext
    obtain ⟨_, _, rfl⟩ := displayStep_eq_some_iff.mp hnext
    exact Or.inl hpc

theorem stage_step (h : step qt s l = some s') (hstage : Stage s.display.mutator s.main)
    (hdisplays : l.page? = none ∨ s'.display.mutator = s.display.mutator) :
    Stage s'.display.mutator s'.main := by
  obtain ⟨_, hnext⟩ := step_eq_some_iff.mp h
  cases l with
  | receive req =>
    cases hnext
    exact hstage
  | process j =>
    obtain ⟨req, _, rfl⟩ := next_process hnext
    unfold processStep
    split <;> exact hstage
  | exec =>
    rcases execStep_cases hnext with ⟨e, events, hmain, _, rfl⟩ |
      ⟨j, e, rest, s₁, hmain, heffect, rfl⟩ | ⟨j, ret, hmain, hreturn⟩ | ⟨j, hmain, rfl⟩
    · rw [hmain] at hstage
      show Stage s.display.mutator _
      generalize s.display.mutator = m at hstage ⊢
      cases hstage
      exact stage_body qt _ _ _
    · obtain ⟨display, hstep, rfl⟩ := effectStep_eq_some_iff.mp heffect
      rw [hmain] at hstage
      generalize s.display.mutator = m at hstage
      cases hstage with
      | setProperty =>
        obtain ⟨_, rfl⟩ := PingPong.step_setProperty hstep
        exact .notifyRefresh
      | notifyRefresh =>
        obtain ⟨_, rfl⟩ := PingPong.step_notifyRefresh hstep
        exact .ret
    · obtain ⟨_, _, _, rfl⟩ := returnTo_eq_some hreturn
      rw [hmain] at hstage
      show Stage s.display.mutator .loop
      generalize s.display.mutator = m at hstage ⊢
      cases hstage
      exact .loop
    · exact hstage
  | send j =>
    obtain ⟨response, _, rfl⟩ := next_send hnext
    exact hstage
  | refresh | getHTMLFile | client j e =>
    rw [next_page rfl] at hnext
    obtain ⟨_, _, rfl⟩ := displayStep_eq_some_iff.mp hnext
    rcases hdisplays with hpage | hmutator
    · cases hpage
    · rw [hmutator]
      exact hstage

theorem posted_step (h : step qt s l = some s')
    (hposted : ∀ i req id, s.threads[i]? = some (.waiting req id) → Posted s i) (req : Request)
    (id : Int32) (hpc : s'.threads[i]? = some (.waiting req id)) : Posted s' i := by
  obtain ⟨_, hnext⟩ := step_eq_some_iff.mp h
  cases l with
  | receive req' =>
    cases hnext
    rcases receive_cases hpc with hpc | ⟨_, heq⟩
    · exact hposted i req id hpc
    · cases heq
  | process j =>
    obtain ⟨req', hj, rfl⟩ := next_process hnext
    unfold processStep at hpc ⊢
    split at hpc
    · rcases setThread_cases hpc with ⟨_, heq⟩ | ⟨_, hpc⟩
      · cases heq
      · exact hposted i req id hpc
    · next call hprepare =>
      rcases setThread_cases hpc with ⟨rfl, _⟩ | ⟨_, hpc⟩
      · -- its event has just joined the queue
        left
        show i ∈ (s.events ++ [MetaCallEvent.mk i call]).map MetaCallEvent.thread
        rw [List.map_append]
        exact List.mem_append_right _ List.mem_cons_self
      · refine (hposted i req id hpc).imp_left fun hmem => ?_
        show i ∈ (s.events ++ [MetaCallEvent.mk j call]).map MetaCallEvent.thread
        rw [List.map_append]
        exact List.mem_append_left _ hmem
  | exec =>
    rcases execStep_cases hnext with ⟨e, events, hmain, hevents, rfl⟩ |
      ⟨j, e, rest, s₁, hmain, heffect, rfl⟩ | ⟨j, ret, hmain, hreturn⟩ | ⟨j, hmain, rfl⟩
    · rcases hposted i req id hpc with hmem | ⟨rest, hrest⟩
      · rw [hevents, List.map_cons, List.mem_cons] at hmem
        rcases hmem with rfl | hmem
        · exact Or.inr ⟨_, rfl⟩
        · exact Or.inl hmem
      · rw [hmain] at hrest
        cases hrest
    · obtain ⟨display, _, rfl⟩ := effectStep_eq_some_iff.mp heffect
      rcases hposted i req id hpc with hmem | ⟨rest', hrest⟩
      · exact Or.inl hmem
      · rw [hmain] at hrest
        cases hrest
        exact Or.inr ⟨rest, rfl⟩
    · obtain ⟨req', id', hj, rfl⟩ := returnTo_eq_some hreturn
      rcases setThread_cases hpc with ⟨_, heq⟩ | ⟨hne, hpc⟩
      · cases heq
      · rcases hposted i req id hpc with hmem | ⟨rest', hrest⟩
        · exact Or.inl hmem
        · rw [hmain] at hrest
          cases hrest
          exact absurd rfl hne
    · exact hposted i req id hpc
  | send j =>
    obtain ⟨response, _, rfl⟩ := next_send hnext
    rcases setThread_cases hpc with ⟨_, heq⟩ | ⟨_, hpc⟩
    · cases heq
    · exact hposted i req id hpc
  | refresh | getHTMLFile | client j e =>
    rw [next_page rfl] at hnext
    obtain ⟨_, _, rfl⟩ := displayStep_eq_some_iff.mp hnext
    exact hposted i req id hpc

/-- The thread that finishes has sent its response. -/
theorem finished_step {hist : List (Event Request Sending)} (h : step qt s l = some s')
    (hfinished : ∀ i, s.threads[i]? = some .finished → ∃ response, .ret i response ∈ hist)
    (hpc : s'.threads[i]? = some .finished) :
    ∃ response, .ret i response ∈ hist ++ observed s l := by
  obtain ⟨_, hnext⟩ := step_eq_some_iff.mp h
  have hold : s.threads[i]? = some .finished →
      ∃ response, .ret i response ∈ hist ++ observed s l := by
    intro hi
    obtain ⟨response, hmem⟩ := hfinished i hi
    exact ⟨response, List.mem_append_left _ hmem⟩
  cases l with
  | receive req =>
    cases hnext
    rcases receive_cases hpc with hpc | ⟨_, heq⟩
    · exact hold hpc
    · cases heq
  | process j =>
    obtain ⟨req, _, rfl⟩ := next_process hnext
    unfold processStep at hpc
    split at hpc
    all_goals
      rcases setThread_cases hpc with ⟨_, heq⟩ | ⟨_, hpc⟩
      · cases heq
      · exact hold hpc
  | exec =>
    rcases execStep_cases hnext with ⟨_, _, _, _, rfl⟩ | ⟨_, _, _, s₁, _, heffect, rfl⟩ |
      ⟨j, ret, _, hreturn⟩ | ⟨_, _, rfl⟩
    · exact hold hpc
    · obtain ⟨_, _, rfl⟩ := effectStep_eq_some_iff.mp heffect
      exact hold hpc
    · obtain ⟨req, id, _, rfl⟩ := returnTo_eq_some hreturn
      rcases setThread_cases hpc with ⟨_, heq⟩ | ⟨_, hpc⟩
      · cases heq
      · exact hold hpc
    · exact hold hpc
  | send j =>
    obtain ⟨response, hj, rfl⟩ := next_send hnext
    rcases setThread_cases hpc with ⟨rfl, _⟩ | ⟨_, hpc⟩
    · refine ⟨response, List.mem_append_right _ ?_⟩
      rw [observed, hj]
      exact List.mem_cons_self
    · exact hold hpc
  | refresh | getHTMLFile | client j e =>
    rw [next_page rfl] at hnext
    obtain ⟨_, _, rfl⟩ := displayStep_eq_some_iff.mp hnext
    exact hold hpc

/-- Only the methods notify. -/
theorem page_mutator {page : PingPong.Label PropValue} (hpage : l.page? = some page)
    (h : displayStep qt s page = some s') : s'.display.mutator = s.display.mutator := by
  obtain ⟨display, hstep, rfl⟩ := displayStep_eq_some_iff.mp h
  show display.mutator = s.display.mutator
  cases l with
  | refresh =>
    cases hpage
    cases hstep
    rw [PingPong.refreshStep.eq_def]
    split <;> first | rfl | (split <;> rfl)
  | getHTMLFile =>
    cases hpage
    cases hstep
    rfl
  | client i e =>
    cases hpage
    obtain ⟨c, _, hclient⟩ := PingPong.step_client hstep
    rcases PingPong.clientStep_cases hclient with ⟨_, _, rfl⟩ | ⟨_, _, rfl⟩ | ⟨_, _, _, _, rfl⟩ |
      ⟨_, _, _, rfl⟩ <;> rfl
  | receive | process | exec | send => cases hpage

end steps

/-! ### Every turn keeps it -/

section live

variable {qt : Qt} {files : Page → Bytes}

theorem live_init : Live qt files (init files, []) where
  serves := ⟨[], .initial, serves_init files⟩
  displays := ⟨[], rfl, fun _ => ⟨rfl, rfl, rfl, fun _ => rfl, fun _ => rfl⟩⟩
  stage := .loop
  posted := nofun
  finished := nofun

theorem live_turn (w : World) (l : Label) (h : Live qt files w) : Live qt files (turn qt w l) := by
  unfold turn
  split
  · exact h
  · next s' hstep =>
    obtain ⟨order, a, hserves⟩ := h.serves
    obtain ⟨seen, hdisplays⟩ := h.displays
    refine ⟨serves_step hserves hstep, ⟨_, displays_step hdisplays hstep⟩, ?_, ?_, ?_⟩
    · apply stage_step hstep h.stage
      cases hpage : l.page? with
      | none => exact Or.inl rfl
      | some page =>
        have hnext := (step_eq_some_iff.mp hstep).2
        rw [next_page hpage] at hnext
        exact Or.inr (page_mutator hpage hnext)
    · intro i req id hpc
      exact posted_step hstep h.posted req id hpc
    · intro i hpc
      exact finished_step hstep h.finished hpc

theorem live_world (schedule : Nat → Label) (k : Nat) : Live qt files (world qt files schedule k) :=
  exec_invariant live_turn live_init schedule k

end live

/-! ### The queue in front of a request -/

/-- Steps of the main thread to the end of a method. -/
def bodySteps : Body → Nat
  | .effect _ rest => bodySteps rest + 1
  | .ret _ | .nullDeref | .badCast => 1

def mainSteps : MainPc → Nat
  | .loop => 0
  | .inMethod _ rest => bodySteps rest

/-- Events up to that of a thread, 0 if it has none in the queue. -/
def place (events : List Nat) (i : Nat) : Nat :=
  if i ∈ events then events.idxOf i + 1 else 0

/-- Turns of the main thread to the return of the method of a thread. -/
def turnsLeft (i : Nat) (w : World) : Nat :=
  mainSteps w.1.main + 4 * place (w.1.events.map MetaCallEvent.thread) i

theorem mainSteps_le {m : Mutator} {pc : MainPc} (h : Stage m pc) : mainSteps pc ≤ 3 := by
  cases h <;> simp [mainSteps, bodySteps]

theorem place_concat {events : List Nat} {i j : Nat} (h : i ≠ j) :
    place (events ++ [j]) i = place events i := by
  unfold place
  by_cases hi : i ∈ events
  · rw [if_pos hi, if_pos (List.mem_append_left _ hi), List.idxOf_append_of_mem hi]
  · rw [if_neg hi, if_neg]
    simp [hi, h]

/-- An event that is taken brings those behind it forward. -/
theorem place_tail {events : List Nat} {i j : Nat} (hnodup : (j :: events).Nodup)
    (hi : i ∈ j :: events) : place events i < place (j :: events) i := by
  unfold place
  rw [if_pos hi]
  by_cases hij : j = i
  · have hnot : i ∉ events := hij ▸ (List.nodup_cons.mp hnodup).1
    rw [if_neg hnot]
    exact Nat.succ_pos _
  · have hmem : i ∈ events := (List.mem_cons.mp hi).resolve_left fun heq => hij heq.symm
    rw [if_pos hmem, List.idxOf_cons_ne _ hij]
    omega

section progress

variable {qt : Qt} {files : Page → Bytes} {w : World} {s' : State} {l : Label} {i : Nat}

/-- No step puts the return of the method off, and those of the main thread
    bring it nearer. -/
theorem turnsLeft_step (hw : Live qt files w) (h : step qt w.1 l = some s') {req : Request}
    {id : Int32} (hpc : w.1.threads[i]? = some (.waiting req id))
    (hist : List (Event Request Sending)) :
    s'.ended = true ∨ (turnsLeft i (s', hist) ≤ turnsLeft i w ∧
      (l = .exec → turnsLeft i (s', hist) < turnsLeft i w)) := by
  obtain ⟨order, a, hserves⟩ := hw.serves
  obtain ⟨_, hnext⟩ := step_eq_some_iff.mp h
  have hstage := stage_step h hw.stage
  unfold turnsLeft
  cases l with
  | receive req' =>
    cases hnext
    exact Or.inr ⟨Nat.le_refl _, nofun⟩
  | process j =>
    obtain ⟨req', hj, rfl⟩ := next_process hnext
    have hij : i ≠ j := by
      rintro rfl
      rw [hpc] at hj
      cases hj
    right
    refine ⟨?_, nofun⟩
    unfold processStep
    split
    · exact Nat.le_refl _
    · next call hprepare =>
      show _ + 4 * place ((w.1.events ++ [MetaCallEvent.mk j call]).map MetaCallEvent.thread) i ≤ _
      -- the new event is behind all others
      rw [List.map_append, List.map_singleton, place_concat hij]
      exact Nat.le_refl _
  | exec =>
    have hlast : Stage s'.display.mutator s'.main := hstage (Or.inl rfl)
    rcases execStep_cases hnext with ⟨e, events, hmain, hevents, rfl⟩ |
      ⟨j, e, rest, s₁, hmain, heffect, rfl⟩ | ⟨j, ret, hmain, hreturn⟩ | ⟨j, hmain, rfl⟩
    · -- the event in front is taken, so every other one moves up
      right
      have hmem : i ∈ w.1.events.map MetaCallEvent.thread := by
        rcases hw.posted i req id hpc with hmem | ⟨rest, hrest⟩
        · exact hmem
        · rw [hmain] at hrest
          cases hrest
      have hnodup := hserves.distinct
      rw [hevents, List.map_cons] at hmem hnodup
      have hplace := place_tail hnodup hmem
      have hsteps := mainSteps_le hlast
      rw [hmain, hevents, List.map_cons]
      dsimp only [mainSteps] at hsteps ⊢
      exact ⟨by omega, fun _ => by omega⟩
    · obtain ⟨display, _, rfl⟩ := effectStep_eq_some_iff.mp heffect
      right
      rw [hmain]
      dsimp only [mainSteps, bodySteps]
      exact ⟨by omega, fun _ => by omega⟩
    · obtain ⟨req', id', _, rfl⟩ := returnTo_eq_some hreturn
      right
      rw [hmain]
      dsimp only [mainSteps, bodySteps, setThread_events]
      exact ⟨by omega, fun _ => by omega⟩
    · exact Or.inl rfl
  | send j =>
    obtain ⟨response, _, rfl⟩ := next_send hnext
    exact Or.inr ⟨Nat.le_refl _, nofun⟩
  | refresh | getHTMLFile | client j e =>
    rw [next_page rfl] at hnext
    obtain ⟨_, _, rfl⟩ := displayStep_eq_some_iff.mp hnext
    exact Or.inr ⟨Nat.le_refl _, nofun⟩

/-- While a thread waits, the main thread has something to do. -/
theorem exec_enabled (hw : Live qt files w) (hover : w.1.ended = false) {req : Request} {id : Int32}
    (hpc : w.1.threads[i]? = some (.waiting req id)) : ∃ s', step qt w.1 .exec = some s' := by
  obtain ⟨order, a, hserves⟩ := hw.serves
  have hserved := hserves.main
  have hstage := hw.stage
  simp only [step_eq_some_iff, hover, true_and, next, execStep]
  cases hmain : w.1.main with
  | loop =>
    rcases hw.posted i req id hpc with hmem | ⟨rest, hrest⟩
    · cases hevents : w.1.events with
      | nil =>
        rw [hevents] at hmem
        cases hmem
      | cons e events => exact ⟨_, rfl⟩
    · rw [hmain] at hrest
      cases hrest
  | inMethod j rest =>
    rw [hmain] at hserved hstage
    cases rest with
    | effect e rest =>
      have heffect : ∃ s₁, effectStep qt w.1 e = some s₁ := by
        generalize hmutator : w.1.display.mutator = m at hstage
        simp only [effectStep, displayStep, Option.map_eq_some_iff]
        cases hstage with
        | setProperty => exact ⟨_, _, if_pos hmutator, rfl⟩
        | notifyRefresh => exact ⟨_, _, if_pos hmutator, rfl⟩
      obtain ⟨s₁, hs₁⟩ := heffect
      dsimp only
      rw [hs₁]
      exact ⟨_, rfl⟩
    | ret ret =>
      obtain ⟨_, call, ⟨req', hj, _⟩, _⟩ := hserved
      simp only [returnTo, hj]
      exact ⟨_, rfl⟩
    | nullDeref => exact ⟨_, rfl⟩
    | badCast => exact ⟨_, rfl⟩

theorem turn_of_step (h : step qt w.1 l = some s') :
    turn qt w l = (s', w.2 ++ observed w.1 l) := by
  rw [turn, h]

theorem turn_of_none (h : step qt w.1 l = none) : turn qt w l = w := by
  rw [turn, h]

theorem turn_of_over (h : w.1.ended = true) (l : Label) : turn qt w l = w :=
  turn_of_none (if_pos h)

end progress

/-! ### From a request to its response -/

/-- The thread of the request has not begun. -/
def Received (i : Nat) (w : World) : Prop :=
  ∃ req, w.1.threads[i]? = some (.received req)

/-- It waits for the main thread. -/
def Waiting (i : Nat) (w : World) : Prop :=
  ∃ req id, w.1.threads[i]? = some (.waiting req id)

/-- It has a response, or the program is over. -/
def Responding (i : Nat) (w : World) : Prop :=
  w.1.ended = true ∨ ∃ response, w.1.threads[i]? = some (.sending response)

/-- It has sent a response, or the program is over. -/
def Answered (i : Nat) (w : World) : Prop :=
  w.1.ended = true ∨ ∃ response, .ret i response ∈ w.2

section leadsTo

variable {qt : Qt} {files : Page → Bytes} {schedule : Nat → Label}

theorem received_leadsTo (hfair : Fair schedule) (i : Nat) :
    LeadsTo (turn qt) (init files, []) schedule (Received i)
      (fun w => Waiting i w ∨ Responding i w) := by
  have hmoves : ∀ (w : World) (s' : State) (l : Label), step qt w.1 l = some s' → Received i w →
      (∃ req, s'.threads[i]? = some (.received req)) ∨
        (Waiting i (turn qt w l) ∨ Responding i (turn qt w l)) := by
    rintro w s' l hstep ⟨req, hpc⟩
    rw [turn_of_step hstep]
    rcases thread_step hstep hpc with hpc' | ⟨pc', hpc', hmoves⟩
    · exact Or.inl ⟨req, hpc'⟩
    · cases hmoves with
      | refused => exact Or.inr (Or.inr (Or.inr ⟨_, hpc'⟩))
      | posted => exact Or.inr (Or.inl ⟨_, _, hpc'⟩)
  refine leadsTo_of_rank (A := fun _ => True) (fun _ => 0) (fun _ => trivial)
    (live_world schedule) (fun w l _ => live_turn w l) ?_ ?_ (hfair.process i)
  · intro w l _ _ hw
    cases hstep : step qt w.1 l with
    | none =>
      rw [turn_of_none hstep]
      exact Or.inr ⟨hw, Nat.le_refl _⟩
    | some s' =>
      rcases hmoves w s' l hstep hw with hstay | hgoal
      · rw [turn_of_step hstep]
        exact Or.inr ⟨hstay, Nat.le_refl _⟩
      · exact Or.inl hgoal
  · intro w _ hw
    left
    cases hover : w.1.ended with
    | true =>
      rw [turn_of_over hover]
      exact Or.inr (Or.inl hover)
    | false =>
      obtain ⟨req, hpc⟩ := hw
      have hstep : step qt w.1 (.process i) = some (processStep qt w.1 i req) := by
        rw [step_eq_some_iff, next, hpc]
        exact ⟨hover, rfl⟩
      rcases hmoves w _ _ hstep ⟨req, hpc⟩ with ⟨req', hstay⟩ | hgoal
      · -- its own turn has moved it
        unfold processStep at hstay
        split at hstay
        all_goals
          have hmoved := hstay.symm.trans (setThread_self hpc)
          cases hmoved
      · exact hgoal

theorem waiting_leadsTo (hfair : Fair schedule) (i : Nat) :
    LeadsTo (turn qt) (init files, []) schedule (Waiting i) (Responding i) := by
  have hmoves : ∀ (w : World) (s' : State) (l : Label), Live qt files w →
      step qt w.1 l = some s' → Waiting i w →
        Responding i (turn qt w l) ∨ (Waiting i (turn qt w l) ∧
          turnsLeft i (turn qt w l) ≤ turnsLeft i w ∧
            (l = .exec → turnsLeft i (turn qt w l) < turnsLeft i w)) := by
    rintro w s' l hw hstep ⟨req, id, hpc⟩
    rw [turn_of_step hstep]
    rcases turnsLeft_step hw hstep hpc (w.2 ++ observed w.1 l) with hover | hrank
    · exact Or.inl (Or.inl hover)
    · rcases thread_step hstep hpc with hpc' | ⟨pc', hpc', hmoves⟩
      · exact Or.inr ⟨⟨req, id, hpc'⟩, hrank⟩
      · cases hmoves
        exact Or.inl (Or.inr ⟨_, hpc'⟩)
  refine leadsTo_of_rank (A := fun _ => True) (turnsLeft i) (fun _ => trivial)
    (live_world schedule) (fun w l _ => live_turn w l) ?_ ?_ hfair.exec
  · intro w l _ hlive hw
    cases hstep : step qt w.1 l with
    | none =>
      rw [turn_of_none hstep]
      exact Or.inr ⟨hw, Nat.le_refl _⟩
    | some s' =>
      exact (hmoves w s' l hlive hstep hw).imp_right fun h => ⟨h.1, h.2.1⟩
  · intro w hlive hw
    cases hover : w.1.ended with
    | true =>
      rw [turn_of_over hover]
      exact Or.inl (Or.inl hover)
    | false =>
      obtain ⟨req, id, hpc⟩ := hw
      obtain ⟨s', hstep⟩ := exec_enabled hlive hover hpc
      exact (hmoves w s' .exec hlive hstep ⟨req, id, hpc⟩).imp_right fun h => h.2.2 rfl

theorem responding_leadsTo (hfair : Fair schedule) (i : Nat) :
    LeadsTo (turn qt) (init files, []) schedule (Responding i) (Answered i) := by
  refine leadsTo_of_rank (A := fun _ => True) (fun _ => 0) (fun _ => trivial)
    (live_world schedule) (fun w l _ => live_turn w l) ?_ ?_ (hfair.send i)
  · intro w l _ hlive hw
    rcases hw with hover | ⟨response, hpc⟩
    · rw [turn_of_over hover]
      exact Or.inl (Or.inl hover)
    cases hstep : step qt w.1 l with
    | none =>
      rw [turn_of_none hstep]
      exact Or.inr ⟨Or.inr ⟨response, hpc⟩, Nat.le_refl _⟩
    | some s' =>
      have hlive' := live_turn w l hlive
      rw [turn_of_step hstep] at hlive' ⊢
      rcases thread_step hstep hpc with hpc' | ⟨pc', hpc', hmoves⟩
      · exact Or.inr ⟨Or.inr ⟨response, hpc'⟩, Nat.le_refl _⟩
      · cases hmoves
        exact Or.inl (Or.inr (hlive'.finished i hpc'))
  · intro w _ hw
    left
    rcases hw with hover | ⟨response, hpc⟩
    · rw [turn_of_over hover]
      exact Or.inl hover
    cases hover : w.1.ended with
    | true =>
      rw [turn_of_over hover]
      exact Or.inl hover
    | false =>
      have hstep : step qt w.1 (.send i) =
          some { w.1.setThread i .finished with ended := decide (response = .fault) } := by
        rw [step_eq_some_iff, next, hpc]
        exact ⟨hover, rfl⟩
      rw [turn_of_step hstep, observed, hpc]
      exact Or.inr ⟨response, List.mem_append_right _ List.mem_cons_self⟩

/-- The thread of a request gets to its response. -/
theorem answered_of_lt (hfair : Fair schedule) {k i : Nat}
    (hi : i < (world qt files schedule k).1.threads.length) :
    ∃ k', k ≤ k' ∧ Answered i (world qt files schedule k') := by
  obtain ⟨pc, hpc⟩ : ∃ pc, (world qt files schedule k).1.threads[i]? = some pc :=
    ⟨_, List.getElem?_eq_getElem hi⟩
  have hwaiting : LeadsTo (turn qt) (init files, []) schedule (Waiting i) (Answered i) :=
    (waiting_leadsTo hfair i).trans (responding_leadsTo hfair i)
  cases pc with
  | received req' =>
    have hreceived : LeadsTo (turn qt) (init files, []) schedule (Received i) (Answered i) :=
      (received_leadsTo hfair i).trans (hwaiting.or (responding_leadsTo hfair i))
    exact hreceived k ⟨req', hpc⟩
  | waiting req' id => exact hwaiting k ⟨req', id, hpc⟩
  | sending response => exact responding_leadsTo hfair i k (Or.inr ⟨response, hpc⟩)
  | finished => exact ⟨k, Nat.le_refl k, Or.inr ((live_world schedule k).finished i hpc)⟩

end leadsTo

/-- **Every request is answered**: when all threads get turns again and
    again, a request that has been received is responded to, unless the
    program is over first. -/
theorem requests_answered (qt : Qt) (files : Page → Bytes) (schedule : Nat → Label)
    (hfair : Fair schedule) (k i : Nat) (req : Request)
    (hcall : .call i req ∈ (world qt files schedule k).2) :
    ∃ k', k ≤ k' ∧ ((world qt files schedule k').1.ended = true ∨
      ∃ response, .ret i response ∈ (world qt files schedule k').2) := by
  have hlive : Live qt files (world qt files schedule k) := live_world schedule k
  obtain ⟨order, a, hserves⟩ := hlive.serves
  have hlt := hserves.numbered i (List.mem_filterMap.mpr ⟨_, hcall, rfl⟩)
  exact answered_of_lt hfair hlt

/-! ### A fair schedule -/

/-- The threads, numbered. -/
def numbered : Nat → Label
  | 0 => .exec
  | 1 => .refresh
  | n + 2 => if n % 2 = 0 then .process (n / 2) else .send (n / 2)

/-- Behind these turns every thread has a turn again and again. -/
def startingWith (start : List Label) : Nat → Label := dovetail start numbered

theorem recurs_startingWith (start : List Label) (n : Nat) :
    Recurs (startingWith start) (numbered n) :=
  recurs_dovetail start numbered n

theorem fair_startingWith (start : List Label) : Fair (startingWith start) where
  process i := by
    have hnumbered : numbered (2 * i + 2) = .process i := by
      rw [numbered, if_pos (by omega), Nat.mul_div_cancel_left i (by decide)]
    exact hnumbered ▸ recurs_startingWith start (2 * i + 2)
  exec := recurs_startingWith start 0
  send i := by
    have hnumbered : numbered (2 * i + 1 + 2) = .send i := by
      rw [numbered, if_neg (by omega), show (2 * i + 1) / 2 = i by omega]
    exact hnumbered ▸ recurs_startingWith start (2 * i + 1 + 2)
  refresh := recurs_startingWith start 1

/-- Two requests arrive. -/
def twoRequests : List Label :=
  [.receive ⟨ascii "/", addLink, 0⟩, .receive ⟨ascii "/", listAll, 0⟩]

theorem requests_answered_twoRequests :
    ∃ k', 2 ≤ k' ∧
      ((world twoQt (fun _ => []) (startingWith twoRequests) k').1.ended = true ∨
        ∃ response,
          .ret 1 response ∈ (world twoQt (fun _ => []) (startingWith twoRequests) k').2) :=
  requests_answered twoQt (fun _ => []) (startingWith twoRequests)
    (fair_startingWith twoRequests) 2 1 ⟨ascii "/", listAll, 0⟩
    (List.mem_cons_of_mem _ List.mem_cons_self)

end Program
