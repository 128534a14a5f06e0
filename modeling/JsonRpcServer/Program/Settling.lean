import JsonRpcServer.Database.Refreshing
import JsonRpcServer.Program.Progress

/-! # The Page Catches Up

  When no more requests arrive, those that have are answered, the refresh
  thread works off what is due, and the page of the html clients comes to
  rest on what the requests have left. Html clients may go on coming all the
  while.

  ## Main results

  * `eventually_shown`: there is an order of all requests such that from
    some moment on all have been answered as the sequential object answers
    them in this order, and the published page is the rendering of the
    object that it leaves, or the start page when there has been no update;
    unless the program is over.

  ## Proof idea

  Behind the last request the main thread has nothing to do. From then on
  no turn adds to the tokens of the refresh thread, and the turns of the
  refresh thread bring the end of a refresh nearer (`refreshLeft_step`).
  The responses, the object and the notifications stay as they are
  (`Settled.still`). That an execution is a run of the steps that were taken
  (`run_taken`) gives the page at each moment.
-/

namespace Program

open Bytes System Execution Linearizability JsonRPCServer DatabaseObj
open PingPong (Page)

/-! ### The run of an execution -/

/-- The turns before the moment `k` that were not idle. -/
def taken (qt : Qt) (files : Page → Bytes) (schedule : Nat → Label) : Nat → List Label
  | 0 => []
  | k + 1 =>
      match step qt (world qt files schedule k).1 (schedule k) with
      | none => taken qt files schedule k
      | some _ => taken qt files schedule k ++ [schedule k]

section taken

variable {qt : Qt} {files : Page → Bytes} (schedule : Nat → Label)

theorem run_taken (k : Nat) :
    run (step qt) (init files) (taken qt files schedule k) =
      some (world qt files schedule k).1 := by
  induction k with
  | zero => rfl
  | succ k ih =>
    show run (step qt) (init files) (taken qt files schedule (k + 1)) =
      some (turn qt (world qt files schedule k) (schedule k)).1
    rw [taken]
    cases hstep : step qt (world qt files schedule k).1 (schedule k) with
    | none =>
      rw [turn_of_none hstep]
      exact ih
    | some s' =>
      rw [turn_of_step hstep]
      exact run_snoc ih hstep

end taken

/-- No request arrives. -/
def Label.Quiet (l : Label) : Prop := ∀ req, l ≠ .receive req

/-- All requests have been answered. -/
structure Settled (qt : Qt) (files : Page → Bytes) (w : World) : Prop where
  live : Live qt files w
  running : w.1.ended = false
  finished : ∀ (i : Nat) pc, w.1.threads[i]? = some pc → pc = .finished

section settled

variable {qt : Qt} {files : Page → Bytes} {w : World} {l : Label}

/-- No thread waits for the main thread. -/
theorem Settled.not_waits (h : Settled qt files w) {i : Nat} {call : Invocation} :
    ¬ Waits qt w.1 i call := by
  rintro ⟨req, hpc, _⟩
  have heq := h.finished i _ hpc
  cases heq

theorem Settled.main (h : Settled qt files w) : w.1.main = .loop := by
  obtain ⟨order, a, hserves⟩ := h.live.serves
  have hmain := hserves.main
  cases hpc : w.1.main with
  | loop => rfl
  | inMethod i rest =>
    rw [hpc] at hmain
    obtain ⟨_, call, hwaits, _⟩ := hmain
    exact absurd hwaits h.not_waits

theorem Settled.events (h : Settled qt files w) : w.1.events = [] := by
  obtain ⟨order, a, hserves⟩ := h.live.serves
  cases hevents : w.1.events with
  | nil => rfl
  | cons e events =>
    exact absurd (hserves.events e (by rw [hevents]; exact List.mem_cons_self)) h.not_waits

/-- A step of the pages is no request and no response. -/
theorem observed_of_page {s : State} {page : PingPong.Label PropValue} (h : l.page? = some page) :
    observed s l = [] := by
  cases l with
  | refresh | getHTMLFile | client i e => rfl
  | receive | process | exec | send => cases h

theorem pageLabels_of_page {s : State} {page : PingPong.Label PropValue}
    (h : l.page? = some page) : pageLabels s l = [page] := by
  cases l with
  | refresh | getHTMLFile | client i e =>
    cases h
    rfl
  | receive | process | exec | send => cases h

/-- Only the refresh thread and the clients of the html server go on. -/
theorem Settled.page (h : Settled qt files w) (hl : l.Quiet) {s' : State}
    (hstep : step qt w.1 l = some s') :
    ∃ page, l.page? = some page ∧ displayStep qt w.1 page = some s' := by
  obtain ⟨_, hnext⟩ := step_eq_some_iff.mp hstep
  cases l with
  | receive req => exact absurd rfl (hl req)
  | process i =>
    obtain ⟨req, hpc, _⟩ := next_process hnext
    have heq := h.finished i _ hpc
    cases heq
  | exec =>
    rw [next, execStep, h.main, h.events] at hnext
    cases hnext
  | send i =>
    obtain ⟨response, hpc, _⟩ := next_send hnext
    have heq := h.finished i _ hpc
    cases heq
  | refresh | getHTMLFile | client i e => exact ⟨_, rfl, hnext⟩

theorem Settled.turn (h : Settled qt files w) (hl : l.Quiet) :
    Settled qt files (turn qt w l) := by
  have hlive := live_turn w l h.live
  cases hstep : step qt w.1 l with
  | none =>
    rw [turn_of_none hstep]
    exact h
  | some s' =>
    obtain ⟨page, _, hpage⟩ := h.page hl hstep
    obtain ⟨display, _, rfl⟩ := displayStep_eq_some_iff.mp hpage
    rw [turn_of_step hstep] at hlive ⊢
    exact ⟨hlive, h.running, h.finished⟩

/-- It neither responds nor changes an object. -/
theorem Settled.still (h : Settled qt files w) (hl : l.Quiet) :
    (Program.turn qt w l).2 = w.2 ∧
      contents (Program.turn qt w l).1.object = contents w.1.object := by
  cases hstep : step qt w.1 l with
  | none =>
    rw [turn_of_none hstep]
    exact ⟨rfl, rfl⟩
  | some s' =>
    obtain ⟨page, hpage, hdisplay⟩ := h.page hl hstep
    rw [turn_of_step hstep]
    constructor
    · show w.2 ++ observed w.1 l = w.2
      rw [observed_of_page hpage]
      exact List.append_nil w.2
    · have htable := page_table hpage hdisplay
      obtain ⟨display, _, rfl⟩ := displayStep_eq_some_iff.mp hdisplay
      show Contents.mk w.1.objectName display.table = Contents.mk w.1.objectName w.1.display.table
      exact congrArg _ htable

theorem isPage_of_page {page : PingPong.Label PropValue} (h : l.page? = some page) :
    page.IsPage := by
  cases l with
  | refresh | getHTMLFile | client i e =>
    cases h
    trivial
  | receive | process | exec | send => cases h

/-- The refresh thread works with the current value. -/
theorem Settled.loaded (h : Settled qt files w) : PingPong.Loaded w.1.display := by
  obtain ⟨seen, hdisplays⟩ := h.live.displays
  exact (PingPong.publishInv_of_run hdisplays.run).loaded

/-- No turn makes more work for the refresh thread. -/
theorem Settled.work (h : Settled qt files w) (hl : l.Quiet) :
    PingPong.tokens (Program.turn qt w l).1.display ≤ PingPong.tokens w.1.display ∧
      (PingPong.tokens (Program.turn qt w l).1.display = PingPong.tokens w.1.display →
        PingPong.refreshLeft (Program.turn qt w l).1.display ≤
          PingPong.refreshLeft w.1.display) := by
  cases hstep : step qt w.1 l with
  | none =>
    rw [turn_of_none hstep]
    exact ⟨Nat.le_refl _, fun _ => Nat.le_refl _⟩
  | some s' =>
    obtain ⟨page, hpage, hdisplay⟩ := h.page hl hstep
    obtain ⟨display, hpageStep, rfl⟩ := displayStep_eq_some_iff.mp hdisplay
    rw [turn_of_step hstep]
    exact PingPong.refreshLeft_step h.loaded (isPage_of_page hpage) hpageStep

/-- A turn of the refresh thread. -/
theorem Settled.refresh (h : Settled qt files w) :
    (Program.turn qt w .refresh).1.display =
      PingPong.refreshStep (save qt.saveOther) w.1.display := by
  have hstep : step qt w.1 .refresh = some { w.1 with
      display := PingPong.refreshStep (save qt.saveOther) w.1.display } := by
    rw [step_eq_some_iff]
    exact ⟨h.running, rfl⟩
  rw [turn_of_step hstep]

variable {schedule : Nat → Label}

/-- The refreshes that are due end one after the other. -/
theorem tokens_leadsTo (h : Settled qt files w) (hquiet : ∀ k, (schedule k).Quiet)
    (hrefresh : Recurs schedule .refresh) (n : Nat) :
    LeadsTo (turn qt) w schedule (fun w => PingPong.tokens w.1.display ≤ n)
      (fun w => PingPong.tokens w.1.display = 0) := by
  have hinv : ∀ k, Settled qt files (exec (turn qt) w schedule k) :=
    exec_invariant_only hquiet (fun w l hl hw => hw.turn hl) h
  induction n with
  | zero => exact fun k hk => ⟨k, Nat.le_refl k, Nat.le_zero.mp hk⟩
  | succ n ih =>
    -- the refresh for the last token ends: what is left of it is the rank
    have hlast : LeadsTo (turn qt) w schedule (fun w => PingPong.tokens w.1.display = n + 1)
        (fun w => PingPong.tokens w.1.display ≤ n) := by
      refine leadsTo_of_rank (A := Label.Quiet) (fun w => PingPong.refreshLeft w.1.display) hquiet
        hinv (fun w l hl hw => hw.turn hl) ?_ ?_ hrefresh
      · intro w l hl hw htokens
        obtain ⟨hle, hrank⟩ := hw.work hl
        by_cases heq : PingPong.tokens (turn qt w l).1.display = PingPong.tokens w.1.display
        · exact Or.inr ⟨heq.trans htokens, hrank heq⟩
        · left
          omega
      · intro w hw htokens
        have hpos : 0 < PingPong.tokens w.1.display := by omega
        have hturn := PingPong.refreshLeft_refreshStep (save qt.saveOther) hpos
        rw [← hw.refresh] at hturn
        rcases hturn with hlt | ⟨_, hlt⟩
        · exact Or.inl (by omega)
        · exact Or.inr hlt
    intro k hk
    by_cases heq : PingPong.tokens (exec (turn qt) w schedule k).1.display = n + 1
    · exact (hlast.trans ih) k heq
    · exact ih k (by omega)

/-- In the end no refresh is due. -/
theorem eventually_quiet (h : Settled qt files w) (hquiet : ∀ k, (schedule k).Quiet)
    (hrefresh : Recurs schedule .refresh) :
    ∃ k₀, ∀ k, k₀ ≤ k → Settled qt files (exec (turn qt) w schedule k) ∧
      PingPong.Quiet (exec (turn qt) w schedule k).1.display := by
  have hinv : ∀ k, Settled qt files (exec (turn qt) w schedule k) :=
    exec_invariant_only hquiet (fun w l hl hw => hw.turn hl) h
  obtain ⟨k₀, _, hzero⟩ := tokens_leadsTo h hquiet hrefresh _ 0 (Nat.le_refl _)
  refine ⟨k₀, fun k hk => ⟨hinv k, ?_⟩⟩
  have hstay : PingPong.tokens (exec (turn qt) w schedule k).1.display = 0 := by
    induction k, hk using Nat.le_induction with
    | base => exact hzero
    | succ k hk ih =>
      have hle := ((hinv k).work (hquiet k)).1
      exact Nat.le_zero.mp (ih ▸ hle)
  have hstage := (hinv k).live.stage
  rw [(hinv k).main] at hstage
  apply PingPong.quiet_of_tokens _ hstay
  generalize (exec (turn qt) w schedule k).1.display.mutator = m at hstage ⊢
  cases hstage
  rfl

end settled

/-! ### The last request -/

section last

variable {qt : Qt} {files : Page → Bytes} {schedule : Nat → Label}

/-- A thread that has sent its response is finished. -/
theorem finished_of_ret {w : World} (hw : Live qt files w) {i : Nat} {response : Sending}
    (h : .ret i response ∈ w.2) : w.1.threads[i]? = some .finished := by
  obtain ⟨order, a, hserves⟩ := hw.serves
  obtain ⟨req, hprec⟩ := hserves.wellFormed.behind i response h
  have hlt := hserves.numbered i (List.mem_filterMap.mpr ⟨_, hprec.mem, rfl⟩)
  obtain ⟨pc, hpc⟩ : ∃ pc, w.1.threads[i]? = some pc := ⟨_, List.getElem?_eq_getElem hlt⟩
  rw [hpc]
  cases pc with
  | received req' =>
    exact absurd h (hserves.linear.ret_not_mem (hserves.received i req' hpc).2 response)
  | waiting req' id =>
    exact absurd h (hserves.linear.ret_not_mem (hserves.waiting i req' id hpc).2 response)
  | sending response' => exact absurd h ((hserves.sending i response' hpc).2 response)
  | finished => rfl

theorem turn_finished {w : World} {i : Nat} (l : Label) (h : w.1.threads[i]? = some .finished) :
    (turn qt w l).1.threads[i]? = some .finished := by
  cases hstep : step qt w.1 l with
  | none =>
    rw [turn_of_none hstep]
    exact h
  | some s' =>
    rw [turn_of_step hstep]
    rcases thread_step hstep h with hstay | ⟨pc', _, hmoves⟩
    · exact hstay
    · cases hmoves

theorem world_finished {k k' i : Nat}
    (h : (world qt files schedule k).1.threads[i]? = some .finished) (hle : k ≤ k') :
    (world qt files schedule k').1.threads[i]? = some .finished :=
  exec_stable (P := fun w : World => w.1.threads[i]? = some .finished)
    (fun _ l hw => turn_finished l hw) h hle

theorem world_over {k k' : Nat} (h : (world qt files schedule k).1.ended = true) (hle : k ≤ k') :
    (world qt files schedule k').1.ended = true := by
  refine exec_stable (P := fun w : World => w.1.ended = true) ?_ h hle
  intro w l hw
  rw [turn_of_over hw]
  exact hw

/-- The thread of a request finishes, or the program is over. -/
theorem eventually_finished (hfair : Fair schedule) {k i : Nat}
    (hi : i < (world qt files schedule k).1.threads.length) :
    ∃ k', k ≤ k' ∧ ((world qt files schedule k').1.ended = true ∨
      (world qt files schedule k').1.threads[i]? = some .finished) := by
  obtain ⟨k', hle, hanswered⟩ := answered_of_lt hfair hi
  refine ⟨k', hle, hanswered.imp_right ?_⟩
  rintro ⟨response, hmem⟩
  exact finished_of_ret (live_world schedule k') hmem

/-- So do all of them. -/
theorem eventually_all_finished (hfair : Fair schedule) (K n : Nat)
    (hn : n ≤ (world qt files schedule K).1.threads.length)
    (hlength : ∀ k, K ≤ k → (world qt files schedule k).1.threads.length =
      (world qt files schedule K).1.threads.length) :
    ∃ k, K ≤ k ∧ ((world qt files schedule k).1.ended = true ∨
      ∀ i < n, (world qt files schedule k).1.threads[i]? = some .finished) := by
  induction n with
  | zero => exact ⟨K, Nat.le_refl K, Or.inr nofun⟩
  | succ n ih =>
    obtain ⟨k, hle, hover | hfinished⟩ := ih (by omega)
    · exact ⟨k, hle, Or.inl hover⟩
    · have hlt : n < (world qt files schedule k).1.threads.length := by
        rw [hlength k hle]
        omega
      obtain ⟨k', hle', hover | hlast⟩ := eventually_finished hfair hlt
      · exact ⟨k', by omega, Or.inl hover⟩
      · refine ⟨k', by omega, Or.inr ?_⟩
        intro i hi
        rcases Nat.lt_succ_iff_lt_or_eq.mp hi with hi | rfl
        · exact world_finished (hfinished i hi) hle'
        · exact hlast

/-- Only arriving requests start threads. -/
theorem turn_length {w : World} {l : Label} (hl : l.Quiet) :
    (turn qt w l).1.threads.length = w.1.threads.length := by
  cases hstep : step qt w.1 l with
  | none => rw [turn_of_none hstep]
  | some s' =>
    rw [turn_of_step hstep]
    obtain ⟨_, hnext⟩ := step_eq_some_iff.mp hstep
    cases l with
    | receive req => exact absurd rfl (hl req)
    | process i =>
      obtain ⟨req, _, rfl⟩ := next_process hnext
      unfold processStep
      split <;> exact setThread_length _ _ _
    | exec =>
      rcases execStep_cases hnext with ⟨_, _, _, _, rfl⟩ | ⟨_, _, _, s₁, _, heffect, rfl⟩ |
        ⟨j, ret, _, hreturn⟩ | ⟨_, _, rfl⟩
      · rfl
      · obtain ⟨_, _, rfl⟩ := effectStep_eq_some_iff.mp heffect
        rfl
      · obtain ⟨_, _, _, rfl⟩ := returnTo_eq_some hreturn
        exact setThread_length _ _ _
      · rfl
    | send i =>
      obtain ⟨response, _, rfl⟩ := next_send hnext
      exact setThread_length _ _ _
    | refresh | getHTMLFile | client i e =>
      rw [next_page rfl] at hnext
      obtain ⟨_, _, rfl⟩ := displayStep_eq_some_iff.mp hnext
      rfl

end last

/-! ### At rest -/

/-- Every request has the response that this order gives it, and the page
    shows the object that the order leaves. -/
structure AtRest (qt : Qt) (files : Page → Bytes) (updated : Prop)
    (order : List (Entry Request Sending)) (a : Contents) (w : World) : Prop where
  linear : Linearization (serve qt) .initial w.2 order a
  answered : ∀ i req, .call i req ∈ w.2 → ∃ e ∈ order, e.id = i ∧ .ret i e.reply ∈ w.2
  shows : Shows qt files updated a w.1

section rest

variable {qt : Qt} {files : Page → Bytes} {schedule : Nat → Label}

theorem updated_taken (k : Nat) (h : Settled qt files (world qt files schedule k))
    (hl : (schedule k).Quiet) :
    Updated qt files (taken qt files schedule (k + 1)) ↔
      Updated qt files (taken qt files schedule k) := by
  rw [taken]
  cases hstep : step qt (world qt files schedule k).1 (schedule k) with
  | none => exact Iff.rfl
  | some s' =>
    obtain ⟨page, hpage, _⟩ := h.page hl hstep
    show _ ∈ trace _ _ _ _ ↔ _
    rw [trace_snoc (run_taken schedule k) hstep, pageLabels_of_page hpage, List.mem_append,
      List.mem_singleton]
    refine or_iff_left ?_
    -- the notifications are the main thread's
    rintro rfl
    exact isPage_of_page hpage

/-- What no turn changes from the moment `k₀` on. -/
theorem still_of_settled {k₀ : Nat}
    (hsettled : ∀ k, k₀ ≤ k → Settled qt files (world qt files schedule k))
    (hquiet : ∀ k, k₀ ≤ k → (schedule k).Quiet) (k : Nat) (hk : k₀ ≤ k) :
    (world qt files schedule k).2 = (world qt files schedule k₀).2 ∧
      contents (world qt files schedule k).1.object =
        contents (world qt files schedule k₀).1.object ∧
      (Updated qt files (taken qt files schedule k) ↔
        Updated qt files (taken qt files schedule k₀)) := by
  induction k, hk using Nat.le_induction with
  | base => exact ⟨rfl, rfl, Iff.rfl⟩
  | succ k hk ih =>
    obtain ⟨hhistory, hobject, hupdated⟩ := ih
    obtain ⟨hsame, hleft⟩ := (hsettled k hk).still (hquiet k hk)
    have hnone := updated_taken k (hsettled k hk) (hquiet k hk)
    exact ⟨hsame.trans hhistory, hleft.trans hobject, hnone.trans hupdated⟩

/-- All responses have been sent. -/
theorem Settled.answered {w : World} (h : Settled qt files w) {order : List (Entry Request Sending)}
    {a : Contents} (hserves : Serves qt w.2 order a w.1) (i : Nat) (req : Request)
    (hcall : .call i req ∈ w.2) : ∃ e ∈ order, e.id = i ∧ .ret i e.reply ∈ w.2 := by
  have hlt := hserves.numbered i (List.mem_filterMap.mpr ⟨_, hcall, rfl⟩)
  have hpc := List.getElem?_eq_getElem hlt
  rw [h.finished i _ hpc] at hpc
  obtain ⟨response, hret⟩ := h.live.finished i hpc
  obtain ⟨e, he, hid, hreply⟩ := hserves.linear.answered i response hret
  exact ⟨e, he, hid, hreply ▸ hret⟩

/-- A program that has settled rests. -/
theorem atRest_of_settled {k₀ : Nat}
    (hsettled : ∀ k, k₀ ≤ k → Settled qt files (world qt files schedule k) ∧
      PingPong.Quiet (world qt files schedule k).1.display)
    (hquiet : ∀ k, k₀ ≤ k → (schedule k).Quiet) :
    ∃ order a, ∀ k, k₀ ≤ k →
      AtRest qt files (Updated qt files (taken qt files schedule k₀)) order a
        (world qt files schedule k) := by
  -- the order and the object are those of the moment `k₀`
  obtain ⟨hdone, _⟩ := hsettled k₀ (Nat.le_refl k₀)
  obtain ⟨order, a, hserves⟩ := hdone.live.serves
  have hmain := hserves.main
  rw [hdone.main] at hmain
  have ha : contents (world qt files schedule k₀).1.object = a := hmain
  refine ⟨order, a, fun k hk => ?_⟩
  obtain ⟨hhistory, hobject, hupdated⟩ :=
    still_of_settled (fun k hk => (hsettled k hk).1) hquiet k hk
  have hshows := (displays_of_run (run_taken schedule k)).shows (hsettled k hk).2
  refine ⟨?_, ?_, ?_⟩
  · rw [hhistory]
    exact hserves.linear
  · rw [hhistory]
    exact hdone.answered hserves
  · rw [← ha, ← hobject]
    exact ⟨hshows.object, fun hup => hshows.rendered (hupdated.mpr hup),
      fun hup => hshows.untouched (hup ∘ hupdated.mp)⟩

end rest

/-- **The page catches up**: when no more requests arrive, the program is
    over at some moment, or there is an order of the requests such that from
    some moment on every request has the response that the sequential object
    gives it in this order, and the page of the html clients is the
    rendering of the object behind it. If no update has come by then, the
    page is the file that was there at the start. -/
theorem eventually_shown (qt : Qt) (files : Page → Bytes) (schedule : Nat → Label)
    (hfair : Fair schedule) (K : Nat) (hlast : ∀ k, K ≤ k → ∀ req, schedule k ≠ .receive req) :
    ∃ k₀, (∀ k, k₀ ≤ k → (world qt files schedule k).1.ended = true) ∨
      ∃ order a, ∀ k, k₀ ≤ k →
        AtRest qt files (Updated qt files (taken qt files schedule k₀)) order a
          (world qt files schedule k) := by
  have hlength : ∀ k, K ≤ k → (world qt files schedule k).1.threads.length =
      (world qt files schedule K).1.threads.length := by
    intro k hk
    induction k, hk using Nat.le_induction with
    | base => rfl
    | succ k hk ih => exact (turn_length (hlast k hk)).trans ih
  obtain ⟨k₁, hle, hover | hfinished⟩ :=
    eventually_all_finished hfair K _ (Nat.le_refl _) hlength
  · refine ⟨k₁, Or.inl fun k hk => ?_⟩
    exact world_over hover hk
  cases hrunning : (world qt files schedule k₁).1.ended with
  | true =>
    refine ⟨k₁, Or.inl fun k hk => ?_⟩
    exact world_over hrunning hk
  | false =>
    -- all requests have been answered, and the refresh thread catches up
    have hsettled : Settled qt files (world qt files schedule k₁) := by
      refine ⟨live_world schedule k₁, hrunning, ?_⟩
      intro i pc hpc
      obtain ⟨hlt, _⟩ := List.getElem?_eq_some_iff.mp hpc
      have hdone := hfinished i (by rw [← hlength k₁ hle]; exact hlt)
      exact Option.some.inj (hpc.symm.trans hdone)
    have hstill : ∀ k, (schedule (k₁ + k)).Quiet := fun k => hlast (k₁ + k) (by omega)
    obtain ⟨k₂, hquiet⟩ := eventually_quiet hsettled hstill (hfair.refresh.add k₁)
    refine ⟨k₁ + k₂, Or.inr (atRest_of_settled ?_ fun k hk => hlast k (by omega))⟩
    intro k hk
    obtain ⟨d, rfl⟩ := Nat.exists_eq_add_of_le (show k₁ ≤ k by omega)
    have hend := hquiet d (by omega)
    unfold world at hend
    rw [← exec_add] at hend
    exact hend

/-- No third request arrives. -/
theorem quiet_twoRequests (k : Nat) (hk : 2 ≤ k) : (startingWith twoRequests k).Quiet := by
  intro req h
  rw [startingWith, dovetail_of_le hk] at h
  unfold numbered at h
  split at h
  · cases h
  · cases h
  · split at h <;> cases h

theorem eventually_shown_twoRequests :
    ∃ k₀, (∀ k, k₀ ≤ k →
        (world twoQt (fun _ => []) (startingWith twoRequests) k).1.ended = true) ∨
      ∃ order a, ∀ k, k₀ ≤ k →
        AtRest twoQt (fun _ => [])
          (Updated twoQt (fun _ => []) (taken twoQt (fun _ => []) (startingWith twoRequests) k₀))
          order a (world twoQt (fun _ => []) (startingWith twoRequests) k) :=
  eventually_shown twoQt (fun _ => []) (startingWith twoRequests)
    (fair_startingWith twoRequests) 2 quiet_twoRequests

end Program
