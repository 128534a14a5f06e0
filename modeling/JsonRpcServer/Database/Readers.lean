import JsonRpcServer.Framework.Counting
import JsonRpcServer.Database.PingPong

/-! # The Reader Count

  Each page has a semaphore that is meant to count its readers: the clients
  between the constructor and the destructor of `PingPongClientAccess`.

  The wait loop of `refreshHtml` takes tokens of the same semaphore and never
  gives them back. A token it takes is one that a reader needs for its
  destructor.

  * `counted_iff`: the semaphores count the readers all along a run exactly
    when every `try_acquire` of the wait loop fails.
-/

namespace DatabaseObj.PingPong

open Bytes System Counting

variable {V : Type} {render : V → Bytes}

/-- Both semaphores count the readers of their page, and no reader is stuck
    in its destructor. -/
def Counted (s : State V) : Prop :=
  (∀ p, (s.html_ping_pong p).semaphores = s.readers p) ∧
    ∀ c ∈ s.clients, ∀ p, c.Holds p → 0 < (s.html_ping_pong p).semaphores

/-- The step is no successful `try_acquire` of the wait loop. -/
def FindsNoToken (s : State V) (l : Label V) : Prop :=
  ∀ state ∈ testing s l, (s.html_ping_pong state.invalid).semaphores = 0

/-- A page with a reader has a positive count. -/
theorem readers_pos {s : State V} {c : Client} {p : Page} (hc : c ∈ s.clients) (h : c.Holds p) :
    0 < s.readers p :=
  List.countP_pos_iff.mpr ⟨c, hc, decide_eq_true h⟩

theorem counted_of_semaphores {s : State V}
    (h : ∀ p, (s.html_ping_pong p).semaphores = s.readers p) : Counted s :=
  ⟨h, fun _ hc p hp => h p ▸ readers_pos hc hp⟩

@[simp] theorem readers_modifyPage (s : State V) (p p' : Page) (f : HtmlFileIO → HtmlFileIO) :
    (s.modifyPage p f).readers p' = s.readers p' := rfl

/-- A client that changes adds to the count what it holds now and takes away
    what it held before. -/
theorem readers_setClient {s : State V} {i : Nat} {c : Client} (hi : s.clients[i]? = some c)
    (c' : Client) (p : Page) :
    (s.setClient i c').readers p + (if c.Holds p then 1 else 0) =
      s.readers p + (if c'.Holds p then 1 else 0) := by
  have hcount := countP_set_add hi c' fun c => c.Holds p
  rw [worth_decide, worth_decide] at hcount
  exact hcount

/-- A client that changes with the semaphore of its page, by one token for
    what it begins or ends to hold. -/
theorem modifyPage_setClient_semaphores {s : State V} {i : Nat} {c : Client}
    (hi : s.clients[i]? = some c) (c' : Client) (hpage : c'.page = c.page)
    (f : HtmlFileIO → HtmlFileIO)
    (hf : (f (s.html_ping_pong c.page)).semaphores + (if c.Holds c.page then 1 else 0) =
      (s.html_ping_pong c.page).semaphores + if c'.Holds c.page then 1 else 0) (p : Page) :
    (((s.modifyPage c.page f).setClient i c').html_ping_pong p).semaphores + s.readers p =
      (s.html_ping_pong p).semaphores + ((s.modifyPage c.page f).setClient i c').readers p := by
  have hcount := readers_setClient (s := s.modifyPage c.page f) hi c' p
  rw [readers_modifyPage] at hcount
  rw [setClient_html_ping_pong, modifyPage_html_ping_pong]
  by_cases hp : p = c.page
  · subst hp
    rw [if_pos rfl]
    omega
  · -- another page
    rw [if_neg fun h : c.Holds p => hp h.1.symm,
      if_neg fun h : c'.Holds p => hp (h.1.symm.trans hpage)] at hcount
    rw [if_neg hp]
    omega

/-- A step of a client changes semaphore and count of its page alike. -/
theorem clientStep_semaphores {s s' : State V} {i : Nat} {c : Client} {e : ClientStep}
    (hi : s.clients[i]? = some c) (h : clientStep s i c e = some s') (p : Page) :
    (s'.html_ping_pong p).semaphores + s.readers p =
      (s.html_ping_pong p).semaphores + s'.readers p := by
  have hcount := fun c' => readers_setClient hi c' p
  have hselected : c.pc = .selected → ¬ c.Holds p := by
    rintro hpc ⟨_, h | h⟩ <;> simp [hpc] at h
  rcases clientStep_cases h with ⟨hpc, _, rfl⟩ | ⟨hpc, _, rfl⟩ | ⟨k, hpc, _, _, rfl⟩ |
    ⟨hpc, _, hpos, rfl⟩
  · -- the file is opened
    have := hcount { c with
      pc := .opened
      length_ := (s.html_ping_pong c.page).content.length
      announced := (s.html_ping_pong c.page).content }
    rw [if_neg (hselected hpc), if_neg (by simp [Client.Holds])] at this
    rw [setClient_html_ping_pong]
    omega
  · -- `release`
    refine modifyPage_setClient_semaphores hi { c with pc := .reading } rfl .release ?_ p
    rw [if_neg (by simp [Client.Holds, hpc]), if_pos ⟨rfl, Or.inl rfl⟩]
    rfl
  · -- `sendfile`
    have := hcount { c with
      pc := if c.chunk (s.html_ping_pong c.page).content k = [] then .leaving else .reading
      sent := c.sent ++ c.chunk (s.html_ping_pong c.page).content k }
    have hholds : ({ c with
        pc := if c.chunk (s.html_ping_pong c.page).content k = [] then .leaving else .reading
        sent := c.sent ++ c.chunk (s.html_ping_pong c.page).content k } : Client).Holds p ↔
        c.Holds p := by
      simp only [Client.Holds, hpc]
      split <;> simp
    simp only [hholds] at this
    rw [setClient_html_ping_pong]
    omega
  · -- `acquire`
    refine modifyPage_setClient_semaphores hi { c with pc := .destroyed } rfl .acquire ?_ p
    rw [if_pos ⟨rfl, hpc⟩, if_neg (by simp [Client.Holds])]
    show (s.html_ping_pong c.page).semaphores - 1 + 1 = (s.html_ping_pong c.page).semaphores + 0
    omega

/-- Steps that find no token keep the count. -/
theorem counted_step {s s' : State V} {l : Label V} (hs : Counted s) (hl : FindsNoToken s l)
    (h : step render s l = some s') : Counted s' := by
  refine counted_of_semaphores fun p => ?_
  cases l with
  | setProperty name value =>
    obtain ⟨_, rfl⟩ := step_setProperty h
    exact hs.1 p
  | notifyRefresh =>
    obtain ⟨_, rfl⟩ := step_notifyRefresh h
    exact hs.1 p
  | refresh =>
    cases h
    rw [refreshStep_semaphores fun state h => hl state (testing_refresh.mpr h), State.readers,
      refreshStep_clients]
    exact hs.1 p
  | getHTMLFile =>
    cases h
    rw [hs.1 p, State.readers, State.readers, List.countP_append]
    simp [Client.Holds]
  | client i e =>
    obtain ⟨c, hi, h⟩ := step_client h
    have := clientStep_semaphores hi h p
    have := hs.1 p
    omega

/-- A token that the wait loop takes is missing from the count. -/
theorem not_counted_of_token {s : State V} {l : Label V} (hs : Counted s)
    (hl : ¬ FindsNoToken s l) : ∃ s', step render s l = some s' ∧ ¬ Counted s' := by
  cases l with
  | refresh =>
    simp only [FindsNoToken, not_forall, testing_refresh] at hl
    obtain ⟨state, hpc, hpos⟩ := hl
    refine ⟨_, rfl, fun hc => ?_⟩
    -- the semaphore goes down and the readers stay
    have hbefore := hs.1 state.invalid
    have hafter := hc.1 state.invalid
    rw [State.readers, refreshStep_clients] at hafter
    rw [refreshStep, hpc] at hafter
    dsimp only at hafter
    rw [if_pos (by omega), modifyPage_html_ping_pong, if_pos rfl, HtmlFileIO.acquire] at hafter
    rw [State.readers] at hbefore
    dsimp only at hafter
    omega
  | _ => exact absurd nofun hl

/-- **Reader count**: all along a run the semaphores count the readers, and
    no destructor blocks, exactly when the wait loop of `refreshHtml` never
    finds a token. -/
theorem counted_iff (render : V → Bytes) (files : Page → Bytes) (ls : List (Label V)) :
    Always (step render) Counted (init files) ls ↔
      Guarded (step render) FindsNoToken (init files) ls :=
  always_iff_guarded (fun _ _ _ hs hl h => counted_step hs hl h)
    (fun _ _ hs hl => not_counted_of_token hs hl)
    (counted_of_semaphores fun _ => rfl) ls

/-! ### A token that is taken -/

/-- A call, and as many steps of the refresh thread as follow it. -/
def update (value : Bytes) (k : Nat) : List (Label Bytes) :=
  [.setProperty (ascii "Text") (some value), .notifyRefresh] ++ List.replicate k .refresh

/-- A client of the first page is still reading when the second refresh after
    it starts to wait for the page. -/
def takenToken : List (Label Bytes) :=
  [.getHTMLFile, .client 0 .openFile, .client 0 .release] ++ update (ascii "a") 9 ++
    update (ascii "b") 3

theorem not_counted_takenToken :
    ¬ ∀ (files : Page → Bytes) (ls : List (Label Bytes)),
      Always (step id) Counted (init files) ls := by
  intro hall
  have hend : (run (step id) (init fun _ => []) takenToken).any (fun s =>
      (s.html_ping_pong .page0).semaphores ≠ s.readers .page0) := by
    decide +kernel
  obtain ⟨s, hrun, hbad⟩ := (Option.any_eq_true _ _).mp hend
  exact of_decide_eq_true hbad
    ((hall (fun _ => []) takenToken takenToken s List.prefix_rfl hrun).1 .page0)

end DatabaseObj.PingPong
