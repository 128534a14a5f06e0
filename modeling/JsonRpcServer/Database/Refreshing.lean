import JsonRpcServer.Database.Published
import JsonRpcServer.Framework.Counting

/-! # The Work of the Refresh Thread

  Behind the last call the refresh thread has a token of
  `refresh_semaphore_` for each notification it has not served, and in each
  of its turns it does a part of the work that a token stands for.

  The part without a bound in the code is the loop
  `while(page.semaphores.try_acquire());`. A client that reads the page the
  loop is working on may still announce itself and put a token into it. But
  clients that come in select the other page, so `refreshLeft` falls with
  every turn.
-/

namespace DatabaseObj.PingPong

open Counting

variable {V : Type}

/-- Refreshes that are due or running. -/
def tokens (s : State V) : Nat :=
  s.refresh_semaphore + if s.refresher = .idle then 0 else 1

/-- The client has yet to put its token into the semaphore of this page. -/
def Client.Coming (c : Client) (p : Page) : Prop :=
  c.page = p ∧ (c.pc = .selected ∨ c.pc = .opened)

instance (c : Client) (p : Page) : Decidable (c.Coming p) := inferInstanceAs (Decidable (_ ∧ _))

/-- Tokens that the wait loop may still find. -/
def drainLeft (s : State V) (p : Page) : Nat :=
  (s.html_ping_pong p).semaphores + s.clients.countP fun c => c.Coming p

/-- Turns to the end of the refresh that is running or next. -/
def refreshLeft (s : State V) : Nat :=
  match s.refresher with
  | .idle => drainLeft s s.ping_pong_state.invalid + s.table.length + 7
  | .started => drainLeft s s.ping_pong_state.invalid + s.table.length + 6
  | .waiting state => drainLeft s state.invalid + s.table.length + 5
  | .truncating _ => s.table.length + 4
  | .head _ => s.table.length + 3
  | .names _ => s.table.length + 2
  | .rows _ names => names.length + 1
  | .publishing _ => 0

/-- The refresh thread works with the current value of `ping_pong_state_`. -/
def Loaded (s : State V) : Prop :=
  ∀ state, s.refresher.state? = some state → state = s.ping_pong_state

/-- A label of another party than the main thread. -/
def Label.IsPage : Label V → Prop
  | .setProperty _ _ | .notifyRefresh => False
  | .refresh | .getHTMLFile | .client _ _ => True

variable {render : V → Bytes}

/-! ### The refresh thread -/

variable (render) in
/-- A turn of the refresh thread ends a refresh, or does a part of it. -/
theorem refreshLeft_refreshStep {s : State V} (h : 0 < tokens s) :
    tokens (refreshStep render s) < tokens s ∨
      (tokens (refreshStep render s) = tokens s ∧
        refreshLeft (refreshStep render s) < refreshLeft s) := by
  unfold tokens at h ⊢
  unfold refreshLeft
  cases hpc : s.refresher with
  | idle =>
    rw [hpc, if_pos rfl, Nat.add_zero] at h
    rw [refreshStep, hpc]
    dsimp only
    rw [if_pos h]
    dsimp only
    right
    refine ⟨?_, Nat.lt_succ_self _⟩
    rw [if_neg Refresher.noConfusion, if_pos rfl]
    omega
  | started =>
    rw [refreshStep, hpc]
    exact Or.inr ⟨rfl, Nat.lt_succ_self _⟩
  | waiting state =>
    rw [refreshStep, hpc]
    dsimp only
    right
    split
    · next hpos =>
      -- one token less
      refine ⟨by rw [modifyPage_refresher, hpc]; rfl, ?_⟩
      rw [modifyPage_refresher, hpc]
      show ((s.modifyPage state.invalid .acquire).html_ping_pong state.invalid).semaphores + _ +
        s.table.length + 5 < (s.html_ping_pong state.invalid).semaphores + _ + s.table.length + 5
      rw [modifyPage_html_ping_pong, if_pos rfl]
      show (s.html_ping_pong state.invalid).semaphores - 1 +
        (s.clients.countP fun c => c.Coming state.invalid) + s.table.length + 5 < _
      omega
    · refine ⟨rfl, ?_⟩
      show s.table.length + 4 < drainLeft s state.invalid + s.table.length + 5
      omega
  | truncating state =>
    rw [refreshStep, hpc]
    exact Or.inr ⟨rfl, Nat.lt_succ_self _⟩
  | head state =>
    rw [refreshStep, hpc]
    exact Or.inr ⟨rfl, Nat.lt_succ_self _⟩
  | names state =>
    rw [refreshStep, hpc]
    refine Or.inr ⟨rfl, ?_⟩
    show (s.table.map Prod.fst).length + 1 < s.table.length + 2
    rw [List.length_map]
    exact Nat.lt_succ_self _
  | rows state names =>
    cases names with
    | nil =>
      rw [refreshStep, hpc]
      exact Or.inr ⟨rfl, Nat.succ_pos _⟩
    | cons name names =>
      rw [refreshStep, hpc]
      exact Or.inr ⟨rfl, Nat.lt_succ_self _⟩
  | publishing state =>
    rw [refreshStep, hpc]
    left
    dsimp only
    rw [if_pos rfl, if_neg Refresher.noConfusion]
    exact Nat.lt_succ_self _

/-! ### The clients -/

/-- What the clients may change of it. -/
theorem refreshLeft_le {s s' : State V} (hsemaphore : s'.refresh_semaphore = s.refresh_semaphore)
    (hrefresher : s'.refresher = s.refresher) (hstate : s'.ping_pong_state = s.ping_pong_state)
    (htable : s'.table = s.table) (hloaded : Loaded s)
    (hdrain : drainLeft s' s.ping_pong_state.invalid ≤ drainLeft s s.ping_pong_state.invalid) :
    tokens s' = tokens s ∧ refreshLeft s' ≤ refreshLeft s := by
  unfold tokens refreshLeft
  rw [hsemaphore, hrefresher, hstate, htable]
  refine ⟨rfl, ?_⟩
  cases hpc : s.refresher with
  | waiting state =>
    have hcurrent : state = s.ping_pong_state := hloaded state (by rw [hpc]; rfl)
    dsimp only
    rw [hcurrent]
    omega
  | idle | started =>
    dsimp only
    omega
  | truncating | head | names | rows | publishing => exact Nat.le_refl _

/-- A client that changes adds to the count what is coming of it now. -/
theorem coming_setClient {s : State V} {i : Nat} {c : Client} (hi : s.clients[i]? = some c)
    (c' : Client) (p : Page) :
    ((s.setClient i c').clients.countP fun c => c.Coming p) + (if c.Coming p then 1 else 0) =
      (s.clients.countP fun c => c.Coming p) + if c'.Coming p then 1 else 0 := by
  have hcount := countP_set_add hi c' fun c => c.Coming p
  rw [worth_decide, worth_decide] at hcount
  exact hcount

theorem drainLeft_clientStep {s s' : State V} {i : Nat} {c : Client} {e : ClientStep}
    (hi : s.clients[i]? = some c) (h : clientStep s i c e = some s') (p : Page) :
    drainLeft s' p ≤ drainLeft s p := by
  have hcount := fun c' => coming_setClient hi c' p
  unfold drainLeft
  rcases clientStep_cases h with ⟨hpc, _, rfl⟩ | ⟨hpc, _, rfl⟩ | ⟨k, hpc, _, _, rfl⟩ |
    ⟨hpc, _, _, rfl⟩
  · -- the file is opened
    have hopen := hcount { c with
      pc := .opened
      length_ := (s.html_ping_pong c.page).content.length
      announced := (s.html_ping_pong c.page).content }
    simp only [Client.Coming, hpc, or_true, true_or, and_true] at hopen ⊢
    rw [setClient_html_ping_pong]
    omega
  · -- `release` moves a token from the count to the semaphore
    have hrelease := hcount { c with pc := .reading }
    simp only [Client.Coming, hpc, or_true, and_true, reduceCtorEq, or_false, and_false,
      if_false] at hrelease ⊢
    rw [setClient_html_ping_pong, modifyPage_html_ping_pong]
    show _ + (s.setClient i { c with pc := .reading }).clients.countP _ ≤ _
    by_cases hp : p = c.page
    · subst hp
      rw [if_pos rfl]
      rw [if_pos rfl] at hrelease
      show (s.html_ping_pong c.page).semaphores + 1 + _ ≤ _
      omega
    · rw [if_neg hp]
      rw [if_neg fun heq => hp heq.symm] at hrelease
      omega
  · -- `sendfile`
    have hsend := hcount { c with
      pc := if c.chunk (s.html_ping_pong c.page).content k = [] then .leaving else .reading
      sent := c.sent ++ c.chunk (s.html_ping_pong c.page).content k }
    have hnew : ¬ ({ c with
        pc := if c.chunk (s.html_ping_pong c.page).content k = [] then .leaving else .reading
        sent := c.sent ++ c.chunk (s.html_ping_pong c.page).content k } : Client).Coming p := by
      simp only [Client.Coming]
      split <;> simp
    rw [if_neg hnew] at hsend
    rw [setClient_html_ping_pong]
    omega
  · -- `acquire`
    have hacquire := hcount { c with pc := .destroyed }
    have hnew : ¬ ({ c with pc := .destroyed } : Client).Coming p := by simp [Client.Coming]
    rw [if_neg hnew] at hacquire
    rw [setClient_html_ping_pong, modifyPage_html_ping_pong]
    show _ + (s.setClient i { c with pc := .destroyed }).clients.countP _ ≤ _
    by_cases hp : p = c.page
    · subst hp
      rw [if_pos rfl]
      show (s.html_ping_pong c.page).semaphores - 1 + _ ≤ _
      omega
    · rw [if_neg hp]
      omega

/-- **No client puts a refresh off**: the turns of the other threads leave
    the work as it is, or make it less. -/
theorem refreshLeft_step {s s' : State V} {l : Label V} (hloaded : Loaded s) (hl : l.IsPage)
    (h : step render s l = some s') : tokens s' ≤ tokens s ∧
      (tokens s' = tokens s → refreshLeft s' ≤ refreshLeft s) := by
  cases l with
  | setProperty name value => exact hl.elim
  | notifyRefresh => exact hl.elim
  | refresh =>
    cases h
    by_cases hpos : 0 < tokens s
    · rcases refreshLeft_refreshStep render hpos with hlt | ⟨heq, hlt⟩
      · exact ⟨Nat.le_of_lt hlt, fun heq => absurd heq (Nat.ne_of_lt hlt)⟩
      · exact ⟨Nat.le_of_eq heq, fun _ => Nat.le_of_lt hlt⟩
    · -- nothing is due
      have hzero : s.refresh_semaphore = 0 ∧ s.refresher = .idle := by
        unfold tokens at hpos
        by_cases hidle : s.refresher = .idle
        · rw [if_pos hidle] at hpos
          exact ⟨by omega, hidle⟩
        · rw [if_neg hidle] at hpos
          omega
      have hstay : refreshStep render s = s := by
        rw [refreshStep, hzero.2]
        exact if_neg (by omega)
      rw [hstay]
      exact ⟨Nat.le_refl _, fun _ => Nat.le_refl _⟩
  | getHTMLFile =>
    cases h
    have hdrain : drainLeft { s with
        clients := s.clients ++ [⟨s.ping_pong_state.valid, .selected, 0, [], []⟩] }
          s.ping_pong_state.invalid ≤ drainLeft s s.ping_pong_state.invalid := by
      -- a new client reads the other page
      unfold drainLeft
      rw [countP_snoc, worth_decide, if_neg]
      · exact Nat.le_refl _
      · rintro ⟨hpage, _⟩
        exact StatesPair.valid_ne_invalid _ hpage
    suffices hle : tokens _ = tokens s ∧ refreshLeft _ ≤ refreshLeft s from
      ⟨Nat.le_of_eq hle.1, fun _ => hle.2⟩
    exact refreshLeft_le rfl rfl rfl rfl hloaded hdrain
  | client i e =>
    obtain ⟨c, hi, hclient⟩ := step_client h
    have hdrain := drainLeft_clientStep hi hclient s.ping_pong_state.invalid
    have hle : tokens s' = tokens s ∧ refreshLeft s' ≤ refreshLeft s := by
      rcases clientStep_cases hclient with ⟨_, _, rfl⟩ | ⟨_, _, rfl⟩ | ⟨_, _, _, _, rfl⟩ |
        ⟨_, _, _, rfl⟩ <;> exact refreshLeft_le rfl rfl rfl rfl hloaded hdrain
    exact ⟨Nat.le_of_eq hle.1, fun _ => hle.2⟩

/-- When no refresh is due or running, the program is quiet between the
    calls. -/
theorem quiet_of_tokens {s : State V} (hmutator : s.mutator = .idle) (h : tokens s = 0) :
    Quiet s := by
  unfold tokens at h
  by_cases hidle : s.refresher = .idle
  · rw [if_pos hidle] at h
    exact ⟨hmutator, h, hidle⟩
  · rw [if_neg hidle] at h
    cases h

end DatabaseObj.PingPong
