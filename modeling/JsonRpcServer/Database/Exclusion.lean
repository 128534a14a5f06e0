import JsonRpcServer.Database.Readers

/-! # Writers and Readers

  `refreshHtml` is meant to leave the page of a client alone: from the
  moment the client has selected it until its `PingPongClientAccess` is
  destroyed.

  The wait loop in front of the first write does not see to it. It takes the
  tokens of clients that still read, and it cannot see a client that has
  selected the page and not announced it yet.

  ## Main results

  * `refreshHtml_leaves_clients_alone`: if no client is left on the page
    whenever the wait loop ends, no client ever sees its page change, and
    what it sends is the content it has announced the length of.

  ## Proof idea

  While a page is written it is the invalid one: `ping_pong_state_` changes
  only at the end of a refresh. So clients that come meanwhile select the
  other page, and the clients that were there before are gone.
-/

namespace DatabaseObj.PingPong

open Bytes System

variable {V : Type} {render : V → Bytes}

/-! ### The property -/

/-- No client is on a page that is being truncated or written. -/
def Undisturbed (s : State V) : Prop :=
  ∀ c ∈ s.clients, c.Live → s.refresher.writing ≠ some c.page

/-- What the client has sent is the beginning of what it has announced, and
    all of it once the lengths agree. -/
def Client.SendsAnnounced (c : Client) : Prop :=
  c.sent <+: c.announced ∧ (c.sent.length = c.length_ → c.sent = c.announced)

/-- The wait loop ends with no client left on the page. -/
def LeavesNoClient (s : State V) (l : Label V) : Prop :=
  ∀ state ∈ testing s l, (s.html_ping_pong state.invalid).semaphores = 0 →
    ∀ c ∈ s.clients, c.Live → c.page ≠ state.invalid

instance (s : State V) (l : Label V) : Decidable (LeavesNoClient s l) :=
  inferInstanceAs (Decidable (∀ state ∈ testing s l, _ → ∀ c ∈ s.clients, c.Live → _))

/-! ### The invariant -/

/-- A client whose file has been opened still has the file it announced. -/
structure Client.Intact (c : Client) (content : Bytes) : Prop where
  length_eq : c.length_ = c.announced.length
  sent_prefix : c.sent <+: c.announced
  unsent : c.pc = .selected → c.sent = []
  content_eq : c.pc = .opened ∨ c.pc = .reading ∨ c.pc = .leaving → content = c.announced

structure Inv (s : State V) : Prop where
  /-- A refresh works with the current value of `ping_pong_state_`. -/
  loaded : ∀ state, s.refresher.state? = some state → state = s.ping_pong_state
  undisturbed : Undisturbed s
  intact : ∀ c ∈ s.clients, c.Intact (s.html_ping_pong c.page).content

theorem Client.Intact.sendsAnnounced {c : Client} {content : Bytes} (h : c.Intact content) :
    c.SendsAnnounced :=
  ⟨h.sent_prefix, fun hlen => h.sent_prefix.eq_of_length (hlen.trans h.length_eq)⟩

/-- Only the end of the wait loop starts to write. -/
theorem refreshStep_writing {s : State V} {p : Page}
    (h : (refreshStep render s).refresher.writing = some p) :
    s.refresher.writing = some p ∨ ∃ state, s.refresher = .waiting state ∧
      (s.html_ping_pong state.invalid).semaphores = 0 ∧ p = state.invalid := by
  rw [refreshStep.eq_def] at h
  split at h
  · next hpc =>
    split at h
    · cases h
    · rw [hpc] at h
      cases h
  · cases h
  · next state hpc =>
    split at h
    · rw [modifyPage_refresher, hpc] at h
      cases h
    · next hpos => exact Or.inr ⟨state, hpc, by omega, (Option.some.inj h).symm⟩
  · next hpc => exact Or.inl (hpc ▸ h)
  · next hpc => exact Or.inl (hpc ▸ h)
  · next hpc => exact Or.inl (hpc ▸ h)
  · cases h
  · next hpc => exact Or.inl (hpc ▸ h)
  · cases h

/-! ### Preservation -/

/-- A step of the refresh thread. -/
theorem inv_refreshStep {s : State V} (hs : Inv s) (hl : LeavesNoClient s (.refresh : Label V)) :
    Inv (refreshStep render s) where
  loaded state hstate := by
    rcases @refreshStep_state? V render s with h | ⟨hpair, h | h⟩
    · rw [h] at hstate
      cases hstate
    · rw [hpair]
      exact hs.loaded state (h ▸ hstate)
    · rw [hpair]
      exact (Option.some.inj (h ▸ hstate)).symm
  undisturbed c hc hlive hw := by
    rw [refreshStep_clients] at hc
    -- the page was being written before, or the wait loop has just ended
    rcases refreshStep_writing hw with hw | ⟨state, hpc, hzero, hp⟩
    · exact hs.undisturbed c hc hlive hw
    · exact hl state (testing_refresh.mpr hpc) hzero c hc hlive hp
  intact c hc := by
    rw [refreshStep_clients] at hc
    have hc' := hs.intact c hc
    refine ⟨hc'.length_eq, hc'.sent_prefix, hc'.unsent, fun hpc => ?_⟩
    have hlive : c.Live := by
      rintro h
      rcases hpc with hpc | hpc | hpc <;> rw [hpc] at h <;> cases h
    -- the file of a live client is not the one being written
    rw [refreshStep_content (hs.undisturbed c hc hlive)]
    exact hc'.content_eq hpc

/-- A client that selects its page comes to the one that is not written. -/
theorem inv_getHTMLFile {s : State V} (hs : Inv s) :
    Inv { s with clients := s.clients ++ [⟨s.ping_pong_state.valid, .selected, 0, [], []⟩] } where
  loaded := hs.loaded
  undisturbed c hc hlive hw := by
    rcases List.mem_append.mp hc with hc | hc
    · exact hs.undisturbed c hc hlive hw
    · rw [List.mem_singleton.mp hc] at hw
      -- the page written is the invalid one of the current pair
      obtain ⟨state, hstate, hp⟩ := writing_eq_invalid hw
      rw [hs.loaded state hstate] at hp
      exact s.ping_pong_state.valid_ne_invalid hp
  intact c hc := by
    rcases List.mem_append.mp hc with hc | hc
    · exact hs.intact c hc
    · rw [List.mem_singleton.mp hc]
      exact ⟨rfl, List.prefix_rfl, fun _ => rfl, by simp⟩

/-- A client that moves on keeps the invariant if it stays intact and does
    not come back. -/
theorem inv_setClient {s : State V} (hs : Inv s) {i : Nat} {c : Client}
    (hi : s.clients[i]? = some c) {s' : State V} {c' : Client}
    (hclients : s'.clients = s.clients.set i c') (hrefresher : s'.refresher = s.refresher)
    (hpair : s'.ping_pong_state = s.ping_pong_state)
    (hcontent : ∀ p, (s'.html_ping_pong p).content = (s.html_ping_pong p).content)
    (hpage : c'.page = c.page) (hlive : c'.Live → c.Live)
    (hintact : c'.Intact (s.html_ping_pong c.page).content) : Inv s' where
  loaded := by
    rw [hrefresher, hpair]
    exact hs.loaded
  undisturbed d hd hdlive := by
    rw [hclients] at hd
    rw [hrefresher]
    rcases List.mem_or_eq_of_mem_set hd with hd | rfl
    · exact hs.undisturbed d hd hdlive
    · rw [hpage]
      exact hs.undisturbed c (List.mem_of_getElem? hi) (hlive hdlive)
  intact d hd := by
    rw [hclients] at hd
    rw [hcontent]
    rcases List.mem_or_eq_of_mem_set hd with hd | rfl
    · exact hs.intact d hd
    · rw [hpage]
      exact hintact

/-- What `sendfile` takes from an intact file. -/
theorem sent_chunk_prefix {c : Client} {content : Bytes} (h : c.Intact content)
    (hcontent : content = c.announced) (k : Nat) :
    c.sent ++ c.chunk content k <+: c.announced := by
  obtain ⟨rest, hrest⟩ := h.sent_prefix
  rw [Client.chunk, hcontent, ← hrest, List.drop_left, List.prefix_append_right_inj]
  exact List.take_prefix _ _

/-- A step of a client. -/
theorem inv_clientStep {s s' : State V} (hs : Inv s) {i : Nat} {c : Client} {e : ClientStep}
    (hi : s.clients[i]? = some c) (h : clientStep s i c e = some s') : Inv s' := by
  have hc := hs.intact c (List.mem_of_getElem? hi)
  rcases clientStep_cases h with ⟨hpc, _, rfl⟩ | ⟨hpc, _, rfl⟩ | ⟨k, hpc, _, _, rfl⟩ |
    ⟨hpc, _, _, rfl⟩
  · refine inv_setClient hs hi rfl rfl rfl (fun _ => rfl) rfl
      (fun _ => by simp [Client.Live, hpc]) ?_
    refine ⟨rfl, ?_, fun _ => hc.unsent hpc, fun _ => rfl⟩
    rw [hc.unsent hpc]
    exact List.nil_prefix
  · refine inv_setClient hs hi rfl rfl rfl (modifyPage_content (f := .release) fun _ => rfl) rfl
      (fun _ => by simp [Client.Live, hpc]) ?_
    exact ⟨hc.length_eq, hc.sent_prefix, nofun, fun _ => hc.content_eq (Or.inl hpc)⟩
  · have hcontent := hc.content_eq (Or.inr (Or.inl hpc))
    refine inv_setClient hs hi rfl rfl rfl (fun _ => rfl) rfl
      (fun _ => by simp [Client.Live, hpc]) ?_
    refine ⟨hc.length_eq, sent_chunk_prefix hc hcontent k, fun h => ?_, fun _ => hcontent⟩
    dsimp only at h
    split at h <;> cases h
  · refine inv_setClient hs hi rfl rfl rfl (modifyPage_content (f := .acquire) fun _ => rfl) rfl
      (fun h => absurd rfl h) ?_
    exact ⟨hc.length_eq, hc.sent_prefix, nofun, by simp⟩

/-- The invariant is kept by every step that starts to write no page with a
    client. -/
theorem inv_step {s s' : State V} {l : Label V} (hs : Inv s) (hl : LeavesNoClient s l)
    (h : step render s l = some s') : Inv s' := by
  cases l with
  | setProperty name value =>
    obtain ⟨_, rfl⟩ := step_setProperty h
    exact ⟨hs.loaded, hs.undisturbed, hs.intact⟩
  | notifyRefresh =>
    obtain ⟨_, rfl⟩ := step_notifyRefresh h
    exact ⟨hs.loaded, hs.undisturbed, hs.intact⟩
  | refresh =>
    cases h
    exact inv_refreshStep hs hl
  | getHTMLFile =>
    cases h
    exact inv_getHTMLFile hs
  | client i e =>
    obtain ⟨c, hi, h⟩ := step_client h
    exact inv_clientStep hs hi h

/-- **Exclusion**: in every run whose wait loops end only when no client is
    left on the page, no page is truncated or written under a client, and
    every client sends what it has announced. -/
theorem refreshHtml_leaves_clients_alone (render : V → Bytes) (files : Page → Bytes)
    (ls : List (Label V)) (hls : Guarded (step render) LeavesNoClient (init files) ls) :
    Always (step render) (fun s => Undisturbed s ∧ ∀ c ∈ s.clients, c.SendsAnnounced)
      (init files) ls := by
  have hinit : Inv (init files : State V) :=
    ⟨nofun, nofun, nofun⟩
  have hinv := always_of_invariant (fun _ _ _ hs hl h => inv_step hs hl h) hinit hls
  intro ls' s hpre hrun
  have hs := hinv ls' s hpre hrun
  exact ⟨hs.undisturbed, fun c hc => (hs.intact c hc).sendsAnnounced⟩

/-! ### Two runs -/

/-- A client selects the page that is published first, takes its size, and
    reads a part of it. -/
def readsPart : List (Label Bytes) :=
  update (ascii "a") 9 ++
    [.getHTMLFile, .client 0 .openFile, .client 0 .release, .client 0 (.sendfile 20)]

/-- The client is done before the page is rewritten. -/
def readsInTime : List (Label Bytes) :=
  readsPart ++ update (ascii "b") 9 ++
    [.client 0 (.sendfile 40), .client 0 .acquire] ++ update (ascii "c") 9

theorem refreshHtml_leaves_clients_alone_readsInTime :
    Always (step id) (fun s => Undisturbed s ∧ ∀ c ∈ s.clients, c.SendsAnnounced)
      (init fun _ => []) readsInTime :=
  refreshHtml_leaves_clients_alone id (fun _ => []) readsInTime (by decide +kernel)

/-- The page is rewritten while the client reads it. -/
def readsTooLong : List (Label Bytes) :=
  readsPart ++ update (ascii "b") 9 ++ update (ascii "c") 10 ++ [.client 0 (.sendfile 40)]

theorem refreshHtml_rewrites_readsTooLong :
    ¬ ∀ (files : Page → Bytes) (ls : List (Label Bytes)),
      Always (step id) (fun s => Undisturbed s ∧ ∀ c ∈ s.clients, c.SendsAnnounced)
        (init files) ls := by
  intro hall
  have hend : (run (step id) (init fun _ => []) readsTooLong).any (fun s =>
      s.clients.any fun c => c.sent.length = c.length_ ∧ c.sent ≠ c.announced) := by
    decide +kernel
  obtain ⟨s, hrun, hbad⟩ := (Option.any_eq_true _ _).mp hend
  obtain ⟨c, hc, hbad⟩ := List.any_eq_true.mp hbad
  obtain ⟨hlen, hne⟩ := of_decide_eq_true hbad
  have hsends := (hall (fun _ => []) readsTooLong readsTooLong s List.prefix_rfl hrun).2 c hc
  exact hne (hsends.2 hlen)

end DatabaseObj.PingPong
