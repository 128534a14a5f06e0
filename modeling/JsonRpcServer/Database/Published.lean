import JsonRpcServer.Database.PingPong

/-! # The Published Page

  A call changes the properties and then notifies the refresh thread. The
  update may land before, during or after the copy of the names and each
  read of a running refresh, and several notifications may be pending.

  ## Main results

  * `published_of_quiet`: the page that `ping_pong_state_` publishes is
    never the one being written; and once a call has notified and nothing is
    pending or running, the published page is the rendering of the current
    properties.

  ## Proof idea

  A refresh takes its token before it copies the names. So an update that it
  may have missed has its notification still ahead: as long as no
  notification is pending, what the refresh has written is what it would
  write now.
-/

namespace DatabaseObj.PingPong

open Bytes System

variable {V : Type} (render : V → Bytes)

/-! ### Rendering -/

/-- The rows of these names. -/
def rows (table : Table V) (names : List Bytes) : Bytes :=
  (names.map fun name => (table.property name).elim [] render).flatten

/-- The page of a property table. -/
def renderTable (table : Table V) : Bytes :=
  head ++ (table.map fun p => render p.2).flatten ++ tail

theorem rows_cons (table : Table V) (name : Bytes) (names : List Bytes) :
    rows render table (name :: names) =
      (table.property name).elim [] render ++ rows render table names := by
  unfold rows
  rw [List.map_cons, List.flatten_cons]

/-- Reading all names one by one gives every row. -/
theorem rows_dynamicPropertyNames {table : Table V} (h : table.dynamicPropertyNames.Nodup) :
    rows render table table.dynamicPropertyNames = (table.map fun p => render p.2).flatten := by
  unfold rows Table.dynamicPropertyNames
  rw [List.map_map]
  apply congrArg List.flatten
  apply List.map_congr_left
  intro p hp
  show (table.property p.1).elim [] render = render p.2
  rw [Table.property_of_mem h hp]
  rfl

/-! ### The invariant -/

/-- A notification is due, or no refresh has taken it yet. -/
def Pending (s : State V) : Prop := s.mutator = .written ∨ 0 < s.refresh_semaphore

/-- The content of the published page. -/
def State.published (s : State V) : Bytes := (s.html_ping_pong s.ping_pong_state.valid).content

/-- What a refresh has written at each point of `refreshHtml`. -/
def Written (s : State V) : Refresher → Prop
  | .idle | .started | .waiting _ | .truncating _ => True
  | .head state => (s.html_ping_pong state.invalid).content = []
  | .names state => (s.html_ping_pong state.invalid).content = head
  | .rows state names => Pending s ∨
      (s.html_ping_pong state.invalid).content ++ rows render s.table names ++ tail =
        renderTable render s.table
  | .publishing state => Pending s ∨
      (s.html_ping_pong state.invalid).content = renderTable render s.table

structure PublishInv (past : List (Label V)) (s : State V) : Prop where
  nodup : s.table.dynamicPropertyNames.Nodup
  /-- A refresh works with the current value of `ping_pong_state_`. -/
  loaded : ∀ state, s.refresher.state? = some state → state = s.ping_pong_state
  /-- Exactly one page is valid. -/
  opposite : s.ping_pong_state.second = !s.ping_pong_state.first
  written : Written render s s.refresher
  published : s.refresher = .idle → Pending s ∨ Label.notifyRefresh ∉ past ∨
    s.published = renderTable render s.table

variable {render}

/-- Steps of the clients leave all of it alone. -/
theorem PublishInv.of_frame {past past' : List (Label V)} {s s' : State V}
    (h : PublishInv render past s)
    (hpast : Label.notifyRefresh ∈ past' → Label.notifyRefresh ∈ past)
    (htable : s'.table = s.table) (hmutator : s'.mutator = s.mutator)
    (hsemaphore : s'.refresh_semaphore = s.refresh_semaphore)
    (hrefresher : s'.refresher = s.refresher) (hstate : s'.ping_pong_state = s.ping_pong_state)
    (hcontent : ∀ p, (s'.html_ping_pong p).content = (s.html_ping_pong p).content) :
    PublishInv render past' s' := by
  have hpending : Pending s' ↔ Pending s := by
    unfold Pending
    rw [hmutator, hsemaphore]
  refine ⟨htable ▸ h.nodup, ?_, hstate ▸ h.opposite, ?_, ?_⟩
  · intro state hpc
    rw [hstate]
    exact h.loaded state (hrefresher ▸ hpc)
  · have hw := h.written
    rw [hrefresher]
    cases hpc : s.refresher with
    | rows state names | publishing state | names state | head state =>
      rw [hpc] at hw
      unfold Written at hw ⊢
      simp only [hpending, hcontent, htable]
      exact hw
    | _ => trivial
  · intro hidle
    unfold State.published
    rw [hpending, hcontent, hstate, htable]
    rcases h.published (hrefresher ▸ hidle) with hp | hp | hp
    · exact Or.inl hp
    · exact Or.inr (Or.inl fun hmem => hp (hpast hmem))
    · exact Or.inr (Or.inr hp)

theorem publishInv_init (files : Page → Bytes) :
    PublishInv render [] (init files : State V) where
  nodup := List.nodup_nil
  loaded _ hstate := by cases hstate
  opposite := rfl
  written := trivial
  published _ := Or.inr (Or.inl List.not_mem_nil)

/-! ### Preservation -/

/-- An update puts its notification ahead of everything it may spoil. -/
theorem publishInv_of_pending {past past' : List (Label V)} {s s' : State V}
    (h : PublishInv render past s) (hnodup : s'.table.dynamicPropertyNames.Nodup)
    (hpending : Pending s') (hrefresher : s'.refresher = s.refresher)
    (hstate : s'.ping_pong_state = s.ping_pong_state)
    (hpages : s'.html_ping_pong = s.html_ping_pong) : PublishInv render past' s' where
  nodup := hnodup
  loaded state hpc := by
    rw [hstate]
    exact h.loaded state (hrefresher ▸ hpc)
  opposite := hstate ▸ h.opposite
  written := by
    have hw := h.written
    rw [hrefresher]
    cases hpc : s.refresher with
    | rows state names | publishing state => exact Or.inl hpending
    | names state | head state =>
      rw [hpc] at hw
      unfold Written at hw ⊢
      rw [hpages]
      exact hw
    | _ => trivial
  published _ := Or.inl hpending

/-- A step of the refresh thread. -/
theorem publishInv_refreshStep {past : List (Label V)} {s : State V}
    (h : PublishInv render past s) :
    PublishInv render (past ++ [.refresh]) (refreshStep render s) := by
  have hpast : Label.notifyRefresh ∈ past ++ [Label.refresh] → Label.notifyRefresh ∈ past := by
    intro hmem
    simpa using hmem
  have hw := h.written
  have hl := h.loaded
  cases hpc : s.refresher with
  | idle =>
    rw [refreshStep, hpc]
    dsimp only
    split
    · exact ⟨h.nodup, nofun, h.opposite, trivial, nofun⟩
    · exact h.of_frame hpast rfl rfl rfl rfl rfl fun _ => rfl
  | started =>
    rw [refreshStep, hpc]
    exact ⟨h.nodup, fun _ hstate => (Option.some.inj hstate).symm, h.opposite, trivial, nofun⟩
  | waiting state =>
    rw [hpc] at hl
    rw [refreshStep, hpc]
    dsimp only
    split
    · exact h.of_frame hpast rfl rfl rfl rfl rfl (modifyPage_content (f := .acquire) fun _ => rfl)
    · exact ⟨h.nodup, hl, h.opposite, trivial, nofun⟩
  | truncating state =>
    rw [hpc] at hl
    rw [refreshStep, hpc]
    refine ⟨h.nodup, hl, h.opposite, ?_, nofun⟩
    show ((s.modifyPage state.invalid .truncate).html_ping_pong state.invalid).content = []
    rw [modifyPage_html_ping_pong, if_pos rfl]
    rfl
  | head state =>
    rw [hpc] at hl hw
    rw [refreshStep, hpc]
    refine ⟨h.nodup, hl, h.opposite, ?_, nofun⟩
    show ((s.modifyPage state.invalid (.write PingPong.head)).html_ping_pong
      state.invalid).content = PingPong.head
    have hempty : (s.html_ping_pong state.invalid).content = [] := hw
    rw [modifyPage_write_content, hempty, List.nil_append]
  | names state =>
    rw [hpc] at hl hw
    rw [refreshStep, hpc]
    -- the names are copied and every row is still to come
    refine ⟨h.nodup, hl, h.opposite, Or.inr ?_, nofun⟩
    have hhead : (s.html_ping_pong state.invalid).content = PingPong.head := hw
    show (s.html_ping_pong state.invalid).content ++
      rows render s.table s.table.dynamicPropertyNames ++ tail = renderTable render s.table
    rw [hhead, rows_dynamicPropertyNames render h.nodup]
    rfl
  | rows state names =>
    rw [hpc] at hl hw
    cases names with
    | nil =>
      rw [refreshStep, hpc]
      refine ⟨h.nodup, hl, h.opposite, ?_, nofun⟩
      rcases hw with hw | hw
      · exact Or.inl hw
      · refine Or.inr ?_
        show ((s.modifyPage state.invalid (.write tail)).html_ping_pong state.invalid).content =
          renderTable render s.table
        rw [modifyPage_write_content, ← hw]
        unfold rows
        rw [List.map_nil, List.flatten_nil, List.append_nil]
    | cons name names =>
      rw [refreshStep, hpc]
      refine ⟨h.nodup, hl, h.opposite, ?_, nofun⟩
      rcases hw with hw | hw
      · exact Or.inl hw
      · refine Or.inr ?_
        show ((s.modifyPage state.invalid
          (.write ((s.table.property name).elim [] render))).html_ping_pong
            state.invalid).content ++ rows render s.table names ++ tail =
          renderTable render s.table
        rw [modifyPage_write_content, ← hw, rows_cons]
        simp only [List.append_assoc]
  | publishing state =>
    rw [hpc] at hl hw
    rw [refreshStep, hpc]
    have hopposite : state.second = !state.first := by
      rw [hl state rfl]
      exact h.opposite
    -- the page just written becomes the valid one
    have hvalid : state.flip.valid = state.invalid := by
      unfold StatesPair.flip StatesPair.valid StatesPair.invalid
      rw [hopposite]
      cases state.first <;> rfl
    refine ⟨h.nodup, nofun, ?_, trivial, fun _ => ?_⟩
    · show state.first = !state.second
      rw [hopposite, Bool.not_not]
    · rcases hw with hw | hw
      · exact Or.inl hw
      · refine Or.inr (Or.inr ?_)
        show (s.html_ping_pong state.flip.valid).content = renderTable render s.table
        rw [hvalid, hw]

/-- Steps of a client change no content and nothing the updates use. -/
theorem publishInv_clientStep {past : List (Label V)} {s s' : State V} {i : Nat} {c : Client}
    {e : ClientStep} (h : PublishInv render past s) (hstep : clientStep s i c e = some s') :
    PublishInv render (past ++ [.client i e]) s' := by
  have hpast : Label.notifyRefresh ∈ past ++ [Label.client i e] → Label.notifyRefresh ∈ past := by
    intro hmem
    simpa using hmem
  rcases clientStep_cases hstep with ⟨_, _, rfl⟩ | ⟨_, _, rfl⟩ | ⟨k, _, _, _, rfl⟩ |
    ⟨_, _, _, rfl⟩
  · exact h.of_frame hpast rfl rfl rfl rfl rfl fun _ => rfl
  · exact h.of_frame hpast rfl rfl rfl rfl rfl (modifyPage_content (f := .release) fun _ => rfl)
  · exact h.of_frame hpast rfl rfl rfl rfl rfl fun _ => rfl
  · exact h.of_frame hpast rfl rfl rfl rfl rfl (modifyPage_content (f := .acquire) fun _ => rfl)

theorem publishInv_step {past : List (Label V)} {s s' : State V} {l : Label V}
    (h : PublishInv render past s) (hstep : step render s l = some s') :
    PublishInv render (past ++ [l]) s' := by
  cases l with
  | setProperty name value =>
    obtain ⟨_, rfl⟩ := step_setProperty hstep
    refine publishInv_of_pending h ?_ (Or.inl rfl) rfl rfl rfl
    show (if name = ascii "objectName" then s.table
      else s.table.setProperty name value).dynamicPropertyNames.Nodup
    split
    · exact h.nodup
    · exact Table.nodup_setProperty h.nodup name value
  | notifyRefresh =>
    obtain ⟨_, rfl⟩ := step_notifyRefresh hstep
    exact publishInv_of_pending h h.nodup (Or.inr (Nat.succ_pos _)) rfl rfl rfl
  | refresh =>
    cases hstep
    exact publishInv_refreshStep h
  | getHTMLFile =>
    cases hstep
    exact h.of_frame (fun hmem => by simpa using hmem) rfl rfl rfl rfl rfl fun _ => rfl
  | client i e =>
    obtain ⟨c, _, hstep⟩ := step_client hstep
    exact publishInv_clientStep h hstep

theorem publishInv_of_run {files : Page → Bytes} {ls : List (Label V)} {s : State V}
    (hrun : run (step render) (init files) ls = some s) : PublishInv render ls s :=
  run_history (fun _ _ _ _ => publishInv_step) ls [] (init files) s (publishInv_init files) hrun

/-! ### The published page -/

/-- No call, no notification and no refresh is under way. -/
def Quiet (s : State V) : Prop :=
  s.mutator = .idle ∧ s.refresh_semaphore = 0 ∧ s.refresher = .idle

instance (s : State V) : Decidable (Quiet s) := inferInstanceAs (Decidable (_ ∧ _))

/-- **No update is lost**: the published page is never the one being
    written, and when everything is quiet after at least one call it is the
    rendering of the current properties. -/
theorem published_of_quiet (render : V → Bytes) (files : Page → Bytes) (ls : List (Label V))
    (s : State V) (hrun : run (step render) (init files) ls = some s) :
    s.refresher.writing ≠ some s.ping_pong_state.valid ∧
      (Label.notifyRefresh ∈ ls → Quiet s → s.published = renderTable render s.table) := by
  have h := publishInv_of_run hrun
  constructor
  · intro hw
    obtain ⟨state, hstate, hp⟩ := writing_eq_invalid hw
    rw [← h.loaded state hstate] at hp
    exact state.valid_ne_invalid hp
  · rintro hmem ⟨hmutator, hsemaphore, hidle⟩
    rcases h.published hidle with (hp | hp) | hp | hp
    · rw [hmutator] at hp
      cases hp
    · omega
    · exact absurd hmem hp
    · exact hp

/-- A call, and the refresh that follows it. -/
def oneUpdate : List (Label Bytes) :=
  [.setProperty (ascii "Text") (some (ascii "a")), .notifyRefresh] ++ List.replicate 9 .refresh

/-- The update is on the published page. -/
theorem published_of_quiet_oneUpdate : ∃ s : State Bytes,
    run (step id) (init fun _ => []) oneUpdate = some s ∧
      s.published = renderTable id s.table := by
  have hend : (run (step id) (init fun _ => []) oneUpdate).any (fun s => Quiet s) := by
    decide +kernel
  obtain ⟨s, hrun, hquiet⟩ := (Option.any_eq_true _ _).mp hend
  refine ⟨s, hrun, ?_⟩
  exact (published_of_quiet id (fun _ => []) oneUpdate s hrun).2
    (List.mem_append_left _ (by simp)) (of_decide_eq_true hquiet)

end DatabaseObj.PingPong
