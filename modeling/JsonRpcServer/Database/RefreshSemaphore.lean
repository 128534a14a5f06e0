import JsonRpcServer.Database.PingPong

/-! # The Refresh Semaphore

  `refresh_semaphore_` is a `std::binary_semaphore`: its counter may not
  exceed 1, and a `release` at 1 breaks the precondition of `release`.

  Every successful call ends with a `release` of its own. Tokens are taken
  by the ticks of the timer only, and the timer does not tick while
  `refreshHtml` runs: the loop that fires it is the one that runs the
  refresh.

  ## Main results

  * `notifyRefresh_at_zero_iff`: along a run every `release` finds the
    counter at 0, and the counter never exceeds 1, exactly when the timer
    ticks between any two notifications.
-/

namespace DatabaseObj.PingPong

open Bytes System

variable {V : Type} (render : V → Bytes) (files : Page → Bytes)

/-! ### The property -/

/-- Every `release` of the run finds the counter at 0. -/
def ReleasesAtZero (ls : List (Label V)) : Prop :=
  ∀ past s, past ++ [.notifyRefresh] <+: ls → run (step render) (init files) past = some s →
    s.refresh_semaphore = 0

/-- The timer ticks: the refresh thread is in front of `try_acquire`. -/
def Ticks (s : State V) (l : Label V) : Prop := l = .refresh ∧ s.refresher = .idle

/-- The timer ticks in the part `between` of a run that has begun with
    `past`. -/
def TickIn (past between : List (Label V)) : Prop :=
  ∃ b₁ l b₂ s, between = b₁ ++ l :: b₂ ∧ run (step render) (init files) (past ++ b₁) = some s ∧
    Ticks s l

/-- The timer ticks between any two notifications. -/
def TicksBetween (ls : List (Label V)) : Prop :=
  ∀ past between, past ++ .notifyRefresh :: (between ++ [.notifyRefresh]) <+: ls →
    TickIn render files (past ++ [.notifyRefresh]) between

/-! ### What a step does to the counter -/

variable {render files}

theorem refreshStep_refresh_semaphore (s : State V) :
    (refreshStep render s).refresh_semaphore =
      if s.refresher = .idle then s.refresh_semaphore - 1 else s.refresh_semaphore := by
  cases hpc : s.refresher with
  | idle =>
    rw [if_pos rfl, refreshStep, hpc]
    dsimp only
    split
    · rfl
    · omega
  | waiting state =>
    rw [if_neg nofun, refreshStep, hpc]
    dsimp only
    split <;> rfl
  | rows state names =>
    rw [if_neg nofun, refreshStep, hpc]
    cases names <;> rfl
  | publishing state => rw [if_neg nofun, refreshStep, hpc]
  | _ =>
    rw [if_neg nofun, refreshStep, hpc]
    rfl

theorem not_ticks {s : State V} {l : Label V} (hl : l ≠ .refresh) : ¬ Ticks s l :=
  fun ht => hl ht.1

theorem clientStep_refresh_semaphore {s s' : State V} {i : Nat} {c : Client} {e : ClientStep}
    (h : clientStep s i c e = some s') : s'.refresh_semaphore = s.refresh_semaphore := by
  rcases clientStep_cases h with ⟨_, _, rfl⟩ | ⟨_, _, rfl⟩ | ⟨_, _, _, _, rfl⟩ | ⟨_, _, _, rfl⟩ <;>
    rfl

/-- A notification adds a token, a tick takes one if there is one, and
    nothing else changes the counter. -/
theorem step_refresh_semaphore {s s' : State V} {l : Label V}
    (h : step render s l = some s') :
    (l = .notifyRefresh ∧ s'.refresh_semaphore = s.refresh_semaphore + 1) ∨
      (l ≠ .notifyRefresh ∧ Ticks s l ∧ s'.refresh_semaphore = s.refresh_semaphore - 1) ∨
      (l ≠ .notifyRefresh ∧ ¬ Ticks s l ∧ s'.refresh_semaphore = s.refresh_semaphore) := by
  cases l with
  | setProperty name value =>
    obtain ⟨_, rfl⟩ := step_setProperty h
    exact Or.inr (Or.inr ⟨nofun, not_ticks nofun, rfl⟩)
  | notifyRefresh =>
    obtain ⟨_, rfl⟩ := step_notifyRefresh h
    exact Or.inl ⟨rfl, rfl⟩
  | refresh =>
    cases h
    rw [refreshStep_refresh_semaphore]
    by_cases hidle : s.refresher = .idle
    · rw [if_pos hidle]
      exact Or.inr (Or.inl ⟨nofun, ⟨rfl, hidle⟩, rfl⟩)
    · rw [if_neg hidle]
      exact Or.inr (Or.inr ⟨nofun, fun ht => hidle ht.2, rfl⟩)
  | getHTMLFile =>
    cases h
    exact Or.inr (Or.inr ⟨nofun, not_ticks nofun, rfl⟩)
  | client i e =>
    obtain ⟨c, _, h⟩ := step_client h
    exact Or.inr (Or.inr ⟨nofun, not_ticks nofun, clientStep_refresh_semaphore h⟩)

/-! ### Tokens that are still there -/

variable (render files) in
/-- No tick has followed the last notification. -/
def Untaken (past : List (Label V)) : Prop :=
  ∃ before after, past = before ++ .notifyRefresh :: after ∧
    ¬ TickIn render files (before ++ [.notifyRefresh]) after

/-- Between two notifications the timer ticks if the token of the first is
    gone in front of the second. -/
theorem ticksBetween_iff {ls : List (Label V)} :
    TicksBetween render files ls ↔
      ∀ past, past ++ [.notifyRefresh] <+: ls → ¬ Untaken render files past := by
  constructor
  · intro h past hpre huntaken
    obtain ⟨before, after, rfl, hnot⟩ := huntaken
    exact hnot (h before after (by simpa using hpre))
  · intro h past between hpre
    by_contra hnot
    exact h (past ++ .notifyRefresh :: between) (by simpa using hpre) ⟨past, between, rfl, hnot⟩

theorem TicksBetween.of_prefix {ls ls' : List (Label V)} (h : TicksBetween render files ls)
    (hpre : ls' <+: ls) : TicksBetween render files ls' :=
  fun past between hpast => h past between (hpast.trans hpre)

theorem untaken_notifyRefresh (past : List (Label V)) :
    Untaken render files (past ++ [.notifyRefresh]) := by
  refine ⟨past, [], rfl, ?_⟩
  intro h
  obtain ⟨b₁, l, b₂, s, hb, _⟩ := h
  simp at hb

/-- A part of a run that ends with a step has a tick exactly if the part in
    front of it has one or the step is one. -/
theorem tickIn_snoc {past between : List (Label V)} {s : State V} {l : Label V}
    (hrun : run (step render) (init files) (past ++ between) = some s) :
    TickIn render files past (between ++ [l]) ↔ TickIn render files past between ∨ Ticks s l := by
  constructor
  · intro h
    obtain ⟨b₁, l', b₂, s', hb, hrun', ht⟩ := h
    rcases List.eq_nil_or_concat b₂ with rfl | ⟨b₂, l'', rfl⟩
    · -- the tick is the last step
      obtain ⟨rfl, hl⟩ := List.append_inj' hb rfl
      cases hl
      rw [hrun, Option.some.injEq] at hrun'
      exact Or.inr (hrun' ▸ ht)
    · have hsplit : between ++ [l] = (b₁ ++ l' :: b₂) ++ [l''] := by
        rw [hb]
        simp
      obtain ⟨rfl, _⟩ := List.append_inj' hsplit rfl
      exact Or.inl ⟨b₁, l', b₂, s', rfl, hrun', ht⟩
  · intro h
    rcases h with ⟨b₁, l', b₂, s', rfl, hrun', ht⟩ | ht
    · exact ⟨b₁, l', b₂ ++ [l], s', by simp, hrun', ht⟩
    · exact ⟨between, l, [], s, rfl, hrun, ht⟩

/-- A step that is no notification leaves a token exactly if there was one
    and it is no tick. -/
theorem untaken_snoc {past : List (Label V)} {s : State V} {l : Label V}
    (hrun : run (step render) (init files) past = some s) (hl : l ≠ .notifyRefresh) :
    Untaken render files (past ++ [l]) ↔ Untaken render files past ∧ ¬ Ticks s l := by
  constructor
  · intro h
    obtain ⟨before, after, hpast, hnot⟩ := h
    rcases List.eq_nil_or_concat after with rfl | ⟨after, l', rfl⟩
    · obtain ⟨_, hlast⟩ := List.append_inj' hpast rfl
      exact absurd (List.singleton_inj.mp hlast) hl
    · have hsplit : past ++ [l] = (before ++ .notifyRefresh :: after) ++ [l'] := by
        rw [hpast]
        simp
      obtain ⟨rfl, hlast⟩ := List.append_inj' hsplit rfl
      cases hlast
      have hrun' : run (step render) (init files) (before ++ [.notifyRefresh] ++ after) =
          some s := by
        rw [← hrun]
        simp
      rw [List.concat_eq_append, tickIn_snoc hrun', not_or] at hnot
      exact ⟨⟨before, after, rfl, hnot.1⟩, hnot.2⟩
  · intro h
    obtain ⟨⟨before, after, rfl, hnot⟩, ht⟩ := h
    have hrun' : run (step render) (init files) (before ++ [.notifyRefresh] ++ after) =
        some s := by
      rw [← hrun]
      simp
    refine ⟨before, after ++ [l], by simp, ?_⟩
    rw [tickIn_snoc hrun', not_or]
    exact ⟨hnot, ht⟩

/-! ### The invariant -/

variable (render files) in
/-- The counter against the labels so far. Without a tick in between a
    second token joins the first. -/
structure TokenInv (past : List (Label V)) (s : State V) : Prop where
  run_eq : run (step render) (init files) past = some s
  pos : Untaken render files past → 0 < s.refresh_semaphore
  le_one : TicksBetween render files past → s.refresh_semaphore ≤ 1
  untaken : TicksBetween render files past → 0 < s.refresh_semaphore → Untaken render files past

theorem tokenInv_init : TokenInv render files ([] : List (Label V)) (init files) where
  run_eq := rfl
  pos h := by
    obtain ⟨before, after, hpast, _⟩ := h
    simp at hpast
  le_one _ := Nat.zero_le 1
  untaken _ h := absurd h (Nat.lt_irrefl 0)

theorem tokenInv_step {past : List (Label V)} {s s' : State V} {l : Label V}
    (h : TokenInv render files past s)
    (hstep : step render s l = some s') :
    TokenInv render files (past ++ [l]) s' := by
  have hrun := run_snoc h.run_eq hstep
  have hbefore : TicksBetween render files (past ++ [l]) → TicksBetween render files past :=
    fun hticks => hticks.of_prefix (List.prefix_append past [l])
  rcases step_refresh_semaphore hstep with ⟨rfl, hsem⟩ | ⟨hl, ht, hsem⟩ | ⟨hl, ht, hsem⟩
  · -- a notification: with a tick behind the last one the counter is 0
    refine ⟨hrun, fun _ => by omega, fun hticks => ?_, fun _ _ => untaken_notifyRefresh past⟩
    have hgone := ticksBetween_iff.mp hticks past List.prefix_rfl
    have hzero : ¬ 0 < s.refresh_semaphore := fun hpos => hgone (h.untaken (hbefore hticks) hpos)
    omega
  · -- a tick takes the one token
    have huntaken : ¬ Untaken render files (past ++ [l]) := by
      rw [untaken_snoc h.run_eq hl]
      exact fun hboth => hboth.2 ht
    refine ⟨hrun, fun hu => absurd hu huntaken, fun hticks => ?_, fun hticks hpos => ?_⟩
    · have := h.le_one (hbefore hticks)
      omega
    · have := h.le_one (hbefore hticks)
      omega
  · have huntaken : Untaken render files (past ++ [l]) ↔ Untaken render files past := by
      rw [untaken_snoc h.run_eq hl]
      exact and_iff_left ht
    refine ⟨hrun, fun hu => ?_, fun hticks => ?_, fun hticks hpos => ?_⟩
    · rw [hsem]
      exact h.pos (huntaken.mp hu)
    · rw [hsem]
      exact h.le_one (hbefore hticks)
    · rw [hsem] at hpos
      exact huntaken.mpr (h.untaken (hbefore hticks) hpos)

theorem tokenInv_of_run {ls : List (Label V)} {s : State V}
    (hrun : run (step render) (init files) ls = some s) :
    TokenInv render files ls s :=
  run_history (fun _ _ _ _ => tokenInv_step) ls [] (init files) s tokenInv_init hrun

/-! ### Releases -/

/-- **One token**: in a run every `release` finds the counter at 0, and the
    counter never exceeds 1, exactly when the timer ticks between any two
    notifications. -/
theorem notifyRefresh_at_zero_iff (render : V → Bytes) (files : Page → Bytes)
    (ls : List (Label V)) (s : State V) (hrun : run (step render) (init files) ls = some s) :
    (ReleasesAtZero render files ls ∧
        Always (step render) (fun s => s.refresh_semaphore ≤ 1) (init files) ls) ↔
      TicksBetween render files ls := by
  constructor
  · intro h
    rw [ticksBetween_iff]
    intro past hpre huntaken
    -- a beginning of a run is a run
    obtain ⟨rest, rfl⟩ := hpre
    rw [List.append_assoc, run_append, Option.bind_eq_some_iff] at hrun
    obtain ⟨s₁, hrun₁, _⟩ := hrun
    have hzero := h.1 past s₁ (List.prefix_append _ rest) hrun₁
    have hpos := (tokenInv_of_run hrun₁).pos huntaken
    omega
  · intro hticks
    refine ⟨fun past s₁ hpre hrun₁ => ?_, fun past s₁ hpre hrun₁ => ?_⟩
    · have hpast := (List.prefix_append past [.notifyRefresh]).trans hpre
      have hgone := ticksBetween_iff.mp hticks past hpre
      have hkeep := (tokenInv_of_run hrun₁).untaken (hticks.of_prefix hpast)
      by_contra hne
      exact hgone (hkeep (by omega))
    · exact (tokenInv_of_run hrun₁).le_one (hticks.of_prefix hpre)

/-! ### Two runs -/

/-- The second call notifies while the refresh of the first one runs. -/
def notifiesInTime : List (Label Bytes) :=
  [.setProperty (ascii "Text") (some (ascii "a")), .notifyRefresh, .refresh,
    .setProperty (ascii "Text") (some (ascii "b")), .notifyRefresh]

theorem notifyRefresh_at_zero_notifiesInTime :
    ReleasesAtZero id (fun _ => []) notifiesInTime ∧
      Always (step id) (fun s => s.refresh_semaphore ≤ 1) (init fun _ => []) notifiesInTime := by
  have hrun : (run (step id) (init fun _ => []) notifiesInTime).isSome := by decide +kernel
  obtain ⟨s, hrun⟩ := Option.isSome_iff_exists.mp hrun
  refine (notifyRefresh_at_zero_iff id (fun _ => []) notifiesInTime s hrun).mpr ?_
  -- the only two notifications have the tick between them
  intro past between hpre
  match past, between, hpre with
  | [_], l :: between, hpre =>
    have hidle : (run (step id) (init fun _ => []) (notifiesInTime.take 2)).any
        (fun s => s.refresher = .idle) := by decide +kernel
    obtain ⟨s₁, hrun₁, hidle⟩ := (Option.any_eq_true _ _).mp hidle
    simp only [notifiesInTime, List.cons_append, List.nil_append, List.cons_prefix_cons,
      true_and] at hpre
    obtain ⟨rfl, rfl, _⟩ := hpre
    exact ⟨[], .refresh, between, s₁, rfl, hrun₁, rfl, of_decide_eq_true hidle⟩
  | [], _, hpre => simp [notifiesInTime] at hpre
  | [_], [], hpre => simp [notifiesInTime] at hpre
  | [_, _], _, hpre => simp [notifiesInTime] at hpre
  | [_, _, _], _, hpre => simp [notifiesInTime] at hpre
  | _ :: _ :: _ :: _ :: past, _, hpre =>
    -- the last label has nothing behind it
    have hlen := hpre.length_le
    simp [notifiesInTime] at hlen
    omega

/-- Two calls between two ticks. -/
def notifiesTwice : List (Label Bytes) :=
  [.setProperty (ascii "Text") (some (ascii "a")), .notifyRefresh,
    .setProperty (ascii "Text") (some (ascii "b")), .notifyRefresh]

theorem notifyRefresh_at_one_notifiesTwice :
    ¬ ∀ (files : Page → Bytes) (ls : List (Label Bytes)) (s : State Bytes),
      run (step id) (init files) ls = some s →
        ReleasesAtZero id files ls ∧
          Always (step id) (fun s => s.refresh_semaphore ≤ 1) (init files) ls := by
  intro hall
  have hend : (run (step id) (init fun _ => []) notifiesTwice).any
      (fun s => s.refresh_semaphore = 2) := by decide +kernel
  obtain ⟨s, hrun, htwo⟩ := (Option.any_eq_true _ _).mp hend
  have hle := (hall (fun _ => []) notifiesTwice s hrun).2 notifiesTwice s List.prefix_rfl hrun
  have : s.refresh_semaphore = 2 := of_decide_eq_true htwo
  omega

end DatabaseObj.PingPong
