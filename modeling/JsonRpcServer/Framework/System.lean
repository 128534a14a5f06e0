import Mathlib.Data.List.Induction
import Mathlib.Tactic.Common

/-! # Transition Systems

  A system is a partial step function on states: `step s l` is the state
  after the label `l`, or `none` where `l` is not enabled. A run is a list
  of labels.

  `Guarded` states a condition on the steps of a run: it holds of every
  label in the state in which it is taken. The invariant rule
  (`run_invariant`) asks for preservation only by such steps.
-/

namespace System

variable {σ ι : Type} (step : σ → ι → Option σ)

/-- The state at the end of a run. -/
def run : σ → List ι → Option σ
  | s, [] => some s
  | s, l :: ls => (step s l).bind fun s' => run s' ls

/-- Every step of the run is taken in a state that meets the guard. -/
def Guarded (G : σ → ι → Prop) : σ → List ι → Prop
  | _, [] => True
  | s, l :: ls => G s l ∧ ∀ s', step s l = some s' → Guarded G s' ls

instance decidableGuarded {G : σ → ι → Prop} [∀ s l, Decidable (G s l)] :
    ∀ (s : σ) (ls : List ι), Decidable (Guarded step G s ls)
  | _, [] => .isTrue trivial
  | s, l :: ls =>
      match hs : step s l with
      | none => decidable_of_iff (G s l) ⟨fun h => ⟨h, fun s' hs' => by simp [hs] at hs'⟩, And.left⟩
      | some s₁ =>
          have : Decidable (Guarded step G s₁ ls) := decidableGuarded s₁ ls
          decidable_of_iff (G s l ∧ Guarded step G s₁ ls)
            (and_congr_right fun _ => ⟨fun h s' hs' => Option.some.inj (hs ▸ hs') ▸ h,
              fun h => h s₁ hs⟩)

/-- `P` holds in every state of the run. -/
def Always (P : σ → Prop) (s : σ) (ls : List ι) : Prop :=
  ∀ ls' s', ls' <+: ls → run step s ls' = some s' → P s'

variable {step}

/-- A run of two parts is one run after the other. -/
theorem run_append (s : σ) (ls ls' : List ι) :
    run step s (ls ++ ls') = (run step s ls).bind fun s' => run step s' ls' := by
  induction ls generalizing s with
  | nil => rfl
  | cons l ls ih =>
    rw [List.cons_append, run, run, Option.bind_assoc]
    exact congrArg _ (funext fun s' => ih s')

/-- One step more. -/
theorem run_snoc {s s₁ s₂ : σ} {ls : List ι} {l : ι} (h : run step s ls = some s₁)
    (hstep : step s₁ l = some s₂) : run step s (ls ++ [l]) = some s₂ := by
  rw [run_append, h]
  show (step s₁ l).bind some = some s₂
  rw [hstep]
  rfl

/-- A guarded run has guarded beginnings. -/
theorem Guarded.of_prefix {G : σ → ι → Prop} {s : σ} {ls ls' : List ι}
    (h : Guarded step G s ls) (hpre : ls' <+: ls) : Guarded step G s ls' := by
  induction ls' generalizing s ls with
  | nil => trivial
  | cons l ls' ih =>
    cases ls with
    | nil => simp at hpre
    | cons l₁ ls =>
      obtain ⟨rfl, htail⟩ := List.cons_prefix_cons.mp hpre
      exact ⟨h.1, fun s' hs' => ih (h.2 s' hs') htail⟩

theorem Guarded.mono {G G' : σ → ι → Prop} (hG : ∀ s l, G s l → G' s l) {s : σ} {ls : List ι}
    (h : Guarded step G s ls) : Guarded step G' s ls := by
  induction ls generalizing s with
  | nil => trivial
  | cons l ls ih => exact ⟨hG s l h.1, fun s' hs' => ih (h.2 s' hs')⟩

/-- A guard on the labels alone. -/
theorem guarded_of_forall {P : ι → Prop} {ls : List ι} (h : ∀ l ∈ ls, P l) (s : σ) :
    Guarded step (fun _ l => P l) s ls := by
  induction ls generalizing s with
  | nil => trivial
  | cons l ls ih =>
    have hrest : ∀ l' ∈ ls, P l' := fun l' hl' => h l' (List.mem_cons_of_mem l hl')
    exact ⟨h l List.mem_cons_self, fun s' _ => ih hrest s'⟩

/-- Guards that agree in the states of an invariant guard the same runs. -/
theorem guarded_congr (Inv : σ → Prop) {G G' : σ → ι → Prop}
    (hinv : ∀ s l s', Inv s → step s l = some s' → Inv s')
    (hG : ∀ s l, Inv s → (G s l ↔ G' s l)) {s : σ} (hs : Inv s) (ls : List ι) :
    Guarded step G s ls ↔ Guarded step G' s ls := by
  induction ls generalizing s with
  | nil => exact Iff.rfl
  | cons l ls ih =>
    refine and_congr (hG s l hs) (forall_congr' fun s' => forall_congr' fun hs' => ?_)
    exact ih (hinv s l s' hs hs')

/-- **Invariant rule**: what every guarded step keeps, every guarded run
    keeps. -/
theorem run_invariant {Inv : σ → Prop} {G : σ → ι → Prop}
    (hstep : ∀ s l s', Inv s → G s l → step s l = some s' → Inv s') :
    ∀ (ls : List ι) (s s' : σ), Inv s → Guarded step G s ls → run step s ls = some s' →
      Inv s' := by
  intro ls
  induction ls with
  | nil =>
    intro s s' hs _ h
    rw [run, Option.some.injEq] at h
    exact h ▸ hs
  | cons l ls ih =>
    intro s s' hs hG h
    rw [run, Option.bind_eq_some_iff] at h
    -- the first step keeps the invariant, the guard of the rest is that of `s₁`
    obtain ⟨s₁, h₁, h⟩ := h
    exact ih s₁ s' (hstep s l s₁ hs hG.1 h₁) (hG.2 s₁ h₁) h

/-- Guarded steps that keep an invariant meet what the two imply. -/
theorem Guarded.strengthen {Inv : σ → Prop} {G G' : σ → ι → Prop}
    (hkeep : ∀ s l s', Inv s → G s l → step s l = some s' → Inv s')
    (himp : ∀ s l, Inv s → G s l → G' s l) {s : σ} {ls : List ι} (h : Guarded step G s ls)
    (hs : Inv s) : Guarded step G' s ls := by
  induction ls generalizing s with
  | nil => trivial
  | cons l ls ih =>
    refine ⟨himp s l hs h.1, fun s' hs' => ?_⟩
    exact ih (h.2 s' hs') (hkeep s l s' hs h.1 hs')

/-- What every step keeps guards every run. -/
theorem guarded_of_invariant {Inv : σ → Prop} {G : σ → ι → Prop}
    (hstep : ∀ s l s', Inv s → step s l = some s' → Inv s') (himp : ∀ s l, Inv s → G s l)
    {ls : List ι} {s : σ} (hs : Inv s) : Guarded step G s ls := by
  induction ls generalizing s with
  | nil => trivial
  | cons l ls ih => exact ⟨himp s l hs, fun s' hs' => ih (hstep s l s' hs hs')⟩

/-- The rule for a system whose every step keeps the invariant. -/
theorem run_keeps {Inv : σ → Prop} (hstep : ∀ s l s', Inv s → step s l = some s' → Inv s')
    {ls : List ι} {s s' : σ} (hs : Inv s) (hrun : run step s ls = some s') : Inv s' := by
  have hG : Guarded step (fun _ _ => True) s ls :=
    guarded_of_invariant hstep (fun _ _ _ => trivial) hs
  exact run_invariant (fun s l s' hs _ => hstep s l s' hs) ls s s' hs hG hrun

/-- **Invariant rule with history**: the invariant relates the state to the
    labels that have led to it. -/
theorem run_history {Inv : List ι → σ → Prop}
    (hstep : ∀ past s l s', Inv past s → step s l = some s' → Inv (past ++ [l]) s') :
    ∀ (ls past : List ι) (s s' : σ), Inv past s → run step s ls = some s' →
      Inv (past ++ ls) s' := by
  intro ls
  induction ls with
  | nil =>
    intro past s s' hs h
    rw [run, Option.some.injEq] at h
    rw [List.append_nil, ← h]
    exact hs
  | cons l ls ih =>
    intro past s s' hs h
    rw [run, Option.bind_eq_some_iff] at h
    obtain ⟨s₁, h₁, h⟩ := h
    -- the first label joins the past of the rest
    have hrest := ih (past ++ [l]) s₁ s' (hstep past s l s₁ hs h₁) h
    rw [List.append_assoc] at hrest
    exact hrest

variable (step) in
/-- Every step of the run meets a guard that may look back at the labels
    taken so far. -/
def GuardedPast (G : List ι → σ → ι → Prop) (s₀ : σ) (ls : List ι) : Prop :=
  ∀ past s l, past ++ [l] <+: ls → run step s₀ past = some s → G past s l

theorem GuardedPast.of_prefix {G : List ι → σ → ι → Prop} {s₀ : σ} {ls ls' : List ι}
    (h : GuardedPast step G s₀ ls) (hpre : ls' <+: ls) : GuardedPast step G s₀ ls' :=
  fun past s l hpast hrun => h past s l (hpast.trans hpre) hrun

/-- **Invariant rule with history and guard**: what the guarded steps of a
    run keep holds at its end. -/
theorem run_invariant_past {Inv : List ι → σ → Prop} {G : List ι → σ → ι → Prop} {s₀ : σ}
    (hinit : Inv [] s₀)
    (hstep : ∀ past s l s', run step s₀ past = some s → Inv past s → G past s l →
      step s l = some s' → Inv (past ++ [l]) s') :
    ∀ (ls : List ι) (s : σ), GuardedPast step G s₀ ls → run step s₀ ls = some s → Inv ls s := by
  intro ls
  induction ls using List.reverseRecOn with
  | nil =>
    intro s _ h
    rw [run, Option.some.injEq] at h
    exact h ▸ hinit
  | append_singleton ls l ih =>
    intro s hG h
    rw [run_append, Option.bind_eq_some_iff] at h
    obtain ⟨s₁, h₁, h⟩ := h
    have hlast : step s₁ l = some s := by
      rw [run, Option.bind_eq_some_iff] at h
      obtain ⟨s₂, h₂, h⟩ := h
      rw [run] at h
      rw [h₂, h]
    -- the guard of the last step looks back at all the others
    have hinv := ih s₁ (hG.of_prefix (List.prefix_append ls [l])) h₁
    exact hstep ls s₁ l s h₁ hinv (hG ls s₁ l List.prefix_rfl h₁) hlast

/-- A guard that does not look back. -/
theorem Guarded.past {G : σ → ι → Prop} {s₀ : σ} {ls : List ι} (h : Guarded step G s₀ ls) :
    GuardedPast step (fun _ => G) s₀ ls := by
  intro past s l hpre hrun
  have hguarded := h.of_prefix hpre
  clear h hpre
  induction past generalizing s₀ with
  | nil =>
    rw [run, Option.some.injEq] at hrun
    rw [← hrun]
    exact hguarded.1
  | cons l₀ past ih =>
    rw [run, Option.bind_eq_some_iff] at hrun
    obtain ⟨s₁, h₁, hrun⟩ := hrun
    exact ih hrun (hguarded.2 s₁ h₁)

/-- The invariant holds in every state of a guarded run. -/
theorem always_of_invariant {Inv : σ → Prop} {G : σ → ι → Prop}
    (hstep : ∀ s l s', Inv s → G s l → step s l = some s' → Inv s') {s : σ} {ls : List ι}
    (hs : Inv s) (hG : Guarded step G s ls) : Always step Inv s ls :=
  fun ls' s' hpre h => run_invariant hstep ls' s s' hs (hG.of_prefix hpre) h

theorem always_cons {P : σ → Prop} {s : σ} {l : ι} {ls : List ι} :
    Always step P s (l :: ls) ↔ P s ∧ ∀ s', step s l = some s' → Always step P s' ls := by
  constructor
  · refine fun h => ⟨h [] s List.nil_prefix rfl, fun s' hs' ls' s'' hpre hrun => ?_⟩
    refine h (l :: ls') s'' (List.cons_prefix_cons.mpr ⟨rfl, hpre⟩) ?_
    rw [run, hs']
    exact hrun
  · rintro ⟨hs, hnext⟩ ls' s'' hpre hrun
    -- a beginning of the run is empty or starts with `l`
    cases ls' with
    | nil =>
      rw [run, Option.some.injEq] at hrun
      exact hrun ▸ hs
    | cons l' ls' =>
      obtain ⟨rfl, htail⟩ := List.cons_prefix_cons.mp hpre
      rw [run, Option.bind_eq_some_iff] at hrun
      obtain ⟨s', hs', hrun⟩ := hrun
      exact hnext s' hs' ls' s'' htail hrun

theorem Always.mono {P Q : σ → Prop} {s : σ} {ls : List ι} (h : Always step P s ls)
    (hPQ : ∀ s, P s → Q s) : Always step Q s ls :=
  fun ls' s' hpre hrun => hPQ s' (h ls' s' hpre hrun)

/-- **Exactness rule**: when guarded steps keep an invariant that implies
    the property, and every other step is taken and breaks the property, it
    holds all along a run exactly when the run is guarded. -/
theorem always_iff_guarded_of_imp {Inv P : σ → Prop} {G : σ → ι → Prop}
    (himp : ∀ s, Inv s → P s)
    (hkeep : ∀ s l s', Inv s → G s l → step s l = some s' → Inv s')
    (hbreak : ∀ s l, Inv s → ¬ G s l → ∃ s', step s l = some s' ∧ ¬ P s') {s : σ} (hs : Inv s)
    (ls : List ι) : Always step P s ls ↔ Guarded step G s ls := by
  refine ⟨fun h => ?_, fun hG => (always_of_invariant hkeep hs hG).mono himp⟩
  induction ls generalizing s with
  | nil => trivial
  | cons l ls ih =>
    rw [always_cons] at h
    have hG : G s l := by
      -- an unguarded step is taken, and its successor is a state of the run
      by_contra hG
      obtain ⟨s', hs', hbad⟩ := hbreak s l hs hG
      exact hbad (h.2 s' hs' [] s' List.nil_prefix rfl)
    exact ⟨hG, fun s' hs' => ih (hkeep s l s' hs hG hs') (h.2 s' hs')⟩

/-- The rule for an invariant that is the property. -/
theorem always_iff_guarded {Inv : σ → Prop} {G : σ → ι → Prop}
    (hkeep : ∀ s l s', Inv s → G s l → step s l = some s' → Inv s')
    (hbreak : ∀ s l, Inv s → ¬ G s l → ∃ s', step s l = some s' ∧ ¬ Inv s') {s : σ} (hs : Inv s)
    (ls : List ι) : Always step Inv s ls ↔ Guarded step G s ls :=
  always_iff_guarded_of_imp (fun _ h => h) hkeep hbreak hs ls

/-! ### Observations -/

variable (step) in
/-- What is observed along a run: `obs s l` is what the step `l` shows. -/
def trace {ε : Type} (obs : σ → ι → List ε) : σ → List ι → List ε
  | _, [] => []
  | s, l :: ls =>
      match step s l with
      | none => []
      | some s' => obs s l ++ trace obs s' ls

/-- What one step more shows. -/
theorem trace_snoc {ε : Type} {obs : σ → ι → List ε} {s s₁ s₂ : σ} {ls : List ι} {l : ι}
    (hrun : run step s ls = some s₁) (hstep : step s₁ l = some s₂) :
    trace step obs s (ls ++ [l]) = trace step obs s ls ++ obs s₁ l := by
  induction ls generalizing s with
  | nil =>
    rw [run, Option.some.injEq] at hrun
    rw [List.nil_append, hrun, trace, trace, hstep]
    exact List.append_nil _
  | cons l₀ ls ih =>
    rw [run, Option.bind_eq_some_iff] at hrun
    obtain ⟨s', hs', hrest⟩ := hrun
    rw [List.cons_append, trace, trace, hs']
    show obs s l₀ ++ trace step obs s' (ls ++ [l]) = _
    rw [ih hrest, List.append_assoc]

/-- **Invariant rule with observations**: the invariant relates the state to
    what has been observed. `P` restricts the labels. -/
theorem run_trace_of_forall {ε : Type} {obs : σ → ι → List ε} {P : ι → Prop}
    {Inv : List ε → σ → Prop}
    (hstep : ∀ seen s l s', Inv seen s → P l → step s l = some s' → Inv (seen ++ obs s l) s') :
    ∀ (ls : List ι) (seen : List ε) (s s' : σ), (∀ l ∈ ls, P l) → Inv seen s →
      run step s ls = some s' → Inv (seen ++ trace step obs s ls) s' := by
  intro ls
  induction ls with
  | nil =>
    intro seen s s' _ hs h
    rw [run, Option.some.injEq] at h
    rw [trace, List.append_nil, ← h]
    exact hs
  | cons l ls ih =>
    intro seen s s' hls hs h
    rw [run, Option.bind_eq_some_iff] at h
    obtain ⟨s₁, h₁, h⟩ := h
    rw [List.forall_mem_cons] at hls
    have hrest := ih (seen ++ obs s l) s₁ s' hls.2 (hstep seen s l s₁ hs hls.1 h₁) h
    rw [trace, h₁, ← List.append_assoc]
    exact hrest

/-- The rule for all labels. -/
theorem run_trace {ε : Type} {obs : σ → ι → List ε} {Inv : List ε → σ → Prop}
    (hstep : ∀ seen s l s', Inv seen s → step s l = some s' → Inv (seen ++ obs s l) s')
    (ls : List ι) (seen : List ε) (s s' : σ) (hs : Inv seen s) (hrun : run step s ls = some s') :
    Inv (seen ++ trace step obs s ls) s' :=
  run_trace_of_forall (fun seen s l s' hs _ h => hstep seen s l s' hs h) ls seen s s'
    (fun _ _ => trivial) hs hrun

/-! ### Two systems -/

/-- Two systems are in the same state all along a run. -/
def Agree (step step' : σ → ι → Option σ) (s : σ) (ls : List ι) : Prop :=
  ∀ ls', ls' <+: ls → run step s ls' = run step' s ls'

theorem run_singleton (step : σ → ι → Option σ) (s : σ) (l : ι) : run step s [l] = step s l := by
  show (step s l).bind some = step s l
  cases step s l <;> rfl

theorem agree_cons {step' : σ → ι → Option σ} {s : σ} {l : ι} {ls : List ι} :
    Agree step step' s (l :: ls) ↔
      step s l = step' s l ∧ ∀ s', step s l = some s' → Agree step step' s' ls := by
  constructor
  · intro h
    have hfirst := h [l] (List.cons_prefix_cons.mpr ⟨rfl, List.nil_prefix⟩)
    rw [run_singleton, run_singleton] at hfirst
    refine ⟨hfirst, fun s' hs' ls' hpre => ?_⟩
    have hrest := h (l :: ls') (List.cons_prefix_cons.mpr ⟨rfl, hpre⟩)
    rw [run, run, ← hfirst, hs'] at hrest
    exact hrest
  · rintro ⟨hfirst, hrest⟩ ls' hpre
    cases ls' with
    | nil => rfl
    | cons l' ls' =>
      obtain ⟨rfl, htail⟩ := List.cons_prefix_cons.mp hpre
      rw [run, run, ← hfirst]
      cases hs' : step s l' with
      | none => rfl
      | some s' => exact hrest s' hs' ls' htail

/-- **Agreement rule**: two systems agree all along a run exactly when every
    step of the run is one on which they agree. -/
theorem agree_iff_guarded {step' : σ → ι → Option σ} {Inv : σ → Prop} {G : σ → ι → Prop}
    (hkeep : ∀ s l s', Inv s → G s l → step s l = some s' → Inv s')
    (hG : ∀ s l, Inv s → (step s l = step' s l ↔ G s l)) {s : σ} (hs : Inv s) (ls : List ι) :
    Agree step step' s ls ↔ Guarded step G s ls := by
  induction ls generalizing s with
  | nil =>
    refine iff_of_true ?_ trivial
    intro ls' hpre
    rw [List.prefix_nil.mp hpre]
    rfl
  | cons l ls ih =>
    rw [agree_cons, hG s l hs]
    refine and_congr_right fun hl => forall_congr' fun s' => forall_congr' fun hs' => ?_
    exact ih (hkeep s l s' hs hl hs')

end System
