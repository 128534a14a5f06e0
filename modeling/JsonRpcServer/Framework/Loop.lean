import Mathlib.Tactic.Common

/-! # Event Loops

  A loop that makes one turn per event of its environment. A turn either
  goes on with a new state or leaves the loop with a result. A run over a
  list of events ends in a state that waits for the next event, or in a
  result together with the events that are left.
-/

namespace Loop

/-- Effect of one turn. -/
inductive Step (σ ρ : Type) where
  /-- Go on in this state. -/
  | next (s : σ)
  /-- Leave the loop. -/
  | exit (r : ρ)

/-- The same step with another view of the state. -/
def Step.map {σ τ ρ : Type} (f : σ → τ) : Step σ ρ → Step τ ρ
  | .next s => .next (f s)
  | .exit r => .exit r

/-- Where a run stands after a list of events. -/
inductive Outcome (σ ρ ι : Type) where
  /-- Still looping, waiting for an event. -/
  | running (s : σ)
  /-- Left the loop; these events were not consumed. -/
  | exited (r : ρ) (left : List ι)

variable {σ ρ ι : Type}

/-- Run a loop body over a list of events. -/
def run (body : σ → ι → Step σ ρ) : σ → List ι → Outcome σ ρ ι
  | s, [] => .running s
  | s, i :: is =>
      match body s i with
      | .next s' => run body s' is
      | .exit r => .exited r is

/-- Enter a loop whose guard has been evaluated to `step`. -/
def enter (body : σ → ι → Step σ ρ) (step : Step σ ρ) (is : List ι) : Outcome σ ρ ι :=
  match step with
  | .next s => run body s is
  | .exit r => .exited r is

theorem run_cons (body : σ → ι → Step σ ρ) (s : σ) (i : ι) (is : List ι) :
    run body s (i :: is) = enter body (body s i) is := by
  rw [run]
  cases body s i <;> rfl

/-- One event more. -/
theorem run_snoc {body : σ → ι → Step σ ρ} {s s₁ : σ} {is : List ι} (i : ι)
    (h : run body s is = .running s₁) : run body s (is ++ [i]) = enter body (body s₁ i) [] := by
  induction is generalizing s with
  | nil =>
    cases h
    exact run_cons body _ i []
  | cons i₀ is ih =>
    rw [run_cons] at h
    rw [List.cons_append, run_cons]
    cases hbody : body s i₀ with
    | next s' =>
      rw [hbody] at h
      exact ih h
    | exit r =>
      rw [hbody] at h
      cases h

/-- A step keeps `Inv` when it goes on and establishes `Post` when it leaves. -/
def Step.Keeps (Inv : σ → Prop) (Post : ρ → Prop) : Step σ ρ → Prop
  | .next s => Inv s
  | .exit r => Post r

/-- An outcome satisfies `Inv` while running and `Post` after the exit. -/
inductive Outcome.Keeps (Inv : σ → Prop) (Post : ρ → Prop) : Outcome σ ρ ι → Prop
  | running {s : σ} (h : Inv s) : Keeps Inv Post (.running s)
  | exited {r : ρ} {left : List ι} (h : Post r) : Keeps Inv Post (.exited r left)

instance {Inv : σ → Prop} {Post : ρ → Prop} [DecidablePred Inv] [DecidablePred Post]
    (o : Outcome σ ρ ι) : Decidable (o.Keeps Inv Post) :=
  match o with
  | .running s => decidable_of_iff (Inv s) ⟨.running, fun | .running h => h⟩
  | .exited r _ => decidable_of_iff (Post r) ⟨.exited, fun | .exited h => h⟩

theorem Outcome.Keeps.mono {Inv Inv' : σ → Prop} {Post Post' : ρ → Prop}
    {o : Outcome σ ρ ι} (h : o.Keeps Inv Post) (hinv : ∀ s, Inv s → Inv' s)
    (hpost : ∀ r, Post r → Post' r) : o.Keeps Inv' Post' := by
  cases h with
  | running h => exact .running (hinv _ h)
  | exited h => exact .exited (hpost _ h)

/-- **Invariant rule**: what one turn keeps, every run keeps. `P` restricts
    the events the environment may answer with. -/
theorem run_keeps {P : ι → Prop} {Inv : σ → Prop} {Post : ρ → Prop} {body : σ → ι → Step σ ρ}
    (hbody : ∀ s i, P i → Inv s → (body s i).Keeps Inv Post) :
    ∀ (is : List ι) (s : σ), (∀ i ∈ is, P i) → Inv s → (run body s is).Keeps Inv Post := by
  intro is
  induction is with
  | nil => exact fun s _ hs => .running hs
  | cons i is ih =>
    intro s his hs
    have hstep := hbody s i (his i (by simp)) hs
    rw [run_cons]
    -- the turn goes on, and the run below it keeps `Inv`, or it leaves here
    match body s i, hstep with
    | .next s', h => exact ih s' (fun j hj => his j (by simp [hj])) h
    | .exit r, h => exact .exited h

/-- Invariant rule for a loop with an evaluated guard. -/
theorem enter_keeps {P : ι → Prop} {Inv : σ → Prop} {Post : ρ → Prop} {body : σ → ι → Step σ ρ}
    (hbody : ∀ s i, P i → Inv s → (body s i).Keeps Inv Post) {step : Step σ ρ}
    (hstep : step.Keeps Inv Post) (is : List ι) (his : ∀ i ∈ is, P i) :
    (enter body step is).Keeps Inv Post := by
  match step, hstep with
  | .next s, h => exact run_keeps hbody is s his h
  | .exit r, h => exact .exited h

/-- **Progress rule**: if every event of the kind `q` uses up a unit of `μ`,
    a run that is still looping has seen no more of them than there was to
    use up. -/
theorem run_progress {P : ι → Prop} {Inv : σ → Prop} {Post : ρ → Prop}
    {body : σ → ι → Step σ ρ} {μ : σ → Nat} {q : ι → Bool}
    (hbody : ∀ s i, P i → Inv s →
      (body s i).Keeps (fun s' => Inv s' ∧ μ s' + (if q i then 1 else 0) ≤ μ s) Post) :
    ∀ (is : List ι) (s : σ), (∀ i ∈ is, P i) → Inv s →
      (run body s is).Keeps (fun s' => Inv s' ∧ μ s' + is.countP q ≤ μ s) Post := by
  intro is
  induction is with
  | nil => exact fun s _ hs => .running ⟨hs, Nat.le_refl _⟩
  | cons i is ih =>
    intro s his hs
    have hstep := hbody s i (his i (by simp)) hs
    rw [run_cons]
    match body s i, hstep with
    | .next s₁, ⟨hinv, hle⟩ =>
      have hrun := ih s₁ (fun j hj => his j (by simp [hj])) hinv
      refine hrun.mono (fun s' h => ⟨h.1, ?_⟩) fun _ h => h
      have := h.2
      -- this turn pays for itself, the turns behind it for themselves
      rw [List.countP_cons]
      omega
    | .exit r, h => exact .exited h

end Loop
