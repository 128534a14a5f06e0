import Mathlib.Data.Nat.Pairing
import Mathlib.Tactic.Common

/-! # Executions

  A system whose threads never stop being scheduled: `step s l` is the state
  after the thread `l` has had a turn, which may leave the state as it is. A
  schedule says whose turn it is at each moment, so an execution is endless.

  Safety has an invariant rule, and liveness a rank rule: a thread that gets
  a turn again and again, and brings its goal nearer with each of them,
  reaches it.
-/

namespace Execution

variable {σ ι : Type} (step : σ → ι → σ)

/-- The state at each moment of an execution. -/
def exec (s : σ) (schedule : Nat → ι) : Nat → σ
  | 0 => s
  | k + 1 => step (exec s schedule k) (schedule k)

/-- The thread gets a turn again and again. -/
def Recurs (schedule : Nat → ι) (l : ι) : Prop := ∀ k, ∃ k', k ≤ k' ∧ schedule k' = l

variable {step} {s : σ} {schedule : Nat → ι}

/-- **Invariant rule**: what every turn keeps holds at every moment. -/
theorem exec_invariant {Inv : σ → Prop} (hstep : ∀ s l, Inv s → Inv (step s l)) (hs : Inv s)
    (schedule : Nat → ι) : ∀ k, Inv (exec step s schedule k) := by
  intro k
  induction k with
  | zero => exact hs
  | succ k ih => exact hstep _ _ ih

/-- **Waiting rule**: what the turns of the others keep holds in the next
    turn of `l`. -/
theorem Recurs.at_turn {P : σ → Prop} {l : ι} (hrecurs : Recurs schedule l)
    (hkeep : ∀ k, schedule k ≠ l → P (exec step s schedule k) → P (exec step s schedule (k + 1)))
    {k : Nat} (hk : P (exec step s schedule k)) :
    ∃ k', k ≤ k' ∧ schedule k' = l ∧ P (exec step s schedule k') := by
  obtain ⟨k₁, hle, hturn⟩ := hrecurs k
  obtain ⟨d, rfl⟩ := Nat.exists_eq_add_of_le hle
  induction d generalizing k with
  | zero => exact ⟨k, Nat.le_refl k, hturn, hk⟩
  | succ d ih =>
    by_cases hnow : schedule k = l
    · exact ⟨k, Nat.le_refl k, hnow, hk⟩
    · have hlater : schedule (k + 1 + d) = l := by
        rw [Nat.add_right_comm]
        exact hturn
      obtain ⟨k', hle', hk'⟩ := ih (hkeep k hnow hk) (by omega) hlater
      exact ⟨k', by omega, hk'⟩

section rank

variable {P Q : σ → Prop} {rank : σ → Nat}
  (hstay : ∀ s l', P s → Q (step s l') ∨ (P (step s l') ∧ rank (step s l') ≤ rank s))

include hstay

/-- While the others take turns, the goal is reached or comes no farther
    away. -/
theorem waiting {k : Nat} (hk : P (exec step s schedule k)) (d : Nat) :
    (∃ k', k ≤ k' ∧ Q (exec step s schedule k')) ∨
      (P (exec step s schedule (k + d)) ∧
        rank (exec step s schedule (k + d)) ≤ rank (exec step s schedule k)) := by
  induction d with
  | zero => exact Or.inr ⟨hk, Nat.le_refl _⟩
  | succ d ih =>
    rcases ih with hreached | ⟨hP, hrank⟩
    · exact Or.inl hreached
    · rcases hstay _ (schedule (k + d)) hP with hQ | ⟨hP', hrank'⟩
      · exact Or.inl ⟨k + d + 1, by omega, hQ⟩
      · exact Or.inr ⟨hP', Nat.le_trans hrank' hrank⟩

/-- Behind the next turn of `l` the goal has been reached or is nearer. -/
theorem next_turn {l : ι} (hprogress : ∀ s, P s → Q (step s l) ∨ rank (step s l) < rank s)
    (hrecurs : Recurs schedule l) {k : Nat} (hk : P (exec step s schedule k)) :
    (∃ k', k ≤ k' ∧ Q (exec step s schedule k')) ∨
      ∃ k', k ≤ k' ∧ P (exec step s schedule k') ∧
        rank (exec step s schedule k') < rank (exec step s schedule k) := by
  obtain ⟨k₁, hle, hturn⟩ := hrecurs k
  obtain ⟨d, rfl⟩ := Nat.exists_eq_add_of_le hle
  rcases waiting hstay hk d with hreached | ⟨hP, hrank⟩
  · exact Or.inl hreached
  · have hstay' := hstay _ (schedule (k + d)) hP
    have hprogress' := hprogress _ hP
    rw [← hturn] at hprogress'
    rcases hstay' with hQ | ⟨hP', _⟩
    · exact Or.inl ⟨k + d + 1, by omega, hQ⟩
    · rcases hprogress' with hQ | hlt
      · exact Or.inl ⟨k + d + 1, by omega, hQ⟩
      · exact Or.inr ⟨k + d + 1, by omega, hP', Nat.lt_of_lt_of_le hlt hrank⟩

variable (rank) in
/-- **Rank rule**: a thread that recurs and lowers the rank with each of its
    turns, while no other turn raises it, reaches the goal. -/
theorem eventually_of_rank {l : ι}
    (hprogress : ∀ s, P s → Q (step s l) ∨ rank (step s l) < rank s)
    (hrecurs : Recurs schedule l) {k : Nat} (hk : P (exec step s schedule k)) :
    ∃ k', k ≤ k' ∧ Q (exec step s schedule k') := by
  obtain ⟨r, hr⟩ : ∃ r, rank (exec step s schedule k) = r := ⟨_, rfl⟩
  induction r using Nat.strongRecOn generalizing k with
  | ind r ih =>
    rcases next_turn hstay hprogress hrecurs hk with hreached | ⟨k', hle, hP, hlt⟩
    · exact hreached
    · obtain ⟨k'', hle', hQ⟩ := ih _ (by omega) hP rfl
      exact ⟨k'', by omega, hQ⟩

end rank

/-! ### From some moment on -/

/-- The part of an execution from the moment `K` on is an execution. -/
theorem exec_add (s : σ) (schedule : Nat → ι) (K k : Nat) :
    exec step s schedule (K + k) =
      exec step (exec step s schedule K) (fun n => schedule (K + n)) k := by
  induction k with
  | zero => rfl
  | succ k ih =>
    show step (exec step s schedule (K + k)) (schedule (K + k)) = _
    rw [ih]
    rfl

theorem Recurs.add {l : ι} (h : Recurs schedule l) (K : Nat) :
    Recurs (fun n => schedule (K + n)) l := by
  intro k
  obtain ⟨k', hle, hturn⟩ := h (K + k)
  exact ⟨k' - K, by omega, by simpa only [Nat.add_sub_of_le (by omega : K ≤ k')] using hturn⟩

/-- What every turn keeps holds from its first moment on. -/
theorem exec_stable {P : σ → Prop} (hstep : ∀ s l, P s → P (step s l)) {k k' : Nat}
    (hk : P (exec step s schedule k)) (hle : k ≤ k') : P (exec step s schedule k') := by
  obtain ⟨d, rfl⟩ := Nat.exists_eq_add_of_le hle
  rw [exec_add]
  exact exec_invariant hstep hk _ d

/-! ### Leads to -/

section leadsTo

variable (step s schedule) in
/-- Whenever `P` holds, `Q` holds then or later. -/
def LeadsTo (P Q : σ → Prop) : Prop :=
  ∀ k, P (exec step s schedule k) → ∃ k', k ≤ k' ∧ Q (exec step s schedule k')

theorem LeadsTo.trans {P Q R : σ → Prop} (hPQ : LeadsTo step s schedule P Q)
    (hQR : LeadsTo step s schedule Q R) : LeadsTo step s schedule P R := by
  intro k hP
  obtain ⟨k', hle, hQ⟩ := hPQ k hP
  obtain ⟨k'', hle', hR⟩ := hQR k' hQ
  exact ⟨k'', by omega, hR⟩

theorem LeadsTo.or {P P' Q : σ → Prop} (hP : LeadsTo step s schedule P Q)
    (hP' : LeadsTo step s schedule P' Q) :
    LeadsTo step s schedule (fun s => P s ∨ P' s) Q := by
  intro k h
  rcases h with h | h
  · exact hP k h
  · exact hP' k h

theorem LeadsTo.refl (P : σ → Prop) : LeadsTo step s schedule P P :=
  fun k h => ⟨k, Nat.le_refl k, h⟩

/-- What is reached when all steps keep the invariant. -/
theorem LeadsTo.of_invariant {Inv P Q : σ → Prop} (hinv : ∀ k, Inv (exec step s schedule k))
    (h : LeadsTo step s schedule (fun s => Inv s ∧ P s) Q) : LeadsTo step s schedule P Q :=
  fun k hP => h k ⟨hinv k, hP⟩

variable {A : ι → Prop}

open Classical in
/-- The system whose other turns do nothing. -/
noncomputable def only (A : ι → Prop) (step : σ → ι → σ) (s : σ) (l : ι) : σ :=
  if A l then step s l else s

theorem only_of {s : σ} {l : ι} (h : A l) : only A step s l = step s l := if_pos h

theorem exec_only (hA : ∀ k, A (schedule k)) (k : Nat) :
    exec (only A step) s schedule k = exec step s schedule k := by
  induction k with
  | zero => rfl
  | succ k ih =>
    rw [exec, exec, ih]
    exact only_of (hA k)

/-- What the turns of these threads keep holds at every moment, when no
    others take turns. -/
theorem exec_invariant_only {Inv : σ → Prop} (hA : ∀ k, A (schedule k))
    (hstep : ∀ s l, A l → Inv s → Inv (step s l)) (hs : Inv s) :
    ∀ k, Inv (exec step s schedule k) := by
  intro k
  rw [← exec_only hA]
  apply exec_invariant _ hs
  intro s l h
  unfold only
  split
  · next hl => exact hstep s l hl h
  · exact h

/-- **Rank rule** for an execution in which only these threads take turns. -/
theorem leadsTo_of_rank {Inv P Q : σ → Prop} {l : ι} (rank : σ → Nat)
    (hA : ∀ k, A (schedule k)) (hinv : ∀ k, Inv (exec step s schedule k))
    (hkeep : ∀ s l', A l' → Inv s → Inv (step s l'))
    (hstay : ∀ s l', A l' → Inv s → P s →
      Q (step s l') ∨ (P (step s l') ∧ rank (step s l') ≤ rank s))
    (hprogress : ∀ s, Inv s → P s → Q (step s l) ∨ rank (step s l) < rank s)
    (hrecurs : Recurs schedule l) : LeadsTo step s schedule P Q := by
  have hl : A l := by
    obtain ⟨k, _, hturn⟩ := hrecurs 0
    exact hturn ▸ hA k
  have hstay' : ∀ s l', (Inv s ∧ P s) → Q (only A step s l') ∨
      ((Inv (only A step s l') ∧ P (only A step s l')) ∧
        rank (only A step s l') ≤ rank s) := by
    rintro s l' ⟨hs, hP⟩
    unfold only
    split
    · next hl' =>
      rcases hstay s l' hl' hs hP with hQ | ⟨hP', hrank⟩
      · exact Or.inl hQ
      · exact Or.inr ⟨⟨hkeep s l' hl' hs, hP'⟩, hrank⟩
    · exact Or.inr ⟨⟨hs, hP⟩, Nat.le_refl _⟩
  have hprogress' : ∀ s, (Inv s ∧ P s) →
      Q (only A step s l) ∨ rank (only A step s l) < rank s := by
    rintro s ⟨hs, hP⟩
    rw [only_of hl]
    exact hprogress s hs hP
  apply LeadsTo.of_invariant hinv
  intro k hk
  rw [← exec_only hA] at hk
  obtain ⟨k', hle, hQ⟩ :=
    eventually_of_rank (P := fun s => Inv s ∧ P s) (Q := Q) rank hstay' hprogress' hrecurs hk
  rw [exec_only hA] at hQ
  exact ⟨k', hle, hQ⟩

end leadsTo

/-! ### A fair schedule -/

/-- The turns of `start`, and then those of an enumeration, each of them
    again and again. -/
def dovetail (start : List ι) (numbered : Nat → ι) (k : Nat) : ι :=
  start[k]?.getD (numbered k.unpair.1)

theorem dovetail_of_le {start : List ι} {k : Nat} (h : start.length ≤ k) (numbered : Nat → ι) :
    dovetail start numbered k = numbered k.unpair.1 := by
  rw [dovetail, List.getElem?_eq_none h]
  rfl

theorem recurs_dovetail (start : List ι) (numbered : Nat → ι) (n : Nat) :
    Recurs (dovetail start numbered) (numbered n) := by
  intro k
  have hle := Nat.right_le_pair n (k + start.length)
  refine ⟨Nat.pair n (k + start.length), by omega, ?_⟩
  rw [dovetail_of_le (by omega), Nat.unpair_pair]

end Execution
