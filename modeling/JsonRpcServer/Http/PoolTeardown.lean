import JsonRpcServer.Framework.Execution
import JsonRpcServer.Http.BufferPool
import Mathlib.Data.List.Nodup

/-! # The End of the Buffer Pool

  `~httpRecvBuffers` waits for the blocks: it sweeps over the flags, and
  whenever it finds one clear it sets the flag and deletes the block. The
  destructors of the tokens that are still alive clear the other flags in
  the meantime. Nothing in the loop counts the blocks that are left.

  ## Main results

  * `deletesOnce_of_fair`: if the destructor keeps getting turns and every
    token is released, each block is deleted, only once, and not while there
    is a token for it.
  * `not_exits`: the loop is never left.

  ## Proof idea

  A flag that is set belongs to a live token, to a deleted block, or to the
  block that is being deleted. So the flag of a released block is clear until
  the sweep gets there, and the distance of the sweep to the block is a rank.
-/

namespace HttpRecvBuffers.Teardown

open Execution

/-! ### State -/

/-- Where the destructor stands. -/
inductive Sweep where
  /-- In front of the condition of the `while` loop. -/
  | whileHead
  /-- In front of the load of `busy_flags[i]`, or at the end of the `for` loop. -/
  | load (i : Nat)
  /-- The flag was clear; in front of the store. -/
  | store (i : Nat)
  /-- In front of `delete[] mem_pool[i]`. -/
  | delete (i : Nat)
  /-- Behind the loop. -/
  | left
  deriving DecidableEq, Repr

structure State where
  busy_flags : Nat → Bool
  /-- There is a token for the block. -/
  live : Nat → Bool
  sweep : Sweep
  /-- The arguments of `delete[]`, as indices of `mem_pool`. -/
  deleted : List Nat

/-- The destructor begins; every flag that is set has a token. -/
def init (busy_flags : Nat → Bool) : State := ⟨busy_flags, busy_flags, .whileHead, []⟩

/-! ### Steps -/

/-- The condition of the `while` loop. -/
def whileCondition : Bool := true

/-- A turn of the destructor; `N` is the number of blocks. -/
def destructorStep (N : Nat) (s : State) : State :=
  match s.sweep with
  | .whileHead => { s with sweep := if whileCondition then .load 0 else .left }
  | .load i =>
      if i < N then
        { s with sweep := if s.busy_flags i then .load (i + 1) else .store i }
      else { s with sweep := .whileHead }
  | .store i =>
      { s with busy_flags := Function.update s.busy_flags i true, sweep := .delete i }
  | .delete i => { s with deleted := s.deleted ++ [i], sweep := .load (i + 1) }
  | .left => s

/-- The destructor of a token for the block `i`, if there is one. -/
def release (s : State) (i : Nat) : State :=
  if s.live i then
    { s with
      busy_flags := Function.update s.busy_flags i false
      live := Function.update s.live i false }
  else s

inductive Label where
  | destructor
  | release (i : Nat)
  deriving DecidableEq, Repr

def step (N : Nat) (s : State) : Label → State
  | .destructor => destructorStep N s
  | .release i => release s i

/-- The state of the pool after `k` turns. -/
def trace (N : Nat) (busy_flags : Nat → Bool) (schedule : Nat → Label) (k : Nat) : State :=
  exec (step N) (init busy_flags) schedule k

/-! ### What the destructor is for -/

/-- The destructor is never starved, and every token is released. -/
structure Fair (N : Nat) (busy_flags : Nat → Bool) (schedule : Nat → Label) : Prop where
  destructor : Recurs schedule .destructor
  tokens : ∀ i < N, busy_flags i = true → ∃ k, schedule k = .release i

/-- Each block is deleted exactly once, and not while there is a token for it. -/
structure DeletesOnce (N : Nat) (busy_flags : Nat → Bool) (schedule : Nat → Label) : Prop where
  inside : ∀ k, ∀ i ∈ (trace N busy_flags schedule k).deleted, i < N
  released : ∀ k, ∀ i ∈ (trace N busy_flags schedule k).deleted,
    (trace N busy_flags schedule k).live i = false
  once : ∀ k i, (trace N busy_flags schedule k).deleted.count i ≤ 1
  deletes : ∀ i < N, ∃ k, (trace N busy_flags schedule k).deleted.count i = 1

/-- The loop is left at some time. -/
def Exits (N : Nat) (busy_flags : Nat → Bool) (schedule : Nat → Label) : Prop :=
  ∃ k, (trace N busy_flags schedule k).sweep = .left

/-! ### The invariant -/

/-- Who a flag belongs to. -/
structure Inv (N : Nat) (s : State) : Prop where
  live : ∀ i, s.live i = true → s.busy_flags i = true
  deleted : ∀ i ∈ s.deleted, s.live i = false ∧ s.busy_flags i = true ∧ i < N
  nodup : s.deleted.Nodup
  store : ∀ i, s.sweep = .store i → i < N ∧ s.busy_flags i = false
  delete : ∀ i, s.sweep = .delete i →
    i < N ∧ s.live i = false ∧ s.busy_flags i = true ∧ i ∉ s.deleted
  busy : ∀ i, s.busy_flags i = true → s.live i = true ∨ i ∈ s.deleted ∨ s.sweep = .delete i
  running : s.sweep ≠ .left

theorem inv_init (N : Nat) (busy_flags : Nat → Bool) : Inv N (init busy_flags) where
  live _ h := h
  deleted _ h := absurd h List.not_mem_nil
  nodup := List.nodup_nil
  store _ h := by cases h
  delete _ h := by cases h
  busy _ h := Or.inl h
  running h := by cases h

section steps

variable {N : Nat} {s : State}

theorem release_of_live {i : Nat} (h : s.live i = true) : release s i =
    { s with
      busy_flags := Function.update s.busy_flags i false
      live := Function.update s.live i false } := by
  unfold release
  exact if_pos h

theorem release_of_not_live {i : Nat} (h : s.live i = false) : release s i = s := by
  unfold release
  rw [h]
  rfl

@[simp] theorem release_sweep (s : State) (i : Nat) : (release s i).sweep = s.sweep := by
  unfold release
  split <;> rfl

/-- A token is released once. -/
theorem release_live (s : State) (i j : Nat) :
    (release s i).live j = if j = i then false else s.live j := by
  cases h : s.live i with
  | true =>
    rw [release_of_live h]
    exact Function.update_apply s.live i false j
  | false =>
    rw [release_of_not_live h]
    by_cases hj : j = i
    · rw [if_pos hj, hj, h]
    · rw [if_neg hj]

/-- The destructor of a token. -/
theorem inv_release (hs : Inv N s) (i : Nat) : Inv N (release s i) := by
  cases hlive : s.live i with
  | false =>
    rw [release_of_not_live hlive]
    exact hs
  | true =>
    rw [release_of_live hlive]
    -- the block of the token is neither deleted nor about to be
    have hdeleted : i ∉ s.deleted := by
      intro hmem
      rw [(hs.deleted i hmem).1] at hlive
      cases hlive
    have hflag : ∀ j, j ≠ i → Function.update s.busy_flags i false j = s.busy_flags j :=
      fun j hj => Function.update_of_ne hj false s.busy_flags
    have htoken : ∀ j, j ≠ i → Function.update s.live i false j = s.live j :=
      fun j hj => Function.update_of_ne hj false s.live
    constructor
    · intro j hj
      by_cases hij : j = i
      · simp [hij] at hj
      · dsimp only at hj ⊢
        rw [htoken j hij] at hj
        rw [hflag j hij]
        exact hs.live j hj
    · intro j hj
      have hij : j ≠ i := fun heq => hdeleted (heq ▸ hj)
      dsimp only
      rw [htoken j hij, hflag j hij]
      exact hs.deleted j hj
    · exact hs.nodup
    · intro j hj
      obtain ⟨hlt, hclear⟩ := hs.store j hj
      have hij : j ≠ i := by
        intro heq
        rw [heq, hs.live i hlive] at hclear
        cases hclear
      dsimp only
      rw [hflag j hij]
      exact ⟨hlt, hclear⟩
    · intro j hj
      have hdelete := hs.delete j hj
      have hij : j ≠ i := by
        intro heq
        rw [heq, hlive] at hdelete
        cases hdelete.2.1
      dsimp only
      rw [hflag j hij, htoken j hij]
      exact hdelete
    · intro j hj
      by_cases hij : j = i
      · simp [hij] at hj
      · dsimp only at hj ⊢
        rw [hflag j hij] at hj
        rw [htoken j hij]
        exact hs.busy j hj
    · exact hs.running

/-- A turn that only moves the sweep. -/
theorem Inv.move (hs : Inv N s) {sweep : Sweep} (hdelete : ∀ i, s.sweep ≠ .delete i)
    (hstore : ∀ i, sweep = .store i → i < N ∧ s.busy_flags i = false)
    (hother : (∀ i, sweep ≠ .delete i) ∧ sweep ≠ .left) : Inv N { s with sweep := sweep } where
  live := hs.live
  deleted := hs.deleted
  nodup := hs.nodup
  store := hstore
  delete i h := absurd h (hother.1 i)
  busy i h := by
    rcases hs.busy i h with hlive | hmem | hsweep
    · exact Or.inl hlive
    · exact Or.inr (Or.inl hmem)
    · exact absurd hsweep (hdelete i)
  running := hother.2

/-- The load of a flag, or the end of a sweep. -/
theorem inv_load (hs : Inv N s) {i : Nat} (hsweep : s.sweep = .load i) :
    Inv N (destructorStep N s) := by
  unfold destructorStep
  rw [hsweep]
  dsimp only
  by_cases hi : i < N
  · rw [if_pos hi]
    cases hflag : s.busy_flags i with
    | true =>
      apply hs.move (by simp [hsweep])
      · intro j h
        cases h
      · exact ⟨by simp, by simp⟩
    | false =>
      apply hs.move (by simp [hsweep])
      · intro j h
        cases h
        exact ⟨hi, hflag⟩
      · exact ⟨by simp, by simp⟩
  · rw [if_neg hi]
    apply hs.move (by simp [hsweep])
    · intro j h
      cases h
    · exact ⟨by simp, by simp⟩

/-- The store takes the block from nobody: a flag that is clear has neither
    a token nor a deleted block. -/
theorem inv_store (hs : Inv N s) {i : Nat} (hsweep : s.sweep = .store i) :
    Inv N (destructorStep N s) := by
  unfold destructorStep
  rw [hsweep]
  dsimp only
  obtain ⟨hi, hclear⟩ := hs.store i hsweep
  have hlive : s.live i = false := by
    rw [← Bool.not_eq_true]
    intro hlive
    rw [hs.live i hlive] at hclear
    cases hclear
  have hmem : i ∉ s.deleted := by
    intro hmem
    rw [(hs.deleted i hmem).2.1] at hclear
    cases hclear
  have hset : Function.update s.busy_flags i true i = true :=
    Function.update_self i true s.busy_flags
  have hkeep : ∀ j, j ≠ i → Function.update s.busy_flags i true j = s.busy_flags j :=
    fun j hj => Function.update_of_ne hj true s.busy_flags
  have hbusy : ∀ j, s.busy_flags j = true → Function.update s.busy_flags i true j = true := by
    intro j hj
    by_cases hij : j = i
    · rw [hij, hset]
    · rw [hkeep j hij, hj]
  constructor
  · exact fun j hj => hbusy j (hs.live j hj)
  · intro j hj
    obtain ⟨hj₁, hj₂, hj₃⟩ := hs.deleted j hj
    exact ⟨hj₁, hbusy j hj₂, hj₃⟩
  · exact hs.nodup
  · intro j h
    cases h
  · intro j h
    cases h
    exact ⟨hi, hlive, hset, hmem⟩
  · intro j hj
    by_cases hij : j = i
    · exact Or.inr (Or.inr (by rw [hij]))
    · dsimp only at hj
      rw [hkeep j hij] at hj
      rcases hs.busy j hj with hlive' | hmem' | hsweep'
      · exact Or.inl hlive'
      · exact Or.inr (Or.inl hmem')
      · rw [hsweep] at hsweep'
        cases hsweep'
  · intro h
    cases h

theorem inv_delete (hs : Inv N s) {i : Nat} (hsweep : s.sweep = .delete i) :
    Inv N (destructorStep N s) := by
  unfold destructorStep
  rw [hsweep]
  dsimp only
  obtain ⟨hi, hlive, hflag, hmem⟩ := hs.delete i hsweep
  constructor
  · exact hs.live
  · intro j hj
    rcases List.mem_append.mp hj with hj | hj
    · exact hs.deleted j hj
    · rw [List.mem_singleton.mp hj]
      exact ⟨hlive, hflag, hi⟩
  · rw [List.nodup_append]
    refine ⟨hs.nodup, by simp, ?_⟩
    intro j hj j' hj' heq
    rw [List.mem_singleton.mp hj'] at heq
    exact hmem (heq ▸ hj)
  · intro j h
    cases h
  · intro j h
    cases h
  · intro j hj
    rcases hs.busy j hj with hlive' | hmem' | hsweep'
    · exact Or.inl hlive'
    · exact Or.inr (Or.inl (List.mem_append_left _ hmem'))
    · -- this is the block that has just been deleted
      rw [hsweep] at hsweep'
      cases hsweep'
      exact Or.inr (Or.inl (List.mem_append_right _ List.mem_cons_self))
  · intro h
    cases h

theorem inv_destructorStep (hs : Inv N s) : Inv N (destructorStep N s) := by
  cases hsweep : s.sweep with
  | whileHead =>
    unfold destructorStep
    rw [hsweep]
    apply hs.move (by simp [hsweep])
    · intro i h
      cases h
    · exact ⟨by simp [whileCondition], by simp [whileCondition]⟩
  | load i => exact inv_load hs hsweep
  | store i => exact inv_store hs hsweep
  | delete i => exact inv_delete hs hsweep
  | left => exact absurd hsweep hs.running

theorem inv_step (s : State) (l : Label) (hs : Inv N s) : Inv N (step N s l) := by
  cases l with
  | destructor => exact inv_destructorStep hs
  | release i => exact inv_release hs i

end steps

theorem inv_trace (N : Nat) (busy_flags : Nat → Bool) (schedule : Nat → Label) (k : Nat) :
    Inv N (trace N busy_flags schedule k) :=
  exec_invariant inv_step (inv_init N busy_flags) schedule k

/-- The loop is never left. -/
theorem not_exits (N : Nat) (busy_flags : Nat → Bool) (schedule : Nat → Label) :
    ¬ Exits N busy_flags schedule := by
  intro h
  obtain ⟨k, hk⟩ := h
  exact (inv_trace N busy_flags schedule k).running hk

/-! ### The tokens of the pool -/

/-- The pool as the destructor finds it. -/
def ofPool {n : Nat} (s : HttpRecvBuffers.State n) (sweep : Sweep) (deleted : List Nat) : State :=
  ⟨s.busy_flags, fun i => decide (0 < s.tokens.countP fun t => t.On i), sweep, deleted⟩

/-- With one user for each block, the destructor of a live token is a
    `release`. -/
theorem release_of_destroy {n N : Nat} {s s' : HttpRecvBuffers.State n} {j : Nat} {t : Token}
    (hs : HttpRecvBuffers.Inv s) (hj : s.tokens[j]? = some t) (ht : t.status = .live)
    (h : HttpRecvBuffers.step N s (.destroy j) = some s') (sweep : Sweep) (deleted : List Nat) :
    ofPool s' sweep deleted = release (ofPool s sweep deleted) t.slot := by
  unfold HttpRecvBuffers.step at h
  dsimp only at h
  rw [hj, Option.bind_some, if_neg (by rw [ht]; decide)] at h
  cases h
  have hset : ∀ i, ((s.tokens.set j { t with status := .destroyed }).countP fun t => t.On i) +
      (if t.On i then 1 else 0) = s.tokens.countP fun t => t.On i := by
    intro i
    have hcount := Counting.countP_set_add hj { t with status := .destroyed } fun t => t.On i
    rw [Counting.worth_decide, Counting.worth_decide,
      if_neg (not_on_of_status (t := { t with status := .destroyed }) (by simp) i)] at hcount
    exact hcount
  have hone := hs.one t.slot
  unfold State.holders at hone
  have hslot := hset t.slot
  rw [if_pos ⟨ht, rfl⟩] at hslot
  rw [release_of_live (by simp only [ofPool, decide_eq_true_eq]; omega)]
  unfold ofPool
  congr 1
  funext i
  dsimp only
  rw [Function.update_apply]
  by_cases hi : i = t.slot
  · -- it was the only token for its block
    rw [if_pos hi, decide_eq_false_iff_not, hi]
    show ¬ 0 < (s.tokens.set j { t with status := .destroyed }).countP fun t' => t'.On t.slot
    omega
  · have hother := hset i
    rw [if_neg (fun hon => hi hon.2.symm)] at hother
    rw [if_neg hi, ← hother]
    rfl

/-! ### Progress -/

/-- How many blocks the sweep passes on its way from `j` to `i`; the end of
    the `for` loop counts as one. -/
def ahead (N i j : Nat) : Nat := if j ≤ i then i - j else N - j + i + 1

/-- How many turns the sweep needs at most to delete the block `i`. It needs
    three for each block, and one if the flag is set. -/
def distance (N i : Nat) : Sweep → Nat
  | .whileHead => 3 * i + 4
  | .load j => 3 * ahead N i j + 3
  | .store j => 3 * ahead N i j + 2
  | .delete j => 3 * ahead N i j + 1
  | .left => 0

theorem ahead_zero (N i : Nat) : ahead N i 0 = i := by
  unfold ahead
  rw [if_pos (Nat.zero_le i), Nat.sub_zero]

theorem ahead_succ {N i j : Nat} (hj : j < N) (hij : j ≠ i) :
    ahead N i (j + 1) + 1 = ahead N i j := by
  unfold ahead
  by_cases hle : j + 1 ≤ i
  · rw [if_pos hle, if_pos (by omega)]
    omega
  · rw [if_neg hle, if_neg (by omega)]
    omega

theorem le_ahead_of_lt {N i j : Nat} (hij : i < j) : i + 1 ≤ ahead N i j := by
  unfold ahead
  rw [if_neg (by omega)]
  omega

/-- The block has no token and is still there. -/
structure Due (N i : Nat) (s : State) : Prop where
  inv : Inv N s
  live : s.live i = false
  deleted : i ∉ s.deleted

section progress

variable {N i : Nat} {s : State}

/-- The flag of a block that is due is clear, but while it is being deleted. -/
theorem Due.clear (h : Due N i s) (hsweep : s.sweep ≠ .delete i) : s.busy_flags i = false := by
  rw [← Bool.not_eq_true]
  intro hbusy
  rcases h.inv.busy i hbusy with hlive | hmem | hdelete
  · rw [h.live] at hlive
    cases hlive
  · exact h.deleted hmem
  · exact hsweep hdelete

/-- Every turn of the destructor brings it nearer to a block that is due. -/
theorem distance_destructorStep (hi : i < N) (h : Due N i s) :
    i ∈ (destructorStep N s).deleted ∨
      distance N i (destructorStep N s).sweep < distance N i s.sweep := by
  unfold destructorStep
  cases hsweep : s.sweep with
  | whileHead =>
    apply Or.inr
    show 3 * ahead N i 0 + 3 < 3 * i + 4
    rw [ahead_zero]
    omega
  | load j =>
    apply Or.inr
    dsimp only
    by_cases hj : j < N
    · rw [if_pos hj]
      cases hflag : s.busy_flags j with
      | true =>
        -- the flag of the block itself is clear
        have hij : j ≠ i := by
          intro heq
          rw [heq, h.clear (by simp [hsweep])] at hflag
          cases hflag
        have hahead := ahead_succ hj hij
        show 3 * ahead N i (j + 1) + 3 < 3 * ahead N i j + 3
        omega
      | false =>
        show 3 * ahead N i j + 2 < 3 * ahead N i j + 3
        omega
    · rw [if_neg hj]
      have hahead := le_ahead_of_lt (N := N) (i := i) (j := j) (by omega)
      show 3 * i + 4 < 3 * ahead N i j + 3
      omega
  | store j =>
    apply Or.inr
    show 3 * ahead N i j + 1 < 3 * ahead N i j + 2
    omega
  | delete j =>
    by_cases hij : j = i
    · exact Or.inl (List.mem_append_right _ (by simp [hij]))
    · apply Or.inr
      have hahead := ahead_succ (h.inv.delete j hsweep).1 hij
      show 3 * ahead N i (j + 1) + 3 < 3 * ahead N i j + 1
      omega
  | left => exact absurd hsweep h.inv.running

theorem destructorStep_live (N : Nat) (s : State) : (destructorStep N s).live = s.live := by
  unfold destructorStep
  split
  · rfl
  · split <;> rfl
  · rfl
  · rfl
  · rfl

/-- A token that has been released stays so. -/
theorem step_live (l : Label) (h : s.live i = false) : (step N s l).live i = false := by
  cases l with
  | destructor =>
    show (destructorStep N s).live i = false
    rw [destructorStep_live, h]
  | release j =>
    show (release s j).live i = false
    rw [release_live]
    split
    · rfl
    · exact h

/-- Until it is deleted, a block stays due and comes no farther away. -/
theorem due_step (hi : i < N) (l : Label) (h : Due N i s) :
    i ∈ (step N s l).deleted ∨
      (Due N i (step N s l) ∧ distance N i (step N s l).sweep ≤ distance N i s.sweep) := by
  by_cases hmem : i ∈ (step N s l).deleted
  · exact Or.inl hmem
  · refine Or.inr ⟨⟨inv_step s l h.inv, step_live l h.live, hmem⟩, ?_⟩
    cases l with
    | destructor =>
      rcases distance_destructorStep hi h with hdeleted | hlt
      · exact absurd hdeleted hmem
      · exact Nat.le_of_lt hlt
    | release j =>
      show distance N i (release s j).sweep ≤ distance N i s.sweep
      rw [release_sweep]

end progress

/-- At some time the block has no token any more. -/
theorem released_of_fair {N : Nat} {busy_flags : Nat → Bool} {schedule : Nat → Label}
    (h : Fair N busy_flags schedule) {i : Nat} (hi : i < N) :
    ∃ k, (trace N busy_flags schedule k).live i = false := by
  cases hbusy : busy_flags i with
  | false => exact ⟨0, hbusy⟩
  | true =>
    obtain ⟨k, hk⟩ := h.tokens i hi hbusy
    refine ⟨k + 1, ?_⟩
    show (step N (trace N busy_flags schedule k) (schedule k)).live i = false
    rw [hk]
    show (release (trace N busy_flags schedule k) i).live i = false
    rw [release_live, if_pos rfl]

/-- If the destructor keeps getting turns and every token is released, each
    block is deleted exactly once, and not while there is a token for it. -/
theorem deletesOnce_of_fair {N : Nat} {busy_flags : Nat → Bool} {schedule : Nat → Label}
    (h : Fair N busy_flags schedule) : DeletesOnce N busy_flags schedule where
  inside k i hi := ((inv_trace N busy_flags schedule k).deleted i hi).2.2
  released k i hi := ((inv_trace N busy_flags schedule k).deleted i hi).1
  once k i := List.nodup_iff_count_le_one.mp (inv_trace N busy_flags schedule k).nodup i
  deletes := by
    intro i hi
    obtain ⟨k, hlive⟩ := released_of_fair h hi
    have hdeleted : ∃ k', i ∈ (trace N busy_flags schedule k').deleted := by
      by_cases hmem : i ∈ (trace N busy_flags schedule k).deleted
      · exact ⟨k, hmem⟩
      · have hdue : Due N i (trace N busy_flags schedule k) :=
          ⟨inv_trace N busy_flags schedule k, hlive, hmem⟩
        obtain ⟨k', _, hk'⟩ := eventually_of_rank (Q := fun s => i ∈ s.deleted)
          (l := Label.destructor) (fun s => distance N i s.sweep) (fun _ l => due_step hi l)
          (fun _ => distance_destructorStep hi) h.destructor hdue
        exact ⟨k', hk'⟩
    obtain ⟨k', hk'⟩ := hdeleted
    exact ⟨k', List.count_eq_one_of_mem (inv_trace N busy_flags schedule k').nodup hk'⟩

end HttpRecvBuffers.Teardown
