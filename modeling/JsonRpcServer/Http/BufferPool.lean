import JsonRpcServer.Framework.Counting
import JsonRpcServer.Framework.System
import JsonRpcServer.Http.RecvBuffer
import Mathlib.Logic.Function.Basic

/-! # The Buffer Pool

  `httpRecvBuffers`: `N` blocks with a busy flag each. `getBuffer` scans the
  flags, takes the first block that is not busy, clears it and returns a
  token for it; the destructor of the token clears the flag again.

  ## Steps

  Any number of threads are in `getBuffer` at once. The accesses to the
  flags are sequentially consistent, and each is a step of its own:

  1. **Load** of `busy_flags[i]`. A busy block sends the call to the next.
  2. **Store** of `true`.
  3. **memset** of the block, and the return of the token.

  A token can be moved from: the new token refers to the same block, and the
  old one still has its destructor to run.

  ## Main results

  * `tokens_exclusive_of_guarded`: no two tokens share a block, and no
    `getBuffer` clears the block of a token, if no two calls are between
    load and store of one flag and no destructor of a token that was moved
    from runs while the block is in use.
-/

namespace HttpRecvBuffers

open Bytes System Counting

/-! ### State -/

/-- Where a call of `getBuffer` stands. -/
inductive Getter where
  /-- In front of the load of `busy_flags[i]`. -/
  | scanning (i : Nat)
  /-- The flag was clear; in front of the store. -/
  | taking (i : Nat)
  /-- The flag is set; in front of the `memset`. -/
  | clearing (i : Nat)
  | returned
  deriving DecidableEq, Repr

inductive TokenStatus where
  | live
  /-- The move constructor has made another token of it. -/
  | movedFrom
  | destroyed
  deriving DecidableEq, Repr

/-- An `httpRecvBufferSingle`. -/
structure Token where
  /-- The block it refers to. -/
  slot : Nat
  /-- The call of `getBuffer` it comes from. -/
  origin : Nat
  status : TokenStatus
  deriving DecidableEq, Repr

structure State (buf_size : Nat) where
  busy_flags : Nat → Bool
  mem_pool : Nat → HttpRecvBufferSingle buf_size
  getters : List Getter
  tokens : List Token

variable {N n : Nat}

/-- After the constructor, which leaves the blocks as they come. -/
def init (mem_pool : Nat → HttpRecvBufferSingle n) : State n :=
  ⟨fun _ => false, mem_pool, [], []⟩

namespace State

def setFlag (s : State n) (i : Nat) (b : Bool) : State n :=
  { s with busy_flags := Function.update s.busy_flags i b }

def setBlock (s : State n) (i : Nat) (block : HttpRecvBufferSingle n) : State n :=
  { s with mem_pool := Function.update s.mem_pool i block }

def setGetter (s : State n) (k : Nat) (pc : Getter) : State n :=
  { s with getters := s.getters.set k pc }

def setToken (s : State n) (j : Nat) (t : Token) : State n :=
  { s with tokens := s.tokens.set j t }

def addToken (s : State n) (t : Token) : State n := { s with tokens := s.tokens ++ [t] }

end State

/-! ### Steps -/

inductive Label where
  /-- A thread calls `getBuffer`. -/
  | getBuffer
  /-- The next step of a call. -/
  | getter (k : Nat)
  /-- The move constructor. What is made of a token that was moved from owns
      the block no more than that does. -/
  | move (j : Nat)
  /-- The holder of a token stores data in its block. -/
  | append (j : Nat) (data : Bytes)
  /-- The destructor. -/
  | destroy (j : Nat)
  deriving DecidableEq, Repr

/-- The next step of the call `k`; `N` is the number of blocks. -/
def getterStep (N : Nat) (s : State n) (k : Nat) : Getter → Option (State n)
  | .scanning i =>
      -- at the end of the `for` loop the scan starts again
      if i < N then
        some (s.setGetter k (if s.busy_flags i then .scanning (i + 1) else .taking i))
      else some (s.setGetter k (.scanning 0))
  | .taking i => some ((s.setFlag i true).setGetter k (.clearing i))
  | .clearing i =>
      some (((s.setBlock i (.zeroed n)).setGetter k .returned).addToken ⟨i, k, .live⟩)
  | .returned => none

def step (N : Nat) (s : State n) : Label → Option (State n)
  | .getBuffer => some { s with getters := s.getters ++ [.scanning 0] }
  | .getter k => s.getters[k]?.bind (getterStep N s k)
  | .move j => s.tokens[j]?.bind fun t =>
      if t.status = .destroyed then none
      else some ((s.setToken j { t with status := .movedFrom }).addToken t)
  | .append j data => s.tokens[j]?.bind fun t =>
      if t.status = .live then some (s.setBlock t.slot ((s.mem_pool t.slot).append data))
      else none
  | .destroy j => s.tokens[j]?.bind fun t =>
      if t.status = .destroyed then none
      else some ((s.setFlag t.slot false).setToken j { t with status := .destroyed })

/-! ### Exclusive tokens -/

/-- The token is the one to use its block. -/
def Token.On (t : Token) (i : Nat) : Prop := t.status = .live ∧ t.slot = i

instance (t : Token) (i : Nat) : Decidable (t.On i) := inferInstanceAs (Decidable (_ ∧ _))

/-- No two tokens of different calls share a block. -/
def Exclusive (s : State n) : Prop :=
  ∀ t ∈ s.tokens, ∀ t' ∈ s.tokens, ∀ i, t.On i → t'.On i → t.origin = t'.origin

/-- The step does not clear the block of a token. -/
def Spares (s : State n) (l : Label) : Prop :=
  ∀ k i, l = .getter k → s.getters[k]? = some (.clearing i) → ∀ t ∈ s.tokens, ¬ t.On i

/-- A call that finds a flag clear is alone with it, and a token that was
    moved from is not destroyed while its block is in use. -/
def TakesAlone (N : Nat) (s : State n) : Label → Prop
  | .getter k => ∀ i, i < N → s.getters[k]? = some (.scanning i) → s.busy_flags i = false →
      Getter.taking i ∉ s.getters
  | .destroy j => ∀ t, s.tokens[j]? = some t → t.status = .movedFrom →
      Getter.clearing t.slot ∉ s.getters ∧ ∀ t' ∈ s.tokens, ¬ t'.On t.slot
  | _ => True

instance decidableTakesAlone (N : Nat) (s : State n) : ∀ l, Decidable (TakesAlone N s l)
  | .getter k => inferInstanceAs (Decidable (∀ i, i < N → s.getters[k]? = some (.scanning i) →
      s.busy_flags i = false → Getter.taking i ∉ s.getters))
  | .destroy j =>
      decidable_of_iff (∀ t ∈ s.tokens[j]?, t.status = .movedFrom →
        Getter.clearing t.slot ∉ s.getters ∧ ∀ t' ∈ s.tokens, ¬ t'.On t.slot) Iff.rfl
  | .getBuffer | .move _ | .append _ _ => .isTrue trivial

/-! ### Users of a block -/

/-- The calls that are about to set the flag. -/
def State.takers (s : State n) (i : Nat) : Nat := s.getters.countP (· = .taking i)

/-- The call that is about to clear the block and the token that uses it. -/
def State.holders (s : State n) (i : Nat) : Nat :=
  s.getters.countP (· = .clearing i) + s.tokens.countP fun t => t.On i

/-- Every block has at most one user, and a block that is held is busy. -/
structure Inv (s : State n) : Prop where
  one : ∀ i, s.takers i + s.holders i ≤ 1
  busy : ∀ i, 0 < s.holders i → s.busy_flags i = true

theorem inv_init (mem_pool : Nat → HttpRecvBufferSingle n) : Inv (init mem_pool) where
  one _ := Nat.zero_le _
  busy _ h := absurd h (Nat.lt_irrefl 0)

theorem holders_pos_of_token {s : State n} {t : Token} {i : Nat} (ht : t ∈ s.tokens)
    (hon : t.On i) : 0 < s.holders i :=
  Nat.add_pos_right _ (List.countP_pos_iff.mpr ⟨t, ht, decide_eq_true hon⟩)

theorem holders_pos_of_clearing {s : State n} {i : Nat} (h : Getter.clearing i ∈ s.getters) :
    0 < s.holders i :=
  Nat.add_pos_left (List.countP_pos_iff.mpr ⟨_, h, decide_eq_true rfl⟩) _

theorem takers_pos_iff {s : State n} {i : Nat} : 0 < s.takers i ↔ Getter.taking i ∈ s.getters := by
  unfold State.takers
  rw [List.countP_pos_iff]
  simp

/-- With one user for each block the tokens are exclusive. -/
theorem Inv.exclusive {s : State n} (h : Inv s) : Exclusive s := by
  intro t ht t' ht' i hon hon'
  obtain ⟨j, hj⟩ := List.getElem?_of_mem ht
  obtain ⟨j', hj'⟩ := List.getElem?_of_mem ht'
  by_cases heq : j = j'
  · rw [heq, hj'] at hj
    rw [Option.some.inj hj]
  · -- two tokens on one block
    have htwo := two_le_countP (p := fun t => t.On i) heq hj hj' (by simpa using hon)
      (by simpa using hon')
    have hone := h.one i
    unfold State.holders at hone
    omega

theorem Inv.spares {s : State n} (h : Inv s) (l : Label) : Spares s l := by
  intro k i _ hk t ht hon
  have hclearing : 0 < s.getters.countP (· = .clearing i) :=
    List.countP_pos_iff.mpr ⟨_, List.mem_of_getElem? hk, decide_eq_true rfl⟩
  have htoken : 0 < s.tokens.countP fun t => t.On i :=
    List.countP_pos_iff.mpr ⟨t, ht, decide_eq_true hon⟩
  have hone := h.one i
  unfold State.holders at hone
  omega

/-! ### Preservation -/

theorem setFlag_busy_flags (s : State n) (i i' : Nat) (b : Bool) :
    (s.setFlag i b).busy_flags i' = if i' = i then b else s.busy_flags i' := by
  unfold State.setFlag
  exact Function.update_apply s.busy_flags i b i'

/-- What a call adds to the users of a block when it moves on. -/
theorem users_setGetter {s : State n} {k : Nat} {pc : Getter} (h : s.getters[k]? = some pc)
    (pc' : Getter) (i : Nat) :
    (s.setGetter k pc').takers i + (if pc = .taking i then 1 else 0) =
        s.takers i + (if pc' = .taking i then 1 else 0) ∧
      (s.setGetter k pc').holders i + (if pc = .clearing i then 1 else 0) =
        s.holders i + (if pc' = .clearing i then 1 else 0) := by
  have htaking := countP_set_add h pc' (· = .taking i)
  have hclearing := countP_set_add h pc' (· = .clearing i)
  rw [worth_decide, worth_decide] at htaking hclearing
  unfold State.takers State.holders State.setGetter
  dsimp only
  omega

/-- What a token adds to the holders of a block when it changes. -/
theorem holders_setToken {s : State n} {j : Nat} {t : Token} (h : s.tokens[j]? = some t)
    (t' : Token) (i : Nat) :
    (s.setToken j t').holders i + (if t.On i then 1 else 0) =
      s.holders i + (if t'.On i then 1 else 0) := by
  have htoken := countP_set_add h t' fun t => t.On i
  rw [worth_decide, worth_decide] at htoken
  unfold State.holders State.setToken
  dsimp only
  omega

theorem holders_addToken (s : State n) (t : Token) (i : Nat) :
    (s.addToken t).holders i = s.holders i + (if t.On i then 1 else 0) := by
  unfold State.holders State.addToken
  dsimp only
  rw [countP_snoc, worth_decide]
  omega

theorem not_on_of_status {t : Token} (h : t.status ≠ .live) (i : Nat) : ¬ t.On i :=
  fun hon => h hon.1

/-- A step that gives no block a second user keeps the invariant. -/
theorem Inv.of_users {s s' : State n} (h : Inv s)
    (hone : ∀ i, s'.takers i + s'.holders i ≤ s.takers i + s.holders i)
    (hbusy : ∀ i, 0 < s'.holders i → s'.busy_flags i = true) : Inv s' :=
  ⟨fun i => (hone i).trans (h.one i), hbusy⟩

/-- A step of a call of `getBuffer`. -/
theorem inv_getterStep {s s' : State n} {k : Nat} {pc : Getter} (hs : Inv s)
    (hl : TakesAlone N s (.getter k)) (hk : s.getters[k]? = some pc)
    (h : getterStep N s k pc = some s') : Inv s' := by
  cases pc with
  | scanning i =>
    rw [getterStep] at h
    split at h
    · next hi =>
      cases h
      by_cases hflag : s.busy_flags i = true
      · -- the block is busy, the scan goes on
        rw [if_pos hflag]
        have husers := users_setGetter hk (.scanning (i + 1))
        simp only [reduceCtorEq, if_false] at husers
        refine hs.of_users (fun i' => by have := husers i'; omega) fun i' hpos => ?_
        exact hs.busy i' (by have := husers i'; omega)
      · rw [if_neg hflag]
        have husers := users_setGetter hk (.taking i)
        simp only [reduceCtorEq, if_false, Getter.taking.injEq] at husers
        -- nobody uses the block: not to be seen in the flag, and not on the way
        have hfree : s.holders i = 0 := by
          by_contra hne
          exact hflag (hs.busy i (Nat.pos_of_ne_zero hne))
        have halone : s.takers i = 0 := by
          by_contra hne
          exact hl i hi hk (by simpa using hflag) (takers_pos_iff.mp (Nat.pos_of_ne_zero hne))
        refine ⟨fun i' => ?_, fun i' hpos => ?_⟩
        · have := husers i'
          have := hs.one i'
          by_cases heq : i = i'
          · subst heq
            rw [if_pos rfl] at *
            omega
          · rw [if_neg heq] at *
            omega
        · exact hs.busy i' (by have := husers i'; omega)
    · cases h
      have husers := users_setGetter hk (.scanning 0)
      simp only [reduceCtorEq, if_false] at husers
      refine hs.of_users (fun i' => by have := husers i'; omega) fun i' hpos => ?_
      exact hs.busy i' (by have := husers i'; omega)
  | taking i =>
    cases h
    have husers := users_setGetter (s := s.setFlag i true) hk (.clearing i)
    simp only [reduceCtorEq, if_false, Getter.taking.injEq,
      Getter.clearing.injEq] at husers
    have htakers : ∀ i', ((s.setFlag i true).setGetter k (.clearing i)).takers i' +
        (if i = i' then 1 else 0) = s.takers i' := fun i' => (husers i').1
    have hholders : ∀ i', ((s.setFlag i true).setGetter k (.clearing i)).holders i' =
        s.holders i' + (if i = i' then 1 else 0) := fun i' => (husers i').2
    refine hs.of_users (fun i' => ?_) fun i' hpos => ?_
    · have := htakers i'
      rw [hholders]
      omega
    · rw [hholders] at hpos
      show (s.setFlag i true).busy_flags i' = true
      rw [setFlag_busy_flags]
      split
      · rfl
      · next hne =>
        rw [if_neg fun heq => hne heq.symm] at hpos
        exact hs.busy i' hpos
  | clearing i =>
    cases h
    have husers := users_setGetter (s := s.setBlock i (.zeroed n)) hk .returned
    simp only [reduceCtorEq, if_false, Getter.clearing.injEq] at husers
    have hadd := holders_addToken ((s.setBlock i (.zeroed n)).setGetter k .returned)
      ⟨i, k, .live⟩
    simp only [Token.On, true_and] at hadd
    -- the token takes over from the call
    have hholders : ∀ i', (((s.setBlock i (.zeroed n)).setGetter k .returned).addToken
        ⟨i, k, .live⟩).holders i' = s.holders i' := by
      intro i'
      have : ((s.setBlock i (.zeroed n)).setGetter k .returned).holders i' +
          (if i = i' then 1 else 0) = s.holders i' := (husers i').2
      have := hadd i'
      omega
    refine hs.of_users (fun i' => ?_) fun i' hpos => ?_
    · rw [hholders]
      have : ((s.setBlock i (.zeroed n)).setGetter k .returned).takers i' = s.takers i' :=
        (husers i').1
      exact Nat.add_le_add_right this.le _
    · rw [hholders] at hpos
      exact hs.busy i' hpos
  | returned => cases h

/-- A destructor. -/
theorem inv_destroy {s : State n} {j : Nat} {t : Token} (hs : Inv s)
    (hl : TakesAlone N s (.destroy j)) (hj : s.tokens[j]? = some t) (ht : t.status ≠ .destroyed) :
    Inv ((s.setFlag t.slot false).setToken j { t with status := .destroyed }) := by
  have hset := holders_setToken (s := s.setFlag t.slot false) hj { t with status := .destroyed }
  have hholders : ∀ i, ((s.setFlag t.slot false).setToken j
      { t with status := .destroyed }).holders i + (if t.On i then 1 else 0) = s.holders i := by
    intro i
    rw [hset, if_neg (not_on_of_status (by simp) i)]
    rfl
  refine hs.of_users (fun i => ?_) fun i hpos => ?_
  · have := hholders i
    show s.takers i + _ ≤ _
    omega
  · show (s.setFlag t.slot false).busy_flags i = true
    rw [setFlag_busy_flags]
    by_cases hi : i = t.slot
    · -- nobody else holds the block
      exfalso
      subst hi
      have hold := hholders t.slot
      have hone := hs.one t.slot
      cases hstatus : t.status with
      | live =>
        rw [if_pos ⟨hstatus, rfl⟩] at hold
        omega
      | movedFrom =>
        obtain ⟨hclearing, hlive⟩ := hl t hj hstatus
        rw [if_neg (not_on_of_status (by simp [hstatus]) _)] at hold
        have hzero : s.holders t.slot = 0 := by
          unfold State.holders
          rw [Nat.add_eq_zero_iff, List.countP_eq_zero, List.countP_eq_zero]
          refine ⟨fun pc hpc heq => ?_, fun t' ht' hon => ?_⟩
          · rw [decide_eq_true_eq] at heq
            exact hclearing (heq ▸ hpc)
          · exact hlive t' ht' (of_decide_eq_true hon)
        omega
      | destroyed => exact ht hstatus
    · rw [if_neg hi]
      have := hholders i
      exact hs.busy i (by omega)

/-- Steps that take alone keep the invariant. -/
theorem inv_step {s s' : State n} {l : Label} (hs : Inv s) (hl : TakesAlone N s l)
    (h : step N s l = some s') : Inv s' := by
  cases l with
  | getBuffer =>
    cases h
    refine hs.of_users (fun i => ?_) fun i hpos => hs.busy i ?_
    · unfold State.takers State.holders
      simp only [countP_snoc, worth_decide, reduceCtorEq, if_false]
      omega
    · unfold State.holders at hpos ⊢
      simp only [countP_snoc, worth_decide, reduceCtorEq, if_false] at hpos
      exact hpos
  | getter k =>
    unfold step at h
    rw [Option.bind_eq_some_iff] at h
    obtain ⟨pc, hk, h⟩ := h
    exact inv_getterStep hs hl hk h
  | move j =>
    unfold step at h
    rw [Option.bind_eq_some_iff] at h
    obtain ⟨t, hj, h⟩ := h
    rw [Option.ite_none_left_eq_some] at h
    obtain ⟨_, h⟩ := h
    cases h
    -- the new token holds what the old one held
    have hholders : ∀ i, ((s.setToken j { t with status := .movedFrom }).addToken t).holders i =
        s.holders i := by
      intro i
      have hset := holders_setToken hj { t with status := .movedFrom } i
      rw [if_neg (not_on_of_status (t := { t with status := .movedFrom }) (by simp) i)] at hset
      rw [holders_addToken]
      omega
    refine hs.of_users (fun i => ?_) fun i hpos => ?_
    · rw [hholders]
      exact Nat.le_refl _
    · rw [hholders] at hpos
      exact hs.busy i hpos
  | append j data =>
    unfold step at h
    rw [Option.bind_eq_some_iff] at h
    obtain ⟨t, _, h⟩ := h
    rw [Option.ite_none_right_eq_some] at h
    obtain ⟨_, h⟩ := h
    cases h
    exact ⟨hs.one, hs.busy⟩
  | destroy j =>
    unfold step at h
    rw [Option.bind_eq_some_iff] at h
    obtain ⟨t, hj, h⟩ := h
    rw [Option.ite_none_left_eq_some] at h
    obtain ⟨ht, h⟩ := h
    cases h
    exact inv_destroy hs hl hj ht

/-- Every other step breaks it. -/
theorem not_inv_of_shared {s : State n} {l : Label} (hl : ¬ TakesAlone N s l) :
    ∃ s', step N s l = some s' ∧ ¬ Inv s' := by
  cases l with
  | getter k =>
    unfold TakesAlone at hl
    push Not at hl
    obtain ⟨i, hi, hk, hflag, hmem⟩ := hl
    refine ⟨s.setGetter k (.taking i), ?_, fun hinv => ?_⟩
    · rw [step, hk, Option.bind_some, getterStep, if_pos hi, hflag]
      rfl
    · -- two calls are about to set the flag
      have husers := (users_setGetter hk (.taking i) i).1
      simp only [reduceCtorEq, if_false, if_true] at husers
      have hpos := takers_pos_iff.mpr hmem
      have hone := hinv.one i
      omega
  | destroy j =>
    unfold TakesAlone at hl
    push Not at hl
    obtain ⟨t, hj, hstatus, huse⟩ := hl
    refine ⟨(s.setFlag t.slot false).setToken j { t with status := .destroyed }, ?_,
      fun hinv => ?_⟩
    · rw [step, hj, Option.bind_some, if_neg (by rw [hstatus]; decide)]
    · -- the block is held and its flag is clear
      have hset := holders_setToken (s := s.setFlag t.slot false) hj
        { t with status := .destroyed } t.slot
      rw [if_neg (not_on_of_status (by simp [hstatus]) _),
        if_neg (not_on_of_status (by simp) _)] at hset
      have hholders : ((s.setFlag t.slot false).setToken j
          { t with status := .destroyed }).holders t.slot = s.holders t.slot := hset
      have hpos : 0 < s.holders t.slot := by
        by_cases hclearing : Getter.clearing t.slot ∈ s.getters
        · exact holders_pos_of_clearing hclearing
        · obtain ⟨t', ht', hon⟩ := huse hclearing
          exact holders_pos_of_token ht' hon
      have hbusy := hinv.busy t.slot (hholders ▸ hpos)
      have hflag : (s.setFlag t.slot false).busy_flags t.slot = true := hbusy
      rw [setFlag_busy_flags, if_pos rfl] at hflag
      cases hflag
  | getBuffer | move j | append j data => exact absurd trivial hl

/-! ### Runs -/

/-- Every block has one user all along a run exactly when its steps take
    alone. -/
theorem always_inv_iff (mem_pool : Nat → HttpRecvBufferSingle n) (ls : List Label) :
    Always (step N) Inv (init mem_pool) ls ↔
      Guarded (step N) (TakesAlone N) (init mem_pool) ls :=
  always_iff_guarded (fun _ _ _ => inv_step) (fun _ _ _ => not_inv_of_shared)
    (inv_init mem_pool) ls

/-- **Exclusive tokens**: in a run whose steps take alone, no two tokens
    share a block in any state, and no step clears the block of a token. -/
theorem tokens_exclusive_of_guarded (mem_pool : Nat → HttpRecvBufferSingle n) (ls : List Label)
    (hG : Guarded (step N) (TakesAlone N) (init mem_pool) ls) :
    Always (step N) (fun s => Exclusive s ∧ ∀ l, Spares s l) (init mem_pool) ls := by
  intro ls' s' hpre hrun
  have hinv : Inv s' := (always_inv_iff mem_pool ls).mpr hG ls' s' hpre hrun
  exact ⟨hinv.exclusive, hinv.spares⟩

/-- Two requests one after the other, the token of the first moved. -/
theorem tokens_exclusive_of_guarded_moved :
    Always (step 2) (fun s => Exclusive s ∧ ∀ l, Spares s l)
      (init (n := 8) fun _ => .zeroed 8)
      [.getBuffer, .getter 0, .getter 0, .getter 0, .move 0, .destroy 1, .destroy 0,
        .getBuffer, .getter 1, .getter 1, .getter 1] :=
  tokens_exclusive_of_guarded _ _ (by decide +kernel)

/-- Two calls load the flag of one block before either of them stores. The
    second then clears what the first has a token for, and returns a token
    for it as well. -/
theorem not_exclusive_interleaved :
    ¬ Always (step 2) (fun s => ∀ l, Spares s l) (init (n := 8) fun _ => .zeroed 8)
        [.getBuffer, .getBuffer, .getter 0, .getter 1, .getter 0, .getter 1, .getter 0] ∧
      ¬ Always (step 2) Exclusive (init (n := 8) fun _ => .zeroed 8)
        [.getBuffer, .getBuffer, .getter 0, .getter 1, .getter 0, .getter 1, .getter 0,
          .getter 1] := by
  constructor
  · intro h
    exact h _ _ List.prefix_rfl rfl (.getter 1) 1 0 rfl rfl ⟨0, 0, .live⟩ (by decide) ⟨rfl, rfl⟩
  · intro h
    have horigin := h _ _ List.prefix_rfl rfl ⟨0, 0, .live⟩ (by decide) ⟨0, 1, .live⟩ (by decide) 0
      ⟨rfl, rfl⟩ ⟨rfl, rfl⟩
    exact absurd horigin (by decide)

/-- The destructor of a token that was moved from frees the block under the
    token it was moved to. -/
theorem not_exclusive_moved :
    ¬ Always (step 2) Exclusive (init (n := 8) fun _ => .zeroed 8)
        [.getBuffer, .getter 0, .getter 0, .getter 0, .move 0, .destroy 0,
          .getBuffer, .getter 1, .getter 1, .getter 1] := by
  intro h
  have horigin := h _ _ List.prefix_rfl rfl ⟨0, 0, .live⟩ (by decide) ⟨0, 1, .live⟩ (by decide) 0
    ⟨rfl, rfl⟩ ⟨rfl, rfl⟩
  exact absurd horigin (by decide)

end HttpRecvBuffers
