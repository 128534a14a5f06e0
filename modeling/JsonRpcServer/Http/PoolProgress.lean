import JsonRpcServer.Framework.Execution
import JsonRpcServer.Http.BufferPool

/-! # Waiting for a Buffer

  There are `MAX_CLIENTS` blocks, and a thread for every connection. A call
  of `getBuffer` that finds all of them busy scans the flags until one is
  clear. Nothing queues the calls, so another call may take the block that
  this one was waiting for.

  Here an execution is endless, and a turn of a thread that has nothing to
  do changes nothing. No token is moved: both servers construct theirs in
  place.

  ## Main results

  * `getBuffer_returns`: as long as requests end and the threads get turns,
    some call returns whenever one waits, and every call does if no more
    arrive from some moment on. This needs no exclusion between calls.

  ## Proof idea

  A call between the store of a flag and its return is on its way. If no
  call returned any more, no flag would be set any more, and the destructors
  would clear the first one for good. A call that scans comes to it.
-/

namespace HttpRecvBuffers

open Execution

variable {N n : Nat}

/-! ### Executions -/

/-- A turn; a label that is not enabled changes nothing. -/
def turn (N : Nat) (s : State n) (l : Label) : State n := (step N s l).getD s

/-- The pool at each moment. -/
def pool (N : Nat) (mem_pool : Nat → HttpRecvBufferSingle n) (schedule : Nat → Label) (k : Nat) :
    State n :=
  exec (turn N) (init mem_pool) schedule k

/-- Every call gets turns, every request ends, and no token is moved. -/
structure Fair (schedule : Nat → Label) : Prop where
  getter : ∀ i, Recurs schedule (.getter i)
  destroy : ∀ j, Recurs schedule (.destroy j)
  move : ∀ k j, schedule k ≠ .move j

/-- Number of calls that have returned. -/
def State.returned (s : State n) : Nat := s.getters.countP (· = .returned)

/-! ### What a turn does -/

section turn

variable {s : State n}

theorem turn_of_step {s' : State n} {l : Label} (h : step N s l = some s') : turn N s l = s' := by
  rw [turn, h]
  rfl

theorem turn_of_none {l : Label} (h : step N s l = none) : turn N s l = s := by
  rw [turn, h]
  rfl

theorem setGetter_self {k : Nat} {pc : Getter} (hk : s.getters[k]? = some pc) (pc' : Getter) :
    (s.setGetter k pc').getters[k]? = some pc' := by
  obtain ⟨hlt, _⟩ := List.getElem?_eq_some_iff.mp hk
  exact List.getElem?_set_self hlt

/-- The turn of a call. -/
theorem turn_getter {k : Nat} {pc : Getter} (hk : s.getters[k]? = some pc) :
    turn N s (.getter k) = (getterStep N s k pc).getD s := by
  rw [turn, step, hk, Option.bind_some]

theorem turn_scanning {k i : Nat} (hk : s.getters[k]? = some (.scanning i)) :
    turn N s (.getter k) = s.setGetter k
      (if i < N then if s.busy_flags i then .scanning (i + 1) else .taking i else .scanning 0) := by
  rw [turn_getter hk, getterStep]
  split <;> rfl

theorem turn_taking {k i : Nat} (hk : s.getters[k]? = some (.taking i)) :
    turn N s (.getter k) = (s.setFlag i true).setGetter k (.clearing i) := by
  rw [turn_getter hk]
  rfl

theorem turn_clearing {k i : Nat} (hk : s.getters[k]? = some (.clearing i)) :
    turn N s (.getter k) =
      ((s.setBlock i (.zeroed n)).setGetter k .returned).addToken ⟨i, k, .live⟩ := by
  rw [turn_getter hk]
  rfl

theorem turn_returned {k : Nat} (hk : s.getters[k]? = some .returned) :
    turn N s (.getter k) = s := by
  rw [turn_getter hk]
  rfl

theorem turn_getter_none {k : Nat} (hk : s.getters[k]? = none) : turn N s (.getter k) = s := by
  refine turn_of_none ?_
  rw [step, hk]
  rfl

/-- The turn of a destructor. -/
theorem turn_destroy {j : Nat} {t : Token} (hj : s.tokens[j]? = some t)
    (ht : t.status ≠ .destroyed) :
    turn N s (.destroy j) =
      (s.setFlag t.slot false).setToken j { t with status := .destroyed } := by
  refine turn_of_step ?_
  rw [step, hj, Option.bind_some, if_neg ht]

/-- A turn is a step or nothing. -/
theorem turn_cases {P : State n → Prop} {l : Label} (hs : P s)
    (hstep : ∀ s', step N s l = some s' → P s') : P (turn N s l) := by
  cases h : step N s l with
  | none =>
    rw [turn_of_none h]
    exact hs
  | some s' =>
    rw [turn_of_step h]
    exact hstep s' h

/-- What the holders of tokens do: the token, and the block or the flag of
    its slot. -/
theorem step_token {l : Label} {s' : State n} (h : step N s l = some s')
    (hl : ∀ k, l ≠ .getter k) (hl' : l ≠ .getBuffer) :
    ∃ j t, s.tokens[j]? = some t ∧
      ((l = .move j ∧ s' = (s.setToken j { t with status := .movedFrom }).addToken t) ∨
        (∃ data, l = .append j data ∧
          s' = s.setBlock t.slot ((s.mem_pool t.slot).append data)) ∨
        (l = .destroy j ∧ t.status ≠ .destroyed ∧
          s' = (s.setFlag t.slot false).setToken j { t with status := .destroyed })) := by
  unfold step at h
  cases l with
  | getBuffer => exact absurd rfl hl'
  | getter k => exact absurd rfl (hl k)
  | move j =>
    obtain ⟨t, hj, h⟩ := Option.bind_eq_some_iff.mp h
    obtain ⟨_, h⟩ := Option.ite_none_left_eq_some.mp h
    exact ⟨j, t, hj, Or.inl ⟨rfl, (Option.some.inj h).symm⟩⟩
  | append j data =>
    obtain ⟨t, hj, h⟩ := Option.bind_eq_some_iff.mp h
    obtain ⟨_, h⟩ := Option.ite_none_right_eq_some.mp h
    exact ⟨j, t, hj, Or.inr (Or.inl ⟨data, rfl, (Option.some.inj h).symm⟩)⟩
  | destroy j =>
    obtain ⟨t, hj, h⟩ := Option.bind_eq_some_iff.mp h
    obtain ⟨ht, h⟩ := Option.ite_none_left_eq_some.mp h
    exact ⟨j, t, hj, Or.inr (Or.inr ⟨rfl, ht, (Option.some.inj h).symm⟩)⟩

/-- A turn of the other threads does nothing to the calls, but for one more. -/
theorem turn_getters {l : Label} (hl : ∀ k, l ≠ .getter k) :
    (turn N s l).getters = s.getters ∨
      l = .getBuffer ∧ (turn N s l).getters = s.getters ++ [.scanning 0] := by
  by_cases hget : l = .getBuffer
  · rw [hget]
    exact Or.inr ⟨rfl, rfl⟩
  · apply Or.inl
    apply turn_cases (P := fun s' => s'.getters = s.getters) rfl
    intro s' h
    obtain ⟨j, t, _, ⟨_, rfl⟩ | ⟨data, _, rfl⟩ | ⟨_, _, rfl⟩⟩ := step_token h hl hget
    · rfl
    · rfl
    · rfl

/-- A turn of a call leaves the others where they are. -/
theorem turn_getter_ne {k k' : Nat} (hne : k' ≠ k) :
    (turn N s (.getter k)).getters[k']? = s.getters[k']? := by
  have hset : ∀ pc, (s.setGetter k pc).getters[k']? = s.getters[k']? := fun pc =>
    List.getElem?_set_ne (fun heq => hne heq.symm)
  cases hk : s.getters[k]? with
  | none => rw [turn_getter_none hk]
  | some pc =>
    cases pc with
    | scanning i =>
      rw [turn_scanning hk]
      exact hset _
    | taking i =>
      rw [turn_taking hk]
      exact hset _
    | clearing i =>
      rw [turn_clearing hk]
      exact hset _
    | returned => rw [turn_returned hk]

/-- A call stays where it is until its turn. -/
theorem turn_keeps_getter {k : Nat} {pc : Getter} {l : Label} (hl : l ≠ .getter k)
    (hk : s.getters[k]? = some pc) : (turn N s l).getters[k]? = some pc := by
  by_cases hgetter : ∃ k', l = .getter k'
  · obtain ⟨k', rfl⟩ := hgetter
    have hne : k ≠ k' := fun heq => hl (by rw [heq])
    rw [turn_getter_ne hne]
    exact hk
  · obtain ⟨hlt, _⟩ := List.getElem?_eq_some_iff.mp hk
    rcases turn_getters (N := N) (s := s) (fun k' heq => hgetter ⟨k', heq⟩) with h | ⟨_, h⟩
    · rw [h]
      exact hk
    · rw [h, List.getElem?_append_left hlt]
      exact hk

/-- A token that is not destroyed stays so until the turn of its
    destructor, as no token is moved. -/
theorem turn_keeps_token {j : Nat} {t : Token} {l : Label} (hl : l ≠ .destroy j)
    (hmove : ∀ j', l ≠ .move j') (hj : s.tokens[j]? = some t) :
    (turn N s l).tokens[j]? = some t := by
  by_cases hgetter : ∃ k, l = .getter k
  · obtain ⟨k, rfl⟩ := hgetter
    obtain ⟨hlt, _⟩ := List.getElem?_eq_some_iff.mp hj
    cases hk : s.getters[k]? with
    | none => rwa [turn_getter_none hk]
    | some pc =>
      cases pc with
      | scanning i => rwa [turn_scanning hk]
      | taking i => rwa [turn_taking hk]
      | clearing i =>
        rw [turn_clearing hk]
        show (s.tokens ++ [_])[j]? = some t
        rwa [List.getElem?_append_left hlt]
      | returned => rwa [turn_returned hk]
  · apply turn_cases (P := fun s' => s'.tokens[j]? = some t) hj
    intro s' h
    by_cases hget : l = .getBuffer
    · rw [hget] at h
      rwa [← Option.some.inj h]
    · obtain ⟨j', t', _, ⟨heq, rfl⟩ | ⟨data, heq, rfl⟩ | ⟨heq, _, rfl⟩⟩ :=
        step_token h (fun k heq => hgetter ⟨k, heq⟩) hget
      · exact absurd heq (hmove j')
      · exact hj
      · -- the destructor of another token
        have hne : j' ≠ j := fun h => hl (h ▸ heq)
        show (s.tokens.set j' _)[j]? = some t
        rwa [List.getElem?_set_ne hne]

end turn

/-! ### Flags -/

section flags

variable {s : State n}

theorem setFlag_setGetter_busy_flags (i k i' : Nat) (b : Bool) (pc : Getter) :
    ((s.setFlag i b).setGetter k pc).busy_flags i' = if i' = i then b else s.busy_flags i' :=
  setFlag_busy_flags s i i' b

/-- Only the store of a call sets a flag. -/
theorem taking_of_flag {l : Label} {i : Nat} (hclear : s.busy_flags i ≠ true)
    (hset : (turn N s l).busy_flags i = true) :
    ∃ k, l = .getter k ∧ s.getters[k]? = some (.taking i) := by
  by_cases hgetter : ∃ k, l = .getter k
  · obtain ⟨k, rfl⟩ := hgetter
    refine ⟨k, rfl, ?_⟩
    cases hk : s.getters[k]? with
    | none =>
      rw [turn_getter_none hk] at hset
      exact absurd hset hclear
    | some pc =>
      cases pc with
      | scanning i' =>
        rw [turn_scanning hk] at hset
        exact absurd hset hclear
      | taking i' =>
        rw [turn_taking hk, setFlag_setGetter_busy_flags] at hset
        split at hset
        · next heq => rw [heq]
        · exact absurd hset hclear
      | clearing i' =>
        rw [turn_clearing hk] at hset
        exact absurd hset hclear
      | returned =>
        rw [turn_returned hk] at hset
        exact absurd hset hclear
  · refine absurd hset ?_
    apply turn_cases (P := fun s' => s'.busy_flags i ≠ true) hclear
    intro s' h
    by_cases hget : l = .getBuffer
    · rw [hget] at h
      rw [← Option.some.inj h]
      exact hclear
    · obtain ⟨j, t, _, ⟨_, rfl⟩ | ⟨data, _, rfl⟩ | ⟨_, _, rfl⟩⟩ :=
        step_token h (fun k heq => hgetter ⟨k, heq⟩) hget
      · exact hclear
      · exact hclear
      · show (s.setFlag t.slot false).busy_flags i ≠ true
        rw [setFlag_busy_flags]
        split
        · exact Bool.false_ne_true
        · exact hclear

/-- The destructor clears the flag of its block. -/
theorem turn_destroy_flag {j : Nat} {t : Token} (hj : s.tokens[j]? = some t)
    (ht : t.status ≠ .destroyed) : (turn N s (.destroy j)).busy_flags t.slot ≠ true := by
  have hflag := setFlag_busy_flags s t.slot t.slot false
  rw [if_pos rfl] at hflag
  rw [turn_destroy hj ht]
  show (s.setFlag t.slot false).busy_flags t.slot ≠ true
  rw [hflag]
  exact Bool.false_ne_true

/-- A flag that is set has a call on its way to return, or a token. -/
def Owned (s : State n) : Prop :=
  ∀ i, s.busy_flags i = true → (∃ k : Nat, s.getters[k]? = some (.clearing i)) ∨
    ∃ (j : Nat) (t : Token), s.tokens[j]? = some t ∧ t.slot = i ∧ t.status ≠ .destroyed

theorem owned_turn {l : Label} (hmove : ∀ j, l ≠ .move j) (h : Owned s) :
    Owned (turn N s l) := by
  intro i hset
  by_cases hflag : s.busy_flags i = true
  · rcases h i hflag with ⟨k, hk⟩ | ⟨j, t, hj, hslot, ht⟩
    · by_cases hl : l = .getter k
      · -- the call returns its token
        apply Or.inr
        refine ⟨s.tokens.length, ⟨i, k, .live⟩, ?_, rfl, by simp⟩
        rw [hl, turn_clearing hk]
        exact List.getElem?_concat_length
      · exact Or.inl ⟨k, turn_keeps_getter hl hk⟩
    · by_cases hl : l = .destroy j
      · rw [hl, ← hslot] at hset
        exact absurd hset (turn_destroy_flag hj ht)
      · exact Or.inr ⟨j, t, turn_keeps_token hl hmove hj, hslot, ht⟩
  · obtain ⟨k, rfl, hk⟩ := taking_of_flag hflag hset
    apply Or.inl
    refine ⟨k, ?_⟩
    rw [turn_taking hk]
    exact setGetter_self (s := s.setFlag i true) hk _

end flags

/-! ### Returns -/

section returns

variable {s : State n}

theorem returned_setGetter {k : Nat} {pc : Getter} (hk : s.getters[k]? = some pc)
    (hpc : pc ≠ .returned) (pc' : Getter) :
    (s.setGetter k pc').returned = s.returned + if pc' = .returned then 1 else 0 := by
  have hcount := Counting.countP_set_add hk pc' (· = .returned)
  rw [Counting.worth_decide, Counting.worth_decide, if_neg hpc] at hcount
  exact hcount

/-- A call that is on its way returns in its turn. -/
theorem returned_turn_clearing {k i : Nat} (hk : s.getters[k]? = some (.clearing i)) :
    (turn N s (.getter k)).returned = s.returned + 1 := by
  rw [turn_clearing hk]
  exact returned_setGetter (s := s.setBlock i (.zeroed n)) hk (by simp) .returned

/-- Calls that have returned stay so. -/
theorem returned_le_turn (s : State n) (l : Label) : s.returned ≤ (turn N s l).returned := by
  by_cases hgetter : ∃ k, l = .getter k
  · obtain ⟨k, rfl⟩ := hgetter
    cases hk : s.getters[k]? with
    | none => rw [turn_getter_none hk]
    | some pc =>
      cases pc with
      | scanning i =>
        rw [turn_scanning hk, returned_setGetter hk (by simp)]
        exact Nat.le_add_right _ _
      | taking i =>
        have hset := returned_setGetter (s := s.setFlag i true) hk (by simp) (.clearing i)
        rw [turn_taking hk, hset]
        exact Nat.le_add_right _ _
      | clearing i =>
        rw [returned_turn_clearing hk]
        exact Nat.le_add_right _ _
      | returned => rw [turn_returned hk]
  · unfold State.returned
    rcases turn_getters (N := N) (s := s) (fun k heq => hgetter ⟨k, heq⟩) with h | ⟨_, h⟩
    · rw [h]
    · rw [h, Counting.countP_snoc]
      exact Nat.le_add_right _ _

end returns

/-! ### Nothing returns any more -/

section stuck

variable {mem_pool : Nat → HttpRecvBufferSingle n} {schedule : Nat → Label}

theorem pool_succ (k : Nat) :
    pool N mem_pool schedule (k + 1) = turn N (pool N mem_pool schedule k) (schedule k) := rfl

theorem owned_pool (hfair : Fair schedule) (k : Nat) : Owned (pool N mem_pool schedule k) :=
  exec_invariant_only (A := fun l => ∀ j, l ≠ .move j) hfair.move
    (fun _ _ hl hs => owned_turn hl hs) (fun _ h => Bool.noConfusion h) k

variable (N mem_pool schedule) in
/-- From this moment on no call returns. -/
def Stuck (k : Nat) : Prop :=
  ∀ k', k ≤ k' → (pool N mem_pool schedule k').returned ≤ (pool N mem_pool schedule k).returned

theorem returned_mono {k k' : Nat} (hle : k ≤ k') :
    (pool N mem_pool schedule k).returned ≤ (pool N mem_pool schedule k').returned := by
  obtain ⟨d, rfl⟩ := Nat.exists_eq_add_of_le hle
  induction d with
  | zero => exact Nat.le_refl _
  | succ d ih => exact Nat.le_trans (ih (Nat.le_add_right k d)) (returned_le_turn _ _)

/-- A call stays where it is until its next turn. -/
theorem getter_at_turn (hfair : Fair schedule) {k i : Nat} {pc : Getter}
    (hi : (pool N mem_pool schedule k).getters[i]? = some pc) :
    ∃ k', k ≤ k' ∧ schedule k' = .getter i ∧
      (pool N mem_pool schedule k').getters[i]? = some pc := by
  have hkeep : ∀ k, schedule k ≠ .getter i →
      (pool N mem_pool schedule k).getters[i]? = some pc →
        (pool N mem_pool schedule (k + 1)).getters[i]? = some pc :=
    fun _ hl hs => turn_keeps_getter hl hs
  exact (hfair.getter i).at_turn (P := fun s : State n => s.getters[i]? = some pc) hkeep hi

variable (hfair : Fair schedule) {k : Nat} (hstuck : Stuck N mem_pool schedule k)

include hfair hstuck

theorem Stuck.no_clearing {k' : Nat} (hle : k ≤ k') (i b : Nat) :
    (pool N mem_pool schedule k').getters[i]? ≠ some (.clearing b) := by
  intro hi
  obtain ⟨k₁, hle₁, hturn, hi₁⟩ := getter_at_turn hfair hi
  have hreturned := returned_turn_clearing (N := N) hi₁
  rw [← hturn, ← pool_succ] at hreturned
  have hbound := hstuck (k₁ + 1) (by omega)
  have hmono : (pool N mem_pool schedule k).returned ≤ (pool N mem_pool schedule k₁).returned :=
    returned_mono (Nat.le_trans hle hle₁)
  omega

theorem Stuck.no_taking {k' : Nat} (hle : k ≤ k') (i b : Nat) :
    (pool N mem_pool schedule k').getters[i]? ≠ some (.taking b) := by
  intro hi
  obtain ⟨k₁, hle₁, hturn, hi₁⟩ := getter_at_turn hfair hi
  apply hstuck.no_clearing hfair (by omega : k ≤ k₁ + 1) i b
  rw [pool_succ, hturn, turn_taking hi₁]
  exact setGetter_self (s := (pool N mem_pool schedule k₁).setFlag b true) hi₁ _

/-- A flag that is clear stays clear. -/
theorem Stuck.stays_clear {k' k'' b : Nat} (hle : k ≤ k')
    (hclear : (pool N mem_pool schedule k').busy_flags b ≠ true) (hle' : k' ≤ k'') :
    (pool N mem_pool schedule k'').busy_flags b ≠ true := by
  obtain ⟨d, rfl⟩ := Nat.exists_eq_add_of_le hle'
  induction d with
  | zero => exact hclear
  | succ d ih =>
    intro hset
    obtain ⟨i, _, hi⟩ := taking_of_flag (ih (Nat.le_add_right k' d)) hset
    exact hstuck.no_taking hfair (by omega) i b hi

/-- Every flag is cleared at some time, by the destructor of its token. -/
theorem Stuck.clears (b : Nat) :
    ∃ k', k ≤ k' ∧ (pool N mem_pool schedule k').busy_flags b ≠ true := by
  by_cases hflag : (pool N mem_pool schedule k).busy_flags b = true
  · rcases owned_pool hfair k b hflag with ⟨i, hi⟩ | ⟨j, t, hj, rfl, ht⟩
    · exact absurd hi (hstuck.no_clearing hfair (Nat.le_refl k) i b)
    · -- no turn before that of the destructor changes the token
      have hkeep : ∀ k', schedule k' ≠ .destroy j →
          (pool N mem_pool schedule k').tokens[j]? = some t →
            (pool N mem_pool schedule (k' + 1)).tokens[j]? = some t :=
        fun k' hl hs => turn_keeps_token hl (hfair.move k') hs
      obtain ⟨k', hle, hturn, hj'⟩ :=
        (hfair.destroy j).at_turn (P := fun s : State n => s.tokens[j]? = some t) hkeep hj
      refine ⟨k' + 1, by omega, ?_⟩
      have hclear := turn_destroy_flag (N := N) hj' ht
      rw [← hturn] at hclear
      exact hclear
  · exact ⟨k, Nat.le_refl k, hflag⟩

/-- A call that scans goes on scanning. -/
theorem Stuck.stays_scanning {k' i j : Nat} (hle : k ≤ k')
    (hi : (pool N mem_pool schedule k').getters[i]? = some (.scanning j)) (d : Nat) :
    ∃ j', (pool N mem_pool schedule (k' + d)).getters[i]? = some (.scanning j') := by
  induction d with
  | zero => exact ⟨j, hi⟩
  | succ d ih =>
    obtain ⟨j', hj'⟩ := ih
    by_cases hturn : schedule (k' + d) = .getter i
    · have hnext : (pool N mem_pool schedule (k' + d + 1)).getters[i]? = some
          (if j' < N then if (pool N mem_pool schedule (k' + d)).busy_flags j' then
            .scanning (j' + 1) else .taking j' else .scanning 0) := by
        rw [pool_succ, hturn, turn_scanning hj']
        exact setGetter_self hj' _
      split at hnext
      · split at hnext
        · exact ⟨j' + 1, hnext⟩
        · exact absurd hnext (hstuck.no_taking hfair (by omega) i j')
      · exact ⟨0, hnext⟩
    · exact ⟨j', turn_keeps_getter hturn hj'⟩

/-- A scan comes to the first block, and takes it when its flag is clear. -/
theorem Stuck.not_scanning (hN : 0 < N) {K : Nat} (hK : k ≤ K)
    (hclear : ∀ k', K ≤ k' → (pool N mem_pool schedule k').busy_flags 0 ≠ true) (i d : Nat) :
    ∀ {k' j : Nat}, K ≤ k' → N ≤ j + d →
      (pool N mem_pool schedule k').getters[i]? ≠ some (.scanning j) := by
  -- the next scan from the beginning takes the first block
  have hfirst : ∀ {k'}, K ≤ k' →
      (pool N mem_pool schedule k').getters[i]? ≠ some (.scanning 0) := by
    intro k' hle hi
    obtain ⟨k₁, hle₁, hturn, hi₁⟩ := getter_at_turn hfair hi
    apply hstuck.no_taking hfair (by omega : k ≤ k₁ + 1) i 0
    rw [pool_succ, hturn, turn_scanning hi₁, if_pos hN, if_neg (hclear k₁ (by omega))]
    exact setGetter_self hi₁ _
  induction d with
  | zero =>
    intro k' j hle hj hi
    obtain ⟨k₁, hle₁, hturn, hi₁⟩ := getter_at_turn hfair hi
    apply hfirst (by omega : K ≤ k₁ + 1)
    rw [pool_succ, hturn, turn_scanning hi₁, if_neg (by omega)]
    exact setGetter_self hi₁ _
  | succ d ih =>
    intro k' j hle hj hi
    obtain ⟨k₁, hle₁, hturn, hi₁⟩ := getter_at_turn hfair hi
    have hnext : (pool N mem_pool schedule (k₁ + 1)).getters[i]? = some
        (if j < N then if (pool N mem_pool schedule k₁).busy_flags j then .scanning (j + 1)
          else .taking j else .scanning 0) := by
      rw [pool_succ, hturn, turn_scanning hi₁]
      exact setGetter_self hi₁ _
    split at hnext
    · split at hnext
      · exact ih (by omega) (by omega) hnext
      · exact hstuck.no_taking hfair (by omega) i j hnext
    · exact hfirst (by omega) hnext

/-- No call waits. -/
theorem Stuck.all_returned (hN : 0 < N) {k' i : Nat} (hle : k ≤ k') {pc : Getter}
    (hi : (pool N mem_pool schedule k').getters[i]? = some pc) : pc = .returned := by
  cases pc with
  | scanning j =>
    obtain ⟨K, hK, hclear⟩ := hstuck.clears hfair 0
    obtain ⟨j', hj'⟩ := hstuck.stays_scanning hfair hle hi K
    exact absurd hj' (hstuck.not_scanning hfair hN hK
      (fun k'' hle' => hstuck.stays_clear hfair hK hclear hle') i N (by omega) (by omega))
  | taking j => exact absurd hi (hstuck.no_taking hfair hle i j)
  | clearing j => exact absurd hi (hstuck.no_clearing hfair hle i j)
  | returned => rfl

end stuck

/-! ### Progress -/

section progress

variable {mem_pool : Nat → HttpRecvBufferSingle n} {schedule : Nat → Label}

/-- Whenever a call waits, some call returns later. -/
theorem some_returns (hN : 0 < N) (hfair : Fair schedule) {k i : Nat} {pc : Getter}
    (hi : (pool N mem_pool schedule k).getters[i]? = some pc) (hpc : pc ≠ .returned) :
    ∃ k', k ≤ k' ∧
      (pool N mem_pool schedule k).returned < (pool N mem_pool schedule k').returned := by
  by_contra hnone
  push Not at hnone
  have hstuck : Stuck N mem_pool schedule k := hnone
  exact hpc (hstuck.all_returned hfair hN (Nat.le_refl k) hi)

/-- Without a new call their number stays the same. -/
theorem length_turn {s : State n} {l : Label} (hl : l ≠ .getBuffer) :
    (turn N s l).getters.length = s.getters.length := by
  by_cases hgetter : ∃ k, l = .getter k
  · obtain ⟨k, rfl⟩ := hgetter
    have hset : ∀ pc, (s.setGetter k pc).getters.length = s.getters.length :=
      fun pc => List.length_set
    cases hk : s.getters[k]? with
    | none => rw [turn_getter_none hk]
    | some pc =>
      cases pc with
      | scanning i =>
        rw [turn_scanning hk]
        exact hset _
      | taking i =>
        rw [turn_taking hk]
        exact hset _
      | clearing i =>
        rw [turn_clearing hk]
        exact hset _
      | returned => rw [turn_returned hk]
  · rcases turn_getters (N := N) (s := s) (fun k heq => hgetter ⟨k, heq⟩) with h | ⟨hget, _⟩
    · rw [h]
    · exact absurd hget hl

/-- A call does not disappear. -/
theorem exists_getter {k k' i : Nat} (hle : k ≤ k')
    (hi : i < (pool N mem_pool schedule k).getters.length) :
    i < (pool N mem_pool schedule k').getters.length := by
  obtain ⟨d, rfl⟩ := Nat.exists_eq_add_of_le hle
  induction d with
  | zero => exact hi
  | succ d ih =>
    have hd := ih (Nat.le_add_right k d)
    show i < (turn N (pool N mem_pool schedule (k + d)) (schedule (k + d))).getters.length
    by_cases hget : schedule (k + d) = .getBuffer
    · rw [hget]
      show i < ((pool N mem_pool schedule (k + d)).getters ++ [Getter.scanning 0]).length
      rw [List.length_append]
      exact Nat.lt_add_right _ hd
    · rw [length_turn hget]
      exact hd

/-- When no more calls arrive, their number stays the same. -/
theorem length_pool {K k : Nat} (hquiet : ∀ k, K ≤ k → schedule k ≠ .getBuffer) (hK : K ≤ k)
    {k' : Nat} (hle : k ≤ k') : (pool N mem_pool schedule k').getters.length =
      (pool N mem_pool schedule k).getters.length := by
  obtain ⟨d, rfl⟩ := Nat.exists_eq_add_of_le hle
  induction d with
  | zero => rfl
  | succ d ih =>
    rw [← ih (Nat.le_add_right k d)]
    exact length_turn (hquiet (k + d) (by omega))

/-- The calls that have not returned become fewer and fewer. -/
theorem all_return (hN : 0 < N) (hfair : Fair schedule) {K : Nat}
    (hquiet : ∀ k, K ≤ k → schedule k ≠ .getBuffer) {i : Nat} (u : Nat) : ∀ {k : Nat}, K ≤ k →
      i < (pool N mem_pool schedule k).getters.length →
      (pool N mem_pool schedule k).getters.length - (pool N mem_pool schedule k).returned ≤ u →
        ∃ k', k ≤ k' ∧ (pool N mem_pool schedule k').getters[i]? = some .returned := by
  induction u with
  | zero =>
    intro k _ hi hu
    have hle : (pool N mem_pool schedule k).returned ≤
        (pool N mem_pool schedule k).getters.length := List.countP_le_length
    -- all of them have returned
    have hfull : (pool N mem_pool schedule k).returned =
        (pool N mem_pool schedule k).getters.length := by omega
    have hall := List.countP_eq_length.mp hfull
    refine ⟨k, Nat.le_refl k, ?_⟩
    rw [List.getElem?_eq_getElem hi]
    exact congrArg some (of_decide_eq_true (hall _ (List.getElem_mem hi)))
  | succ u ih =>
    intro k hK hi hu
    by_cases hreturned : (pool N mem_pool schedule k).getters[i]? = some .returned
    · exact ⟨k, Nat.le_refl k, hreturned⟩
    · have hget := List.getElem?_eq_getElem hi
      rw [hget] at hreturned
      obtain ⟨k₁, hle₁, hmore⟩ := some_returns hN hfair hget fun heq => hreturned (by rw [heq])
      have hlength : (pool N mem_pool schedule k₁).getters.length =
          (pool N mem_pool schedule k).getters.length := length_pool hquiet hK hle₁
      obtain ⟨k', hle', hk'⟩ := ih (by omega) (exists_getter hle₁ hi) (by omega)
      exact ⟨k', by omega, hk'⟩

end progress

/-- **Waiting calls**: when the threads get turns and requests end, some call
    of `getBuffer` returns whenever one waits, and every call returns if no
    more arrive from some moment on. Calls that load one flag at the same
    time do no harm here. -/
theorem getBuffer_returns (hN : 0 < N) (mem_pool : Nat → HttpRecvBufferSingle n)
    (schedule : Nat → Label) (hfair : Fair schedule) :
    (∀ (k i : Nat) (pc : Getter), (pool N mem_pool schedule k).getters[i]? = some pc →
      pc ≠ .returned → ∃ k', k ≤ k' ∧
        (pool N mem_pool schedule k).returned < (pool N mem_pool schedule k').returned) ∧
    ∀ K, (∀ k, K ≤ k → schedule k ≠ .getBuffer) →
      ∀ k i, i < (pool N mem_pool schedule k).getters.length →
        ∃ k', k ≤ k' ∧ (pool N mem_pool schedule k').getters[i]? = some .returned := by
  constructor
  · exact fun k i pc hi hpc => some_returns hN hfair hi hpc
  · intro K hquiet k i hi
    have hmax : i < (pool N mem_pool schedule (max k K)).getters.length :=
      exists_getter (Nat.le_max_left k K) hi
    obtain ⟨k', hle, hk'⟩ :=
      all_return hN hfair hquiet _ (Nat.le_max_right k K) hmax (Nat.le_refl _)
    exact ⟨k', by omega, hk'⟩

/-! ### Two calls for one block -/

/-- All calls and destructors. -/
def numbered (m : Nat) : Label := if m % 2 = 0 then .getter (m / 2) else .destroy (m / 2)

/-- Two calls, and every thread has a turn again and again. -/
def twoCalls : Nat → Label := dovetail [.getBuffer, .getBuffer] numbered

theorem fair_twoCalls : Fair twoCalls where
  getter i := by
    have hnumbered : numbered (2 * i) = .getter i := by
      rw [numbered, if_pos (by omega), Nat.mul_div_cancel_left i (by decide)]
    exact hnumbered ▸ recurs_dovetail _ numbered (2 * i)
  destroy j := by
    have hnumbered : numbered (2 * j + 1) = .destroy j := by
      rw [numbered, if_neg (by omega), show (2 * j + 1) / 2 = j by omega]
    exact hnumbered ▸ recurs_dovetail _ numbered (2 * j + 1)
  move k j h := by
    by_cases hk : 2 ≤ k
    · rw [twoCalls, dovetail_of_le hk] at h
      unfold numbered at h
      split at h <;> exact Label.noConfusion h
    · have hstart : k = 0 ∨ k = 1 := by omega
      rcases hstart with rfl | rfl
      · exact Label.noConfusion h
      · exact Label.noConfusion h

theorem quiet_twoCalls (k : Nat) (hk : 2 ≤ k) : twoCalls k ≠ .getBuffer := by
  rw [twoCalls, dovetail_of_le hk]
  unfold numbered
  split
  · exact Label.noConfusion
  · exact Label.noConfusion

/-- The second call gets the only block, after the first. -/
theorem getBuffer_returns_twoCalls :
    ∃ k', 2 ≤ k' ∧
      (pool 1 (fun _ => .zeroed 8) twoCalls k').getters[1]? = some .returned :=
  (getBuffer_returns (n := 8) (by decide) (fun _ => .zeroed 8) twoCalls fair_twoCalls).2 2
    quiet_twoCalls 2 1 (by decide)

end HttpRecvBuffers
