import JsonRpcServer.Framework.System

/-! # Linearizability

  Requests of many clients overlap. A history of requests and replies is
  linearizable when there is an order of the requests in which a sequential
  object would have given the same replies, and which keeps the order of
  requests that did not overlap.

  `op s c` is the sequential object: its next state and its reply to the
  request `c`, or `none` where it never replies.

  A system is linearizable when each of its requests takes effect at one
  point between its call and its reply. The three rules `call`, `point` and
  `ret` are what these three steps do to the order.
-/

namespace Linearizability

open System

variable {σ ι ρ : Type}

/-! ### Histories -/

/-- What clients see of the request number `k`. -/
inductive Event (ι ρ : Type) where
  | call (k : Nat) (request : ι)
  | ret (k : Nat) (reply : ρ)

/-- The request that is called. -/
def Event.called : Event ι ρ → Option Nat
  | .call k _ => some k
  | .ret _ _ => none

/-- The request that is replied to. -/
def Event.returned : Event ι ρ → Option Nat
  | .call _ _ => none
  | .ret k _ => some k

/-- `a` stands in front of `b`. -/
def Precedes {α : Type} (l : List α) (a b : α) : Prop := [a, b].Sublist l

/-- No request is called or replied to twice, and a reply comes behind its
    request. -/
structure WellFormed (hist : List (Event ι ρ)) : Prop where
  calls : (hist.filterMap Event.called).Nodup
  rets : (hist.filterMap Event.returned).Nodup
  behind : ∀ k r, .ret k r ∈ hist → ∃ c, Precedes hist (.call k c) (.ret k r)

/-! ### Linearizations -/

/-- A request, and the reply of the sequential object to it. -/
structure Entry (ι ρ : Type) where
  id : Nat
  request : ι
  reply : ρ

/-- One request at the sequential object; `none` if it does not give this
    reply. -/
def replay [DecidableEq ρ] (op : σ → ι → Option (σ × ρ)) (s : σ) (e : Entry ι ρ) : Option σ :=
  (op s e.request).bind fun next => if next.2 = e.reply then some next.1 else none

/-- The order explains the history and takes the sequential object from `s₀`
    to `s`. -/
structure Linearization [DecidableEq ρ] (op : σ → ι → Option (σ × ρ)) (s₀ : σ)
    (hist : List (Event ι ρ)) (order : List (Entry ι ρ)) (s : σ) : Prop where
  distinct : (order.map Entry.id).Nodup
  /-- Only requests that were called are served. -/
  called : ∀ e ∈ order, .call e.id e.request ∈ hist
  /-- Every reply is that of the sequential object. -/
  answered : ∀ k r, .ret k r ∈ hist → ∃ e ∈ order, e.id = k ∧ e.reply = r
  /-- A request that was replied to before another was called is served
      before it. -/
  realTime : ∀ e ∈ order, ∀ e' ∈ order, ∀ r c,
    Precedes hist (.ret e.id r) (.call e'.id c) → Precedes order e e'
  legal : run (replay op) s₀ order = some s

/-! ### One element more -/

theorem Precedes.mem {α : Type} {l : List α} {a b : α} (h : Precedes l a b) : a ∈ l :=
  h.subset List.mem_cons_self

theorem Precedes.append {α : Type} {l : List α} {a b : α} (h : Precedes l a b) (l' : List α) :
    Precedes (l ++ l') a b :=
  h.trans (List.sublist_append_left l l')

theorem precedes_last {α : Type} {l : List α} {a : α} (h : a ∈ l) (b : α) :
    Precedes (l ++ [b]) a b :=
  (List.singleton_sublist.mpr h).append (List.Sublist.refl [b])

/-- Behind a new element stands nothing. -/
theorem Precedes.of_snoc {α : Type} {l : List α} {x a b : α} (h : Precedes (l ++ [x]) a b)
    (hb : b ≠ x) : Precedes l a b := by
  obtain ⟨l₁, l₂, hsplit, h₁, h₂⟩ := List.sublist_append_iff.mp h
  cases l₂ using List.reverseRecOn with
  | nil =>
    rw [List.append_nil] at hsplit
    rw [hsplit.symm] at h₁
    exact h₁
  | append_singleton l₂ y =>
    -- the last of the two would be the new element
    have hy : y ∈ [x] := h₂.subset (List.mem_append_right _ List.mem_cons_self)
    rw [← List.append_assoc] at hsplit
    have hlast : ([a] ++ [b]).getLast? = (l₁ ++ l₂ ++ [y]).getLast? := congrArg _ hsplit
    rw [List.getLast?_concat, List.getLast?_concat, Option.some.injEq] at hlast
    exact absurd (hlast.trans (List.mem_singleton.mp hy)) hb

section rules

variable [DecidableEq ρ] {op : σ → ι → Option (σ × ρ)} {s₀ s s' : σ}
  {hist : List (Event ι ρ)} {order : List (Entry ι ρ)} {k : Nat} {c : ι} {r : ρ}

/-- What is replied to has been served. -/
theorem Linearization.ret_not_mem (h : Linearization op s₀ hist order s)
    (hk : k ∉ order.map Entry.id) (r : ρ) : .ret k r ∉ hist := by
  intro hmem
  obtain ⟨e, he, hid, _⟩ := h.answered k r hmem
  exact hk (hid ▸ List.mem_map_of_mem he)

/-- **A new request** is served by nothing yet. -/
theorem Linearization.call (h : Linearization op s₀ hist order s)
    (hk : k ∉ hist.filterMap Event.called) :
    Linearization op s₀ (hist ++ [.call k c]) order s where
  distinct := h.distinct
  called e he := List.mem_append_left _ (h.called e he)
  answered k' r hmem := by
    rcases List.mem_append.mp hmem with hmem | hmem
    · exact h.answered k' r hmem
    · simp at hmem
  realTime e he e' he' r c' hprec := by
    apply h.realTime e he e' he' r c'
    apply hprec.of_snoc
    intro heq
    injection heq with hid _
    -- the new request is in no order
    apply hk
    rw [← hid]
    exact List.mem_filterMap.mpr ⟨_, h.called e' he', rfl⟩
  legal := h.legal

/-- **The point of a request**: it takes effect behind all that were served
    before. -/
theorem Linearization.point (h : Linearization op s₀ hist order s) (hcall : .call k c ∈ hist)
    (hk : k ∉ order.map Entry.id) (hop : op s c = some (s', r)) :
    Linearization op s₀ hist (order ++ [⟨k, c, r⟩]) s' where
  distinct := by
    rw [List.map_append, List.nodup_append]
    refine ⟨h.distinct, by simp, ?_⟩
    intro a ha b hb heq
    have hb' : b = k := by simpa using hb
    exact hk (hb' ▸ heq ▸ ha)
  called e he := by
    rcases List.mem_append.mp he with he | he
    · exact h.called e he
    · rw [List.mem_singleton.mp he]
      exact hcall
  answered k' r' hmem := by
    obtain ⟨e, he, hr⟩ := h.answered k' r' hmem
    exact ⟨e, List.mem_append_left _ he, hr⟩
  realTime e he e' he' r' c' hprec := by
    have hold : e ∈ order := by
      -- a request that was replied to has been served
      rcases List.mem_append.mp he with he | he
      · exact he
      · rw [List.mem_singleton.mp he] at hprec
        exact absurd hprec.mem (h.ret_not_mem hk r')
    rcases List.mem_append.mp he' with he' | he'
    · exact (h.realTime e hold e' he' r' c' hprec).append _
    · rw [List.mem_singleton.mp he']
      exact precedes_last hold _
  legal := by
    apply run_snoc h.legal
    rw [replay, hop]
    exact if_pos rfl

/-- **A reply** of the sequential object is given to the client. -/
theorem Linearization.ret (h : Linearization op s₀ hist order s) {e : Entry ι ρ}
    (he : e ∈ order) : Linearization op s₀ (hist ++ [.ret e.id e.reply]) order s where
  distinct := h.distinct
  called e' he' := List.mem_append_left _ (h.called e' he')
  answered k' r' hmem := by
    rcases List.mem_append.mp hmem with hmem | hmem
    · exact h.answered k' r' hmem
    · rw [List.mem_singleton] at hmem
      injection hmem with hid hreply
      exact ⟨e, he, hid.symm, hreply.symm⟩
  realTime e₁ he₁ e₂ he₂ r' c' hprec := by
    apply h.realTime e₁ he₁ e₂ he₂ r' c'
    apply hprec.of_snoc
    intro heq
    cases heq
  legal := h.legal

end rules

/-! ### Later replies -/

section later

variable {ρ' : Type} (f : ρ → ρ')

/-- The sequential object, with its replies seen through `f`. -/
def through (op : σ → ι → Option (σ × ρ)) (s : σ) (c : ι) : Option (σ × ρ') :=
  (op s c).map fun next => (next.1, f next.2)

def Entry.through (e : Entry ι ρ) : Entry ι ρ' := ⟨e.id, e.request, f e.reply⟩

/-- The same requests are called, and replies are seen through `f`, later or
    not at all. -/
structure Delayed (hist : List (Event ι ρ)) (seen : List (Event ι ρ')) : Prop where
  called : ∀ k c, .call k c ∈ seen ↔ .call k c ∈ hist
  returned : ∀ k r', .ret k r' ∈ seen → ∃ r, .ret k r ∈ hist ∧ f r = r'
  realTime : ∀ k r' k' c, Precedes seen (.ret k r') (.call k' c) →
    ∃ r, Precedes hist (.ret k r) (.call k' c)

variable {f} {hist : List (Event ι ρ)} {seen : List (Event ι ρ')}

theorem Delayed.nil : Delayed f ([] : List (Event ι ρ)) [] where
  called k c := by simp
  returned := nofun
  realTime k r' k' c h := by simp [Precedes] at h

/-- A request is called in both histories. -/
theorem Delayed.call (h : Delayed f hist seen) (k : Nat) (c : ι) :
    Delayed f (hist ++ [.call k c]) (seen ++ [.call k c]) where
  called k' c' := by
    rw [List.mem_append, List.mem_append, h.called]
    simp
  returned k' r' hmem := by
    rcases List.mem_append.mp hmem with hmem | hmem
    · obtain ⟨r, hr, hf⟩ := h.returned k' r' hmem
      exact ⟨r, List.mem_append_left _ hr, hf⟩
    · simp at hmem
  realTime k₁ r' k₂ c' hprec := by
    by_cases hnew : Event.call (ρ := ρ') k₂ c' = .call k c
    · -- whatever has been seen has been replied to before
      injection hnew with hk hc
      rcases List.mem_append.mp hprec.mem with hmem | hmem
      · obtain ⟨r, hr, _⟩ := h.returned k₁ r' hmem
        rw [hk, hc]
        exact ⟨r, precedes_last hr _⟩
      · simp at hmem
    · obtain ⟨r, hr⟩ := h.realTime k₁ r' k₂ c' (hprec.of_snoc hnew)
      exact ⟨r, hr.append _⟩

/-- A reply is given, and not yet seen. -/
theorem Delayed.early (h : Delayed f hist seen) (k : Nat) (r : ρ) :
    Delayed f (hist ++ [.ret k r]) seen where
  called k' c := by
    rw [List.mem_append, h.called]
    simp
  returned k' r' hmem := by
    obtain ⟨r, hr, hf⟩ := h.returned k' r' hmem
    exact ⟨r, List.mem_append_left _ hr, hf⟩
  realTime k₁ r' k₂ c hprec := by
    obtain ⟨r, hr⟩ := h.realTime k₁ r' k₂ c hprec
    exact ⟨r, hr.append _⟩

/-- A reply that has been given is seen. -/
theorem Delayed.late (h : Delayed f hist seen) {k : Nat} {r : ρ} (hr : .ret k r ∈ hist) :
    Delayed f hist (seen ++ [.ret k (f r)]) where
  called k' c := by
    rw [List.mem_append, h.called]
    simp
  returned k' r' hmem := by
    rcases List.mem_append.mp hmem with hmem | hmem
    · exact h.returned k' r' hmem
    · rw [List.mem_singleton] at hmem
      injection hmem with hk hreply
      exact ⟨r, hk ▸ hr, hreply.symm⟩
  realTime k₁ r' k₂ c hprec := h.realTime k₁ r' k₂ c (hprec.of_snoc (by simp))

/-- Every reply of an order is one of the sequential object. -/
theorem op_of_mem [DecidableEq ρ] {op : σ → ι → Option (σ × ρ)} {order : List (Entry ι ρ)}
    {s₀ s : σ} (hrun : run (replay op) s₀ order = some s) {e : Entry ι ρ} (he : e ∈ order) :
    ∃ s₁ s₂, op s₁ e.request = some (s₂, e.reply) := by
  induction order generalizing s₀ with
  | nil => simp at he
  | cons e₀ order ih =>
    rw [run, Option.bind_eq_some_iff] at hrun
    obtain ⟨s₁, hreplay, hrun⟩ := hrun
    rcases List.mem_cons.mp he with rfl | he
    · obtain ⟨next, hop, hif⟩ := Option.bind_eq_some_iff.mp hreplay
      split at hif
      · next hreply => exact ⟨s₀, next.1, hop.trans (by rw [← hreply])⟩
      · cases hif
    · exact ih hrun he

theorem replay_through [DecidableEq ρ] [DecidableEq ρ'] {op : σ → ι → Option (σ × ρ)} {s s' : σ}
    {e : Entry ι ρ} (h : replay op s e = some s') :
    replay (through f op) s (e.through f) = some s' := by
  obtain ⟨next, hop, hif⟩ := Option.bind_eq_some_iff.mp h
  split at hif
  · next hreply =>
    have hthrough : through f op s (e.through f).request = some (next.1, f next.2) := by
      rw [through, show (e.through f).request = e.request from rfl, hop]
      rfl
    rw [replay, hthrough, ← hif]
    exact if_pos (congrArg f hreply)
  · cases hif

theorem run_through [DecidableEq ρ] [DecidableEq ρ'] {op : σ → ι → Option (σ × ρ)}
    {order : List (Entry ι ρ)} {s₀ s : σ} (hrun : run (replay op) s₀ order = some s) :
    run (replay (through f op)) s₀ (order.map (Entry.through f)) = some s := by
  induction order generalizing s₀ with
  | nil => exact hrun
  | cons e order ih =>
    rw [run, Option.bind_eq_some_iff] at hrun
    obtain ⟨s₁, hreplay, hrun⟩ := hrun
    rw [List.map_cons, run, replay_through hreplay]
    exact ih hrun

/-- **Later replies**: a history in which replies are seen later has the same
    order. -/
theorem Linearization.delayed [DecidableEq ρ] [DecidableEq ρ'] {op : σ → ι → Option (σ × ρ)}
    {s₀ s : σ} {order : List (Entry ι ρ)} (h : Linearization op s₀ hist order s)
    (hd : Delayed f hist seen) :
    Linearization (through f op) s₀ seen (order.map (Entry.through f)) s where
  distinct := by
    rw [List.map_map]
    exact h.distinct
  called e' he' := by
    obtain ⟨e, he, rfl⟩ := List.mem_map.mp he'
    exact (hd.called _ _).mpr (h.called e he)
  answered k r' hmem := by
    obtain ⟨r, hr, hf⟩ := hd.returned k r' hmem
    obtain ⟨e, he, hid, hreply⟩ := h.answered k r hr
    exact ⟨e.through f, List.mem_map_of_mem he, hid, (congrArg f hreply).trans hf⟩
  realTime e₁' he₁' e₂' he₂' r' c hprec := by
    obtain ⟨e₁, he₁, rfl⟩ := List.mem_map.mp he₁'
    obtain ⟨e₂, he₂, rfl⟩ := List.mem_map.mp he₂'
    obtain ⟨r, hr⟩ := hd.realTime _ r' _ c hprec
    exact (h.realTime e₁ he₁ e₂ he₂ r c hr).map (Entry.through f)
  legal := run_through h.legal

end later

/-! ### Well-formed histories -/

theorem WellFormed.call {hist : List (Event ι ρ)} {k : Nat} (h : WellFormed hist)
    (hk : k ∉ hist.filterMap Event.called) (c : ι) : WellFormed (hist ++ [.call k c]) where
  calls := by
    rw [List.filterMap_append, List.nodup_append]
    refine ⟨h.calls, by simp [Event.called], ?_⟩
    intro a ha b hb heq
    have hb' : b = k := by simpa [Event.called] using hb
    exact hk (hb' ▸ heq ▸ ha)
  rets := by
    rw [List.filterMap_append]
    exact (List.append_nil _).symm ▸ h.rets
  behind k' r hmem := by
    rcases List.mem_append.mp hmem with hmem | hmem
    · obtain ⟨c', hprec⟩ := h.behind k' r hmem
      exact ⟨c', hprec.append _⟩
    · simp at hmem

theorem WellFormed.ret {hist : List (Event ι ρ)} {k : Nat} {c : ι} (h : WellFormed hist)
    (hcall : .call k c ∈ hist) (hk : ∀ r, .ret k r ∉ hist) (r : ρ) :
    WellFormed (hist ++ [.ret k r]) where
  calls := by
    rw [List.filterMap_append]
    exact (List.append_nil _).symm ▸ h.calls
  rets := by
    rw [List.filterMap_append, List.nodup_append]
    refine ⟨h.rets, by simp [Event.returned], ?_⟩
    intro a ha b hb heq
    have hb' : b = k := by simpa [Event.returned] using hb
    obtain ⟨event, hevent, hreturned⟩ := List.mem_filterMap.mp ha
    cases event with
    | call k' c' => cases hreturned
    | ret k' r' =>
      have hk' : k' = k := (Option.some.inj hreturned).trans (heq.trans hb')
      exact hk r' (hk' ▸ hevent)
  behind k' r' hmem := by
    rcases List.mem_append.mp hmem with hmem | hmem
    · obtain ⟨c', hprec⟩ := h.behind k' r' hmem
      exact ⟨c', hprec.append _⟩
    · rw [List.mem_singleton] at hmem
      injection hmem with hid hreply
      rw [hid, hreply]
      exact ⟨c, precedes_last hcall _⟩

end Linearizability
