import Mathlib.Data.List.Basic

/-! # Backtracking Regular Expressions

  A denotational account of the backtracking semantics that Perl-style
  engines give to a pattern. A pattern maps a position of the subject to
  the *ordered list* of positions at which it can leave off; the order is
  the order in which the engine tries them, so the first element is what
  the engine reports.

  * `outs` is that list, defined by recursion on the pattern.
  * `run` is its head: the thread a caller sees.
  * `search` starts the pattern at every position, leftmost first, and
    `globalMatch` continues after the end of each match.

  The rules below let a caller compute `run` of a concatenation from left
  to right without ever unfolding `outs`: literals (`run_lit_seq`),
  alternatives (`run_alt_seq`), the greedy `.*` (`run_anyStar_seq_cons`,
  which says that the *latest* position wins) and the greedy run of one
  class (`run_star_run_seq`, `run_group_run_seq`).
-/

namespace Regex

universe u v

/-! ### Syntax -/

/-- Patterns over the alphabet `α` with capture groups named by `κ`. -/
inductive Pattern (α : Type u) (κ : Type v) where
  /-- Matches the empty text. -/
  | eps
  /-- One symbol of a class. -/
  | sym (p : α → Bool)
  | seq (a b : Pattern α κ)
  /-- Ordered choice: `a` is tried before `b`. -/
  | alt (a b : Pattern α κ)
  /-- Greedy repetition. -/
  | star (a : Pattern α κ)
  /-- Named capture group. -/
  | group (k : κ) (a : Pattern α κ)
  /-- Positive lookahead; its captures are kept, its text is not consumed. -/
  | lookahead (a : Pattern α κ)
  /-- Positive lookbehind of a fixed text. -/
  | lookbehind (w : List α)

/-- Captured texts, one per group name. -/
abbrev Caps (α : Type u) (κ : Type v) := κ → Option (List α)

/-- A matching thread: the text passed so far (latest symbol first), the
    text still ahead, and the captures made. -/
structure Thread (α : Type u) (κ : Type v) where
  before : List α
  rest : List α
  caps : Caps α κ

variable {α : Type u} {κ : Type v}

/-- Record the text `w` for the group `k`. -/
def setCap [DecidableEq κ] (c : Caps α κ) (k : κ) (w : List α) : Caps α κ :=
  fun j => if j = k then some w else c j

@[simp] theorem setCap_self [DecidableEq κ] (c : Caps α κ) (k : κ) (w : List α) :
    setCap c k w k = some w := by
  simp [setCap]

@[simp] theorem setCap_ne [DecidableEq κ] (c : Caps α κ) {j k : κ} (w : List α)
    (h : j ≠ k) : setCap c k w j = c j := by
  simp [setCap, h]

namespace Thread

/-- Move past `w`, leaving `u` ahead. -/
def advance (t : Thread α κ) (w u : List α) : Thread α κ :=
  { t with before := w.reverse ++ t.before, rest := u }

@[simp] theorem advance_rest (t : Thread α κ) (w u : List α) :
    (t.advance w u).rest = u := rfl

/-- The text between `t` and a thread `t'` ahead of it. -/
def passed (t t' : Thread α κ) : List α :=
  t.rest.take (t.rest.length - t'.rest.length)

/-- Record `w` as the text of group `k`. -/
def capture [DecidableEq κ] (t : Thread α κ) (k : κ) (w : List α) : Thread α κ :=
  { t with caps := setCap t.caps k w }

@[simp] theorem passed_advance (t : Thread α κ) {w u : List α} (h : t.rest = w ++ u) :
    t.passed (t.advance w u) = w := by
  simp [passed, h]

end Thread

/-! ### Semantics -/

/-- Up to `n` further rounds of `body`, most rounds first. A round that
    consumes nothing ends the repetition. -/
def rounds (body : Thread α κ → List (Thread α κ)) : Nat → Thread α κ → List (Thread α κ)
  | 0, t => [t]
  | n + 1, t =>
      (body t).flatMap (fun t' =>
        if t'.rest.length < t.rest.length then rounds body n t' else [t']) ++ [t]

theorem rounds_zero (body : Thread α κ → List (Thread α κ)) (t : Thread α κ) :
    rounds body 0 t = [t] := rfl

theorem rounds_succ (body : Thread α κ → List (Thread α κ)) (n : Nat) (t : Thread α κ) :
    rounds body (n + 1) t = (body t).flatMap (fun t' =>
      if t'.rest.length < t.rest.length then rounds body n t' else [t']) ++ [t] := rfl

/-- A round of `rounds` keeps any reflexive and transitive relation that
    every outcome of the body keeps. -/
theorem rounds_rel {R : Thread α κ → Thread α κ → Prop} (hrefl : ∀ t, R t t)
    (htrans : ∀ a b c, R a b → R b c → R a c)
    {body : Thread α κ → List (Thread α κ)} (hbody : ∀ t, ∀ t' ∈ body t, R t t') :
    ∀ (n : Nat) (t : Thread α κ), ∀ t' ∈ rounds body n t, R t t' := by
  -- induction on the fuel: one round of the body, then the rounds behind it
  intro n
  induction n with
  | zero =>
    intro t t' h
    rw [rounds_zero, List.mem_singleton] at h
    exact h ▸ hrefl t
  | succ n ih =>
    intro t t' h
    rw [rounds_succ, List.mem_append, List.mem_singleton, List.mem_flatMap] at h
    rcases h with ⟨t₁, h₁, h₂⟩ | rfl
    · split at h₂
      · exact htrans t t₁ t' (hbody t t₁ h₁) (ih t₁ t' h₂)
      · rw [List.mem_singleton] at h₂
        exact h₂ ▸ hbody t t₁ h₁
    · exact hrefl t'

/-- More fuel keeps every outcome of a repetition. -/
theorem mem_rounds_mono {body : Thread α κ → List (Thread α κ)} : ∀ {n m : Nat},
    n ≤ m → ∀ {t t' : Thread α κ}, t' ∈ rounds body n t → t' ∈ rounds body m t
  | 0, 0, _, _, _, h => h
  | 0, m + 1, _, t, t', h => by
    rw [rounds_zero, List.mem_singleton] at h
    simp [rounds_succ, h]
  | n + 1, 0, hnm, _, _, _ => absurd hnm (Nat.not_succ_le_zero n)
  | n + 1, m + 1, hnm, t, t', h => by
    -- the outcome needs one round less from the end of its first round
    rw [rounds_succ, List.mem_append, List.mem_flatMap] at h ⊢
    refine h.imp (fun ⟨t₁, h₁, h₂⟩ => ⟨t₁, h₁, ?_⟩) id
    split at h₂
    · next hlt =>
      rw [if_pos hlt]
      exact mem_rounds_mono (Nat.le_of_succ_le_succ hnm) h₂
    · next hlt =>
      rw [if_neg hlt]
      exact h₂

/-- The outcome `t'` lies ahead of `t`: some text was consumed in between. -/
def Ahead (t t' : Thread α κ) : Prop :=
  ∃ w, t.rest = w ++ t'.rest ∧ t'.before = w.reverse ++ t.before

theorem Ahead.refl (t : Thread α κ) : Ahead t t := ⟨[], rfl, rfl⟩

theorem Ahead.trans {a b c : Thread α κ} (hab : Ahead a b) (hbc : Ahead b c) :
    Ahead a c := by
  obtain ⟨w, hw, hbw⟩ := hab
  obtain ⟨w', hw', hbw'⟩ := hbc
  exact ⟨w ++ w', by rw [hw, hw', List.append_assoc], by rw [hbw', hbw]; simp⟩

section semantics
variable [DecidableEq α] [DecidableEq κ]

/-- All threads in which a pattern can leave off, in the order a
    backtracking engine reaches them. -/
def outs : Pattern α κ → Thread α κ → List (Thread α κ)
  | .eps, t => [t]
  | .sym p, t =>
      match t.rest with
      | [] => []
      | x :: xs => if p x then [t.advance [x] xs] else []
  | .seq a b, t => (outs a t).flatMap (outs b)
  | .alt a b, t => outs a t ++ outs b t
  | .star a, t => rounds (outs a) (t.rest.length + 1) t
  | .group k a, t =>
      (outs a t).map fun t' => t'.capture k (t.passed t')
  | .lookahead a, t =>
      match (outs a t).head? with
      | some t' => [{ t with caps := t'.caps }]
      | none => []
  | .lookbehind w, t => if w.reverse.isPrefixOf t.before then [t] else []

/-- The thread the engine reports for a match at this position. -/
def run (r : Pattern α κ) (t : Thread α κ) : Option (Thread α κ) :=
  (outs r t).head?

/-- Leftmost match at or after the current position. -/
def search (r : Pattern α κ) : List α → List α → Option (Thread α κ)
  | before, [] => run r ⟨before, [], fun _ => none⟩
  | before, x :: xs =>
      (run r ⟨before, x :: xs, fun _ => none⟩).or (search r (x :: before) xs)

/-- First match in a whole subject. -/
def matchFirst (r : Pattern α κ) (subject : List α) : Option (Thread α κ) :=
  search r [] subject

/-- Successive matches, each searched from the end of the one before; after
    a match that consumed nothing the search moves on by one symbol. -/
def globalFrom (r : Pattern α κ) : Nat → List α → List α → List (Thread α κ)
  | 0, _, _ => []
  | n + 1, before, rest =>
      match search r before rest with
      | none => []
      | some t =>
          t :: (if t.rest.length < rest.length then globalFrom r n t.before t.rest
                else match t.rest with
                  | [] => []
                  | x :: xs => globalFrom r n (x :: t.before) xs)

/-- All matches in a whole subject. -/
def globalMatch (r : Pattern α κ) (subject : List α) : List (Thread α κ) :=
  globalFrom r (subject.length + 1) [] subject

/-! ### Derived patterns -/

/-- A fixed text. -/
def lit : List α → Pattern α κ
  | [] => .eps
  | x :: xs => .seq (.sym (· == x)) (lit xs)

/-- `.*` with the dot matching everything. -/
def anyStar : Pattern α κ := .star (.sym fun _ => true)

/-- One or more symbols of a class. -/
def plus (p : α → Bool) : Pattern α κ := .seq (.sym p) (.star (.sym p))

/-- Exactly `n` rounds of `a`. -/
def times : Nat → Pattern α κ → Pattern α κ
  | 0, _ => .eps
  | n + 1, a => .seq a (times n a)

/-! ### One rule per constructor -/

section rules

variable {t t' : Thread α κ}

theorem outs_eps (t : Thread α κ) : outs .eps t = [t] := rfl

theorem outs_seq (a b : Pattern α κ) (t : Thread α κ) :
    outs (.seq a b) t = (outs a t).flatMap (outs b) := rfl

theorem outs_alt (a b : Pattern α κ) (t : Thread α κ) :
    outs (.alt a b) t = outs a t ++ outs b t := rfl

theorem outs_star (a : Pattern α κ) (t : Thread α κ) :
    outs (.star a) t = rounds (outs a) (t.rest.length + 1) t := rfl

theorem outs_group (k : κ) (a : Pattern α κ) (t : Thread α κ) :
    outs (.group k a) t = (outs a t).map fun t' => t'.capture k (t.passed t') := rfl

theorem outs_lookbehind (w : List α) (t : Thread α κ) :
    outs (.lookbehind w) t = if w.reverse.isPrefixOf t.before then [t] else [] := rfl

theorem mem_outs_sym {p : α → Bool} (h : t' ∈ outs (.sym p) t) :
    ∃ x xs, t.rest = x :: xs ∧ p x ∧ t' = t.advance [x] xs := by
  obtain ⟨b, rest, c⟩ := t
  cases rest with
  | nil => cases h
  | cons x xs =>
    have h' : t' ∈ if p x then [(⟨x :: b, xs, c⟩ : Thread α κ)] else [] := h
    split at h'
    · next hx => exact ⟨x, xs, rfl, hx, List.mem_singleton.mp h'⟩
    · cases h'

theorem mem_outs_seq {a b : Pattern α κ} :
    t' ∈ outs (.seq a b) t ↔ ∃ t₁ ∈ outs a t, t' ∈ outs b t₁ :=
  List.mem_flatMap

theorem mem_outs_alt {a b : Pattern α κ} :
    t' ∈ outs (.alt a b) t ↔ t' ∈ outs a t ∨ t' ∈ outs b t :=
  List.mem_append

theorem mem_outs_group {k : κ} {a : Pattern α κ} :
    t' ∈ outs (.group k a) t ↔ ∃ t₁ ∈ outs a t, t₁.capture k (t.passed t₁) = t' :=
  List.mem_map

theorem outs_lookahead_some {a : Pattern α κ} (h : (outs a t).head? = some t') :
    outs (.lookahead a) t = [{ t with caps := t'.caps }] := by
  have hrule : outs (.lookahead a) t = match (outs a t).head? with
      | some t' => [{ t with caps := t'.caps }]
      | none => [] := rfl
  rw [hrule, h]

theorem outs_lookahead_none {a : Pattern α κ} (h : (outs a t).head? = none) :
    outs (.lookahead a) t = [] := by
  have hrule : outs (.lookahead a) t = match (outs a t).head? with
      | some t' => [{ t with caps := t'.caps }]
      | none => [] := rfl
  rw [hrule, h]

theorem mem_outs_lookahead {a : Pattern α κ} (h : t' ∈ outs (.lookahead a) t) :
    ∃ t₁ ∈ outs a t, t' = { t with caps := t₁.caps } := by
  cases hhead : (outs a t).head? with
  | none =>
    rw [outs_lookahead_none hhead] at h
    cases h
  | some t₁ =>
    rw [outs_lookahead_some hhead] at h
    exact ⟨t₁, List.mem_of_head? hhead, List.mem_singleton.mp h⟩

theorem mem_outs_lookbehind {w : List α} (h : t' ∈ outs (.lookbehind w) t) : t' = t := by
  rw [outs_lookbehind] at h
  split at h
  · exact List.mem_singleton.mp h
  · cases h

end rules

/-! ### Every outcome is an advance -/

/-- Every outcome of a pattern lies ahead of where it started. -/
theorem ahead_of_mem_outs : ∀ (r : Pattern α κ) (t : Thread α κ),
    ∀ t' ∈ outs r t, Ahead t t'
  | .eps, t, t', h => List.mem_singleton.mp h ▸ Ahead.refl t
  | .sym p, t, t', h => by
    obtain ⟨x, xs, hrest, _, rfl⟩ := mem_outs_sym h
    exact ⟨[x], hrest, rfl⟩
  | .seq a b, t, t', h => by
    obtain ⟨t₁, h₁, h₂⟩ := mem_outs_seq.mp h
    exact (ahead_of_mem_outs a t t₁ h₁).trans (ahead_of_mem_outs b t₁ t' h₂)
  | .alt a b, t, t', h => by
    rcases mem_outs_alt.mp h with h | h
    · exact ahead_of_mem_outs a t t' h
    · exact ahead_of_mem_outs b t t' h
  | .star a, t, t', h =>
    rounds_rel Ahead.refl (fun _ _ _ => Ahead.trans) (ahead_of_mem_outs a) _ t t' h
  | .group k a, t, t', h => by
    obtain ⟨t₁, h₁, rfl⟩ := mem_outs_group.mp h
    exact ahead_of_mem_outs a t t₁ h₁
  | .lookahead a, t, t', h => by
    obtain ⟨_, _, rfl⟩ := mem_outs_lookahead h
    exact ⟨[], rfl, rfl⟩
  | .lookbehind w, t, t', h => mem_outs_lookbehind h ▸ Ahead.refl t

/-! ### Captures a pattern cannot touch -/

/-- The group `k` occurs in the pattern. -/
def Captures (k : κ) : Pattern α κ → Prop
  | .eps | .sym _ | .lookbehind _ => False
  | .seq a b | .alt a b => Captures k a ∨ Captures k b
  | .star a | .lookahead a => Captures k a
  | .group j a => k = j ∨ Captures k a

omit [DecidableEq κ] in
@[simp] theorem not_captures_lit (k : κ) (w : List α) :
    ¬ Captures k (lit w : Pattern α κ) := by
  induction w with
  | nil => exact id
  | cons x xs ih => simp [lit, Captures, ih]

/-- A pattern without the group `k` leaves its capture as it was. -/
theorem caps_of_mem_outs {k : κ} : ∀ (r : Pattern α κ), ¬ Captures k r →
    ∀ (t : Thread α κ), ∀ t' ∈ outs r t, t.caps k = t'.caps k
  | .eps, _, t, t', h => List.mem_singleton.mp h ▸ rfl
  | .sym p, _, t, t', h => by
    obtain ⟨_, _, _, _, rfl⟩ := mem_outs_sym h
    rfl
  | .seq a b, hk, t, t', h => by
    obtain ⟨ha, hb⟩ := not_or.mp hk
    obtain ⟨t₁, h₁, h₂⟩ := mem_outs_seq.mp h
    exact (caps_of_mem_outs a ha t t₁ h₁).trans (caps_of_mem_outs b hb t₁ t' h₂)
  | .alt a b, hk, t, t', h => by
    obtain ⟨ha, hb⟩ := not_or.mp hk
    rcases mem_outs_alt.mp h with h | h
    · exact caps_of_mem_outs a ha t t' h
    · exact caps_of_mem_outs b hb t t' h
  | .star a, hk, t, t', h =>
    rounds_rel (R := fun t t' => t.caps k = t'.caps k) (fun _ => rfl)
      (fun _ _ _ => Eq.trans) (caps_of_mem_outs a hk) _ t t' h
  | .group j a, hk, t, t', h => by
    obtain ⟨hj, ha⟩ := not_or.mp hk
    obtain ⟨t₁, h₁, rfl⟩ := mem_outs_group.mp h
    exact (caps_of_mem_outs a ha t t₁ h₁).trans (setCap_ne _ _ hj).symm
  | .lookahead a, hk, t, t', h => by
    obtain ⟨t₁, h₁, rfl⟩ := mem_outs_lookahead h
    exact caps_of_mem_outs a hk t t₁ h₁
  | .lookbehind w, _, t, t', h => mem_outs_lookbehind h ▸ rfl

/-! ### Evaluation rules

    `run` of a concatenation, one rule per shape of its first part. -/

theorem run_seq (a b : Pattern α κ) (t : Thread α κ) :
    run (.seq a b) t = (outs a t).findSome? (run b) := by
  rw [run, outs_seq, List.head?_flatMap]
  rfl

theorem outs_seq_assoc (a b c : Pattern α κ) (t : Thread α κ) :
    outs (.seq (.seq a b) c) t = outs (.seq a (.seq b c)) t := by
  rw [outs_seq, outs_seq, List.flatMap_assoc]
  rfl

theorem run_seq_assoc (a b c : Pattern α κ) (t : Thread α κ) :
    run (.seq (.seq a b) c) t = run (.seq a (.seq b c)) t := by
  rw [run, run, outs_seq_assoc]

theorem run_eps_seq (b : Pattern α κ) (t : Thread α κ) :
    run (.seq .eps b) t = run b t := by
  simp [run_seq, outs_eps]

theorem run_alt_seq (a b c : Pattern α κ) (t : Thread α κ) :
    run (.seq (.alt a b) c) t = (run (.seq a c) t).or (run (.seq b c) t) := by
  simp only [run_seq, outs_alt, List.findSome?_append]

theorem run_lookbehind_seq (w : List α) (b : Pattern α κ) (t : Thread α κ) :
    run (.seq (.lookbehind w) b) t =
      if w.reverse.isPrefixOf t.before then run b t else none := by
  rw [run_seq, outs_lookbehind]
  split <;> simp

theorem outs_sym_cons (p : α → Bool) (b : List α) (x : α) (xs : List α) (c : Caps α κ) :
    outs (.sym p) ⟨b, x :: xs, c⟩ = if p x then [⟨x :: b, xs, c⟩] else [] := rfl

theorem outs_sym_nil (p : α → Bool) (b : List α) (c : Caps α κ) :
    outs (.sym p) ⟨b, [], c⟩ = [] := rfl

theorem outs_lit_cons (x y : α) (xs b ys : List α) (c : Caps α κ) :
    outs (lit (x :: xs)) ⟨b, y :: ys, c⟩ =
      if y = x then outs (lit xs) ⟨y :: b, ys, c⟩ else [] := by
  have hlit : (lit (x :: xs) : Pattern α κ) = .seq (.sym (· == x)) (lit xs) := rfl
  rw [hlit, outs_seq, outs_sym_cons]
  by_cases hxy : y = x
  · rw [if_pos (by simpa using hxy), if_pos hxy, List.flatMap_cons, List.flatMap_nil,
      List.append_nil]
  · rw [if_neg (by simpa using hxy), if_neg hxy, List.flatMap_nil]

/-- A fixed text either heads the rest, and is passed, or the pattern fails. -/
theorem outs_lit (w : List α) (t : Thread α κ) :
    (∃ u, t.rest = w ++ u ∧ outs (lit w) t = [t.advance w u]) ∨
      (¬ w <+: t.rest ∧ outs (lit w) t = []) := by
  induction w generalizing t with
  | nil => exact Or.inl ⟨t.rest, rfl, rfl⟩
  | cons x xs ih =>
    obtain ⟨b, rest, c⟩ := t
    cases rest with
    | nil => exact Or.inr ⟨by simp, rfl⟩
    | cons y ys =>
      -- the first symbol decides, the others follow by induction
      by_cases hxy : y = x
      · subst hxy
        rcases ih ⟨y :: b, ys, c⟩ with ⟨u, hu, ho⟩ | ⟨hn, ho⟩
        · refine Or.inl ⟨u, by simpa using hu, ?_⟩
          rw [outs_lit_cons, if_pos rfl, ho]
          simp [Thread.advance]
        · refine Or.inr ⟨by simpa using hn, ?_⟩
          rw [outs_lit_cons, if_pos rfl, ho]
      · refine Or.inr ⟨by simp [List.cons_prefix_cons, Ne.symm hxy], ?_⟩
        rw [outs_lit_cons, if_neg hxy]

/-- The two outcomes of a literal that heads a concatenation. -/
theorem run_lit_seq (w u b : List α) (c : Caps α κ) (r : Pattern α κ) :
    run (.seq (lit w) r) ⟨b, w ++ u, c⟩ = run r ⟨w.reverse ++ b, u, c⟩ := by
  rcases outs_lit w (⟨b, w ++ u, c⟩ : Thread α κ) with ⟨u', hu, ho⟩ | ⟨hn, _⟩
  · obtain rfl : u = u' := List.append_cancel_left hu
    simp [run_seq, ho, Thread.advance]
  · exact absurd (List.prefix_append w u) hn

theorem run_lit_seq_none {w : List α} {t : Thread α κ} (h : ¬ w <+: t.rest)
    (r : Pattern α κ) : run (.seq (lit w) r) t = none := by
  rcases outs_lit w t with ⟨u, hu, _⟩ | ⟨_, ho⟩
  · exact absurd ⟨u, hu.symm⟩ h
  · simp [run_seq, ho]

/-- A literal that heads a successful concatenation was there. -/
theorem lit_of_run_seq {w : List α} {r : Pattern α κ} {t t' : Thread α κ}
    (h : run (.seq (lit w) r) t = some t') :
    ∃ u, t.rest = w ++ u ∧ run r (t.advance w u) = some t' := by
  rcases outs_lit w t with ⟨u, hu, ho⟩ | ⟨_, ho⟩
  · exact ⟨u, hu, by simpa [run_seq, ho] using h⟩
  · simp [run_seq, ho] at h

/-- A final lookahead for a fixed text only tests for it. -/
theorem run_lookahead_lit (w : List α) (t : Thread α κ) :
    run (.lookahead (lit w)) t = if w <+: t.rest then some t else none := by
  rcases outs_lit w t with ⟨u, hu, ho⟩ | ⟨hn, ho⟩
  · have hhead : (outs (lit w) t).head? = some (t.advance w u) := by rw [ho]; rfl
    rw [run, outs_lookahead_some hhead, if_pos ⟨u, hu.symm⟩]
    rfl
  · rw [run, outs_lookahead_none (by rw [ho]; rfl), if_neg hn]
    rfl

/-! ### Greedy repetition of one class -/

theorem outs_star_sym_nil (p : α → Bool) (b : List α) (c : Caps α κ) :
    outs (.star (.sym p)) ⟨b, [], c⟩ = [⟨b, [], c⟩] := by
  simp [outs_star, rounds_succ, outs_sym_nil]

/-- As long as the class matches, more rounds are tried first. -/
theorem outs_star_sym_cons {p : α → Bool} {x : α} (hx : p x) (b xs : List α)
    (c : Caps α κ) :
    outs (.star (.sym p)) ⟨b, x :: xs, c⟩ =
      outs (.star (.sym p)) ⟨x :: b, xs, c⟩ ++ [⟨b, x :: xs, c⟩] := by
  rw [outs_star, rounds_succ, outs_sym_cons, if_pos hx]
  simp [outs_star]

theorem outs_star_sym_stop {p : α → Bool} {x : α} (hx : ¬ p x) (b xs : List α)
    (c : Caps α κ) :
    outs (.star (.sym p)) ⟨b, x :: xs, c⟩ = [⟨b, x :: xs, c⟩] := by
  rw [outs_star, rounds_succ, outs_sym_cons, if_neg hx]
  simp

theorem run_anyStar_seq_nil (r : Pattern α κ) (b : List α) (c : Caps α κ) :
    run (.seq anyStar r) ⟨b, [], c⟩ = run r ⟨b, [], c⟩ := by
  simp [run_seq, anyStar, outs_star_sym_nil]

/-- `.*` prefers the later position. -/
theorem run_anyStar_seq_cons (r : Pattern α κ) (b : List α) (x : α) (xs : List α)
    (c : Caps α κ) :
    run (.seq anyStar r) ⟨b, x :: xs, c⟩ =
      (run (.seq anyStar r) ⟨x :: b, xs, c⟩).or (run r ⟨b, x :: xs, c⟩) := by
  simp [run_seq, anyStar, outs_star_sym_cons]

/-- Outcomes of a greedy class: some run of the class was passed. -/
theorem mem_outs_star_sym {p : α → Bool} : ∀ {rest b : List α} {c : Caps α κ}
    {t' : Thread α κ}, t' ∈ outs (.star (.sym p)) ⟨b, rest, c⟩ →
      ∃ w u, rest = w ++ u ∧ (∀ x ∈ w, p x) ∧ t' = ⟨w.reverse ++ b, u, c⟩
  | [], b, c, t', h => by
    rw [outs_star_sym_nil, List.mem_singleton] at h
    exact ⟨[], [], rfl, by simp, h⟩
  | x :: xs, b, c, t', h => by
    by_cases hx : p x
    · -- one more round, or stop here
      rw [outs_star_sym_cons hx, List.mem_append, List.mem_singleton] at h
      rcases h with h | h
      · obtain ⟨w, u, hr, hw, ht⟩ := mem_outs_star_sym h
        refine ⟨x :: w, u, by rw [hr]; rfl, ?_, by rw [ht]; simp⟩
        intro y hy
        rcases List.mem_cons.mp hy with rfl | hy
        · exact hx
        · exact hw y hy
      · exact ⟨[], x :: xs, rfl, by simp, h⟩
    · rw [outs_star_sym_stop hx, List.mem_singleton] at h
      exact ⟨[], x :: xs, rfl, by simp, h⟩

/-- The first outcome of a greedy class passes the whole run of the class;
    every other outcome stops inside the run. -/
theorem outs_star_sym_run {p : α → Bool} : ∀ {w u : List α}, (∀ x ∈ w, p x) →
    (∀ x ∈ u.head?, ¬ p x) → ∀ (b : List α) (c : Caps α κ),
      ∃ l, outs (.star (.sym p)) ⟨b, w ++ u, c⟩ = ⟨w.reverse ++ b, u, c⟩ :: l ∧
        ∀ t ∈ l, ∃ v y v', w = v ++ y :: v' ∧ t = ⟨v.reverse ++ b, y :: v' ++ u, c⟩
  | [], [], _, _, b, c => ⟨[], by simp [outs_star_sym_nil], by simp⟩
  | [], x :: xs, _, hu, b, c =>
    ⟨[], by simp [outs_star_sym_stop (hu x rfl)], by simp⟩
  | x :: w, u, hw, hu, b, c => by
    have hx : p x := hw x (by simp)
    obtain ⟨l, hl, hmem⟩ := outs_star_sym_run
      (fun y hy => hw y (List.mem_cons_of_mem _ hy)) hu (x :: b) c
    refine ⟨l ++ [⟨b, x :: w ++ u, c⟩], ?_, ?_⟩
    · rw [List.cons_append, outs_star_sym_cons hx, hl]
      simp
    · intro t ht
      rcases List.mem_append.mp ht with ht | ht
      · obtain ⟨v, y, v', hv, rfl⟩ := hmem t ht
        exact ⟨x :: v, y, v', by rw [hv]; rfl, by simp⟩
      · rw [List.mem_singleton] at ht
        exact ⟨[], x, w, rfl, by simp [ht]⟩

/-- Rule for a greedy run `p*`: if the rest of the pattern cannot start in
    the middle of the run, the whole run is passed. -/
theorem run_star_run_seq {p : α → Bool} {r : Pattern α κ} {w u : List α} (b : List α)
    (c : Caps α κ) (hw : ∀ y ∈ w, p y) (hu : ∀ y ∈ u.head?, ¬ p y)
    (hr : ∀ (y : α) (v b' : List α), p y → run r ⟨b', y :: v, c⟩ = none) :
    run (.seq (.star (.sym p)) r) ⟨b, w ++ u, c⟩ = run r ⟨w.reverse ++ b, u, c⟩ := by
  obtain ⟨l, hl, hmem⟩ := outs_star_sym_run hw hu b c
  rw [run_seq, hl, List.findSome?_cons]
  cases hrun : run r ⟨w.reverse ++ b, u, c⟩ with
  | some t => rfl
  | none =>
    rw [List.findSome?_eq_none_iff]
    intro t ht
    obtain ⟨v, y, v', hv, rfl⟩ := hmem t ht
    exact hr y _ _ (hw y (by simp [hv]))

/-- Rule for a captured run `(?<k>qp*)`: if the rest of the pattern cannot
    start in the middle of the run where it fails behind it, the whole run
    is captured. -/
theorem run_group_run_seq {q p : α → Bool} {k : κ} {r : Pattern α κ} {x : α}
    {w u : List α} (b : List α) (c : Caps α κ) (hx : q x) (hw : ∀ y ∈ w, p y)
    (hu : ∀ y ∈ u.head?, ¬ p y)
    (hr : run r ⟨(x :: w).reverse ++ b, u, setCap c k (x :: w)⟩ = none →
      ∀ (y : α) (v b' : List α) (c' : Caps α κ), p y → (y :: v) <:+ w →
        run r ⟨b', y :: v ++ u, c'⟩ = none) :
    run (.seq (.group k (.seq (.sym q) (.star (.sym p)))) r) ⟨b, x :: w ++ u, c⟩ =
      run r ⟨(x :: w).reverse ++ b, u, setCap c k (x :: w)⟩ := by
  obtain ⟨l, hl, hmem⟩ := outs_star_sym_run hw hu (x :: b) c
  have houts : outs (.seq (.sym q) (.star (.sym p))) ⟨b, x :: w ++ u, c⟩ =
      ⟨w.reverse ++ x :: b, u, c⟩ :: l := by
    rw [outs_seq, List.cons_append, outs_sym_cons, if_pos hx, List.flatMap_cons,
      List.flatMap_nil, List.append_nil, hl]
  have hpass : (⟨b, x :: w ++ u, c⟩ : Thread α κ).passed ⟨w.reverse ++ x :: b, u, c⟩ =
      x :: w := by
    have h := Thread.passed_advance (⟨b, x :: w ++ u, c⟩ : Thread α κ) (w := x :: w) rfl
    simpa [Thread.advance] using h
  have hfirst : (⟨w.reverse ++ x :: b, u, c⟩ : Thread α κ).capture k (x :: w) =
      ⟨(x :: w).reverse ++ b, u, setCap c k (x :: w)⟩ := by
    simp [Thread.capture]
  rw [run_seq, outs_group, houts]
  simp only [List.map_cons, List.findSome?_cons, hpass, hfirst]
  cases hrun : run r ⟨(x :: w).reverse ++ b, u, setCap c k (x :: w)⟩ with
  | some t => rfl
  | none =>
    -- every shorter capture leaves the rest of the pattern inside the run
    rw [List.findSome?_eq_none_iff]
    intro t' ht'
    obtain ⟨t, ht, rfl⟩ := List.mem_map.mp ht'
    obtain ⟨v, y, v', hv, rfl⟩ := hmem t ht
    exact hr hrun y v' _ _ (hw y (by simp [hv])) ⟨v, hv.symm⟩

/-- A captured run `(?<k>qp*)` passes a run of the two classes and records
    it. -/
theorem mem_outs_group_run {q p : α → Bool} {k : κ} {t t' : Thread α κ}
    (h : t' ∈ outs (.group k (.seq (.sym q) (.star (.sym p)))) t) :
    ∃ x w, t.rest = x :: w ++ t'.rest ∧ q x ∧ (∀ y ∈ w, p y) ∧ t'.caps k = some (x :: w) := by
  obtain ⟨b, rest, c⟩ := t
  obtain ⟨t₁, h₁, rfl⟩ := mem_outs_group.mp h
  cases rest with
  | nil =>
    rw [outs_seq, outs_sym_nil] at h₁
    cases h₁
  | cons x xs =>
    rw [outs_seq, outs_sym_cons] at h₁
    split at h₁
    · next hx =>
      rw [List.flatMap_cons, List.flatMap_nil, List.append_nil] at h₁
      obtain ⟨w, u, rfl, hw, rfl⟩ := mem_outs_star_sym h₁
      have hpassed := Thread.passed_advance (⟨b, x :: (w ++ u), c⟩ : Thread α κ) (w := x :: w)
        (u := u) rfl
      refine ⟨x, w, rfl, hx, hw, ?_⟩
      simp only [Thread.capture, setCap_self, Option.some.injEq]
      simpa [Thread.advance] using hpassed
    · cases h₁

/-- A captured run `(?<k>qp*)` needs a first symbol. -/
theorem run_group_run_seq_none {q p : α → Bool} {k : κ} {r : Pattern α κ} {u : List α}
    (hu : ∀ y ∈ u.head?, ¬ q y) (b : List α) (c : Caps α κ) :
    run (.seq (.group k (.seq (.sym q) (.star (.sym p)))) r) ⟨b, u, c⟩ = none := by
  cases u with
  | nil => simp [run_seq, outs_group, outs_seq, outs_sym_nil]
  | cons y ys =>
    have hy : ¬ q y := hu y rfl
    simp [run_seq, outs_group, outs_seq, outs_sym_cons, hy]

/-- `.*(?=w)` stops at the last occurrence of `w`, and fails only if there
    is none. -/
theorem run_anyStar_lookahead {w : List α} (hw : w ≠ []) :
    ∀ (u b : List α) (c : Caps α κ),
      (run (.seq anyStar (.lookahead (lit w))) ⟨b, u, c⟩ = none ∧ ¬ w <:+: u) ∨
        ∃ t, run (.seq anyStar (.lookahead (lit w))) ⟨b, u, c⟩ = some t ∧
          t.caps = c ∧ ¬ w <:+: t.rest.tail ∧ w <:+: u
  | [], b, c => by
    refine Or.inl ⟨?_, by simpa using hw⟩
    rw [run_anyStar_seq_nil, run_lookahead_lit, if_neg (by simpa using hw)]
  | x :: xs, b, c => by
    -- a later stop is preferred; this one counts only if there is none
    rw [run_anyStar_seq_cons, run_lookahead_lit, List.infix_cons_iff]
    rcases run_anyStar_lookahead hw xs (x :: b) c with ⟨hnone, hn⟩ | ⟨t, ht, hc, htail, hin⟩
    · rw [hnone, Option.none_or]
      by_cases hp : w <+: x :: xs
      · exact Or.inr ⟨⟨b, x :: xs, c⟩, if_pos hp, rfl, hn, Or.inl hp⟩
      · exact Or.inl ⟨if_neg hp, by simp [hp, hn]⟩
    · exact Or.inr ⟨t, by rw [ht, Option.some_or], hc, htail, Or.inr hin⟩

/-! ### Existence of a match

    To show that a pattern matches it is enough to follow one path through
    it; which thread is reported is then left open. -/

/-- A successful concatenation went through some outcome of its first part. -/
theorem exists_of_run_seq {a b : Pattern α κ} {t t' : Thread α κ}
    (h : run (.seq a b) t = some t') : ∃ t₁ ∈ outs a t, run b t₁ = some t' := by
  rw [run_seq] at h
  exact List.exists_of_findSome?_eq_some h

theorem run_seq_isSome {a b : Pattern α κ} {t t₁ : Thread α κ} (ha : t₁ ∈ outs a t)
    (hb : (run b t₁).isSome) : (run (.seq a b) t).isSome := by
  rw [run_seq, List.findSome?_isSome_iff]
  exact ⟨t₁, ha, hb⟩

theorem mem_outs_star_self (a : Pattern α κ) (t : Thread α κ) : t ∈ outs (.star a) t := by
  simp [outs_star, rounds_succ]

/-- A literal can pass itself. -/
theorem mem_outs_lit (w u b : List α) (c : Caps α κ) :
    (⟨w.reverse ++ b, u, c⟩ : Thread α κ) ∈ outs (lit w) ⟨b, w ++ u, c⟩ := by
  rcases outs_lit w (⟨b, w ++ u, c⟩ : Thread α κ) with ⟨u', hu, ho⟩ | ⟨hn, _⟩
  · obtain rfl : u = u' := List.append_cancel_left hu
    rw [ho]
    exact List.mem_singleton_self _
  · exact absurd (List.prefix_append w u) hn

/-- A greedy class can stop anywhere in a run of the class. -/
theorem mem_outs_star_sym_run {p : α → Bool} (u : List α) (c : Caps α κ) :
    ∀ (w b : List α), (∀ x ∈ w, p x) →
      (⟨w.reverse ++ b, u, c⟩ : Thread α κ) ∈ outs (.star (.sym p)) ⟨b, w ++ u, c⟩
  | [], b, _ => mem_outs_star_self _ _
  | x :: w, b, hw => by
    rw [List.cons_append, outs_star_sym_cons (hw x (by simp))]
    have ih := mem_outs_star_sym_run u c w (x :: b) fun y hy => hw y (by simp [hy])
    simp only [List.reverse_cons, List.append_assoc, List.singleton_append]
    exact List.mem_append_left _ ih

/-- `.*` can stop anywhere. -/
theorem mem_outs_anyStar (u : List α) (c : Caps α κ) (w b : List α) :
    (⟨w.reverse ++ b, u, c⟩ : Thread α κ) ∈ outs anyStar ⟨b, w ++ u, c⟩ :=
  mem_outs_star_sym_run u c w b fun _ _ => rfl

/-- One more round in front of a repetition. -/
theorem mem_outs_star_step {a : Pattern α κ} {t t₁ t₂ : Thread α κ} (h₁ : t₁ ∈ outs a t)
    (hlt : t₁.rest.length < t.rest.length) (h₂ : t₂ ∈ outs (.star a) t₁) :
    t₂ ∈ outs (.star a) t := by
  rw [outs_star, rounds_succ, List.mem_append, List.mem_flatMap]
  refine Or.inl ⟨t₁, h₁, ?_⟩
  rw [if_pos hlt]
  exact mem_rounds_mono hlt h₂

/-! ### Searching -/

/-- What a search reports was found by the pattern at some position. -/
theorem run_of_search {r : Pattern α κ} {t : Thread α κ} : ∀ {u b : List α},
    search r b u = some t →
      ∃ w v, u = w ++ v ∧ run r ⟨w.reverse ++ b, v, fun _ => none⟩ = some t
  | [], b, h => ⟨[], [], rfl, h⟩
  | x :: xs, b, h => by
    rw [search, Option.or_eq_some_iff] at h
    rcases h with h | ⟨_, h⟩
    · exact ⟨[], x :: xs, rfl, h⟩
    · obtain ⟨w, v, hu, hrun⟩ := run_of_search h
      exact ⟨x :: w, v, by rw [hu]; rfl, by simpa using hrun⟩

/-- A match at the current position is the leftmost one. -/
theorem search_of_run {r : Pattern α κ} {t : Thread α κ} {u b : List α}
    (h : run r ⟨b, u, fun _ => none⟩ = some t) : search r b u = some t := by
  cases u with
  | nil => exact h
  | cons x xs => rw [search, h, Option.some_or]

/-- A pattern headed by a lookbehind cannot start while too little text has
    been passed. -/
theorem search_lookbehind {w : List α} {r : Pattern α κ} : ∀ {v b : List α} (u : List α),
    b.length + v.length ≤ w.length → w = b.reverse ++ v →
      search (.seq (.lookbehind w) r) b (v ++ u) =
        search (.seq (.lookbehind w) r) (v.reverse ++ b) u
  | [], b, u, _, _ => rfl
  | x :: xs, b, u, hlen, hw => by
    -- less text than the lookbehind needs has been passed
    have hnot : (w.reverse.isPrefixOf b) = false := by
      rw [Bool.eq_false_iff, ne_eq, List.isPrefixOf_iff_prefix]
      intro h
      have := h.length_le
      simp only [hw, List.length_reverse, List.length_append, List.length_cons] at this
      omega
    rw [List.cons_append, search, run_lookbehind_seq, hnot]
    rw [if_neg (by simp), Option.none_or]
    rw [search_lookbehind u (by simp at hlen ⊢; omega) (by rw [hw]; simp)]
    simp

end semantics

end Regex
