import JsonRpcServer.Http.Patterns

/-! # What `http_json_POST` Finds

  `http_json_POST` asks for three *markers* between the request line and
  the last blank line: any three of `Accept`, `Content-Length` and
  `Content-Type`, in any order. What it finds is computed by `markers`
  (`http_json_POST_match`): the last three marker occurrences count, and
  the last length among them is the one captured.
-/

namespace Http

open Bytes Regex

/-! ### Markers -/

/-- One occurrence of an alternative of `http_json_POST`. -/
inductive Marker where
  | accept
  | length (digits : Bytes)
  | type
  deriving DecidableEq, Repr

/-- The marker at the head of a text, with the text behind it. -/
def markerAt (t : Bytes) : Option (Marker × Bytes) :=
  if acceptText <+: t then some (.accept, t.drop acceptText.length)
  else if lengthText <+: t then
    let u := t.drop lengthText.length
    if u.takeWhile isDigit = [] then none
    else some (.length (u.takeWhile isDigit), u.dropWhile isDigit)
  else if typeText <+: t then some (.type, t.drop typeText.length)
  else none

/-- All marker occurrences of a text that still have a blank line behind
    them, in order. -/
def markers : Bytes → List Marker
  | [] => []
  | x :: xs =>
      match markerAt (x :: xs) with
      | some (m, w) => if Blank w then m :: markers xs else markers xs
      | none => markers xs

/-- What a marker records. -/
def record (c : Caps UInt8 Group) : Marker → Caps UInt8 Group
  | .length ds => setCap c .http_length ds
  | _ => c

/-- The last `n` elements of a list. -/
def lastN {α : Type} (n : Nat) (l : List α) : List α := l.drop (l.length - n)

/-! ### Where markers can start -/

/-- What `markerAt` reports. -/
theorem markerAt_cases (v : Bytes) :
    (∃ w, v = acceptText ++ w ∧ markerAt v = some (.accept, w)) ∨
      (∃ d ds w, v = lengthText ++ (d :: ds ++ w) ∧ (∀ y ∈ d :: ds, isDigit y) ∧
        (∀ y ∈ w.head?, ¬ isDigit y) ∧ markerAt v = some (.length (d :: ds), w)) ∨
      (∃ w, v = typeText ++ w ∧ markerAt v = some (.type, w)) ∨
      (markerAt v = none ∧ ¬ acceptText <+: v ∧ ¬ typeText <+: v ∧
        ∀ d u, isDigit d → v ≠ lengthText ++ d :: u) := by
  by_cases ha : acceptText <+: v
  · obtain ⟨w, rfl⟩ := ha
    exact Or.inl ⟨w, rfl, by rw [markerAt, if_pos (List.prefix_append _ _)]; simp⟩
  by_cases hl : lengthText <+: v
  · obtain ⟨u, rfl⟩ := hl
    have hty : ¬ typeText <+: lengthText ++ u := by
      intro h
      rcases List.prefix_or_prefix_of_prefix h (List.prefix_append lengthText u) with h | h
      · exact absurd h (by decide)
      · exact absurd h (by decide)
    have hat : markerAt (lengthText ++ u) = if u.takeWhile isDigit = [] then none
        else some (.length (u.takeWhile isDigit), u.dropWhile isDigit) := by
      rw [markerAt, if_neg ha, if_pos (List.prefix_append _ _)]
      simp
    -- the fixed text counts only with a digit behind it
    cases htw : u.takeWhile isDigit with
    | nil =>
      refine Or.inr (Or.inr (Or.inr ⟨by rw [hat, if_pos htw], ha, hty, ?_⟩))
      intro d u' hd h
      obtain rfl := List.append_cancel_left h
      simp [hd] at htw
    | cons d ds =>
      refine Or.inr (Or.inl ⟨d, ds, u.dropWhile isDigit, ?_, ?_, ?_, ?_⟩)
      · rw [← htw, List.takeWhile_append_dropWhile]
      · intro y hy
        rw [← htw] at hy
        exact List.mem_takeWhile_imp hy
      · intro y hy
        have := List.head?_dropWhile_not isDigit u
        rw [Option.mem_def] at hy
        rw [hy] at this
        simpa using this
      · rw [hat, if_neg (by rw [htw]; simp), htw]
  by_cases ht : typeText <+: v
  · obtain ⟨w, rfl⟩ := ht
    refine Or.inr (Or.inr (Or.inl ⟨w, rfl, ?_⟩))
    rw [markerAt, if_neg ha, if_neg hl, if_pos (List.prefix_append _ _)]
    simp
  · refine Or.inr (Or.inr (Or.inr ⟨?_, ha, ht, ?_⟩))
    · rw [markerAt, if_neg ha, if_neg hl, if_neg ht]
    · rintro d u _ rfl
      exact hl (List.prefix_append _ _)

/-- The symbols a marker can start with: `A` and `C`. -/
def markerHead (b : UInt8) : Bool := b == 65 || b == 67

theorem markerAt_head {x : UInt8} {xs : Bytes} (hx : markerHead x = false) :
    markerAt (x :: xs) = none := by
  rcases markerAt_cases (x :: xs) with ⟨w, h, _⟩ | ⟨d, ds, w, h, _⟩ | ⟨w, h, _⟩ | ⟨h, _⟩
  · have : x = 65 := (List.cons.inj h).1
    simp [markerHead, this] at hx
  · have : x = 67 := (List.cons.inj h).1
    simp [markerHead, this] at hx
  · have : x = 67 := (List.cons.inj h).1
    simp [markerHead, this] at hx
  · exact h

/-- Text without `A` and `C` holds no marker. -/
theorem markers_append {p : Bytes} (hp : ∀ x ∈ p, markerHead x = false) (w : Bytes) :
    markers (p ++ w) = markers w := by
  induction p with
  | nil => rfl
  | cons x xs ih =>
    rw [List.cons_append, markers, markerAt_head (hp x (by simp))]
    exact ih fun y hy => hp y (by simp [hy])

theorem markerHead_of_isDigit {d : UInt8} (hd : isDigit d) : markerHead d = false := by
  rw [Bool.eq_false_iff, ne_eq, markerHead, Bool.or_eq_true, beq_iff_eq, beq_iff_eq]
  rintro (rfl | rfl)
  · exact absurd hd (by decide)
  · exact absurd hd (by decide)

/-- The text of a marker; no other marker starts inside it. -/
theorem text_of_markerAt {v w : Bytes} {m : Marker} (h : markerAt v = some (m, w)) :
    ∃ x p, v = x :: p ++ w ∧ ∀ y ∈ p, markerHead y = false := by
  have hw : ∀ {m' w'}, markerAt v = some (m', w') → w' = w := by
    intro m' w' hm
    rw [hm, Option.some.injEq, Prod.mk.injEq] at h
    exact h.2
  -- the letters `A` and `C` occur in the fixed texts at the start only
  rcases markerAt_cases v with ⟨w', hv, hm⟩ | ⟨d, ds, w', hv, hd, _, hm⟩ | ⟨w', hv, hm⟩ | ⟨hm, _⟩
  · exact ⟨65, acceptText.tail, hw hm ▸ hv, by decide⟩
  · refine ⟨67, lengthText.tail ++ (d :: ds), ?_, ?_⟩
    · rw [← hw hm, hv]
      rfl
    · intro y hy
      rcases List.mem_append.mp hy with hy | hy
      · have htail : ∀ y ∈ lengthText.tail, markerHead y = false := by decide
        exact htail y hy
      · exact markerHead_of_isDigit (hd y hy)
  · exact ⟨67, typeText.tail, hw hm ▸ hv, by decide⟩
  · rw [hm] at h
    cases h

theorem suffix_of_markerAt {v w : Bytes} {m : Marker} (h : markerAt v = some (m, w)) :
    w <:+ v := by
  obtain ⟨x, p, rfl, _⟩ := text_of_markerAt h
  exact List.suffix_append _ _

/-- No marker starts inside a marker. -/
theorem markers_tail_of_markerAt {x : UInt8} {xs w : Bytes} {m : Marker}
    (h : markerAt (x :: xs) = some (m, w)) : markers xs = markers w := by
  obtain ⟨y, p, hv, hp⟩ := text_of_markerAt h
  obtain rfl : xs = p ++ w := (List.cons.inj hv).2
  exact markers_append hp w

theorem blank_cons_of_isDigit {d : UInt8} (hd : isDigit d) (u : Bytes) :
    Blank (d :: u) ↔ Blank u := by
  rw [Blank, List.infix_cons_iff, or_iff_right]
  · rfl
  · intro h
    obtain ⟨t, ht⟩ := h
    have : d = 13 := ((List.cons.inj ht).1).symm
    rw [this] at hd
    exact absurd hd (by decide)

/-- Only texts with a blank line ahead have markers. -/
theorem blank_of_markers : ∀ {u : Bytes}, markers u ≠ [] → Blank u
  | [], h => absurd rfl h
  | x :: xs, h => by
    rw [markers] at h
    split at h
    · next m w hm =>
      split at h
      · next hb => exact hb.trans (suffix_of_markerAt hm).isInfix
      · exact (blank_of_markers h).trans (List.suffix_cons x xs).isInfix
    · exact (blank_of_markers h).trans (List.suffix_cons x xs).isInfix

/-- A suffix has no more markers. -/
theorem markers_length_le {u v : Bytes} (h : u <:+ v) :
    (markers u).length ≤ (markers v).length := by
  induction v with
  | nil => simp [List.suffix_nil.mp h]
  | cons x xs ih =>
    rcases List.suffix_cons_iff.mp h with rfl | h
    · exact Nat.le_refl _
    · refine Nat.le_trans (ih h) ?_
      rw [markers]
      split
      · split
        · exact Nat.le_succ _
        · exact Nat.le_refl _
      · exact Nat.le_refl _

/-! ### Text behind the last blank line -/

/-- A blank line ends in a line feed, so text without one adds none. -/
theorem blank_append_iff {B : Bytes} (hB : (10 : UInt8) ∉ B) (u : Bytes) :
    Blank (u ++ B) ↔ Blank u := by
  induction B using List.reverseRecOn with
  | nil => rw [List.append_nil]
  | append_singleton B x ih =>
    have hx : x ≠ 10 := fun hx => hB (by simp [hx])
    rw [← ih fun h => hB (by simp [h]), ← List.append_assoc, Blank, List.infix_concat_iff,
      or_iff_right]
    · rfl
    · intro h'
      obtain ⟨t, ht⟩ := h'
      have h := congrArg List.getLast? ht
      rw [List.getLast?_append, List.getLast?_concat] at h
      exact hx (Option.some.inj h).symm

theorem markerAt_accept (w : Bytes) : markerAt (acceptText ++ w) = some (.accept, w) := by
  rw [markerAt, if_pos (List.prefix_append _ _), List.drop_left]

theorem not_accept_length (u : Bytes) : ¬ acceptText <+: lengthText ++ u :=
  not_prefix_append (by decide) (by decide) u

theorem markerAt_length {d : UInt8} {ds w : Bytes} (hd : ∀ y ∈ d :: ds, isDigit y)
    (hw : ∀ y ∈ w.head?, ¬ isDigit y) :
    markerAt (lengthText ++ (d :: ds ++ w)) = some (.length (d :: ds), w) := by
  rw [markerAt, if_neg (not_accept_length _), if_pos (List.prefix_append _ _)]
  have htake : (d :: ds ++ w).takeWhile isDigit = d :: ds := by
    rw [List.takeWhile_append_of_pos hd]
    cases w with
    | nil => simp
    | cons y ys => simp [hw y rfl]
  have hdrop : (d :: ds ++ w).dropWhile isDigit = w := by
    rw [List.dropWhile_append_of_pos hd]
    cases w with
    | nil => simp
    | cons y ys => simp [hw y rfl]
  simp only [List.drop_left, htake, hdrop]
  rw [if_neg (by simp)]

theorem markerAt_type (w : Bytes) : markerAt (typeText ++ w) = some (.type, w) := by
  rw [markerAt, if_neg (not_prefix_append (by decide) (by decide) w),
    if_neg (not_prefix_append (by decide) (by decide) w), if_pos (List.prefix_append _ _),
    List.drop_left]

/-- A marker stays one when text is added behind it. -/
theorem markerAt_append {v w : Bytes} {m : Marker} (h : markerAt v = some (m, w)) (hw : w ≠ [])
    (B : Bytes) : markerAt (v ++ B) = some (m, w ++ B) := by
  rcases markerAt_cases v with
    ⟨w', rfl, hm⟩ | ⟨d, ds, w', rfl, hd, hw', hm⟩ | ⟨w', rfl, hm⟩ | ⟨hm, _⟩
  · rw [hm] at h
    cases h
    rw [List.append_assoc, markerAt_accept]
  · rw [hm] at h
    cases h
    rw [List.append_assoc, List.append_assoc, markerAt_length hd]
    rw [List.head?_append_of_ne_nil _ hw]
    exact hw'
  · rw [hm] at h
    cases h
    rw [List.append_assoc, markerAt_type]
  · rw [hm] at h
    cases h

/-- A marker that a blank line follows lies in front of any text without
    line feeds that ends the whole. -/
theorem markerAt_of_append {v w' B : Bytes} {m : Marker} (hB : (10 : UInt8) ∉ B)
    (h : markerAt (v ++ B) = some (m, w')) (hb : Blank w') :
    ∃ w, w' = w ++ B ∧ markerAt v = some (m, w) := by
  -- the blank line cannot lie in `B`, so the marker ends in front of `B`
  have hlong : ∀ {p : Bytes}, v ++ B = p ++ w' → ∃ w, v = p ++ w ∧ w' = w ++ B ∧ w ≠ [] := by
    intro p hp
    rcases List.append_eq_append_iff.mp hp with ⟨p', rfl, rfl⟩ | ⟨w, rfl, hw⟩
    · have := (blank_append_iff hB []).mp (hb.trans (List.suffix_append p' w').isInfix)
      exact absurd this (by decide)
    · refine ⟨w, rfl, hw, ?_⟩
      rintro rfl
      rw [hw] at hb
      exact absurd ((blank_append_iff hB []).mp hb) (by decide)
  rcases markerAt_cases (v ++ B) with
    ⟨w₁, hv, hm⟩ | ⟨d, ds, w₁, hv, hd, hw₁, hm⟩ | ⟨w₁, hv, hm⟩ | ⟨hm, _⟩
  · rw [hm] at h
    cases h
    obtain ⟨w, rfl, rfl, _⟩ := hlong hv
    exact ⟨w, rfl, markerAt_accept w⟩
  · rw [hm] at h
    cases h
    rw [← List.append_assoc] at hv
    obtain ⟨w, rfl, rfl, hne⟩ := hlong hv
    rw [List.head?_append_of_ne_nil _ hne] at hw₁
    exact ⟨w, rfl, by rw [List.append_assoc, markerAt_length hd hw₁]⟩
  · rw [hm] at h
    cases h
    obtain ⟨w, rfl, rfl, _⟩ := hlong hv
    exact ⟨w, rfl, markerAt_type w⟩
  · rw [hm] at h
    cases h

theorem markers_cons {x : UInt8} {xs w : Bytes} {m : Marker}
    (hm : markerAt (x :: xs) = some (m, w)) (hb : Blank w) :
    markers (x :: xs) = m :: markers xs := by
  rw [markers, hm]
  dsimp only
  rw [if_pos hb]

theorem markers_cons_of_not {x : UInt8} {xs : Bytes}
    (h : ∀ m w, markerAt (x :: xs) = some (m, w) → ¬ Blank w) :
    markers (x :: xs) = markers xs := by
  rw [markers]
  split
  · next m w hm => rw [if_neg (h m w hm)]
  · rfl

/-- Text without line feeds behind the last blank line changes no marker. -/
theorem markers_append_body {B : Bytes} (hB : (10 : UInt8) ∉ B) (u : Bytes) :
    markers (u ++ B) = markers u := by
  induction u with
  | nil =>
    by_contra hne
    have := (blank_append_iff hB []).mp (blank_of_markers hne)
    exact absurd this (by decide)
  | cons x xs ih =>
    -- a marker counts with `B` behind the text exactly when it does without
    by_cases h : ∃ m w, markerAt (x :: xs) = some (m, w) ∧ Blank w
    · obtain ⟨m, w, hm, hb⟩ := h
      have hw : w ≠ [] := by
        rintro rfl
        exact absurd hb (by decide)
      have hm' : markerAt (x :: (xs ++ B)) = some (m, w ++ B) := markerAt_append hm hw B
      rw [markers_cons hm hb, List.cons_append,
        markers_cons hm' ((blank_append_iff hB w).mpr hb), ih]
    · rw [List.cons_append, markers_cons_of_not, markers_cons_of_not, ih]
      · exact fun m w hm hb => h ⟨m, w, hm, hb⟩
      · intro m w' hm hb
        obtain ⟨w, rfl, hw⟩ := markerAt_of_append (v := x :: xs) hB hm hb
        exact h ⟨m, w, hw, (blank_append_iff hB w).mp hb⟩

/-! ### What `http_json_POST` finds -/

/-- The part of `http_json_POST` behind the greedy `.*`, with `n` rounds. -/
def postRounds (n : Nat) : Pat := .seq (times n markerAlt) (.lookahead (lit crlf2))

/-- The captures left by `.*` and `n` rounds on the text `u`: those of the
    last `n` markers. -/
def tailCaps (n : Nat) (u : Bytes) (c : Caps UInt8 Group) : Option (Caps UInt8 Group) :=
  if n ≤ (markers u).length ∧ Blank u then
    some ((lastN n (markers u)).foldl record c)
  else none

theorem tailCaps_isDigit {d : UInt8} (hd : isDigit d) (n : Nat) (u : Bytes)
    (c : Caps UInt8 Group) : tailCaps n (d :: u) c = tailCaps n u c := by
  have hm : markers (d :: u) = markers u :=
    markers_append (p := [d]) (by simpa using markerHead_of_isDigit hd) u
  simp only [tailCaps, hm, blank_cons_of_isDigit hd]

/-- `tailCaps` succeeds or fails independently of the captures so far. -/
theorem tailCaps_eq_none_iff {n : Nat} {u : Bytes} {c : Caps UInt8 Group} :
    tailCaps n u c = none ↔ ¬ (n ≤ (markers u).length ∧ Blank u) := by
  rw [tailCaps]
  split <;> simp_all

/-- From the first round on, enough markers are all that is needed. -/
theorem tailCaps_succ (n : Nat) (u : Bytes) (c : Caps UInt8 Group) :
    tailCaps (n + 1) u c = if n + 1 ≤ (markers u).length then
      some ((lastN (n + 1) (markers u)).foldl record c) else none := by
  rw [tailCaps]
  by_cases h : n + 1 ≤ (markers u).length
  · have hne : markers u ≠ [] := by
      intro he
      rw [he] at h
      cases h
    rw [if_pos h, if_pos ⟨h, blank_of_markers hne⟩]
  · rw [if_neg h, if_neg fun h' => h h'.1]

theorem tailCaps_append_body {B : Bytes} (hB : (10 : UInt8) ∉ B) (n : Nat) (u : Bytes)
    (c : Caps UInt8 Group) : tailCaps n (u ++ B) c = tailCaps n u c := by
  simp only [tailCaps, markers_append_body hB, blank_append_iff hB]

/-- Markers leave the path alone. -/
theorem tailCaps_uri {n : Nat} {u : Bytes} {c c' : Caps UInt8 Group}
    (h : tailCaps n u c = some c') : c' .http_URI = c .http_URI := by
  have hfold : ∀ (l : List Marker) (c : Caps UInt8 Group),
      l.foldl record c .http_URI = c .http_URI := by
    intro l
    induction l with
    | nil => exact fun c => rfl
    | cons m l ih =>
      intro c
      rw [List.foldl_cons, ih]
      cases m with
      | length ds => exact setCap_ne _ _ (by decide)
      | accept => rfl
      | type => rfl
  rw [tailCaps] at h
  split at h
  · cases h
    exact hfold _ _
  · cases h

/-- One round: the marker at the head of the text is recorded, the
    remaining rounds work on the text behind it. -/
theorem run_postRounds_succ {n : Nat}
    (ih : ∀ (u b : Bytes) (c : Caps UInt8 Group),
      (run (.seq anyStar (postRounds n)) ⟨b, u, c⟩).map Thread.caps = tailCaps n u c)
    (v b : Bytes) (c : Caps UInt8 Group) :
    (run (postRounds (n + 1)) ⟨b, v, c⟩).map Thread.caps =
      (markerAt v).bind fun mw => tailCaps n mw.2 (record c mw.1) := by
  have hround : run (postRounds (n + 1)) ⟨b, v, c⟩ =
      (run (.seq (lit acceptText) (.seq anyStar (postRounds n))) ⟨b, v, c⟩).or
        ((run (.seq (lit lengthText) (.seq (.group .http_length (plus isDigit))
            (.seq anyStar (postRounds n)))) ⟨b, v, c⟩).or
          (run (.seq (lit typeText) (.seq anyStar (postRounds n))) ⟨b, v, c⟩)) := by
    rw [postRounds, times, run_seq_assoc, markerAlt, run_alt_seq, run_alt_seq, run_seq_assoc,
      run_seq_assoc, run_seq_assoc, run_seq_assoc]
    rfl
  rw [hround]
  -- the fixed texts exclude one another, so at most one alternative is alive
  rcases markerAt_cases v with ⟨w, rfl, hm⟩ | ⟨d, ds, w, rfl, hd, hw, hm⟩ | ⟨w, rfl, hm⟩ |
    ⟨hm, hA, hT, hL⟩
  · -- Accept
    rw [run_lit_seq_none (w := lengthText) (not_prefix_append (by decide) (by decide) w),
      run_lit_seq_none (w := typeText) (not_prefix_append (by decide) (by decide) w),
      run_lit_seq, hm]
    simp only [Option.or_none, ih]
    rfl
  · -- Content-Length
    have hgroup := run_group_run_seq (k := Group.http_length) (r := .seq anyStar (postRounds n))
      (p := isDigit) (q := isDigit) (x := d) (w := ds) (u := w) (lengthText.reverse ++ b) c
      (hd d (by simp)) (fun y hy => hd y (by simp [hy])) hw
    rw [run_lit_seq_none (w := acceptText) (not_prefix_append (by decide) (by decide) _),
      run_lit_seq_none (w := typeText) (not_prefix_append (by decide) (by decide) _),
      run_lit_seq, hm, plus, hgroup]
    · simp only [Option.none_or, Option.or_none, ih]
      rfl
    · -- fewer digits leave digits in front, which changes nothing
      intro hnone y v' b' c' _ hsuf
      have hall : ∀ (e : Bytes), (∀ z ∈ e, isDigit z) → tailCaps n (e ++ w) c' = none := by
        intro e he
        induction e with
        | nil =>
          have h := congrArg (Option.map Thread.caps) hnone
          rw [ih, Option.map_none, tailCaps_eq_none_iff] at h
          exact tailCaps_eq_none_iff.mpr h
        | cons z zs ihz =>
          rw [List.cons_append, tailCaps_isDigit (he z (by simp))]
          exact ihz fun z' hz' => he z' (by simp [hz'])
      have h := ih (y :: v' ++ w) b' c'
      rw [hall (y :: v') fun z hz => hd z (List.mem_cons_of_mem _ (hsuf.mem hz)),
        Option.map_eq_none_iff] at h
      exact h
  · -- Content-Type
    rw [run_lit_seq_none (w := acceptText) (not_prefix_append (by decide) (by decide) w),
      run_lit_seq_none (w := lengthText) (not_prefix_append (by decide) (by decide) w),
      run_lit_seq, hm]
    simp only [Option.none_or, ih]
    rfl
  · have hlen : run (.seq (lit lengthText) (.seq (.group .http_length (plus isDigit))
        (.seq anyStar (postRounds n)))) ⟨b, v, c⟩ = none := by
      by_cases hp : lengthText <+: v
      · obtain ⟨u, rfl⟩ := hp
        rw [run_lit_seq, plus, run_group_run_seq_none]
        intro y hy hd
        cases u with
        | nil => cases hy
        | cons z zs =>
          obtain rfl : z = y := by simpa using hy
          exact hL z zs hd rfl
      · exact run_lit_seq_none hp _
    rw [run_lit_seq_none hA, run_lit_seq_none (w := typeText) hT, hlen, hm]
    rfl

/-- The last `n + 1` elements of a list with more than `n + 1` of them. -/
theorem lastN_cons {α : Type} {n : Nat} {x : α} {l : List α} (h : n ≤ l.length) :
    lastN n (x :: l) = lastN n l := by
  rw [lastN, lastN, List.length_cons, Nat.succ_sub h, List.drop_succ_cons]

theorem lastN_length {α : Type} (l : List α) : lastN l.length l = l := by
  rw [lastN, Nat.sub_self, List.drop_zero]

/-- The greedy `.*` and `n` rounds pick the last `n` markers. The outer
    induction is on the rounds, the inner one on the text: a later start of
    the first round is preferred. -/
theorem run_postRounds (n : Nat) : ∀ (u b : Bytes) (c : Caps UInt8 Group),
    (run (.seq anyStar (postRounds n)) ⟨b, u, c⟩).map Thread.caps = tailCaps n u c := by
  induction n with
  | zero =>
    intro u b c
    have heps : run (.seq anyStar (postRounds 0)) ⟨b, u, c⟩ =
        run (.seq anyStar (.lookahead (lit crlf2))) ⟨b, u, c⟩ := by
      rw [run_seq, run_seq]
      congr 1
      funext t
      exact run_eps_seq _ t
    rw [heps, tailCaps]
    rcases run_anyStar_lookahead (w := crlf2) (by decide) u b c with ⟨h, hn⟩ | ⟨t, h, hc, _, hb⟩
    · rw [h, if_neg fun hb => hn hb.2]
      rfl
    · rw [h, if_pos ⟨Nat.zero_le _, hb⟩]
      simp [hc, lastN]
  | succ n ih =>
    intro u
    induction u with
    | nil =>
      intro b c
      rw [run_anyStar_seq_nil, run_postRounds_succ ih]
      rfl
    | cons x xs ihu =>
      intro b c
      -- a later start wins; the start here is asked when the text behind has
      -- too few markers
      rw [run_anyStar_seq_cons, Option.map_or, ihu, run_postRounds_succ ih, tailCaps_succ,
        tailCaps_succ, markers]
      cases hm : markerAt (x :: xs) with
      | none => rw [Option.bind_none, Option.or_none]
      | some mw =>
        obtain ⟨m, w⟩ := mw
        have hxs : markers xs = markers w := markers_tail_of_markerAt hm
        simp only [Option.bind_some, tailCaps]
        by_cases hb : Blank w
        · by_cases hmany : n + 1 ≤ (markers xs).length
          · rw [if_pos hmany, Option.some_or, if_pos hb, if_pos (by simp; omega),
              lastN_cons hmany]
          · rw [if_neg hmany, Option.none_or, if_pos hb]
            by_cases hn : n ≤ (markers w).length
            · -- exactly `n` markers follow, and this one completes the rounds
              have heq : n = (markers xs).length := by rw [hxs] at hmany ⊢; omega
              rw [if_pos ⟨hn, hb⟩, if_pos (by simp; omega), ← hxs]
              conv_lhs => rw [heq, lastN_length]
              conv_rhs => rw [heq, show (markers xs).length + 1 = (m :: markers xs).length
                from rfl, lastN_length]
              rfl
            · rw [if_neg fun h => hn h.1, if_neg (by rw [hxs]; simp; omega)]
        · have hfail : ¬ (n ≤ (markers w).length ∧ Blank w) := fun h => hb h.2
          rw [if_neg hb, if_neg hfail, Option.or_none]

/-- What `http_json_POST` finds in a request that starts with a request
    line: the path, and the captures of the last three markers. -/
theorem http_json_POST_match (t : Target) (rest : Bytes) :
    (matchFirst http_json_POST (ascii "POST " ++ (t.line ++ rest))).map Thread.caps =
      tailCaps 3 rest (setCap (fun _ => none) .http_URI t.bytes) := by
  have hpat : http_json_POST = afterMethod (ascii "POST ") (.seq anyStar (postRounds 3)) := rfl
  rw [hpat, matchFirst_afterMethod, run_postRounds]
  -- a later start has a suffix of the text, and no more markers in it
  intro hnone rest' b c hsuf
  have hfew := congrArg (Option.map Thread.caps) hnone
  rw [run_postRounds, Option.map_none, tailCaps_eq_none_iff] at hfew
  rw [← Option.map_eq_none_iff (f := Thread.caps), run_postRounds, tailCaps_eq_none_iff]
  intro h
  obtain ⟨hmany, hb⟩ := h
  exact hfew ⟨Nat.le_trans hmany (markers_length_le hsuf), hb.trans hsuf.isInfix⟩

end Http
