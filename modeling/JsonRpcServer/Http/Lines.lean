import JsonRpcServer.Http.Markers

/-! # Lines and `http_html_GET`

  The lines of a header section, and what `http_html_GET` finds in a
  request that consists of such lines.

  * A header section has its only blank line at its end
    (`headerText_blank`).
  * The markers of a line are those in its own text (`markers_line`).
  * `http_html_GET` matches exactly when a header line ends in
    `Connection: ` and a text without blanks (`http_html_GET_match`).
-/

namespace Http

open Bytes Regex

/-- The text of a line, without its line end. -/
def LineText (l : Bytes) : Prop := l ≠ [] ∧ ∀ b ∈ l, b ≠ 13 ∧ b ≠ 10 ∧ b ≠ 0

instance (l : Bytes) : Decidable (LineText l) := inferInstanceAs (Decidable (_ ∧ _))

/-- Lines with their line ends, and the empty line behind them. -/
def headerText (lines : List Bytes) : Bytes := (lines.map (· ++ crlf)).flatten ++ crlf

theorem headerText_nil : headerText [] = [13, 10] := by decide

theorem headerText_cons (l : Bytes) (lines : List Bytes) :
    headerText (l :: lines) = l ++ 13 :: 10 :: headerText lines := by
  simp [headerText, crlf, ascii]

/-- A carriage return in a line-structured text is the end of the first line
    or lies in the lines behind it. -/
theorem cut_headerText {l a y : Bytes} {lines : List Bytes} (hl : (13 : UInt8) ∉ l)
    (h : headerText (l :: lines) = a ++ 13 :: y) :
    (a = l ∧ y = 10 :: headerText lines) ∨
      ∃ a', a = l ++ 13 :: a' ∧ 10 :: headerText lines = a' ++ 13 :: y := by
  rw [headerText_cons] at h
  rcases List.append_eq_append_iff.mp h with ⟨z, rfl, hz⟩ | ⟨z, rfl, hz⟩
  · cases z with
    | nil => exact Or.inl ⟨(List.append_nil l), ((List.cons.inj hz).2).symm⟩
    | cons d z =>
      obtain ⟨rfl, hz'⟩ := List.cons.inj hz
      exact Or.inr ⟨z, rfl, hz'⟩
  · cases z with
    | nil => exact Or.inl ⟨(List.append_nil a).symm, (List.cons.inj hz).2⟩
    | cons d z =>
      obtain ⟨rfl, _⟩ := List.cons.inj hz
      exact absurd (by simp) hl

/-- The blank line of a header section is at its end. -/
theorem headerText_blank {lines : List Bytes} (hlines : ∀ l ∈ lines, LineText l) {a z : Bytes}
    (h : headerText lines = a ++ (crlf2 ++ z)) : z = [] := by
  have hcrlf2 : ∀ z : Bytes, crlf2 ++ z = 13 :: 10 :: 13 :: 10 :: z := fun _ => rfl
  rw [hcrlf2] at h
  induction lines generalizing a with
  | nil =>
    have := congrArg List.length h
    rw [headerText_nil] at this
    simp at this
    omega
  | cons l lines ih =>
    have hl : (13 : UInt8) ∉ l := fun hm => ((hlines l (by simp)).2 13 hm).1 rfl
    have ih := @ih fun l' hl' => hlines l' (by simp [hl'])
    -- the first line end is that of `l`, or the blank line lies behind it
    rcases cut_headerText hl h with ⟨_, hy⟩ | ⟨a', _, ha'⟩
    · -- the blank line starts at the end of this line, which is the last
      have hy' : 13 :: 10 :: z = headerText lines := (List.cons.inj hy).2
      cases lines with
      | nil => simpa [headerText_nil] using hy'
      | cons l' lines =>
        have hl' := hlines l' (by simp)
        rw [headerText_cons] at hy'
        cases l' with
        | nil => exact absurd rfl hl'.1
        | cons b bs => exact absurd ((List.cons.inj hy').1).symm (hl'.2 b (by simp)).1
    · cases a' with
      | nil => exact absurd (List.cons.inj ha').1 (by decide)
      | cons b a' => exact ih (List.cons.inj ha').2

/-- With a line in front, the last line end completes the blank line. -/
theorem blank_headerText {lines : List Bytes} (h : lines ≠ []) : Blank (headerText lines) := by
  obtain ⟨init, l, rfl⟩ : ∃ init l, lines = init ++ [l] :=
    ⟨lines.dropLast, lines.getLast h, (List.dropLast_append_getLast h).symm⟩
  refine List.IsSuffix.isInfix ⟨(init.map (· ++ crlf)).flatten ++ l, ?_⟩
  simp [headerText, crlf2, crlf, ascii]

/-- A text without line ends that stands in front of a line end is the end
    of a line. -/
theorem suffix_line_of_headerText {lines : List Bytes} (hlines : ∀ l ∈ lines, LineText l)
    {a p y : Bytes} (hp : p ≠ []) (hp' : ∀ b ∈ p, b ≠ 13 ∧ b ≠ 10)
    (h : headerText lines = a ++ (p ++ 13 :: y)) : ∃ l ∈ lines, p <:+ l := by
  rw [← List.append_assoc] at h
  induction lines generalizing a with
  | nil =>
    rw [headerText_nil] at h
    have hlen := congrArg List.length h
    have hpos := List.length_pos_iff.mpr hp
    simp only [List.length_append, List.length_cons, List.length_nil] at hlen
    obtain rfl : a = [] := List.eq_nil_of_length_eq_zero (by omega)
    cases p with
    | nil => exact absurd rfl hp
    | cons b p => exact absurd ((List.cons.inj h).1).symm (hp' b (by simp)).1
  | cons l lines ih =>
    have hl : (13 : UInt8) ∉ l := fun hm => ((hlines l (by simp)).2 13 hm).1 rfl
    have ih := @ih fun l' hl' => hlines l' (by simp [hl'])
    rcases cut_headerText hl h with ⟨hap, _⟩ | ⟨w, hap, hw⟩
    · exact ⟨l, by simp, a, hap⟩
    · -- the line end in front of `w` lies in `a`
      rcases List.append_eq_append_iff.mp hap with ⟨q, rfl, hq⟩ | ⟨q, rfl, hq⟩
      · have : (13 : UInt8) ∈ p := by simp [hq]
        exact absurd rfl (hp' 13 this).1
      · cases q with
        | nil =>
          obtain rfl : 13 :: w = p := hq
          exact absurd rfl (hp' 13 (by simp)).1
        | cons d q =>
          obtain ⟨rfl, rfl⟩ := List.cons.inj hq
          cases q with
          | nil =>
            cases p with
            | nil => exact absurd rfl hp
            | cons b p => exact absurd ((List.cons.inj hw).1).symm (hp' b (by simp)).2
          | cons d q =>
            obtain ⟨l', hl', hsuf⟩ := ih (List.cons.inj hw).2
            exact ⟨l', by simp [hl'], hsuf⟩

/-! ### Markers in lines -/

/-- All marker texts that occur in a text, in order. -/
def occurrences : Bytes → List Marker
  | [] => []
  | x :: xs =>
      match markerAt (x :: xs) with
      | some (m, _) => m :: occurrences xs
      | none => occurrences xs

/-- The marker texts in a line. That of `Accept` includes the line end. -/
def lineTexts (l : Bytes) : List Marker := occurrences (l ++ crlf)

/-- A marker in a line that `w` follows has a blank line behind it. -/
def counts (w : Bytes) : Marker → Bool
  | .accept => decide (Blank w)
  | .length _ | .type => decide (Blank (crlf ++ w))

theorem acceptText_eq : acceptText = ascii "Accept: application/json-rpc 2.0" ++ crlf := by decide

/-- A text without line ends at the head of a line and what follows it lies
    in the line. -/
theorem prefix_line {p l y : Bytes} (hp : (13 : UInt8) ∉ p) (h : p <+: l ++ 13 :: y) : p <+: l := by
  obtain ⟨z, hz⟩ := h
  rcases List.append_eq_append_iff.mp hz with ⟨q, rfl, _⟩ | ⟨q, rfl, hq⟩
  · exact List.prefix_append _ _
  · cases q with
    | nil => exact (List.append_nil l).symm ▸ List.prefix_rfl
    | cons d q =>
      obtain ⟨rfl, _⟩ := List.cons.inj hq
      exact absurd (by simp) hp

/-- The blank line behind a line does not start in it. -/
theorem blank_line {l : Bytes} (hl : (13 : UInt8) ∉ l) (w : Bytes) :
    Blank (l ++ w) ↔ Blank w := by
  induction l with
  | nil => rfl
  | cons x xs ih =>
    rw [← ih fun hx => hl (List.mem_cons_of_mem x hx), List.cons_append, Blank,
      List.infix_cons_iff, or_iff_right]
    · rfl
    · rintro ⟨t, ht⟩
      obtain rfl : 13 = x := (List.cons.inj ht).1
      exact hl List.mem_cons_self

/-- `Accept` is found at the end of a line only. -/
theorem line_of_accept {v y w : Bytes} (hv : (13 : UInt8) ∉ v)
    (h : v ++ 13 :: y = acceptText ++ w) : v = ascii "Accept: application/json-rpc 2.0" := by
  rw [acceptText_eq, List.append_assoc] at h
  obtain ⟨q, rfl⟩ : ascii "Accept: application/json-rpc 2.0" <+: v :=
    prefix_line (by decide) ⟨_, h.symm⟩
  rw [List.append_assoc, List.append_cancel_left_eq] at h
  cases q with
  | nil => exact List.append_nil _
  | cons b q =>
    obtain rfl : b = 13 := (List.cons.inj h).1
    exact absurd (by simp) hv

/-- Whether a marker stands at the head of a line does not depend on what
    follows the line. -/
theorem markerAt_line {v : Bytes} (hv : (13 : UInt8) ∉ v) :
    (markerAt (v ++ crlf) = none ∧ ∀ w, markerAt (v ++ (crlf ++ w)) = none) ∨
      ∃ m u, markerAt (v ++ crlf) = some (m, u) ∧
        ∀ w, markerAt (v ++ (crlf ++ w)) = some (m, u ++ w) ∧
          (Blank (u ++ w) ↔ counts w m = true) := by
  have hdigits : ∀ {ds : Bytes}, (∀ d ∈ ds, isDigit d) → (13 : UInt8) ∉ lengthText ++ ds := by
    intro ds hds hmem
    rcases List.mem_append.mp hmem with hmem | hmem
    · exact absurd hmem (by decide)
    · exact absurd (hds 13 hmem) (by decide)
  -- what follows a text of the line is the rest of the line
  have hrest : ∀ {p w : Bytes}, (13 : UInt8) ∉ p → v ++ crlf = p ++ w →
      ∃ l, (13 : UInt8) ∉ l ∧ w = l ++ crlf := by
    intro p w hp h
    obtain ⟨l, rfl⟩ : p <+: v := prefix_line hp (y := [10]) ⟨w, h.symm⟩
    rw [List.append_assoc, List.append_cancel_left_eq] at h
    exact ⟨l, fun hl => hv (List.mem_append_right p hl), h.symm⟩
  have hbehind : ∀ {p w : Bytes} {m : Marker}, (13 : UInt8) ∉ p → v ++ crlf = p ++ w →
      m ≠ .accept → markerAt (v ++ crlf) = some (m, w) → ∀ w₁,
        markerAt (v ++ (crlf ++ w₁)) = some (m, w ++ w₁) ∧
          (Blank (w ++ w₁) ↔ counts w₁ m = true) := by
    intro p w m hp h hne hm w₁
    obtain ⟨l, hl, rfl⟩ := hrest hp h
    have hcounts : counts w₁ m = decide (Blank (crlf ++ w₁)) := by
      cases m with
      | accept => exact absurd rfl hne
      | length _ | type => rfl
    constructor
    · rw [← List.append_assoc]
      exact markerAt_append hm (by simp [crlf, ascii]) w₁
    · rw [hcounts, decide_eq_true_iff, List.append_assoc]
      exact blank_line hl _
  rcases markerAt_cases (v ++ crlf) with
    ⟨w, hw, hm⟩ | ⟨d, ds, w, hw, hd, hhead, hm⟩ | ⟨w, hw, hm⟩ | ⟨hm, haccept, htype, hlength⟩
  · obtain rfl : v = ascii "Accept: application/json-rpc 2.0" := line_of_accept hv hw
    rw [← acceptText_eq] at hw hm
    obtain rfl : w = [] := by simpa using hw
    refine Or.inr ⟨.accept, [], by rw [← acceptText_eq]; exact hm, fun w => ⟨?_, ?_⟩⟩
    · rw [← List.append_assoc, ← acceptText_eq]
      exact markerAt_accept w
    · exact decide_eq_true_iff.symm
  · rw [← List.append_assoc] at hw
    exact Or.inr ⟨.length (d :: ds), w, hm, hbehind (hdigits hd) hw (by simp) hm⟩
  · exact Or.inr ⟨.type, w, hm, hbehind (by decide) hw (by simp) hm⟩
  · -- a marker with more text behind the line would be one of the line
    refine Or.inl ⟨hm, fun w₁ => ?_⟩
    rcases markerAt_cases (v ++ (crlf ++ w₁)) with
      ⟨w, hw, _⟩ | ⟨d, ds, w, hw, hd, _⟩ | ⟨w, hw, _⟩ | ⟨hnone, _⟩
    · obtain rfl := line_of_accept hv hw
      exact absurd (acceptText_eq ▸ List.prefix_rfl) haccept
    · obtain ⟨q, rfl⟩ : lengthText ++ d :: ds <+: v :=
        prefix_line (hdigits hd) (y := 10 :: w₁)
          ⟨w, (List.append_assoc _ _ w).trans hw.symm⟩
      refine absurd ?_ (hlength d (ds ++ q ++ crlf) (hd d List.mem_cons_self))
      simp
    · have hline : typeText <+: v := prefix_line (by decide) (y := 10 :: w₁) ⟨w, hw.symm⟩
      exact absurd (hline.trans (List.prefix_append v crlf)) htype
    · exact hnone

/-- The markers of a line, and those behind it. -/
theorem markers_line {l : Bytes} (hl : (13 : UInt8) ∉ l) (w : Bytes) :
    markers (l ++ (crlf ++ w)) = (lineTexts l).filter (counts w) ++ markers w := by
  unfold lineTexts
  induction l with
  | nil => exact markers_append (p := crlf) (by decide) w
  | cons x xs ih =>
    have ih := ih fun hx => hl (List.mem_cons_of_mem x hx)
    rcases markerAt_line hl with ⟨hnone, hlong⟩ | ⟨m, u, hm, hlong⟩
    · -- no marker begins here, with or without what follows
      have hshort : occurrences (x :: xs ++ crlf) = occurrences (xs ++ crlf) := by
        rw [List.cons_append, occurrences]
        rw [List.cons_append] at hnone
        rw [hnone]
      rw [hshort, ← ih, List.cons_append, markers_cons_of_not]
      intro m u hm
      rw [← List.cons_append, hlong w] at hm
      cases hm
    · have hshort : occurrences (x :: xs ++ crlf) = m :: occurrences (xs ++ crlf) := by
        rw [List.cons_append, occurrences]
        rw [List.cons_append] at hm
        rw [hm]
      obtain ⟨hat, hblank⟩ := hlong w
      rw [hshort, List.filter_cons]
      by_cases hcounts : counts w m = true
      · rw [if_pos hcounts, List.cons_append, List.cons_append, ← ih]
        exact markers_cons hat (hblank.mpr hcounts)
      · -- a marker without a blank line behind it is none
        rw [if_neg hcounts, ← ih, List.cons_append]
        apply markers_cons_of_not
        intro m' u' hm' hb
        have heq := hm'.symm.trans hat
        cases heq
        exact hcounts (hblank.mp hb)

/-! ### What `http_html_GET` finds -/

/-- The fixed text in front of the value of the `Connection` header. -/
def connectionText : Bytes := ascii "Connection: "

/-- A line that ends in `Connection: ` and a text without blanks. -/
def ConnectionLine (l : Bytes) : Prop :=
  ∃ v, v ≠ [] ∧ (∀ b ∈ v, nonSpace b) ∧ connectionText ++ v <:+ l

/-- The lines behind the value of the `Connection` header. -/
def moreLines : Pat := .star (.seq (lit crlf) (.star (.sym fun b => !(b == 13 || b == 10))))

/-- The part of `http_html_GET` behind the request line. -/
def getTail : Pat :=
  .seq anyStar (.seq (lit connectionText) (.seq (.group .http_connection (plus nonSpace))
    (.seq moreLines (.lookahead (lit crlf2)))))

theorem http_html_GET_eq : http_html_GET = afterMethod (ascii "GET ") getTail := rfl

/-- Symbols that are no blanks end no line. -/
theorem nonSpace_ne_cr {b : UInt8} (h : nonSpace b) : b ≠ 13 := by
  rintro rfl
  exact absurd h (by decide)

/-- A line end follows wherever the rest of the lines starts. -/
theorem cr_of_run_moreLines {t t' : Thread UInt8 Group}
    (h : run (.seq moreLines (.lookahead (lit crlf2))) t = some t') :
    ∃ y, t.rest = 13 :: y := by
  obtain ⟨t₁, h₁, h⟩ := exists_of_run_seq h
  have hahead : crlf2 <+: t₁.rest := by
    rw [run_lookahead_lit, Option.ite_none_right_eq_some] at h
    exact h.1
  rw [moreLines, outs_star, rounds_succ, List.mem_append, List.mem_singleton,
    List.mem_flatMap] at h₁
  rcases h₁ with ⟨t₂, h₂, _⟩ | rfl
  · obtain ⟨t₃, h₃, _⟩ := mem_outs_seq.mp h₂
    rcases outs_lit crlf t with ⟨u, hu, _⟩ | ⟨_, ho⟩
    · exact ⟨10 :: u, hu⟩
    · rw [ho] at h₃
      cases h₃
  · obtain ⟨u, hu⟩ := hahead
    exact ⟨10 :: 13 :: 10 :: u, hu.symm⟩

/-- A success finds a connection line. -/
theorem connectionLine_of_run_getTail {lines : List Bytes} (hlines : ∀ l ∈ lines, LineText l)
    {rest b : Bytes} (hrest : rest <:+ headerText lines) {c : Caps UInt8 Group}
    {t' : Thread UInt8 Group} (h : run getTail ⟨b, rest, c⟩ = some t') :
    ∃ l ∈ lines, ConnectionLine l := by
  obtain ⟨pre, hpre⟩ := hrest
  rw [getTail] at h
  obtain ⟨t₁, h₁, h⟩ := exists_of_run_seq h
  obtain ⟨w, hw, _⟩ := ahead_of_mem_outs _ _ _ h₁
  obtain ⟨u, hu, h⟩ := lit_of_run_seq h
  obtain ⟨t₂, h₂, h⟩ := exists_of_run_seq h
  obtain ⟨y, hy⟩ := cr_of_run_moreLines h
  obtain ⟨v, hv, hv', hvu⟩ : ∃ v, v ≠ [] ∧ (∀ b ∈ v, nonSpace b) ∧ u = v ++ t₂.rest := by
    obtain ⟨x, v, hxv, hx, hv, _⟩ := mem_outs_group_run h₂
    exact ⟨x :: v, by simp, List.forall_mem_cons.mpr ⟨hx, hv⟩, hxv⟩
  -- the fixed text and the value end a line, as a line end follows them
  have htext : headerText lines = pre ++ w ++ ((connectionText ++ v) ++ 13 :: y) := by
    rw [← hpre, show rest = w ++ t₁.rest from hw, hu, hvu, hy]
    simp
  have hne : connectionText ++ v ≠ [] := by simp [hv]
  have hchars : ∀ b ∈ connectionText ++ v, b ≠ 13 ∧ b ≠ 10 := by
    intro b hb
    rcases List.mem_append.mp hb with hb | hb
    · have : ∀ b ∈ connectionText, b ≠ 13 ∧ b ≠ 10 := by decide
      exact this b hb
    · exact ⟨nonSpace_ne_cr (hv' b hb), nonSpace_ne_lf (hv' b hb)⟩
  obtain ⟨l, hl, hsuf⟩ := suffix_line_of_headerText hlines hne hchars htext
  exact ⟨l, hl, v, hv, hv', hsuf⟩

/-- The lines behind the value can all be passed. -/
theorem run_moreLines_isSome : ∀ {lines : List Bytes}, (∀ l ∈ lines, LineText l) →
    ∀ (b : Bytes) (c : Caps UInt8 Group),
      ∃ t₁ ∈ outs moreLines ⟨b, 13 :: 10 :: headerText lines, c⟩, t₁.rest = crlf2
  | [], _, b, c => ⟨_, mem_outs_star_self _ _, rfl⟩
  | l :: lines, hlines, b, c => by
    have hl := hlines l (by simp)
    have hline : ∀ x ∈ l, (fun b : UInt8 => !(b == 13 || b == 10)) x := by
      intro x hx
      simp [hl.2 x hx]
    -- the lines behind this one are passed by induction
    obtain ⟨t₁, h₁, hrest⟩ := run_moreLines_isSome
      (fun l' hl' => hlines l' (List.mem_cons_of_mem _ hl')) (l.reverse ++ (crlf.reverse ++ b)) c
    refine ⟨t₁, ?_, hrest⟩
    refine mem_outs_star_step ?_ ?_ h₁
    · refine mem_outs_seq.mpr ⟨⟨crlf.reverse ++ b, l ++ 13 :: 10 :: headerText lines, c⟩, ?_,
        mem_outs_star_sym_run _ c l _ hline⟩
      rw [headerText_cons]
      exact mem_outs_lit crlf _ b c
    · rw [headerText_cons]
      simp
      omega

/-- A connection line makes it succeed. -/
theorem run_getTail_isSome {lines : List Bytes} (hlines : ∀ l ∈ lines, LineText l)
    {l : Bytes} (hl : l ∈ lines) (hconn : ConnectionLine l) (b : Bytes) (c : Caps UInt8 Group) :
    (run getTail ⟨b, headerText lines, c⟩).isSome := by
  obtain ⟨v, hv, hv', w, rfl⟩ := hconn
  obtain ⟨before, after, rfl⟩ := List.append_of_mem hl
  -- `.*` is made to stop in front of the fixed text of the line
  have htext : headerText (before ++ (w ++ (connectionText ++ v)) :: after) =
      (before.map (· ++ crlf)).flatten ++ w ++
        (connectionText ++ (v ++ 13 :: 10 :: headerText after)) := by
    simp [headerText, crlf, ascii]
  rw [htext, getTail]
  refine run_seq_isSome (mem_outs_anyStar _ c _ b) ?_
  rw [run_lit_seq]
  cases v with
  | nil => exact absurd rfl hv
  | cons x v =>
    have hafter : ∀ l ∈ after, LineText l := fun l' hl' => hlines l' (by simp [hl'])
    have hmore : ∀ b c, (run (.seq moreLines (.lookahead (lit crlf2)))
        ⟨b, 13 :: 10 :: headerText after, c⟩).isSome := by
      intro b c
      obtain ⟨t₁, h₁, hrest⟩ := run_moreLines_isSome hafter b c
      refine run_seq_isSome h₁ ?_
      rw [run_lookahead_lit, hrest, if_pos List.prefix_rfl]
      rfl
    have hend : ∀ y ∈ (13 :: 10 :: headerText after).head?, ¬ nonSpace y := by
      intro y hy
      obtain rfl : 13 = y := Option.some.inj hy
      decide
    rw [plus, run_group_run_seq _ c (hv' x (by simp)) (fun y hy => hv' y (by simp [hy])) hend]
    · exact hmore _ _
    · intro hnone
      have := hmore ((x :: v).reverse ++ (connectionText.reverse ++
        (((before.map (· ++ crlf)).flatten ++ w).reverse ++ b)))
        (setCap c .http_connection (x :: v))
      rw [hnone] at this
      cases this

/-- **The `Connection` header**: `http_html_GET` matches a request exactly
    when one of its lines is a connection line, and then finds the path of
    the request. -/
theorem http_html_GET_match (t : Target) {lines : List Bytes}
    (hlines : ∀ l ∈ lines, LineText l) :
    (∃ t', matchFirst http_html_GET (ascii "GET " ++ (t.line ++ headerText lines)) = some t' ∧
        captured t' .http_URI = t.bytes ∧ ∃ l ∈ lines, ConnectionLine l) ∨
      (matchFirst http_html_GET (ascii "GET " ++ (t.line ++ headerText lines)) = none ∧
        ¬ ∃ l ∈ lines, ConnectionLine l) := by
  have hfirst := matchFirst_afterMethod (ascii "GET ") t (headerText lines) getTail
  rw [http_html_GET_eq]
  by_cases hconn : ∃ l ∈ lines, ConnectionLine l
  · obtain ⟨l, hl, hc⟩ := hconn
    obtain ⟨t', ht'⟩ := Option.isSome_iff_exists.mp (run_getTail_isSome hlines hl hc
      (t.line.reverse ++ (ascii "GET ").reverse) (setCap (fun _ => none) .http_URI t.bytes))
    refine Or.inl ⟨t', ?_, ?_, l, hl, hc⟩
    · rw [hfirst, ht']
      intro hnone
      rw [hnone] at ht'
      cases ht'
    · have huri := caps_of_mem_outs (k := Group.http_URI) getTail
        (by simp [getTail, Captures, anyStar, plus, moreLines]) _ t' (List.mem_of_head? ht')
      rw [captured, ← huri]
      dsimp only
      rw [setCap_self, Option.getD_some]
  · -- a match from any place of the headers needs a connection line
    have hnone : ∀ rest b c, rest <:+ headerText lines → run getTail ⟨b, rest, c⟩ = none := by
      intro rest b c hrest
      cases h : run getTail ⟨b, rest, c⟩ with
      | none => rfl
      | some t' => exact absurd (connectionLine_of_run_getTail hlines hrest h) hconn
    refine Or.inr ⟨?_, hconn⟩
    rw [hfirst fun _ => hnone, hnone _ _ _ List.suffix_rfl]

end Http
