import JsonRpcServer.Framework.Bytes
import JsonRpcServer.Framework.Regex

/-! # The Request Patterns

  The three regular expressions the servers read requests with, and what
  `http_general_req` finds in a request.

  `QRegularExpression` works on the `QString` decoded from the buffer. The
  patterns consist of ASCII text and of classes that treat all other
  characters alike, so the subject is modelled by its bytes.

  * `http_general_req` reads the method of a request line and waits for a
    blank line.
  * `http_json_POST` asks for three *markers* between the request line and
    the last blank line.
  * `http_html_GET` reads the path and the `Connection` header.
-/

namespace Http

open Bytes Regex

/-! ### The patterns -/

/-- Names of the capture groups. -/
inductive Group where
  | http_method
  | http_URI
  | http_length
  | http_connection
  deriving DecidableEq, Repr

/-- Patterns over bytes. -/
abbrev Pat := Pattern UInt8 Group

/-- Concatenation of several parts. -/
def seqs : List Pat → Pat
  | [] => .eps
  | [a] => a
  | a :: b :: as => .seq a (seqs (b :: as))

/-- The class `\S`. -/
def nonSpace (b : UInt8) : Bool := !isSpace b

/-- The group `(?<http_URI>/\S*)`. -/
def uriGroup : Pat :=
  .group .http_URI (.seq (.sym (· == 47)) (.star (.sym nonSpace)))

/-- Pattern `(?<http_method>\S+) /\S* HTTP/1\.1\r\n(?:.*)(?=\r\n\r\n)`. -/
def http_general_req : Pat :=
  seqs [.group .http_method (plus nonSpace), lit (ascii " /"), .star (.sym nonSpace),
    lit (ascii " HTTP/1.1\r\n"), anyStar, .lookahead (lit crlf2)]

/-- The fixed text of the `Accept` alternative; it includes the line end. -/
def acceptText : Bytes := ascii "Accept: application/json-rpc 2.0\r\n"

/-- The fixed text before the digits of the `Content-Length` alternative. -/
def lengthText : Bytes := ascii "Content-Length: "

/-- The fixed text of the `Content-Type` alternative. -/
def typeText : Bytes := ascii "Content-Type: application/json-rpc 2.0"

/-- The repeated group of `http_json_POST`, its alternatives in source order:
    `Accept: application/json-rpc 2\.0\r\n.*`,
    `Content\-Length: (?<http_length>\d+).*` and
    `Content\-Type: application/json-rpc 2\.0.*`. -/
def markerAlt : Pat :=
  .alt (.seq (lit acceptText) anyStar)
    (.alt (.seq (.seq (lit lengthText) (.group .http_length (plus isDigit))) anyStar)
      (.seq (lit typeText) anyStar))

/-- Pattern `(?<=POST )(?<http_URI>/\S*) HTTP/1\.1\r\n(?:.*)(?:...){3}(?=\r\n\r\n)`,
    with `markerAlt` as the repeated group. -/
def http_json_POST : Pat :=
  seqs [.lookbehind (ascii "POST "), uriGroup, lit (ascii " HTTP/1.1\r\n"), anyStar,
    times 3 markerAlt, .lookahead (lit crlf2)]

/-- Pattern `(?<=GET )(?<http_URI>/\S*) HTTP/1\.1\r\n(?:.*)Connection: (?<http_connection>\S+)`
    followed by `(?:\r\n[^\r\n]*)*(?=\r\n\r\n)`. -/
def http_html_GET : Pat :=
  seqs [.lookbehind (ascii "GET "), uriGroup, lit (ascii " HTTP/1.1\r\n"), anyStar,
    lit (ascii "Connection: "), .group .http_connection (plus nonSpace),
    .star (.seq (lit crlf) (.star (.sym fun b => !(b == 13 || b == 10)))),
    .lookahead (lit crlf2)]

/-- Each server has its own copy of the pattern. -/
def http_json_GET : Pat := http_html_GET

/-- The text of a group, empty when the group took no part. -/
def captured (t : Thread UInt8 Group) (k : Group) : Bytes := (t.caps k).getD []

/-- A blank line lies ahead. -/
def Blank (t : Bytes) : Prop := crlf2 <:+: t

instance (t : Bytes) : Decidable (Blank t) := inferInstanceAs (Decidable (_ <:+: _))

/-! ### Request lines -/

/-- The path of a request line: a slash and non-blank symbols. -/
structure Target where
  path : Bytes
  nonSpace : ∀ b ∈ path, nonSpace b

/-- The target `/`, the root object. -/
def Target.root : Target := ⟨[], List.forall_mem_nil _⟩

/-- The text of a target. -/
def Target.bytes (t : Target) : Bytes := 47 :: t.path

/-- The text from the path to the end of the request line. -/
def Target.line (t : Target) : Bytes := t.bytes ++ ascii " HTTP/1.1\r\n"

theorem nonSpace_ne_lf {b : UInt8} (h : nonSpace b) : b ≠ 10 := by
  rintro rfl
  exact absurd h (by decide)

/-- Another end of a request line in the same text lies further behind. -/
theorem suffix_of_line {t : Target} {m rest w rest' : Bytes} (hm : (10 : UInt8) ∉ m)
    (h : m ++ (t.line ++ rest) = w ++ (ascii " HTTP/1.1\r\n" ++ rest')) : rest' <:+ rest := by
  have hcut : ascii " HTTP/1.1\r\n" = ascii " HTTP/1.1\r" ++ [10] := by decide
  refine suffix_of_append_cons (c := 10) (a := m ++ (t.bytes ++ ascii " HTTP/1.1\r"))
    (x := w ++ ascii " HTTP/1.1\r") ?_ ?_
  · intro hmem
    rcases List.mem_append.mp hmem with hmem | hmem
    · exact hm hmem
    · rcases List.mem_append.mp hmem with hmem | hmem
      · rcases List.mem_cons.mp hmem with hmem | hmem
        · exact absurd hmem (by decide)
        · exact nonSpace_ne_lf (t.nonSpace 10 hmem) rfl
      · exact absurd hmem (by decide)
  · simpa [Target.line, hcut] using h

/-- Passing the path and the rest of the request line. -/
theorem run_uri_line (t : Target) (rest b : Bytes) (c : Caps UInt8 Group) (r : Pat) :
    run (.seq uriGroup (.seq (lit (ascii " HTTP/1.1\r\n")) r)) ⟨b, t.line ++ rest, c⟩ =
      run r ⟨t.line.reverse ++ b, rest, setCap c .http_URI t.bytes⟩ := by
  have hline : t.line ++ rest = 47 :: t.path ++ (ascii " HTTP/1.1\r\n" ++ rest) := by
    simp [Target.line, Target.bytes]
  -- the path ends where the blank of the request line stands
  have hu : ∀ y ∈ (ascii " HTTP/1.1\r\n" ++ rest).head?, ¬ nonSpace y := by
    intro y hy
    obtain rfl : 32 = y := by simpa [ascii] using hy
    decide
  have hgroup := run_group_run_seq (q := (· == 47)) (k := Group.http_URI) (x := 47)
    (r := .seq (lit (ascii " HTTP/1.1\r\n")) r) b c (by decide) t.nonSpace hu
  rw [uriGroup, hline, hgroup]
  · rw [run_lit_seq]
    simp [Target.line, Target.bytes]
  · -- inside the path the next symbol is not a space
    intro _ y v b' c' hy _
    refine run_lit_seq_none ?_ _
    intro h
    obtain ⟨u, hu⟩ := h
    obtain rfl : 32 = y := (List.cons.inj hu).1
    exact absurd hy (by decide)

/-- Shape shared by `http_json_POST` and `http_html_GET` up to the headers. -/
def afterMethod (method : Bytes) (r : Pat) : Pat :=
  .seq (.lookbehind method) (.seq uriGroup (.seq (lit (ascii " HTTP/1.1\r\n")) r))

/-- On a request with the right method such a pattern starts at the path;
    if it fails there and cannot succeed on any later part of the request
    either, it does not match. -/
theorem matchFirst_afterMethod (method : Bytes) (t : Target) (rest : Bytes) (r : Pat)
    (hlater : run r ⟨t.line.reverse ++ method.reverse, rest,
        setCap (fun _ => none) .http_URI t.bytes⟩ = none →
      ∀ rest' b c, rest' <:+ rest → run r ⟨b, rest', c⟩ = none) :
    matchFirst (afterMethod method r) (method ++ (t.line ++ rest)) =
      run r ⟨t.line.reverse ++ method.reverse, rest,
        setCap (fun _ => none) .http_URI t.bytes⟩ := by
  -- at the path itself the pattern passes the request line
  have hstart : ∀ c, run (afterMethod method r) ⟨method.reverse, t.line ++ rest, c⟩ =
      run r ⟨t.line.reverse ++ method.reverse, rest, setCap c .http_URI t.bytes⟩ := by
    intro c
    rw [afterMethod, run_lookbehind_seq, if_pos (by simp), run_uri_line]
  -- in front of it the lookbehind has too little text
  have hskip : matchFirst (afterMethod method r) (method ++ (t.line ++ rest)) =
      search (afterMethod method r) method.reverse (t.line ++ rest) := by
    rw [matchFirst, afterMethod, search_lookbehind _ (by simp) (by simp), List.append_nil]
  rw [hskip]
  cases hrun : run r ⟨t.line.reverse ++ method.reverse, rest,
      setCap (fun _ => none) .http_URI t.bytes⟩ with
  | some t' => exact search_of_run (by rw [hstart, hrun])
  | none =>
    cases hs : search (afterMethod method r) method.reverse (t.line ++ rest) with
    | none => rfl
    | some t' =>
      -- a later start ends its request line later, inside `rest`
      exfalso
      obtain ⟨w, v, hu, hv⟩ := run_of_search hs
      rw [afterMethod, run_lookbehind_seq] at hv
      split at hv
      · obtain ⟨t₁, h₁, hv⟩ := exists_of_run_seq hv
        obtain ⟨w₁, hw₁, _⟩ := ahead_of_mem_outs _ _ _ h₁
        obtain ⟨rest', hrest', hv⟩ := lit_of_run_seq hv
        have hsuf : rest' <:+ rest := by
          refine suffix_of_line (t := t) (m := []) (w := w ++ w₁) (by simp) ?_
          rw [List.nil_append, hu, show v = w₁ ++ t₁.rest from hw₁, hrest']
          simp
        rw [show t₁.advance (ascii " HTTP/1.1\r\n") rest' =
          ⟨_, rest', t₁.caps⟩ from rfl, hlater hrun rest' _ _ hsuf] at hv
        cases hv
      · cases hv

/-- What such a pattern captures as the path is one. -/
theorem target_of_matchFirst {method : Bytes} {r : Pat} (hr : ¬ Captures Group.http_URI r)
    {u : Bytes} {t' : Thread UInt8 Group} (h : matchFirst (afterMethod method r) u = some t') :
    ∃ t : Target, captured t' .http_URI = t.bytes := by
  obtain ⟨w, v, _, hv⟩ := run_of_search h
  rw [afterMethod, run_lookbehind_seq] at hv
  split at hv
  · obtain ⟨t₁, h₁, hv⟩ := exists_of_run_seq hv
    -- what the group has passed is a slash and a run of non-blank symbols,
    -- and nothing behind it records the group again
    obtain ⟨x, p, _, hx, hp, hcap⟩ := mem_outs_group_run h₁
    obtain rfl : x = 47 := by simpa using hx
    have huri := caps_of_mem_outs (k := Group.http_URI) (.seq (lit (ascii " HTTP/1.1\r\n")) r)
      (by simp [Captures, hr]) t₁ t' (List.mem_of_head? hv)
    refine ⟨⟨p, hp⟩, ?_⟩
    rw [captured, ← huri, hcap]
    rfl
  · cases hv

/-! ### What `http_general_req` finds -/

/-- The part of `http_general_req` behind the method. -/
def generalTail : Pat :=
  .seq (.star (.sym nonSpace)) (.seq (lit (ascii " HTTP/1.1\r\n"))
    (.seq anyStar (.lookahead (lit crlf2))))

/-- A success of `http_general_req` at any position of a text passes a
    request line there, has a blank line ahead and stops at the last one. -/
theorem blank_of_run_general {u b : Bytes} {c : Caps UInt8 Group} {t' : Thread UInt8 Group}
    (h : run http_general_req ⟨b, u, c⟩ = some t') :
    ∃ w rest', u = w ++ (ascii " HTTP/1.1\r\n" ++ rest') ∧ Blank rest' ∧
      ¬ Blank t'.rest.tail := by
  have hpat : http_general_req = .seq (.group .http_method (plus nonSpace))
    (.seq (lit (ascii " /")) generalTail) := rfl
  rw [hpat] at h
  obtain ⟨t₁, h₁, h⟩ := exists_of_run_seq h
  obtain ⟨w₁, hw₁, _⟩ := ahead_of_mem_outs _ _ _ h₁
  obtain ⟨u₂, hu₂, h⟩ := lit_of_run_seq h
  obtain ⟨t₃, h₃, h⟩ := exists_of_run_seq h
  obtain ⟨w₃, hw₃, _⟩ := ahead_of_mem_outs _ _ _ h₃
  obtain ⟨rest', hrest', h⟩ := lit_of_run_seq h
  refine ⟨w₁ ++ ascii " /" ++ w₃, rest', ?_, ?_⟩
  · rw [show u = w₁ ++ t₁.rest from hw₁, hu₂, show u₂ = w₃ ++ t₃.rest from hw₃, hrest']
    simp
  · rcases run_anyStar_lookahead (w := crlf2) (by decide) rest' _ t₃.caps with
      ⟨hnone, _⟩ | ⟨t₄, h₄, _, htail, hb⟩
    · rw [show t₃.advance (ascii " HTTP/1.1\r\n") rest' = ⟨_, rest', t₃.caps⟩ from rfl,
        hnone] at h
      cases h
    · rw [show t₃.advance (ascii " HTTP/1.1\r\n") rest' = ⟨_, rest', t₃.caps⟩ from rfl,
        h₄, Option.some.injEq] at h
      exact ⟨hb, h ▸ htail⟩

/-- A text without a blank line is not a request. -/
theorem http_general_req_none {u b : Bytes} (h : ¬ Blank u) :
    search http_general_req b u = none := by
  cases hs : search http_general_req b u with
  | none => rfl
  | some t' =>
    exfalso
    obtain ⟨w, v, hu, hv⟩ := run_of_search hs
    obtain ⟨w', rest', hv', hb, _⟩ := blank_of_run_general hv
    refine h (hb.trans (List.IsSuffix.isInfix ⟨w ++ w' ++ ascii " HTTP/1.1\r\n", ?_⟩))
    rw [hu, hv']
    simp

/-- What `http_general_req` finds in a request that starts with a request
    line: the method, as soon as a blank line has arrived. The match ends
    at the last blank line. -/
theorem http_general_req_match (m : UInt8) (ms : Bytes) (hm : ∀ b ∈ m :: ms, nonSpace b)
    (t : Target) (rest : Bytes) :
    (matchFirst http_general_req (m :: ms ++ (ascii " " ++ (t.line ++ rest))) = none ∧
        ¬ Blank rest) ∨
      ∃ t', matchFirst http_general_req (m :: ms ++ (ascii " " ++ (t.line ++ rest))) = some t' ∧
        captured t' .http_method = m :: ms ∧ ¬ Blank t'.rest.tail ∧ Blank rest := by
  -- the pattern passes the request line from its first symbol
  have hstart : run http_general_req ⟨[], m :: ms ++ (ascii " " ++ (t.line ++ rest)),
        fun _ => none⟩ =
      run (.seq anyStar (.lookahead (lit crlf2))) ⟨t.line.reverse ++ (ascii " ").reverse ++
        (m :: ms).reverse, rest, setCap (fun _ => none) .http_method (m :: ms)⟩ := by
    have hspace : ∀ (u : Bytes), ∀ y ∈ (ascii " " ++ u).head?, ¬ nonSpace y := by
      intro u y hy
      obtain rfl : 32 = y := by simpa [ascii] using hy
      decide
    have hgroup := run_group_run_seq (q := nonSpace) (k := Group.http_method) (x := m)
      (w := ms) (r := .seq (lit (ascii " /")) generalTail) [] (fun _ => none) (hm m (by simp))
      (fun y hy => hm y (by simp [hy])) (hspace (t.line ++ rest))
    have hstar := run_star_run_seq (p := nonSpace) (r := .seq (lit (ascii " HTTP/1.1\r\n"))
      (.seq anyStar (.lookahead (lit crlf2)))) ((ascii " /").reverse ++ (m :: ms).reverse)
      (setCap (fun _ => none) Group.http_method (m :: ms)) t.nonSpace
      (hspace (ascii "HTTP/1.1\r\n" ++ rest))
    have hpat : http_general_req = .seq (.group .http_method (plus nonSpace))
      (.seq (lit (ascii " /")) generalTail) := rfl
    have hslash : ascii " " ++ (t.line ++ rest) = ascii " /" ++
        (t.path ++ (ascii " " ++ (ascii "HTTP/1.1\r\n" ++ rest))) := by
      simp [Target.line, Target.bytes, ascii]
    have hhttp : ascii " " ++ (ascii "HTTP/1.1\r\n" ++ rest) =
        ascii " HTTP/1.1\r\n" ++ rest := by
      simp [ascii]
    rw [hpat, plus, hgroup]
    · rw [hslash, List.append_nil, run_lit_seq, generalTail, hstar]
      · rw [hhttp, run_lit_seq]
        simp [Target.line, Target.bytes, ascii]
      · intro y v b' hy
        refine run_lit_seq_none ?_ _
        intro h
        obtain ⟨u, hu⟩ := h
        obtain rfl : 32 = y := (List.cons.inj hu).1
        exact absurd hy (by decide)
    · intro _ y v b' c' hy _
      refine run_lit_seq_none ?_ _
      intro h
      obtain ⟨u, hu⟩ := h
      obtain rfl : 32 = y := (List.cons.inj hu).1
      exact absurd hy (by decide)
  rcases run_anyStar_lookahead (w := crlf2) (by decide) rest (t.line.reverse ++
      (ascii " ").reverse ++ (m :: ms).reverse)
      (setCap (fun _ => none) Group.http_method (m :: ms)) with
    ⟨_, hn⟩ | ⟨t', ht', hc, htail, hb⟩
  · -- a match anywhere would have its blank line behind this request line
    refine Or.inl ⟨?_, hn⟩
    cases hs : matchFirst http_general_req (m :: ms ++ (ascii " " ++ (t.line ++ rest))) with
    | none => rfl
    | some t' =>
      exfalso
      obtain ⟨w, v, hu, hv⟩ := run_of_search hs
      obtain ⟨w', rest', hv', hb, _⟩ := blank_of_run_general hv
      have hsuf : rest' <:+ rest := by
        refine suffix_of_line (t := t) (m := m :: ms ++ ascii " ") (w := w ++ w') ?_ ?_
        · intro hmem
          rcases List.mem_append.mp hmem with hmem | hmem
          · exact nonSpace_ne_lf (hm 10 hmem) rfl
          · exact absurd hmem (by decide)
        · rw [List.append_assoc, hu, hv', List.append_assoc]
      exact hn (hb.trans hsuf.isInfix)
  · refine Or.inr ⟨t', search_of_run (by rw [hstart, ht']), ?_, htail, hb⟩
    rw [captured, hc, setCap_self, Option.getD_some]

/-- Two requests in one text are one match: a match ends at the last blank
    line, and nothing can follow it. -/
theorem http_general_req_global (u : Bytes) :
    globalMatch http_general_req u = (matchFirst http_general_req u).toList := by
  rw [globalMatch, globalFrom, matchFirst]
  cases hs : search http_general_req [] u with
  | none => rfl
  | some t =>
    obtain ⟨_, _, _, hrun⟩ := run_of_search hs
    obtain ⟨_, _, _, _, htail⟩ := blank_of_run_general hrun
    -- a further match would need one more blank line
    have hend : ∀ n b v, v <:+ t.rest → globalFrom http_general_req n b v = [] := by
      intro n b v hv
      cases n with
      | zero => rfl
      | succ n =>
        cases hs' : search http_general_req b v with
        | none => rw [globalFrom, hs']
        | some t' =>
          exfalso
          obtain ⟨w, v', hvv, hrun'⟩ := run_of_search hs'
          obtain ⟨w', rest', hv', hb, _⟩ := blank_of_run_general hrun'
          obtain ⟨p, hp⟩ := hv
          have hrest : t.rest = (p ++ w ++ w' ++ ascii " HTTP/1.1\r\n") ++ rest' := by
            rw [← hp, hvv, hv']
            simp
          have hne : p ++ w ++ w' ++ ascii " HTTP/1.1\r\n" ≠ [] := by
            simp [ascii]
          have hsuf : rest' <:+ t.rest.tail := by
            rw [hrest, List.tail_append_of_ne_nil hne]
            exact List.suffix_append _ _
          exact htail (hb.trans hsuf.isInfix)
    simp only [Option.toList_some, List.cons.injEq, true_and]
    split
    · exact hend _ _ _ (List.suffix_refl _)
    · split
      · rfl
      · next x xs hx => exact hend _ _ _ (hx ▸ List.suffix_cons x xs)

end Http
