import JsonRpcServer.Http.Lines
import JsonRpcServer.Rpc.Receive

/-! # Header Sections and `http_json_POST`

  `http_json_POST` is meant to accept a POST request that has three header
  lines, and to find the value of one of them. It counts marker occurrences
  instead: anywhere in the text, not only at the start of a line, any three
  of them, and only as long as a blank line follows.

  * `markers_rest`: where in a request the markers stand. `Accept` takes its
    line end along, so in the last header line it is in the way of the blank
    line.
  * `passedLength_eq`: the length the header loop passes on for a complete
    POST request.
  * `accepts_iff`: for which requests this is what the header lines ask for.
-/

namespace JsonRPCServer

open Bytes Regex Http HttpRecvBufferSingle

/-- A complete POST request: request line, header lines, a blank line, and
    what has arrived of a body. -/
structure PostRequest where
  target : Target
  lines : List Bytes
  lines_ok : ∀ l ∈ lines, l ≠ [] ∧ ∀ b ∈ l, b ≠ 13 ∧ b ≠ 10 ∧ b ≠ 0
  body : Bytes

/-- `Accept: application/json-rpc 2.0`. -/
def acceptLine : Bytes := ascii "Accept: application/json-rpc 2.0"

/-- `Content-Type: application/json-rpc 2.0`. -/
def typeLine : Bytes := ascii "Content-Type: application/json-rpc 2.0"

/-- `Content-Length: <digits>`. -/
def lengthLine (ds : Bytes) : Bytes := ascii "Content-Length: " ++ ds

namespace PostRequest

/-- Everything behind the request line. -/
def rest (r : PostRequest) : Bytes := (r.lines.map (· ++ crlf)).flatten ++ (crlf ++ r.body)

/-- The text in the buffer. -/
def text (r : PostRequest) : Bytes := ascii "POST " ++ (r.target.line ++ r.rest)

/-- The three header lines a JSON-RPC request has. -/
def ThreeLines (r : PostRequest) : Prop :=
  acceptLine ∈ r.lines ∧ typeLine ∈ r.lines ∧ ∃ ds, Digits ds ∧ lengthLine ds ∈ r.lines

end PostRequest

variable {Obj : Type} {n : Nat}

/-- The length the header loop passes to `receiveMessageBodyPOST`. -/
def passedLength (objs : ObjectTree Obj) (s : HeaderState n) : Option Nat :=
  match dispatch objs s with
  | some (.receiveBody _ _ length _) => some length
  | _ => none

/-- The path of the request names an object. -/
def PostRequest.Named (objs : ObjectTree Obj) (r : PostRequest) : Prop :=
  (objs.resolve (targetPath r.target.bytes)).isSome

/-- `http_json_POST` accepts what the header lines say: it matches exactly
    when they include the three, and then every `Content-Length` line is the
    length passed on for the object, or is no `int` and nothing is passed
    on. -/
def AcceptsByLines (objs : ObjectTree Obj) (s : HeaderState n) (r : PostRequest) : Prop :=
  ((matchFirst http_json_POST s.buffer.toQString).isSome ↔ r.ThreeLines) ∧
    (r.ThreeLines → r.Named objs → ∀ ds, Digits ds → lengthLine ds ∈ r.lines →
      passedLength objs s =
        if digitsValue ds < 2 ^ 31 then some (digitsValue ds) else none)

/-! ### Where the texts of the pattern occur -/

/-- The digits of a length marker. -/
def markerDigits : Marker → Option Bytes
  | .length ds => some ds
  | .accept | .type => none

/-- The digits of the last length among some markers. -/
def lastLength : List Marker → Option Bytes
  | [] => none
  | m :: ms => (lastLength ms).or (markerDigits m)

namespace PostRequest

/-- The texts in the header lines but the last. -/
def frontTexts (r : PostRequest) : List Marker := r.lines.dropLast.flatMap lineTexts

/-- The texts that count in the last header line. `Accept` takes the line end
    that the blank line needs, so another one has to follow. -/
def lastTexts (r : PostRequest) (l : Bytes) : List Marker :=
  (lineTexts l).filter fun m => decide (m = .accept → Blank (crlf ++ r.body))

/-- All texts that count: in the header lines, and in the body if a blank
    line follows there. -/
def texts (r : PostRequest) : List Marker :=
  r.frontTexts ++ (r.lines.getLast?.toList.flatMap r.lastTexts ++ markers r.body)

/-- The last length among the last three texts. -/
def foundLength (r : PostRequest) : Option Bytes := lastLength (lastN 3 r.texts)

end PostRequest

/-- The length found is the number of the line, and an `int`. A number found
    that is no `int` counts as 0. If none is found, that of the line may be no
    `int`. -/
def SameLength (found : Option Bytes) (ds : Bytes) : Prop :=
  match found with
  | some ds' =>
      digitsValue ds < 2 ^ 31 ∧
        (digitsValue ds' = digitsValue ds ∨ 2 ^ 31 ≤ digitsValue ds' ∧ digitsValue ds = 0)
  | none => 2 ^ 31 ≤ digitsValue ds

/-- The texts of the pattern stand in the three header lines, or where they
    do no harm. -/
structure PostRequest.InPlace (objs : ObjectTree Obj) (r : PostRequest) : Prop where
  /-- Without the three lines there are at most two of the texts. -/
  few : ¬ r.ThreeLines → r.texts.length ≤ 2
  /-- `Accept` is not the last line, unless there is a blank line in or
      before the body, or three of the texts stand in front of it. -/
  accept : r.ThreeLines → r.lines.getLast? = some acceptLine →
    Blank (crlf ++ r.body) ∨ 3 ≤ r.frontTexts.length
  /-- No other length stands behind that of the line, and no three texts. -/
  length : r.ThreeLines → r.Named objs → ∀ ds, Digits ds → lengthLine ds ∈ r.lines →
    SameLength r.foundLength ds

/-! ### Markers and texts -/

/-- What a length is converted to is the number of the line. -/
theorem sameLength_iff {found : Option Bytes} {ds : Bytes} :
    (found.map toInt = if digitsValue ds < 2 ^ 31 then some (digitsValue ds) else none) ↔
      SameLength found ds := by
  cases found with
  | none => simp [SameLength]
  | some ds' =>
    show some (toInt ds') = _ ↔ digitsValue ds < 2 ^ 31 ∧ _
    by_cases hint : digitsValue ds < 2 ^ 31
    · rw [if_pos hint, Option.some.injEq, and_iff_right hint, toInt]
      split <;> omega
    · rw [if_neg hint]
      exact iff_of_false nofun fun h => hint h.1

/-- Lines with a blank line behind them have all their texts. -/
theorem markers_lines {lines : List Bytes} (hlines : ∀ l ∈ lines, (13 : UInt8) ∉ l) {w : Bytes}
    (hw : Blank w) :
    markers ((lines.map (· ++ crlf)).flatten ++ w) = lines.flatMap lineTexts ++ markers w := by
  induction lines with
  | nil => rfl
  | cons l lines ih =>
    rw [List.forall_mem_cons] at hlines
    have hblank : ∀ p, Blank (p ++ w) := fun p => hw.trans (List.suffix_append p w).isInfix
    have hcounts : ∀ m ∈ lineTexts l,
        counts ((lines.map (· ++ crlf)).flatten ++ w) m = true := by
      intro m _
      cases m with
      | accept => exact decide_eq_true (hblank _)
      | length _ | type =>
        refine decide_eq_true ?_
        rw [← List.append_assoc]
        exact hblank _
    rw [List.map_cons, List.flatten_cons, List.append_assoc, List.append_assoc,
      markers_line hlines.1, List.filter_eq_self.mpr hcounts, ih hlines.2, List.flatMap_cons,
      List.append_assoc]

theorem PostRequest.cr_not_mem (r : PostRequest) : ∀ l ∈ r.lines, (13 : UInt8) ∉ l :=
  fun l hl hcr => ((r.lines_ok l hl).2 13 hcr).1 rfl

/-- The markers of a request. -/
theorem PostRequest.markers_rest (r : PostRequest) : markers r.rest = r.texts := by
  have hcr := r.cr_not_mem
  unfold rest texts frontTexts
  rcases List.eq_nil_or_concat r.lines with hnil | ⟨front, l, hconcat⟩
  · rw [hnil]
    exact markers_append (p := crlf) (by decide) r.body
  · rw [List.concat_eq_append] at hconcat
    rw [hconcat] at hcr ⊢
    have hblank : Blank (l ++ (crlf ++ (crlf ++ r.body))) :=
      ⟨l, r.body, by simp [crlf2, crlf, ascii]⟩
    -- behind the last line the blank line is at hand for all but `Accept`
    have hlast : (lineTexts l).filter (counts (crlf ++ r.body)) = r.lastTexts l := by
      refine List.filter_congr fun m _ => ?_
      cases m with
      | accept => simp [counts]
      | length _ | type =>
        have hcrlf2 : Blank (crlf ++ (crlf ++ r.body)) := ⟨[], r.body, rfl⟩
        simp [counts, hcrlf2]
    have hbody : markers (crlf ++ r.body) = markers r.body := markers_append (by decide) r.body
    rw [List.map_append, List.flatten_append, List.append_assoc, List.map_singleton,
      List.flatten_singleton, List.append_assoc,
      markers_lines (fun l' hl' => hcr l' (List.mem_append_left _ hl')) hblank,
      markers_line (hcr l (by simp)), hlast, hbody]
    simp

theorem foldl_record_length (l : List Marker) (c : Caps UInt8 Group) :
    l.foldl record c .http_length = (lastLength l).or (c .http_length) := by
  induction l generalizing c with
  | nil => rfl
  | cons m l ih =>
    rw [List.foldl_cons, ih, lastLength, Option.or_assoc]
    cases m with
    | length ds => rw [record, setCap_self]; rfl
    | accept => rfl
    | type => rfl

/-- Recorded lengths have a digit. -/
theorem lastLength_ne_nil {l : List Marker} (hl : ∀ m ∈ l, m ≠ .length []) {ds : Bytes}
    (h : lastLength l = some ds) : ds ≠ [] := by
  induction l with
  | nil => cases h
  | cons m l ih =>
    rw [lastLength, Option.or_eq_some_iff] at h
    rcases h with h | ⟨_, h⟩
    · exact ih (fun m hm => hl m (by simp [hm])) h
    · cases m with
      | length ds' =>
        cases h
        rintro rfl
        exact hl (.length []) (by simp) rfl
      | accept => cases h
      | type => cases h

theorem length_nil_not_mem_markers (u : Bytes) : Marker.length [] ∉ markers u := by
  induction u with
  | nil => simp [markers]
  | cons x xs ih =>
    by_cases h : ∃ m w, markerAt (x :: xs) = some (m, w) ∧ Blank w
    · obtain ⟨m, w, hm, hb⟩ := h
      rw [markers_cons hm hb, List.mem_cons, not_or]
      refine ⟨?_, ih⟩
      rintro rfl
      rcases markerAt_cases (x :: xs) with ⟨_, _, h⟩ | ⟨_, _, _, _, _, _, h⟩ | ⟨_, _, h⟩ | ⟨h, _⟩
      all_goals
        rw [h] at hm
        cases hm
    · rw [markers_cons_of_not fun m w hm hb => h ⟨m, w, hm, hb⟩]
      exact ih

section dispatch

variable {objs : ObjectTree Obj} {target : Obj} {s : HeaderState n} {r : PostRequest}

/-- `http_json_POST` counts the texts. -/
theorem http_json_POST_isSome (r : PostRequest) :
    (matchFirst http_json_POST r.text).isSome ↔ 3 ≤ r.texts.length := by
  rw [← Option.isSome_map, PostRequest.text, http_json_POST_match, tailCaps_succ, r.markers_rest]
  split <;> simp_all

/-- The captures of a match: the path, and the last length among the last
    three texts. -/
theorem http_json_POST_caps {post : Thread UInt8 Group}
    (h : matchFirst http_json_POST r.text = some post) :
    captured post .http_URI = r.target.bytes ∧ post.caps .http_length = r.foundLength := by
  have hcaps := congrArg (Option.map Thread.caps) h
  rw [PostRequest.text, http_json_POST_match, Option.map_some] at hcaps
  have huri := tailCaps_uri hcaps
  rw [tailCaps_succ] at hcaps
  split at hcaps
  · rw [Option.some.injEq] at hcaps
    refine ⟨by rw [captured, huri, setCap_self, Option.getD_some], ?_⟩
    rw [← hcaps, foldl_record_length, setCap_ne _ _ (by decide), Option.or_none, r.markers_rest]
    rfl
  · cases hcaps

/-- What the header loop passes on: the last length among the last three
    texts, if there are three. -/
theorem passedLength_eq (htext : s.buffer.toQString = r.text)
    (hobj : objs.resolve (targetPath r.target.bytes) = some target) :
    passedLength objs s =
      if 3 ≤ r.texts.length then r.foundLength.map toInt else none := by
  rw [passedLength, dispatch_POST objs htext, htext]
  have hsome := http_json_POST_isSome r
  cases hpost : matchFirst http_json_POST r.text with
  | none =>
    rw [hpost] at hsome
    rw [if_neg (by simpa using hsome)]
  | some post =>
    rw [hpost] at hsome
    obtain ⟨huri, hlen⟩ := http_json_POST_caps hpost
    rw [if_pos (hsome.mp rfl)]
    dsimp only
    rw [huri, hobj, captured, hlen]
    cases hmark : r.foundLength with
    | none => rfl
    | some ds =>
      -- a captured length is never taken for a missing one
      have hne : ds ≠ [] := by
        unfold PostRequest.foundLength at hmark
        rw [← r.markers_rest] at hmark
        refine lastLength_ne_nil ?_ hmark
        rintro m hm rfl
        exact length_nil_not_mem_markers _ (List.mem_of_mem_drop hm)
      rw [Option.getD_some, if_neg hne]
      rfl

/-! ### The three lines have three texts -/

theorem accept_mem_lineTexts : .accept ∈ lineTexts acceptLine := by decide

theorem type_mem_lineTexts : .type ∈ lineTexts typeLine := by decide

theorem length_mem_lineTexts {ds : Bytes} (hds : Digits ds) :
    .length ds ∈ lineTexts (lengthLine ds) := by
  obtain ⟨hne, hdigits⟩ := hds
  cases ds with
  | nil => exact absurd rfl hne
  | cons d ds =>
    have hend : ∀ y ∈ crlf.head?, ¬ isDigit y := by
      intro y hy
      obtain rfl : 13 = y := Option.some.inj hy
      decide
    have hat : markerAt (lengthText ++ (d :: ds ++ crlf)) = some (.length (d :: ds), crlf) :=
      markerAt_length hdigits hend
    have hline : lengthLine (d :: ds) ++ crlf = 67 :: (lengthText.tail ++ (d :: ds ++ crlf)) :=
      List.append_assoc _ _ _
    have hhead : lengthText ++ (d :: ds ++ crlf) = 67 :: (lengthText.tail ++ (d :: ds ++ crlf)) :=
      rfl
    rw [hhead] at hat
    unfold lineTexts
    rw [hline, occurrences, hat]
    exact List.mem_cons_self

/-- Three different texts are three. -/
theorem three_le_of_mem {l : List Marker} {ds : Bytes} (haccept : .accept ∈ l) (htype : .type ∈ l)
    (hlength : .length ds ∈ l) : 3 ≤ l.length := by
  have hnodup : [Marker.accept, .type, .length ds].Nodup := by simp
  apply hnodup.length_le_of_subset
  simp [haccept, htype, hlength]

namespace PostRequest

/-- The texts of a line count, except for `Accept` in the last one. -/
theorem mem_texts {l : Bytes} {m : Marker} (hl : l ∈ r.lines) (hm : m ∈ lineTexts l)
    (hlast : r.lines.getLast? = some l → m = .accept → Blank (crlf ++ r.body)) :
    m ∈ r.texts := by
  unfold texts frontTexts
  rcases List.eq_nil_or_concat r.lines with hnil | ⟨front, l', hconcat⟩
  · rw [hnil] at hl
    cases hl
  · rw [List.concat_eq_append] at hconcat
    rw [hconcat] at hl hlast ⊢
    rw [List.dropLast_concat, List.getLast?_concat] at *
    rcases List.mem_append.mp hl with hl | hl
    · exact List.mem_append_left _ (List.mem_flatMap.mpr ⟨l, hl, hm⟩)
    · obtain rfl := List.mem_singleton.mp hl
      refine List.mem_append_right _ (List.mem_append_left _ ?_)
      refine List.mem_flatMap.mpr ⟨l, by simp, ?_⟩
      exact List.mem_filter.mpr ⟨hm, decide_eq_true (hlast rfl)⟩

/-- When `Accept` is the last line and no blank line follows, the texts in
    front of it are all. -/
theorem texts_of_acceptLast (hlast : r.lines.getLast? = some acceptLine)
    (hblank : ¬ Blank (crlf ++ r.body)) : r.texts = r.frontTexts := by
  have hbody : markers r.body = [] := by
    by_contra hne
    exact hblank ((blank_of_markers hne).trans (List.suffix_append crlf r.body).isInfix)
  have haccept : r.lastTexts acceptLine = [] := by
    have honly : ∀ m ∈ lineTexts acceptLine, m = .accept := by decide
    refine List.filter_eq_nil_iff.mpr fun m hm => ?_
    rw [decide_eq_true_iff]
    exact fun h => hblank (h (honly m hm))
  rw [texts, hlast, hbody]
  simp [haccept]

/-- Three texts of the three lines, unless the line end of `Accept` is
    missing. -/
theorem three_le_texts_iff (h : r.ThreeLines) :
    3 ≤ r.texts.length ↔ (r.lines.getLast? = some acceptLine →
      Blank (crlf ++ r.body) ∨ 3 ≤ r.frontTexts.length) := by
  obtain ⟨haccept, htype, ds, hds, hlength⟩ := h
  have hall : (r.lines.getLast? = some acceptLine → Blank (crlf ++ r.body)) →
      3 ≤ r.texts.length := by
    intro hblank
    exact three_le_of_mem (mem_texts haccept accept_mem_lineTexts fun hlast _ => hblank hlast)
      (mem_texts htype type_mem_lineTexts nofun)
      (mem_texts hlength (length_mem_lineTexts hds) nofun)
  constructor
  · intro hthree hlast
    by_cases hblank : Blank (crlf ++ r.body)
    · exact Or.inl hblank
    · rw [texts_of_acceptLast hlast hblank] at hthree
      exact Or.inr hthree
  · intro hcond
    by_cases hlast : r.lines.getLast? = some acceptLine
    · rcases hcond hlast with hblank | hfront
      · exact hall fun _ => hblank
      · unfold texts
        rw [List.length_append]
        omega
    · exact hall fun h => absurd h hlast

end PostRequest

/-- **Acceptance of POST requests**: `http_json_POST` accepts what the header
    lines say exactly when the texts it looks for are in place. -/
theorem accepts_iff (objs : ObjectTree Obj) (s : HeaderState n) (r : PostRequest)
    (htext : s.buffer.toQString = r.text) : AcceptsByLines objs s r ↔ r.InPlace objs := by
  rw [AcceptsByLines, htext, http_json_POST_isSome]
  by_cases hthree : r.ThreeLines
  · have hcount := PostRequest.three_le_texts_iff hthree
    have hlength : ∀ ds, r.Named objs → 3 ≤ r.texts.length →
        (passedLength objs s = (if digitsValue ds < 2 ^ 31 then some (digitsValue ds) else none) ↔
          SameLength r.foundLength ds) := by
      intro ds hnamed hthree
      obtain ⟨target, hobj⟩ := Option.isSome_iff_exists.mp hnamed
      rw [passedLength_eq htext hobj, if_pos hthree]
      exact sameLength_iff
    -- a request that is matched has a length that is passed on
    constructor
    · rintro ⟨hmatch, hpassed⟩
      have htexts := hmatch.mpr hthree
      refine ⟨absurd hthree, fun _ => hcount.mp htexts, ?_⟩
      intro _ hnamed ds hds hline
      exact (hlength ds hnamed htexts).mp (hpassed hthree hnamed ds hds hline)
    · rintro ⟨_, haccept, hsame⟩
      have htexts := hcount.mpr (haccept hthree)
      refine ⟨iff_of_true htexts hthree, ?_⟩
      intro _ hnamed ds hds hline
      exact (hlength ds hnamed htexts).mpr (hsame hthree hnamed ds hds hline)
  · constructor
    · rintro ⟨hmatch, _⟩
      refine ⟨fun _ => ?_, fun h => absurd h hthree, fun h => absurd h hthree⟩
      have hfew : ¬ 3 ≤ r.texts.length := fun h => hthree (hmatch.mp h)
      omega
    · rintro ⟨hfew, _, _⟩
      have hle := hfew hthree
      exact ⟨iff_of_false (by omega) hthree, fun h => absurd h hthree⟩

end dispatch

/-! ### Two requests -/

/-- A request for the root object with these header lines behind the host. -/
def linesRequest (lines : List Bytes)
    (h : ∀ l ∈ lines, l ≠ [] ∧ ∀ b ∈ l, b ≠ 13 ∧ b ≠ 10 ∧ b ≠ 0) : PostRequest :=
  ⟨.root, lines, h, ascii "{}"⟩

/-- The three lines in front of another one. -/
def acceptFirst : PostRequest :=
  linesRequest [acceptLine, typeLine, lengthLine (ascii "2"), ascii "HOST: Test"] (by decide)

/-- The same lines, `Accept` last. -/
def acceptLast : PostRequest :=
  linesRequest [ascii "HOST: Test", typeLine, lengthLine (ascii "2"), acceptLine] (by decide)

/-- The block after a request has arrived in one piece. -/
def receivedAtOnce (r : PostRequest) : HeaderState 2048 :=
  ⟨(zeroed 2048).append r.text, r.text.length, []⟩

theorem accepts_iff_acceptFirst :
    AcceptsByLines soloRoot (receivedAtOnce acceptFirst) acceptFirst ↔
      acceptFirst.InPlace soloRoot :=
  accepts_iff soloRoot (receivedAtOnce acceptFirst) acceptFirst (by decide +kernel)

/-- The `Accept` alternative eats the line end that the final blank line
    needs, so `Accept` may not come last. -/
theorem not_accepts_acceptLast : ¬ ∀ (r : PostRequest) (s : HeaderState 2048),
    s.buffer.toQString = r.text → AcceptsByLines soloRoot s r := by
  intro hall
  have haccepts := hall acceptLast (receivedAtOnce acceptLast) (by decide +kernel)
  have hnone : ¬ (matchFirst http_json_POST
      (receivedAtOnce acceptLast).buffer.toQString).isSome := by
    decide +kernel
  exact hnone (haccepts.1.mpr ⟨by decide, by decide, ascii "2", by decide, by decide⟩)

end JsonRPCServer
