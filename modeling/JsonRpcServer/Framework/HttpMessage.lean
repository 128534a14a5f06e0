import JsonRpcServer.Framework.Bytes
import Mathlib.Data.List.DropRight

/-! # HTTP Messages

  A message is a start line, fields, an empty line and a body. The reader of
  a connection finds the end of a body by its `Content-Length`; without one
  the body goes on to the end of the connection.

  ## Main results

  * `readMessage_bytes`: a message with a `Content-Length` that says how long
    its body is is read back, whatever follows it.
  * `readMessage_prefix`: no proper part of it is taken for a message.
  * `readSoFar_bytes`: a connection is read back as its messages, up to one
    that is still incomplete. `readSoFar_last`: the last message need not say
    where it ends.
-/

namespace HttpMessage

open Bytes

/-! ### Messages -/

structure Field where
  name : Bytes
  value : Bytes
  deriving DecidableEq, Repr

/-- The line of a field. -/
def Field.line (f : Field) : Bytes := f.name ++ 58 :: 32 :: f.value

structure Message where
  startLine : Bytes
  fields : List Field
  body : Bytes
  deriving DecidableEq, Repr

/-- Lines with their ends. -/
def lineBytes (lines : List Bytes) : Bytes := (lines.map (· ++ crlf)).flatten

/-- The message as it is sent. -/
def Message.bytes (m : Message) : Bytes :=
  lineBytes (m.startLine :: m.fields.map Field.line) ++ (crlf ++ m.body)

/-- White space around the value of a field. -/
def blank (b : UInt8) : Bool := b = 32 || b = 9

def trim (value : Bytes) : Bytes := (value.dropWhile blank).rdropWhile blank

/-- Names of fields are compared without case. -/
def lower (name : Bytes) : Bytes := name.map fun b => if 65 ≤ b ∧ b ≤ 90 then b + 32 else b

/-- Where the body ends. -/
inductive Framing where
  | length (n : Nat)
  /-- At the end of the connection. -/
  | toEnd
  | malformed
  deriving DecidableEq, Repr

def framing (fields : List Field) : Framing :=
  match fields.find? fun f => lower f.name = ascii "content-length" with
  | none => .toEnd
  | some f => if Digits f.value then .length (digitsValue f.value) else .malformed

/-! ### Reading -/

/-- The lines up to the empty one, and what is behind it. `acc` is the
    beginning of the first line, in reverse. -/
def readLines : Bytes → Bytes → Option (List Bytes × Bytes)
  | acc, 13 :: 10 :: rest =>
      if acc = [] then some ([], rest)
      else (readLines [] rest).map fun (lines, rest) => (acc.reverse :: lines, rest)
  | acc, c :: rest => readLines (c :: acc) rest
  | _, [] => none

def readField (line : Bytes) : Option Field :=
  match line.dropWhile (· ≠ 58) with
  | [] => none
  | _ :: value => some ⟨line.takeWhile (· ≠ 58), trim value⟩

/-- The body that begins here. -/
def readBody (startLine : Bytes) (fields : List Field) (rest : Bytes) : Option (Message × Bytes) :=
  match framing fields with
  | .length n =>
      if n ≤ rest.length then some (⟨startLine, fields, rest.take n⟩, rest.drop n) else none
  | .toEnd => some (⟨startLine, fields, rest⟩, [])
  | .malformed => none

/-- The message at the beginning of the text, and what is behind it. -/
def readMessage (text : Bytes) : Option (Message × Bytes) :=
  match readLines [] text with
  | some (startLine :: lines, rest) =>
      (lines.mapM readField).bind fun fields => readBody startLine fields rest
  | some ([], _) => none
  | none => none

/-- At most `k` messages from the beginning of the text, and what is behind
    them. -/
def readSome : Nat → Bytes → List Message × Bytes
  | 0, text => ([], text)
  | k + 1, text =>
      match readMessage text with
      | none => ([], text)
      | some (m, rest) => (m :: (readSome k rest).1, (readSome k rest).2)

/-- What a connection that may go on has brought: whole messages, and the
    beginning of the next one. -/
def readSoFar (text : Bytes) : List Message × Bytes := readSome text.length text

/-! ### Well-formed messages -/

structure Field.WellFormed (f : Field) : Prop where
  name_colon : (58 : UInt8) ∉ f.name
  name_cr : (13 : UInt8) ∉ f.name
  value_cr : (13 : UInt8) ∉ f.value
  trimmed : trim f.value = f.value

structure Message.WellFormed (m : Message) : Prop where
  startLine_ne : m.startLine ≠ []
  startLine_cr : (13 : UInt8) ∉ m.startLine
  fields : ∀ f ∈ m.fields, f.WellFormed

/-- The message says how long its body is. -/
structure Message.Framed (m : Message) : Prop where
  wellFormed : m.WellFormed
  length : framing m.fields = .length m.body.length

/-- The body goes on to the end of the connection. -/
structure Message.Unframed (m : Message) : Prop where
  wellFormed : m.WellFormed
  toEnd : framing m.fields = .toEnd

/-! ### Lines -/

/-- More text behind the head does not change it. -/
theorem readLines_append {acc text rest : Bytes} {lines : List Bytes}
    (h : readLines acc text = some (lines, rest)) (more : Bytes) :
    readLines acc (text ++ more) = some (lines, rest ++ more) := by
  induction acc, text using readLines.induct generalizing lines rest with
  | case1 text =>
    rw [readLines, if_pos rfl] at h
    cases h
    simp [readLines]
  | case2 acc text hacc ih =>
    rw [readLines, if_neg hacc, Option.map_eq_some_iff] at h
    obtain ⟨⟨lines', rest'⟩, hread, h⟩ := h
    cases h
    simp [readLines, hacc, ih hread]
  | case3 acc c text hcrlf ih =>
    rw [readLines.eq_2 acc c text hcrlf] at h
    rw [List.cons_append, readLines.eq_2]
    · exact ih h
    · -- a line end that is completed by the new text has not been read before
      rintro rest' rfl heq
      cases text with
      | nil => simp [readLines] at h
      | cons b text =>
        rw [List.cons_append, List.cons.injEq] at heq
        exact hcrlf text rfl (by rw [heq.1])
  | case4 => simp [readLines] at h

/-- A line is read up to its end. -/
theorem readLines_line {line : Bytes} (hline : (13 : UInt8) ∉ line) (acc rest : Bytes) :
    readLines acc (line ++ (crlf ++ rest)) =
      if acc = [] ∧ line = [] then some ([], rest)
      else (readLines [] rest).map fun (lines, rest) => ((acc.reverse ++ line) :: lines, rest) := by
  induction line generalizing acc with
  | nil =>
    show readLines acc (13 :: 10 :: rest) = _
    rw [readLines]
    simp
  | cons c line ih =>
    rw [List.mem_cons, not_or] at hline
    have hc : c ≠ 13 := fun h => hline.1 h.symm
    rw [List.cons_append, readLines.eq_2 _ _ _ fun _ h => absurd h hc, ih hline.2]
    simp

/-- The head of a message. -/
theorem readLines_lineBytes {lines : List Bytes} (hne : ∀ l ∈ lines, l ≠ [])
    (hcr : ∀ l ∈ lines, (13 : UInt8) ∉ l) (rest : Bytes) :
    readLines [] (lineBytes lines ++ (crlf ++ rest)) = some (lines, rest) := by
  induction lines with
  | nil => simp [lineBytes, crlf, ascii, readLines]
  | cons line lines ih =>
    have ih := ih (fun l hl => hne l (List.mem_cons_of_mem _ hl))
      fun l hl => hcr l (List.mem_cons_of_mem _ hl)
    have hbytes : lineBytes (line :: lines) ++ (crlf ++ rest) =
        line ++ (crlf ++ (lineBytes lines ++ (crlf ++ rest))) := by
      simp [lineBytes]
    have hline : ¬ (([] : Bytes) = [] ∧ line = []) := fun h => hne line List.mem_cons_self h.2
    rw [hbytes, readLines_line (hcr line List.mem_cons_self), if_neg hline, ih]
    simp

/-! ### Fields -/

theorem takeWhile_colon {name : Bytes} (h : (58 : UInt8) ∉ name) (rest : Bytes) :
    (name ++ 58 :: rest).takeWhile (· ≠ 58) = name := by
  rw [List.takeWhile_append_of_pos fun b hb => by simp; rintro rfl; exact h hb]
  simp

theorem dropWhile_colon {name : Bytes} (h : (58 : UInt8) ∉ name) (rest : Bytes) :
    (name ++ 58 :: rest).dropWhile (· ≠ 58) = 58 :: rest := by
  rw [List.dropWhile_append_of_pos fun b hb => by simp; rintro rfl; exact h hb]
  simp

/-- The blank behind the colon is not part of the value. -/
theorem trim_blank (value : Bytes) : trim (32 :: value) = trim value := by
  rw [trim, trim, List.dropWhile_cons_of_pos (by decide)]

theorem readField_line {f : Field} (h : f.WellFormed) : readField f.line = some f := by
  rw [readField, Field.line, dropWhile_colon h.name_colon]
  dsimp only
  rw [takeWhile_colon h.name_colon, trim_blank, h.trimmed]

theorem mapM_readField {fields : List Field} (h : ∀ f ∈ fields, f.WellFormed) :
    (fields.map Field.line).mapM readField = some fields := by
  induction fields with
  | nil => rfl
  | cons f fields ih =>
    rw [List.map_cons, List.mapM_cons, readField_line (h f List.mem_cons_self),
      ih fun f' hf' => h f' (List.mem_cons_of_mem f hf')]
    rfl

theorem Field.WellFormed.line_cr {f : Field} (h : f.WellFormed) : (13 : UInt8) ∉ f.line := by
  have hcr : (13 : UInt8) ≠ 58 ∧ (13 : UInt8) ≠ 32 := by decide
  simp [Field.line, h.name_cr, h.value_cr, hcr]

/-! ### Messages -/

/-- The head of a well-formed message is read, up to its body. -/
theorem readMessage_head {m : Message} (h : m.WellFormed) (rest : Bytes) :
    readMessage (lineBytes (m.startLine :: m.fields.map Field.line) ++ (crlf ++ rest)) =
      readBody m.startLine m.fields rest := by
  have hlines : ∀ l ∈ m.startLine :: m.fields.map Field.line, l ≠ [] ∧ (13 : UInt8) ∉ l := by
    intro l hl
    rcases List.mem_cons.mp hl with rfl | hl
    · exact ⟨h.startLine_ne, h.startLine_cr⟩
    · obtain ⟨f, hf, rfl⟩ := List.mem_map.mp hl
      exact ⟨by simp [Field.line], (h.fields f hf).line_cr⟩
  rw [readMessage, readLines_lineBytes (fun l hl => (hlines l hl).1) fun l hl => (hlines l hl).2]
  dsimp only
  rw [mapM_readField h.fields]
  rfl

/-- **Round trip**: a message that says how long its body is is read back,
    whatever follows it. -/
theorem readMessage_bytes {m : Message} (h : m.Framed) (rest : Bytes) :
    readMessage (m.bytes ++ rest) = some (m, rest) := by
  rw [Message.bytes, List.append_assoc, List.append_assoc, readMessage_head h.wellFormed, readBody,
    h.length]
  simp

/-- Without a length the message is what the connection has. -/
theorem readMessage_unframed {m : Message} (h : m.Unframed) :
    readMessage m.bytes = some (m, []) := by
  rw [Message.bytes, readMessage_head h.wellFormed, readBody, h.toEnd]

/-- More text behind a message changes nothing about its head, and nothing
    about a message that has said where it ends. -/
theorem readMessage_append {text rest : Bytes} {m : Message}
    (h : readMessage text = some (m, rest)) (more : Bytes) :
    framing m.fields ≠ .toEnd ∧ readMessage (text ++ more) = some (m, rest ++ more) ∨
      framing m.fields = .toEnd ∧ rest = [] ∧
        readMessage (text ++ more) = some ({ m with body := m.body ++ more }, []) := by
  unfold readMessage at h ⊢
  cases hlines : readLines [] text with
  | none =>
    rw [hlines] at h
    cases h
  | some head =>
    obtain ⟨lines, body⟩ := head
    rw [hlines] at h
    rw [readLines_append hlines]
    cases lines with
    | nil => cases h
    | cons startLine lines =>
      dsimp only at h ⊢
      obtain ⟨fields, hfields, hbody⟩ := Option.bind_eq_some_iff.mp h
      rw [hfields, Option.bind_some]
      unfold readBody at hbody ⊢
      cases hframing : framing fields with
      | length n =>
        rw [hframing] at hbody
        dsimp only at hbody ⊢
        split at hbody
        · next hle =>
          cases hbody
          refine Or.inl ⟨by rw [hframing]; exact Framing.noConfusion, ?_⟩
          rw [if_pos (by rw [List.length_append]; omega), List.take_append_of_le_length hle,
            List.drop_append_of_le_length hle]
        · cases hbody
      | toEnd =>
        rw [hframing] at hbody
        cases hbody
        exact Or.inr ⟨hframing, rfl, rfl⟩
      | malformed =>
        rw [hframing] at hbody
        cases hbody

/-- **Truncation**: no proper part of a message that says how long its body
    is, or that has no body, is taken for a message. -/
theorem readMessage_prefix {m : Message} (h : m.Framed ∨ m.Unframed ∧ m.body = []) {text : Bytes}
    (hpre : text <+: m.bytes) (hne : text ≠ m.bytes) : readMessage text = none := by
  obtain ⟨more, hmore⟩ := hpre
  have hnil : more ≠ [] := by
    intro hnil
    rw [hnil, List.append_nil] at hmore
    exact hne hmore
  have hwhole : readMessage (text ++ more) = some (m, []) := by
    rw [hmore]
    rcases h with h | ⟨h, _⟩
    · have hread := readMessage_bytes h []
      rw [List.append_nil] at hread
      exact hread
    · exact readMessage_unframed h
  rw [Option.eq_none_iff_forall_ne_some]
  intro ⟨m', rest⟩ hread
  rcases readMessage_append hread more with ⟨_, hread'⟩ | ⟨hend, _, hread'⟩
  · -- nothing is left behind the whole message
    rw [hwhole, Option.some.injEq, Prod.mk.injEq] at hread'
    exact hnil (List.append_eq_nil_iff.mp hread'.2.symm).2
  · -- a body that goes on to the end would have the missing part in it
    rw [hwhole, Option.some.injEq, Prod.mk.injEq] at hread'
    rcases h with h | ⟨_, hbody⟩
    · have hlength := h.length
      rw [hread'.1, hend] at hlength
      exact Framing.noConfusion hlength
    · rw [hread'.1] at hbody
      exact hnil (List.append_eq_nil_iff.mp hbody).2

/-! ### Connections -/

theorem Message.bytes_ne_nil (m : Message) : m.bytes ≠ [] := by
  simp [Message.bytes, crlf, ascii]

/-- Every message has a byte. -/
theorem length_le_bytes (ms : List Message) :
    ms.length ≤ (ms.map Message.bytes).flatten.length := by
  induction ms with
  | nil => exact Nat.zero_le _
  | cons m ms ih =>
    have hpos := List.length_pos_iff.mpr m.bytes_ne_nil
    rw [List.map_cons, List.flatten_cons, List.length_append, List.length_cons]
    omega

theorem readSome_bytes {ms : List Message} (hms : ∀ m ∈ ms, m.Framed) (k : Nat) (rest : Bytes) :
    readSome (ms.length + k) ((ms.map Message.bytes).flatten ++ rest) =
      (ms ++ (readSome k rest).1, (readSome k rest).2) := by
  induction ms with
  | nil => simp
  | cons m ms ih =>
    have hm := readMessage_bytes (hms m List.mem_cons_self)
      ((ms.map Message.bytes).flatten ++ rest)
    have hrest := ih fun m' hm' => hms m' (List.mem_cons_of_mem m hm')
    rw [List.length_cons, Nat.add_right_comm, List.map_cons, List.flatten_cons,
      List.append_assoc, readSome, hm]
    dsimp only
    rw [hrest, List.cons_append]

theorem readSome_of_none {part : Bytes} (h : readMessage part = none) (k : Nat) :
    readSome k part = ([], part) := by
  cases k with
  | zero => rfl
  | succ k => rw [readSome, h]

/-- Messages that say where they end, and a part of one. -/
theorem readSoFar_bytes {ms : List Message} (hms : ∀ m ∈ ms, m.Framed) {part : Bytes}
    (hpart : readMessage part = none) :
    readSoFar ((ms.map Message.bytes).flatten ++ part) = (ms, part) := by
  have hlength : ((ms.map Message.bytes).flatten ++ part).length =
      ms.length + ((ms.map Message.bytes).flatten.length - ms.length + part.length) := by
    have hle := length_le_bytes ms
    rw [List.length_append]
    omega
  rw [readSoFar, hlength, readSome_bytes hms, readSome_of_none hpart, List.append_nil]

/-- The last message may go on. -/
theorem readSoFar_last {ms : List Message} (hms : ∀ m ∈ ms, m.Framed) {m : Message}
    (hm : readMessage m.bytes = some (m, [])) :
    readSoFar ((ms.map Message.bytes).flatten ++ m.bytes) = (ms ++ [m], []) := by
  have hpos := List.length_pos_iff.mpr m.bytes_ne_nil
  have hlength : ((ms.map Message.bytes).flatten ++ m.bytes).length =
      ms.length +
        ((ms.map Message.bytes).flatten.length - ms.length + (m.bytes.length - 1) + 1) := by
    have hle := length_le_bytes ms
    rw [List.length_append]
    omega
  have hnil : readMessage [] = none := rfl
  rw [readSoFar, hlength, readSome_bytes hms, readSome, hm]
  dsimp only
  rw [readSome_of_none hnil]

end HttpMessage
