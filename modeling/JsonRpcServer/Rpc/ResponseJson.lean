import JsonRpcServer.Framework.Json
import JsonRpcServer.Rpc.Respond

/-! # The Response Body as JSON

  `sendJsonResponseValid` pastes the result into a format. For a result
  without quotes, backslashes, control characters and NULs this gives the
  intended object (`document_validBody`), except for the id: the format puts
  it in quotes, so a decoder never finds the number there
  (`not_roundTrips_validBody`).
-/

namespace JsonRPCServer

open Bytes CString Json

/-- The body decodes to an object with this result and this id. -/
def RoundTrips (body s : Bytes) (n : Int) : Prop :=
  ∃ v, Document body v ∧ v.get? (ascii "result") = some (.str s) ∧
    v.get? (ascii "id") = some (.num n)

/-- A text that JSON strings may contain as it is. -/
def Plain (s : Bytes) : Prop := ∀ b ∈ s, 32 ≤ b ∧ b ≠ 34 ∧ b ≠ 92

/-! ### The id -/

/-- The id of every response is a string. -/
theorem get?_id_validBody {id : Int32} {result_b : Bytes} {ms : List (Bytes × Value)}
    (h : Document (validBody id result_b) (.obj ms)) :
    (Value.obj ms).get? (ascii "id") = some (.str (decimalInt id.toInt)) := by
  have hbody : validBody id result_b =
      (ascii "\x7b\"jsonrpc\": \"2.0\", \"result\": \"" ++ content result_b ++ ascii "\",") ++
        (32 :: (quoted (ascii "id") ++ (58 :: 32 :: quoted (decimalInt id.toInt)))) ++ [125] := by
    rw [validBody_eq]
    simp [quoted, ascii]
  rw [hbody] at h
  exact Document.get?_last (by decide)
    ⟨not_mem_decimalInt (by decide) _, not_mem_decimalInt (by decide) _⟩ h

/-- **No response decodes to its own id.** -/
theorem not_roundTrips_validBody (id : Int32) (result_b : Bytes) :
    ¬ RoundTrips (validBody id result_b) result_b id.toInt := by
  intro h
  obtain ⟨v, hdoc, _, hid⟩ := h
  cases v with
  | obj ms =>
    rw [get?_id_validBody hdoc] at hid
    simp at hid
  | _ => simp [Value.get?] at hid

/-- A request with id 1 and the result `ok`. -/
theorem not_roundTrips_one : ¬ ∀ (id : Int32) (result_b : Bytes), id ≠ 0 →
    ValidFits id result_b → RoundTrips (validBody id result_b) result_b id.toInt := by
  intro hall
  have hfits : ValidFits 1 (ascii "ok") := Or.inl (by decide)
  obtain ⟨v, hdoc, _, hid⟩ := hall 1 (ascii "ok") (by decide) hfits
  cases v with
  | obj ms =>
    rw [get?_id_validBody hdoc] at hid
    simp at hid
  | _ => simp [Value.get?] at hid

/-! ### The rest of the object -/

/-- A member without white space around its key. -/
def plainField (before key value : Bytes) : Field :=
  ⟨before, key, key, [], ⟨[32], quoted value, .str value, []⟩⟩

theorem plain_decimalInt (i : Int) : Plain (decimalInt i) := by
  intro b hb
  rcases mem_decimalInt hb with rfl | hb
  · decide
  · refine ⟨?_, ?_, ?_⟩
    · simp only [isDigit, Bool.and_eq_true, decide_eq_true_eq] at hb
      exact UInt8.le_trans (by decide) hb.1
    · rintro rfl
      exact absurd hb (by decide)
    · rintro rfl
      exact absurd hb (by decide)

/-- Plain results arrive, with the id as a string. -/
theorem document_validBody (id : Int32) {s : Bytes} (hs : Plain s) :
    Document (validBody id s) (.obj [(ascii "jsonrpc", .str (ascii "2.0")),
      (ascii "result", .str s), (ascii "id", .str (decimalInt id.toInt))]) := by
  have h0 : content s = s :=
    content_of_zero_not_mem fun h => absurd (hs 0 h).1 (by decide)
  have hid : Plain (decimalInt id.toInt) := plain_decimalInt id.toInt
  let fields : List Field := [plainField [] (ascii "jsonrpc") (ascii "2.0"),
    plainField [32] (ascii "result") s, plainField [32] (ascii "id") (decimalInt id.toInt)]
  have hbody : validBody id s = 123 :: (commas (fields.map Field.bytes) ++ [125]) := by
    rw [validBody_eq, h0]
    simp [fields, plainField, Field.bytes, Part.bytes, commas, quoted, ascii]
  have hkey : ∀ key ∈ [ascii "jsonrpc", ascii "result", ascii "id"], Chars key key :=
    fun key hkey => chars_self fun b hb => by revert key b; decide
  have hfields : ∀ f ∈ fields, Chars f.rawKey f.key ∧ Text f.part.text f.part.value := by
    intro f hf
    simp only [fields, List.mem_cons, List.not_mem_nil, or_false] at hf
    rcases hf with rfl | rfl | rfl
    · exact ⟨hkey _ (by simp [plainField]), .str (chars_self (by decide))⟩
    · exact ⟨hkey _ (by simp [plainField]), .str (chars_self hs)⟩
    · exact ⟨hkey _ (by simp [plainField]), .str (chars_self hid)⟩
  refine ⟨[], validBody id s, [], by simp [Ws], by simp [Ws], by simp, ?_⟩
  rw [hbody]
  refine Text.obj ?_ (fun f hf => (hfields f hf).1) fun f hf => (hfields f hf).2
  intro f hf
  simp only [fields, List.mem_cons, List.not_mem_nil, or_false] at hf
  rcases hf with rfl | rfl | rfl <;> simp [plainField, Ws]

end JsonRPCServer
