import JsonRpcServer.Http.Framing
import JsonRpcServer.Rpc.Process
import JsonRpcServer.Rpc.ResponseJson

/-! # What a JSON-RPC Client Learns

  The client takes the HTTP message off the connection and decodes its body.
  The texts of error responses are fixed, apart from numerals, so they are
  JSON whatever the request was. A result is pasted into the format as it is
  and is JSON when it needs no escapes.

  * `response_understood`: whatever a client posts, a response is one HTTP
    message. If it is an error, its body is an error object, and its status
    is that of the code in it. Only results have the status 200.
-/

namespace JsonRPCServer

open Bytes Json JsonRPCErrorCodes HttpMessage HttpFraming

/-! ### Objects -/

/-- What the format of `sendJsonResponseError` is meant to say. -/
def errorObject (id : Int32) (code : JsonRPCErrorCodes) : Value :=
  .obj [(ascii "jsonrpc", .str (ascii "2.0")),
    (ascii "error", .obj [(ascii "code", .num code.value),
      (ascii "message", .str (errCodeToStr code))]),
    (ascii "id", .str (if id ≠ 0 then decimalInt id.toInt else ascii "null"))]

/-- And that of `sendJsonResponseValid`. -/
def resultObject (id : Int32) (result_b : Bytes) : Value :=
  .obj [(ascii "jsonrpc", .str (ascii "2.0")), (ascii "result", .str result_b),
    (ascii "id", .str (decimalInt id.toInt))]

/-- A member without white space around its key, with a space in front of
    its value. -/
def spacedField (before key text : Bytes) (value : Value) : Json.Field :=
  ⟨before, key, key, [], ⟨[32], text, value, []⟩⟩

/-- The member can be read. -/
structure Spaced (f : Json.Field) (before key text : Bytes) (value : Value) : Prop where
  eq : f = spacedField before key text value
  before : Ws before
  key : Plain key
  text : Text text value

theorem text_obj {fs : List Json.Field}
    (h : ∀ f ∈ fs, ∃ before key text value, Spaced f before key text value) :
    Text (123 :: (commas (fs.map Json.Field.bytes) ++ [125]))
      (.obj (fs.map fun f => (f.key, f.part.value))) := by
  have hblank : Ws [] ∧ Ws [32] := by simp [Ws]
  apply Text.obj
  · intro f hf
    obtain ⟨before, key, text, value, rfl, hbefore, _, _⟩ := h f hf
    exact ⟨hbefore, hblank.1, hblank.2, hblank.1⟩
  · intro f hf
    obtain ⟨before, key, text, value, rfl, _, hkey, _⟩ := h f hf
    exact chars_self hkey
  · intro f hf
    obtain ⟨before, key, text, value, rfl, _, _, htext⟩ := h f hf
    exact htext

/-! ### Error responses -/

/-- The inner object. -/
def errorText (code : JsonRPCErrorCodes) : Bytes :=
  ascii "\x7b\"code\": " ++ (decimalInt code.value ++ (ascii ", \"message\": " ++
    (quoted (errCodeToStr code) ++ ascii "\x7d")))

theorem plain_errCodeToStr (code : JsonRPCErrorCodes) : Plain (errCodeToStr code) := by
  unfold Plain
  cases code <;> decide

theorem plain_keys : ∀ key ∈ [ascii "code", ascii "message", ascii "jsonrpc", ascii "error",
    ascii "id", ascii "2.0", ascii "null"], Plain key := by
  unfold Plain
  decide

theorem text_errorText (code : JsonRPCErrorCodes) :
    Text (errorText code)
      (.obj [(ascii "code", .num code.value), (ascii "message", .str (errCodeToStr code))]) := by
  let fields : List Json.Field := [
    spacedField [] (ascii "code") (decimalInt code.value) (.num code.value),
    spacedField [32] (ascii "message") (quoted (errCodeToStr code)) (.str (errCodeToStr code))]
  have hfields : ∀ f ∈ fields, ∃ before key text value, Spaced f before key text value := by
    intro f hf
    simp only [fields, List.mem_cons, List.not_mem_nil, or_false] at hf
    rcases hf with rfl | rfl
    · exact ⟨_, _, _, _, rfl, by simp [Ws], plain_keys _ (by simp),
        .num (number_decimalInt code.value)⟩
    · exact ⟨_, _, _, _, rfl, by simp [Ws], plain_keys _ (by simp),
        .str (chars_self (plain_errCodeToStr code))⟩
  have hbytes : errorText code = 123 :: (commas (fields.map Json.Field.bytes) ++ [125]) := by
    simp [errorText, fields, spacedField, Json.Field.bytes, Part.bytes, commas, quoted, ascii]
  rw [hbytes]
  exact text_obj hfields

/-- Every error response is JSON and says what it is meant to say. -/
theorem document_errorBody (id : Int32) (code : JsonRPCErrorCodes) :
    Document (errorBody id code) (errorObject id code) := by
  let idText : Bytes := if id ≠ 0 then decimalInt id.toInt else ascii "null"
  have hid : Plain idText := by
    unfold idText
    split
    · exact plain_decimalInt id.toInt
    · exact plain_keys _ (by simp)
  have hcontent : CString.content (errCodeToStr code) = errCodeToStr code := by
    cases code <;> decide
  let fields : List Json.Field := [
    spacedField [] (ascii "jsonrpc") (quoted (ascii "2.0")) (.str (ascii "2.0")),
    spacedField [32] (ascii "error") (errorText code)
      (.obj [(ascii "code", .num code.value), (ascii "message", .str (errCodeToStr code))]),
    spacedField [32] (ascii "id") (quoted idText) (.str idText)]
  have hfields : ∀ f ∈ fields, ∃ before key text value, Spaced f before key text value := by
    intro f hf
    simp only [fields, List.mem_cons, List.not_mem_nil, or_false] at hf
    rcases hf with rfl | rfl | rfl
    · exact ⟨_, _, _, _, rfl, by simp [Ws], plain_keys _ (by simp),
        .str (chars_self (plain_keys _ (by simp)))⟩
    · exact ⟨_, _, _, _, rfl, by simp [Ws], plain_keys _ (by simp), text_errorText code⟩
    · exact ⟨_, _, _, _, rfl, by simp [Ws], plain_keys _ (by simp), .str (chars_self hid)⟩
  have hbytes : errorBody id code = 123 :: (commas (fields.map Json.Field.bytes) ++ [125]) := by
    rw [errorBody_eq, hcontent]
    show _ ++ (_ ++ (_ ++ (_ ++ (_ ++ (idText ++ _))))) = _
    simp [errorText, fields, spacedField, Json.Field.bytes, Part.bytes, commas, quoted, ascii]
  refine ⟨[], errorBody id code, [], by simp [Ws], by simp [Ws], by simp, ?_⟩
  rw [hbytes]
  exact text_obj hfields

/-! ### What is read -/

/-- Errors have a status of their own. -/
theorem status_ne_ok {code : JsonRPCErrorCodes} (h : code ≠ NoError) :
    errCodeToHTTPCode code ≠ 200 := by
  cases code with
  | NoError => exact absurd rfl h
  | _ => decide

/-- The client reads one message, with an error object for this id in it and
    the status of its code. -/
def ReadsError (m : Bytes) (id : Int32) (code : JsonRPCErrorCodes) : Prop :=
  errCodeToHTTPCode code ≠ 200 ∧
    ∃ body, readSoFar m = ([rpcMessage code body], []) ∧ Document body (errorObject id code)

/-- The client reads one message with the status 200, and this result in it
    if it needs no escapes. -/
def ReadsResult (m : Bytes) (id : Int32) (result_b : Bytes) : Prop :=
  ∃ body, readSoFar m = ([rpcMessage NoError body], []) ∧
    (Plain result_b → Document body (resultObject id result_b))

theorem readSoFar_rpcMessage (code : JsonRPCErrorCodes) (body : Bytes) :
    readSoFar (httpHead code body.length ++ body) = ([rpcMessage code body], []) := by
  have hmessage := readMessage_bytes (framed_rpcMessage code body) []
  rw [List.append_nil] at hmessage
  rw [rpcMessage_bytes]
  exact readSoFar_last (fun m hm => absurd hm List.not_mem_nil) hmessage

/-- An error response is sent and read. -/
theorem readsError (id : Int32) {code : JsonRPCErrorCodes} (h : code ≠ NoError) :
    ∃ m, sendJsonResponseError id code = .message m ∧ ReadsError m id code :=
  ⟨_, sendJsonResponseError_message id code, status_ne_ok h, _, readSoFar_rpcMessage code _,
    document_errorBody id code⟩

theorem ne_zero_of_message {id : Int32} {result_b m : Bytes}
    (h : sendJsonResponseValid id result_b = .message m) : id ≠ 0 := by
  intro hid
  rw [sendJsonResponseValid, if_pos hid] at h
  exact Sending.noConfusion h

theorem readsResult {id : Int32} {result_b m : Bytes}
    (h : sendJsonResponseValid id result_b = .message m) : ReadsResult m id result_b := by
  have hid := ne_zero_of_message h
  rw [((sendJsonResponseValid_message_iff hid result_b m).mp h).2]
  exact ⟨_, readSoFar_rpcMessage NoError _, fun hplain => document_validBody id hplain⟩

/-- What `invokeMethod` comes to. -/
def returnedCode : Option JsonRPCRet_t → JsonRPCErrorCodes
  | none => MethodNotFound
  | some (_, second) => second

/-- The response to a request of which nothing has been invoked. -/
def Refused (o : Outcome) : Prop :=
  o.invocations = [] ∧ ∃ code m, code ≠ NoError ∧ o.response = .message m ∧ ReadsError m 0 code

/-- The response to a request of which one method has been invoked. -/
def Answered (invokeMethod : Bytes → JsonRPCParams_t → Option JsonRPCRet_t) (id : Int32)
    (o : Outcome) : Prop :=
  ∃ method params, o.invocations = [(method, params)] ∧
    (returnedCode (invokeMethod method params) ≠ NoError → ∃ m, o.response = .message m ∧
      ReadsError m id (returnedCode (invokeMethod method params))) ∧
    ∀ result, invokeMethod method params = some (result, NoError) →
      ∀ m, o.response = .message m → ReadsResult m id result

theorem refused_refuse {code : JsonRPCErrorCodes} (h : code ≠ NoError) : Refused (refuse code) := by
  obtain ⟨m, hm, hread⟩ := readsError 0 h
  exact ⟨rfl, code, m, h, hm, hread⟩

theorem requestId_error {val : Value} {code : JsonRPCErrorCodes}
    (h : requestId val = .error code) : code ≠ NoError := by
  unfold requestId at h
  split at h
  · cases h
  split at h
  · cases h
    decide
  split at h
  · cases h
    decide
  · cases h

theorem answered_invoke (invokeMethod : Bytes → JsonRPCParams_t → Option JsonRPCRet_t) (id : Int32)
    (root_obj : List (Bytes × Value)) :
    Refused (invoke invokeMethod id root_obj) ∨
      Answered invokeMethod id (invoke invokeMethod id root_obj) := by
  unfold invoke
  dsimp only
  split
  · exact Or.inl (refused_refuse (by decide))
  · refine Or.inr ⟨_, _, rfl, ?_, ?_⟩
    · intro hcode
      -- an error response has the code that has been returned
      cases hret : invokeMethod (CString.content
          (QJsonValue.toString (member root_obj (ascii "method"))))
          (QJsonValue.toObject (member root_obj (ascii "params"))) with
      | none => exact readsError id (by decide)
      | some ret =>
        obtain ⟨result, code⟩ := ret
        rw [hret] at hcode
        obtain ⟨m, hm, hread⟩ := readsError id hcode
        exact ⟨m, (if_pos hcode).trans hm, hread⟩
    · intro result hret m hm
      rw [hret, answer_result] at hm
      exact readsResult hm

/-- **Responses**: whatever is posted, and whatever the parser and the
    methods give, a response is one HTTP message. Without an invocation it is
    an error; behind an invocation it is an error exactly with the code that
    was returned, and a result has the status 200, which no error has. -/
theorem response_understood (fromJson : Bytes → Option Value)
    (invokeMethod : Bytes → JsonRPCParams_t → Option JsonRPCRet_t) (req_body : Bytes) :
    Refused (processRequestPOST fromJson invokeMethod req_body) ∨
      ∃ doc id, fromJson req_body = some doc ∧
        requestId (member (QJsonValue.toObject doc) (ascii "id")) = .ok id ∧
        Answered invokeMethod id (processRequestPOST fromJson invokeMethod req_body) := by
  unfold processRequestPOST
  dsimp only
  split
  · exact Or.inl (refused_refuse (by decide))
  · next doc hdoc =>
    split
    · exact Or.inl (refused_refuse (by decide))
    split
    · exact Or.inl (refused_refuse (by decide))
    split
    · next code hcode => exact Or.inl (refused_refuse (requestId_error hcode))
    · next id hid =>
      rcases answered_invoke invokeMethod id (QJsonValue.toObject doc) with h | h
      · exact Or.inl h
      · exact Or.inr ⟨doc, id, hdoc, hid, h⟩

end JsonRPCServer
