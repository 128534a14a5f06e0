import JsonRpcServer.Framework.Json
import JsonRpcServer.Rpc.Respond

/-! # Processing a Request

  `JsonRPCServer::processRequestPOST`: the body is parsed, the members of
  the request object are checked one after the other, the method is invoked
  on the target, and what it returns is sent.

  Two parts are Qt's and stand as parameters here:

  - `fromJson`, the parser `QJsonDocument::fromJson`. It gives `none` where
    the document is null.
  - `invokeMethod`, the target behind `QMetaObject::invokeMethod`. It gives
    `none` for a method the target lacks, and otherwise what the method
    returns.
-/

/-! ### QJsonValue

  Its accessors. Each has a default for the values of other types. -/

namespace QJsonValue

open Json

def isNull : Value → Bool
  | .null => true
  | _ => false

def isDouble : Value → Bool
  | .num _ => true
  | _ => false

def isString : Value → Bool
  | .str _ => true
  | _ => false

def isObject : Value → Bool
  | .obj _ => true
  | _ => false

def isArray : Value → Bool
  | .arr _ => true
  | _ => false

protected def toString : Value → Bytes
  | .str s => s
  | _ => []

/-- 0 for what is not a whole number of 64 bits. -/
def toInteger : Value → Int
  | .num q => if q.den = 1 ∧ -2 ^ 63 ≤ q.num ∧ q.num < 2 ^ 63 then q.num else 0
  | _ => 0

def toObject : Value → List (Bytes × Value)
  | .obj ms => ms
  | _ => []

end QJsonValue

namespace JsonRPCServer

open Bytes CString Json JsonRPCErrorCodes
open QJsonValue (isNull isDouble isString isObject isArray toInteger toObject)

/-! ### Requests -/

abbrev JsonRPCParams_t := List (Bytes × Value)

abbrev JsonRPCRet_t := Bytes × JsonRPCErrorCodes

/-- `root_obj[key]`. The operator inserts null for a missing member, so the
    value is never undefined. -/
def member (root_obj : List (Bytes × Value)) (key : Bytes) : Value :=
  ((Value.obj root_obj).get? key).getD .null

/-- The variable `id`, an `int`, or the code the request is refused with. -/
def requestId (val : Value) : Except JsonRPCErrorCodes Int32 :=
  if isNull val = true then .ok 0
  else if isDouble val = false then .error InternalError
  else if toInteger val = 0 then .error NullIDError
  else .ok (Int32.ofInt (toInteger val))

/-- The calls of `invokeMethod`, and what is sent. -/
structure Outcome where
  invocations : List (Bytes × JsonRPCParams_t)
  response : Sending

/-- A request that is refused before anything is invoked. -/
def refuse (code : JsonRPCErrorCodes) : Outcome := ⟨[], sendJsonResponseError 0 code⟩

/-- What is sent after the invocation. -/
def answer (id : Int32) : Option JsonRPCRet_t → Sending
  | none => sendJsonResponseError id MethodNotFound
  | some (first, second) =>
      if second ≠ NoError then sendJsonResponseError id second
      else sendJsonResponseValid id first

section Process

variable (fromJson : Bytes → Option Value)
  (invokeMethod : Bytes → JsonRPCParams_t → Option JsonRPCRet_t)

/-- From `val = root_obj["method"]` on. -/
def invoke (id : Int32) (root_obj : List (Bytes × Value)) : Outcome :=
  let val := member root_obj (ascii "method")
  if isString val = false then refuse InvalidRequest
  else
    -- `invokeMethod` takes the name as a C string
    let method := content (QJsonValue.toString val)
    let params := toObject (member root_obj (ascii "params"))
    ⟨[(method, params)], answer id (invokeMethod method params)⟩

/-- `JsonRPCServer::processRequestPOST`. -/
def processRequestPOST (req_body : Bytes) : Outcome :=
  match fromJson req_body with
  | none => refuse ParseError
  | some doc =>
      if isObject doc = true ∧ isArray doc = true then refuse ParseError
      else
        -- an array leaves `root_obj` empty
        let root_obj := toObject doc
        if QJsonValue.toString (member root_obj (ascii "jsonrpc")) ≠ ascii "2.0" then refuse InternalError
        else
          match requestId (member root_obj (ascii "id")) with
          | .error code => refuse code
          | .ok id => invoke invokeMethod id root_obj

end Process

/-! ### Members -/

theorem member_of_get? {ms : List (Bytes × Value)} {key : Bytes} {v : Value}
    (h : (Value.obj ms).get? key = some v) : member ms key = v := by
  rw [member, h]
  rfl

/-- Null stands for a missing member. -/
theorem isNull_member_iff {ms : List (Bytes × Value)} {key : Bytes} :
    isNull (member ms key) = true ↔
      (Value.obj ms).get? key = none ∨ (Value.obj ms).get? key = some .null := by
  unfold member
  cases (Value.obj ms).get? key with
  | none => exact iff_of_true rfl (Or.inl rfl)
  | some v => cases v <;> simp [isNull]

/-- A text that is not empty is that of a string. -/
theorem toString_member_eq_iff {ms : List (Bytes × Value)} {key s : Bytes} (hs : s ≠ []) :
    QJsonValue.toString (member ms key) = s ↔ (Value.obj ms).get? key = some (.str s) := by
  unfold member
  cases (Value.obj ms).get? key with
  | none => exact iff_of_false hs.symm nofun
  | some v => cases v <;> simp [QJsonValue.toString, hs.symm]

/-! ### The id -/

theorem toInteger_intCast {n : Int} (hlo : -2 ^ 63 ≤ n) (hhi : n < 2 ^ 63) :
    toInteger (.num n) = n := by
  rw [toInteger, Rat.den_intCast, Rat.num_intCast, if_pos ⟨rfl, hlo, hhi⟩]

/-- A request without an id has the id 0. -/
theorem requestId_of_isNull {val : Value} (h : isNull val = true) : requestId val = .ok 0 := by
  rw [requestId, if_pos h]

/-- Of the other values only numbers pass, cut to 32 bits. -/
theorem requestId_eq_ok_iff {val : Value} (h : isNull val = false) (id : Int32) :
    requestId val = .ok id ↔ toInteger val ≠ 0 ∧ id = Int32.ofInt (toInteger val) := by
  cases val with
  | null => cases h
  | num q =>
    show (if toInteger (.num q) = 0 then _ else _) = _ ↔ _
    split
    · next hzero => exact iff_of_false nofun fun h => h.1 hzero
    · next hzero =>
      rw [Except.ok.injEq]
      exact ⟨fun heq => ⟨hzero, heq.symm⟩, fun h => h.2.symm⟩
  | bool | str | arr | obj => exact iff_of_false nofun fun h => h.1 rfl

/-! ### The cascade -/

section Process

variable {fromJson : Bytes → Option Value}
  (invokeMethod : Bytes → JsonRPCParams_t → Option JsonRPCRet_t)
  {body : Bytes} {ms : List (Bytes × Value)}

/-- What the target returns to the request. -/
def return_val (invokeMethod : Bytes → JsonRPCParams_t → Option JsonRPCRet_t)
    (ms : List (Bytes × Value)) (name : Bytes) : Option JsonRPCRet_t :=
  invokeMethod (content name) (toObject (member ms (ascii "params")))

theorem processRequestPOST_obj (h : fromJson body = some (.obj ms)) :
    processRequestPOST fromJson invokeMethod body =
      if QJsonValue.toString (member ms (ascii "jsonrpc")) ≠ ascii "2.0" then refuse InternalError
      else
        match requestId (member ms (ascii "id")) with
        | .error code => refuse code
        | .ok id => invoke invokeMethod id ms := by
  rw [processRequestPOST, h]
  exact if_neg fun hboth => Bool.noConfusion hboth.2

theorem jsonrpc_iff : QJsonValue.toString (member ms (ascii "jsonrpc")) = ascii "2.0" ↔
    (Value.obj ms).get? (ascii "jsonrpc") = some (.str (ascii "2.0")) :=
  toString_member_eq_iff (by decide)

/-- What becomes of a request with the right version is up to its id. -/
theorem processRequestPOST_of_jsonrpc (h : fromJson body = some (.obj ms))
    (hjsonrpc : (Value.obj ms).get? (ascii "jsonrpc") = some (.str (ascii "2.0"))) :
    processRequestPOST fromJson invokeMethod body =
      match requestId (member ms (ascii "id")) with
      | .error code => refuse code
      | .ok id => invoke invokeMethod id ms := by
  rw [processRequestPOST_obj invokeMethod h, if_neg (not_not_intro (jsonrpc_iff.mpr hjsonrpc))]

/-- A request with an id the server works with and a method reaches the
    target once. -/
theorem processRequestPOST_invoked (h : fromJson body = some (.obj ms))
    (hjsonrpc : (Value.obj ms).get? (ascii "jsonrpc") = some (.str (ascii "2.0")))
    {id : Int32} (hid : requestId (member ms (ascii "id")) = .ok id)
    {name : Bytes} (hmethod : (Value.obj ms).get? (ascii "method") = some (.str name)) :
    processRequestPOST fromJson invokeMethod body =
      ⟨[(content name, toObject (member ms (ascii "params")))],
        answer id (return_val invokeMethod ms name)⟩ := by
  rw [processRequestPOST_of_jsonrpc invokeMethod h hjsonrpc, hid]
  dsimp only
  rw [invoke, member_of_get? hmethod]
  rfl

end Process

/-! ### The answer -/

/-- Everything but a result is an error response. -/
theorem answer_error (id : Int32) {ret : Option JsonRPCRet_t}
    (h : ¬ ∃ result, ret = some (result, NoError)) :
    ∃ code, code ≠ NoError ∧ answer id ret = sendJsonResponseError id code := by
  match ret with
  | none => exact ⟨MethodNotFound, by decide, rfl⟩
  | some (result, code) =>
    have hcode : code ≠ NoError := fun hcode => h ⟨result, by rw [hcode]⟩
    exact ⟨code, hcode, if_pos hcode⟩

theorem answer_result (id : Int32) (result : Bytes) :
    answer id (some (result, NoError)) = sendJsonResponseValid id result := rfl

end JsonRPCServer
