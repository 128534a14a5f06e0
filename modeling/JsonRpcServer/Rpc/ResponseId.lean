import JsonRpcServer.Rpc.Process

/-! # The Id of a Response

  An id is a JSON number of 64 bits in the request, an `int` in
  `processRequestPOST`, and a text in the response.

  * `echoes_iff`: a request gets its id back exactly when the id is an
    `int` and the result leaves room for it.
  * `isNotification_null_iff`: a request with an id passes for a
    notification when the `int` is 0 for another number.
  * `shared_id_iff`: two responses carry one id when the ids agree in their
    lower 32 bits.
-/

namespace JsonRPCServer

open Bytes CString Json JsonRPCErrorCodes
open QJsonValue (isNull toInteger)

/-! ### The id text -/

/-- The message ends in a member `id` with this text. -/
def HasId (m id_s : Bytes) : Prop :=
  (34 : UInt8) ∉ id_s ∧ ascii "\"id\": \"" ++ (id_s ++ ascii "\"\x7d") <:+ m

/-- The text both senders make of the variable `id`. -/
def idText (id : Int32) : Bytes := if id ≠ 0 then decimalInt id.toInt else ascii "null"

/-- A message has one id. -/
theorem HasId.unique {m t t' : Bytes} (h : HasId m t) (h' : HasId m t') : t = t' := by
  obtain ⟨ht, a, ha⟩ := h
  obtain ⟨ht', b, hb⟩ := h'
  have hcut : ∀ (a t : Bytes), a ++ (ascii "\"id\": \"" ++ (t ++ ascii "\"\x7d")) =
      (a ++ ascii "\"id\": " ++ 34 :: t) ++ ascii "\"\x7d" := by
    intro a t
    simp [ascii]
  rw [hcut] at ha hb
  -- without the end of the object, both texts follow the last quote
  exact (append_cons_inj ht ht' (List.append_cancel_right (ha.trans hb.symm))).2

theorem quote_not_mem_idText (id : Int32) : (34 : UInt8) ∉ idText id := by
  unfold idText
  split
  · exact not_mem_decimalInt (by decide) id.toInt
  · decide

/-- A numeral has no letters. -/
theorem decimalInt_ne_null (i : Int) : decimalInt i ≠ ascii "null" := by
  intro h
  have hmem : (110 : UInt8) ∈ decimalInt i := by
    rw [h]
    decide
  exact not_mem_decimalInt (by decide) i hmem

theorem idText_injective : Function.Injective idText := by
  intro id id' h
  unfold idText at h
  split at h
  · split at h
    · exact Int32.toInt_inj.mp (decimalInt_injective h)
    · exact absurd h (decimalInt_ne_null id.toInt)
  · next hid =>
    split at h
    · exact absurd h.symm (decimalInt_ne_null id'.toInt)
    · next hid' => rw [not_not.mp hid, not_not.mp hid']

/-! ### What is answered -/

theorem hasId_errorBody (id : Int32) (code : JsonRPCErrorCodes) (head : Bytes) :
    HasId (head ++ errorBody id code) (idText id) := by
  have hcut : ascii "\"\x7d, \"id\": \"" = ascii "\"\x7d, " ++ ascii "\"id\": \"" := by decide
  refine ⟨quote_not_mem_idText id,
    head ++ (ascii "\x7b\"jsonrpc\": \"2.0\", \"error\": \x7b\"code\": " ++
      (decimalInt code.value ++ (ascii ", \"message\": \"" ++ (content (errCodeToStr code) ++
        ascii "\"\x7d, ")))), ?_⟩
  rw [errorBody_eq, hcut]
  simp only [idText, List.append_assoc]

theorem hasId_validBody {id : Int32} (hid : id ≠ 0) (result_b head : Bytes) :
    HasId (head ++ validBody id result_b) (idText id) := by
  have hcut : ascii "\", \"id\": \"" = ascii "\", " ++ ascii "\"id\": \"" := by decide
  refine ⟨quote_not_mem_idText id, head ++ (ascii "\x7b\"jsonrpc\": \"2.0\", \"result\": \"" ++
    (content result_b ++ ascii "\", ")), ?_⟩
  rw [validBody_eq, hcut, idText, if_pos hid]
  simp only [List.append_assoc]

/-- A result leaves room for the id, and is not silenced by it. -/
def ResultFits (id : Int32) (ret : Option JsonRPCRet_t) : Prop :=
  ∀ result, ret = some (result, NoError) →
    id ≠ 0 ∧ strnlen result + (decimalInt id.toInt).length ≤ 3953

/-- Everything but a result that does not fit is answered. -/
theorem answer_message_iff (id : Int32) (ret : Option JsonRPCRet_t) :
    (∃ m, answer id ret = .message m) ↔ ResultFits id ret := by
  by_cases hresult : ∃ result, ret = some (result, NoError)
  · obtain ⟨result, rfl⟩ := hresult
    rw [answer_result]
    constructor
    · rintro ⟨m, hm⟩ result' heq
      cases heq
      by_cases hid : id = 0
      · rw [sendJsonResponseValid, if_pos hid] at hm
        cases hm
      · exact ⟨hid, ((sendJsonResponseValid_message_iff hid result m).mp hm).1⟩
    · intro hfits
      obtain ⟨hid, hroom⟩ := hfits result rfl
      exact ⟨_, (sendJsonResponseValid_message_iff hid result _).mpr ⟨hroom, rfl⟩⟩
  · obtain ⟨code, _, hanswer⟩ := answer_error id hresult
    rw [hanswer, sendJsonResponseError_message]
    exact iff_of_true ⟨_, rfl⟩ fun result heq => absurd ⟨result, heq⟩ hresult

/-- Every answer carries the id text. -/
theorem hasId_of_answer {id : Int32} {ret : Option JsonRPCRet_t} {m : Bytes}
    (h : answer id ret = .message m) : HasId m (idText id) := by
  by_cases hresult : ∃ result, ret = some (result, NoError)
  · obtain ⟨result, rfl⟩ := hresult
    have hid := ((answer_message_iff id _).mp ⟨m, h⟩ result rfl).1
    rw [answer_result, sendJsonResponseValid_message_iff hid] at h
    rw [h.2]
    exact hasId_validBody hid result _
  · obtain ⟨code, _, hanswer⟩ := answer_error id hresult
    rw [hanswer, sendJsonResponseError_message, Sending.message.injEq] at h
    rw [← h]
    exact hasId_errorBody id code _

/-! ### Cutting an id to 32 bits -/

theorem ofInt_toInt_eq_iff (n : Int) :
    (Int32.ofInt n).toInt = n ↔ -2 ^ 31 ≤ n ∧ n < 2 ^ 31 := by
  constructor
  · intro h
    rw [← h]
    exact ⟨Int32.le_toInt _, Int32.toInt_lt _⟩
  · exact fun h => Int32.toInt_ofInt_of_le h.1 h.2

theorem ofInt_eq_iff (n n' : Int) : Int32.ofInt n = Int32.ofInt n' ↔ (2 ^ 32 : Int) ∣ n - n' := by
  rw [← Int32.toInt_inj, Int32.toInt_ofInt, Int32.toInt_ofInt,
    Int.bmod_eq_bmod_iff_bmod_sub_eq_zero, ← Int.dvd_iff_bmod_eq_zero]
  exact Iff.rfl

theorem ofInt_eq_zero_iff (n : Int) : Int32.ofInt n = 0 ↔ (2 ^ 32 : Int) ∣ n := by
  have h := ofInt_eq_iff n 0
  rw [Int.sub_zero] at h
  exact h

/-- The id text of a number is its numeral exactly when it is an `int`. -/
theorem idText_ofInt_eq_iff {n : Int} (hn : n ≠ 0) :
    idText (Int32.ofInt n) = decimalInt n ↔ -2 ^ 31 ≤ n ∧ n < 2 ^ 31 := by
  rw [← ofInt_toInt_eq_iff]
  unfold idText
  split
  · exact decimalInt_injective.eq_iff
  · next hzero =>
    rw [not_not.mp hzero]
    exact iff_of_false (fun h => decimalInt_ne_null n h.symm) fun h => hn h.symm

/-! ### Accepted requests -/

/-- A request object with a method and a whole number as its id, other than
    0 and of 64 bits. -/
structure Accepted (fromJson : Bytes → Option Value) (body : Bytes)
    (ms : List (Bytes × Value)) (name : Bytes) (n : Int) : Prop where
  parsed : fromJson body = some (.obj ms)
  jsonrpc : (Value.obj ms).get? (ascii "jsonrpc") = some (.str (ascii "2.0"))
  method : (Value.obj ms).get? (ascii "method") = some (.str name)
  id : (Value.obj ms).get? (ascii "id") = some (.num n)
  ne_zero : n ≠ 0
  lower : -2 ^ 63 ≤ n
  upper : n < 2 ^ 63

/-- The response has the id `n`. -/
def Echoes (n : Int) (out : Outcome) : Prop :=
  ∃ m, out.response = .message m ∧ HasId m (decimalInt n)

/-- The request is processed with the id 0, which stands for none. -/
def IsNotification (ms : List (Bytes × Value)) : Prop :=
  requestId (member ms (ascii "id")) = .ok 0

/-- The id is an `int`, and a result leaves room for it in the buffer. -/
def Echoable (n : Int) (ret : Option JsonRPCRet_t) : Prop :=
  (-2 ^ 31 ≤ n ∧ n < 2 ^ 31) ∧
    ∀ result, ret = some (result, NoError) → strnlen result + (decimalInt n).length ≤ 3953

/-- An id of another kind than null passes for that of a notification when
    its lower 32 bits are 0. -/
theorem isNotification_iff {ms : List (Bytes × Value)}
    (h : isNull (member ms (ascii "id")) = false) :
    IsNotification ms ↔ toInteger (member ms (ascii "id")) ≠ 0 ∧
      (2 ^ 32 : Int) ∣ toInteger (member ms (ascii "id")) := by
  unfold IsNotification
  rw [requestId_eq_ok_iff h, eq_comm, ofInt_eq_zero_iff]

section Accepted

variable {fromJson : Bytes → Option Value}
  {body : Bytes} {ms : List (Bytes × Value)} {name : Bytes} {n : Int}

theorem Accepted.toInteger_eq (h : Accepted fromJson body ms name n) :
    toInteger (member ms (ascii "id")) = n := by
  rw [member_of_get? h.id]
  exact toInteger_intCast h.lower h.upper

theorem Accepted.not_isNull (h : Accepted fromJson body ms name n) :
    isNull (member ms (ascii "id")) = false := by
  rw [member_of_get? h.id]
  rfl

theorem Accepted.isNotification_iff (h : Accepted fromJson body ms name n) :
    IsNotification ms ↔ (2 ^ 32 : Int) ∣ n := by
  rw [JsonRPCServer.isNotification_iff h.not_isNull, h.toInteger_eq]
  exact and_iff_right h.ne_zero

variable (invokeMethod : Bytes → JsonRPCParams_t → Option JsonRPCRet_t)

/-- An accepted request is answered under the lower 32 bits of its id. -/
theorem Accepted.response_eq (h : Accepted fromJson body ms name n) :
    (processRequestPOST fromJson invokeMethod body).response =
      answer (Int32.ofInt n) (return_val invokeMethod ms name) := by
  have hid : requestId (member ms (ascii "id")) = .ok (Int32.ofInt n) := by
    rw [requestId_eq_ok_iff h.not_isNull, h.toInteger_eq]
    exact ⟨h.ne_zero, rfl⟩
  rw [processRequestPOST_invoked invokeMethod h.parsed h.jsonrpc hid h.method]

/-- **Echoed ids**: an accepted request gets its id back, and is no
    notification, exactly when the id is an `int` and a result leaves room
    for it. -/
theorem Accepted.echoes_iff (h : Accepted fromJson body ms name n) :
    (Echoes n (processRequestPOST fromJson invokeMethod body) ∧ ¬ IsNotification ms) ↔
      Echoable n (return_val invokeMethod ms name) := by
  unfold Echoes Echoable
  rw [h.response_eq invokeMethod, h.isNotification_iff, ← ofInt_eq_zero_iff]
  constructor
  · intro h'
    obtain ⟨⟨m, hm, hid⟩, _⟩ := h'
    have hint := (idText_ofInt_eq_iff h.ne_zero).mp ((hasId_of_answer hm).unique hid)
    refine ⟨hint, fun result hret => ?_⟩
    have hroom := ((answer_message_iff _ _).mp ⟨m, hm⟩ result hret).2
    rw [(ofInt_toInt_eq_iff n).mpr hint] at hroom
    exact hroom
  · intro h'
    obtain ⟨hint, hroom⟩ := h'
    have htoInt := (ofInt_toInt_eq_iff n).mpr hint
    have hzero : Int32.ofInt n ≠ 0 := by
      intro hzero
      rw [hzero] at htoInt
      exact h.ne_zero htoInt.symm
    have hfits : ResultFits (Int32.ofInt n) (return_val invokeMethod ms name) := by
      intro result hret
      rw [htoInt]
      exact ⟨hzero, hroom result hret⟩
    obtain ⟨m, hm⟩ := (answer_message_iff _ _).mpr hfits
    refine ⟨⟨m, hm, ?_⟩, hzero⟩
    rw [← (idText_ofInt_eq_iff h.ne_zero).mpr hint]
    exact hasId_of_answer hm

/-- Two responses carry one id exactly when the ids of the requests agree in
    their lower 32 bits. -/
theorem Accepted.shared_id_iff {body' : Bytes} {ms' : List (Bytes × Value)} {name' : Bytes}
    {n' : Int} (h : Accepted fromJson body ms name n) (h' : Accepted fromJson body' ms' name' n')
    (invokeMethod' : Bytes → JsonRPCParams_t → Option JsonRPCRet_t) {m m' : Bytes}
    (hm : (processRequestPOST fromJson invokeMethod body).response = .message m)
    (hm' : (processRequestPOST fromJson invokeMethod' body').response = .message m') :
    (∃ t, HasId m t ∧ HasId m' t) ↔ (2 ^ 32 : Int) ∣ n - n' := by
  rw [h.response_eq invokeMethod] at hm
  rw [h'.response_eq invokeMethod'] at hm'
  rw [← ofInt_eq_iff]
  constructor
  · intro hx
    obtain ⟨t, ht, ht'⟩ := hx
    have htext : idText (Int32.ofInt n) = t := (hasId_of_answer hm).unique ht
    have htext' : idText (Int32.ofInt n') = t := (hasId_of_answer hm').unique ht'
    exact idText_injective (htext.trans htext'.symm)
  · intro heq
    have hid' := hasId_of_answer hm'
    rw [← heq] at hid'
    exact ⟨_, hasId_of_answer hm, hid'⟩

end Accepted

/-- A request passes for a notification without being one exactly when its
    id is a number whose lower 32 bits are 0. -/
theorem isNotification_null_iff (ms : List (Bytes × Value)) :
    (IsNotification ms → (Value.obj ms).get? (ascii "id") = none ∨
        (Value.obj ms).get? (ascii "id") = some .null) ↔
      ¬ (toInteger (member ms (ascii "id")) ≠ 0 ∧
        (2 ^ 32 : Int) ∣ toInteger (member ms (ascii "id"))) := by
  rw [← isNull_member_iff]
  cases hnull : isNull (member ms (ascii "id")) with
  | true =>
    have hzero : toInteger (member ms (ascii "id")) = 0 := by
      revert hnull
      cases member ms (ascii "id") <;> simp [isNull, toInteger]
    exact iff_of_true (fun _ => rfl) fun h => h.1 hzero
  | false =>
    rw [isNotification_iff hnull]
    exact ⟨fun h hid => Bool.noConfusion (h hid), fun h hid => absurd hid h⟩

/-- **Ids of responses**: what a request with a whole number as its id gets
    back, what passes for a notification, and what two requests share. -/
theorem response_ids_iff {fromJson : Bytes → Option Value}
    {body body' : Bytes} {ms ms' : List (Bytes × Value)} {name name' : Bytes} {n n' : Int}
    (invokeMethod invokeMethod' : Bytes → JsonRPCParams_t → Option JsonRPCRet_t)
    (h : Accepted fromJson body ms name n) (h' : Accepted fromJson body' ms' name' n') :
    ((Echoes n (processRequestPOST fromJson invokeMethod body) ∧ ¬ IsNotification ms) ↔
      Echoable n (return_val invokeMethod ms name)) ∧
    (∀ ms₀, (IsNotification ms₀ → (Value.obj ms₀).get? (ascii "id") = none ∨
        (Value.obj ms₀).get? (ascii "id") = some .null) ↔
      ¬ (toInteger (member ms₀ (ascii "id")) ≠ 0 ∧
        (2 ^ 32 : Int) ∣ toInteger (member ms₀ (ascii "id")))) ∧
    ∀ m m', (processRequestPOST fromJson invokeMethod body).response = .message m →
      (processRequestPOST fromJson invokeMethod' body').response = .message m' →
        ((∃ t, HasId m t ∧ HasId m' t) ↔ (2 ^ 32 : Int) ∣ n - n') :=
  ⟨h.echoes_iff invokeMethod, isNotification_null_iff,
    fun _ _ => h.shared_id_iff invokeMethod h' invokeMethod'⟩

/-! ### Requests for a list -/

/-- The text of a request with the id `n`. -/
def listRequest (n : Int) : Bytes :=
  ascii "\x7b\"jsonrpc\": \"2.0\", \"method\": \"listProperties\", \"id\": " ++
    (decimalInt n ++ ascii "\x7d")

/-- Its object. -/
def listObject (n : Int) : List (Bytes × Value) :=
  [(ascii "jsonrpc", .str (ascii "2.0")), (ascii "method", .str (ascii "listProperties")),
    (ascii "id", .num n)]

/-- A parser of the requests with these ids. -/
def parseList (ns : List Int) (body : Bytes) : Option Value :=
  (ns.find? fun n => listRequest n = body).map fun n => .obj (listObject n)

theorem accepted_listRequest {ns : List Int} {n : Int} (hmem : n ∈ ns) (hn : n ≠ 0)
    (hlo : -2 ^ 63 ≤ n) (hhi : n < 2 ^ 63) :
    Accepted (parseList ns) (listRequest n) (listObject n) (ascii "listProperties") n where
  parsed := by
    have hinj : ∀ k, listRequest k = listRequest n → k = n := fun k hk =>
      decimalInt_injective (List.append_cancel_right (List.append_cancel_left hk))
    unfold parseList
    cases hfind : ns.find? fun k => listRequest k = listRequest n with
    | none => exact absurd (decide_eq_true rfl) (List.find?_eq_none.mp hfind n hmem)
    | some k =>
      rw [hinj k (by simpa using List.find?_some hfind)]
      rfl
  jsonrpc := rfl
  method := rfl
  id := rfl
  ne_zero := hn
  lower := hlo
  upper := hhi

/-- The target answers both requests. -/
theorem response_ids_listed :
    ((Echoes 1 (processRequestPOST (parseList [1, 2]) (fun _ _ => some (ascii "test", NoError))
        (listRequest 1)) ∧ ¬ IsNotification (listObject 1)) ↔
      Echoable 1 (some (ascii "test", NoError))) ∧
    (∀ ms₀, (IsNotification ms₀ → (Value.obj ms₀).get? (ascii "id") = none ∨
        (Value.obj ms₀).get? (ascii "id") = some .null) ↔
      ¬ (toInteger (member ms₀ (ascii "id")) ≠ 0 ∧
        (2 ^ 32 : Int) ∣ toInteger (member ms₀ (ascii "id")))) ∧
    ∀ m m', (processRequestPOST (parseList [1, 2]) (fun _ _ => some (ascii "test", NoError))
        (listRequest 1)).response = .message m →
      (processRequestPOST (parseList [1, 2]) (fun _ _ => none) (listRequest 2)).response =
          .message m' →
        ((∃ t, HasId m t ∧ HasId m' t) ↔ (2 ^ 32 : Int) ∣ 1 - 2) :=
  response_ids_iff (fun _ _ => some (ascii "test", NoError)) (fun _ _ => none)
    (accepted_listRequest (by decide) (by decide) (by decide) (by decide))
    (accepted_listRequest (by decide) (by decide) (by decide) (by decide))

/-- A request with the id 4294967297 is accepted, and answered under the
    id 1. -/
theorem not_echoes_wide :
    Accepted (parseList [4294967297]) (listRequest 4294967297) (listObject 4294967297)
        (ascii "listProperties") 4294967297 ∧
      ¬ Echoes 4294967297 (processRequestPOST (parseList [4294967297])
        (fun _ _ => some (ascii "test", NoError)) (listRequest 4294967297)) := by
  have haccepted : Accepted (parseList [4294967297]) (listRequest 4294967297)
      (listObject 4294967297) (ascii "listProperties") 4294967297 :=
    accepted_listRequest (by decide) (by decide) (by decide) (by decide)
  refine ⟨haccepted, fun hechoes => ?_⟩
  have hnot : ¬ IsNotification (listObject 4294967297) := by
    rw [haccepted.isNotification_iff]
    decide
  have hint := ((haccepted.echoes_iff _).mp ⟨hechoes, hnot⟩).1
  exact absurd hint.2 (by decide)

end JsonRPCServer
