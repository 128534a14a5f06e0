import JsonRpcServer.Framework.Printf
import JsonRpcServer.Rpc.Codes

/-! # Formatting a JSON-RPC Response

  `sendJsonResponseValid` and `sendJsonResponseError` up to their send
  loops. Both measure the body, store the HTTP head at the start of the
  buffer and the body behind it; they differ in the format of the body and
  in the size of the buffer.

  * `sendResponse_intact_iff`: what is handed to the send loop is the head
    followed by the body exactly when the two fit the buffer or nothing is
    sent at all.
-/

namespace JsonRPCServer

open Bytes CString Printf JsonRPCErrorCodes

/-! ### The messages -/

/-- `HTTPTemplates::json_post_response_fmt`. -/
def json_post_response_fmt : Bytes :=
  ascii "HTTP/1.1 %d %s\r\nContent-Type: application/json-rpc 2.0\r\nContent-Length: %lld\r\nConnection: close\r\n\r\n"

/-- The HTTP head in front of a body of this length. -/
def httpHead (code : JsonRPCErrorCodes) (json_len : Int) : Bytes :=
  format json_post_response_fmt
    [.int (errCodeToHTTPCode code), .str (errCodeToStr code), .int json_len]

/-- The format of `sendJsonResponseValid`. -/
def validFormat : Bytes := ascii "\x7b\"jsonrpc\": \"2.0\", \"result\": \"%s\", \"id\": \"%s\"\x7d"

/-- The format of `sendJsonResponseError`. -/
def errorFormat : Bytes :=
  ascii "\x7b\"jsonrpc\": \"2.0\", \"error\": \x7b\"code\": %d, \"message\": \"%s\"\x7d, \"id\": \"%s\"\x7d"

/-- The body of `sendJsonResponseValid`; `result_b` is the result in the
    local encoding. -/
def validBody (id : Int32) (result_b : Bytes) : Bytes :=
  format validFormat [.str result_b, .str (decimalInt id.toInt)]

/-- The body of `sendJsonResponseError`. -/
def errorBody (id : Int32) (code : JsonRPCErrorCodes) : Bytes :=
  format errorFormat [.int code.value, .str (errCodeToStr code),
    .str (if id ≠ 0 then decimalInt id.toInt else ascii "null")]

/-! ### Sending -/

/-- What a sender does. -/
inductive Sending where
  /-- It stores or reads outside its buffer. -/
  | fault
  /-- It returns without sending. -/
  | silent
  /-- It hands these bytes to the send loop. -/
  | message (m : Bytes)
  deriving DecidableEq, Repr

/-- The common part of the two senders, with a buffer of `SEND_BUF_SIZE`
    bytes. -/
def sendResponse (SEND_BUF_SIZE : Nat) (code : JsonRPCErrorCodes) (body : Bytes) : Sending :=
  let json_len := returned body
  if json_len < 0 ∨ json_len = SEND_BUF_SIZE then .silent
  else
    let head := httpHead code json_len
    match snprintf (List.replicate SEND_BUF_SIZE 0) 0 (toSize (SEND_BUF_SIZE - json_len)) head with
    | none => .fault
    | some send_buffer =>
        let http_len := returned head
        if http_len < 0 ∨ http_len = SEND_BUF_SIZE - json_len then .silent
        else
          match snprintf send_buffer http_len.toNat SEND_BUF_SIZE body with
          | none => .fault
          | some send_buffer =>
              if json_len + http_len ≤ SEND_BUF_SIZE then
                .message (send_buffer.take (json_len + http_len).toNat)
              else .fault

/-- `JsonRPCServer::sendJsonResponseValid`. -/
def sendJsonResponseValid (id : Int32) (result_b : Bytes) : Sending :=
  if id = 0 then .silent else sendResponse 4096 NoError (validBody id result_b)

/-- `JsonRPCServer::sendJsonResponseError`. -/
def sendJsonResponseError (id : Int32) (code : JsonRPCErrorCodes) : Sending :=
  sendResponse 2048 code (errorBody id code)

/-- The sender sends nothing, or exactly the head for its body and the body,
    and both fit the buffer. -/
def Intact (SEND_BUF_SIZE : Nat) (code : JsonRPCErrorCodes) (body : Bytes) : Sending → Prop
  | .fault => False
  | .silent => True
  | .message m =>
      m = httpHead code body.length ++ body ∧
        (httpHead code body.length).length + body.length ≤ SEND_BUF_SIZE

/-! ### Lengths -/

theorem httpHead_eq (code : JsonRPCErrorCodes) (json_len : Int) :
    httpHead code json_len =
      ascii "HTTP/1.1 " ++ (decimalInt (errCodeToHTTPCode code) ++ (ascii " " ++
        (content (errCodeToStr code) ++
          (ascii "\r\nContent-Type: application/json-rpc 2.0\r\nContent-Length: " ++
            (decimalInt json_len ++ ascii "\r\nConnection: close\r\n\r\n"))))) := by
  have hfmt : json_post_response_fmt = ascii "HTTP/1.1 " ++ (ascii "%d" ++ (ascii " " ++
      (ascii "%s" ++ (ascii "\r\nContent-Type: application/json-rpc 2.0\r\nContent-Length: " ++
        (ascii "%lld" ++ (ascii "\r\nConnection: close\r\n\r\n" ++ [])))))) := by decide
  rw [httpHead, hfmt, format_text _ _ (by decide), format_int, format_text _ _ (by decide),
    format_str, format_text _ _ (by decide), format_long, format_text _ _ (by decide)]
  simp [format]

theorem validBody_eq (id : Int32) (result_b : Bytes) :
    validBody id result_b =
      ascii "\x7b\"jsonrpc\": \"2.0\", \"result\": \"" ++ (content result_b ++
        (ascii "\", \"id\": \"" ++ (decimalInt id.toInt ++ ascii "\"\x7d"))) := by
  have hfmt : validFormat = ascii "\x7b\"jsonrpc\": \"2.0\", \"result\": \"" ++ (ascii "%s" ++
      (ascii "\", \"id\": \"" ++ (ascii "%s" ++ (ascii "\"\x7d" ++ [])))) := by decide
  rw [validBody, hfmt, format_text _ _ (by decide), format_str, format_text _ _ (by decide),
    format_str, format_text _ _ (by decide), content_decimalInt]
  simp [format]

theorem errorBody_eq (id : Int32) (code : JsonRPCErrorCodes) :
    errorBody id code =
      ascii "\x7b\"jsonrpc\": \"2.0\", \"error\": \x7b\"code\": " ++ (decimalInt code.value ++
        (ascii ", \"message\": \"" ++ (content (errCodeToStr code) ++ (ascii "\"\x7d, \"id\": \"" ++
          ((if id ≠ 0 then decimalInt id.toInt else ascii "null") ++ ascii "\"\x7d"))))) := by
  have hfmt : errorFormat = ascii "\x7b\"jsonrpc\": \"2.0\", \"error\": \x7b\"code\": " ++
      (ascii "%d" ++ (ascii ", \"message\": \"" ++ (ascii "%s" ++ (ascii "\"\x7d, \"id\": \"" ++
        (ascii "%s" ++ (ascii "\"\x7d" ++ [])))))) := by decide
  have hid : content (if id ≠ 0 then decimalInt id.toInt else ascii "null") =
      if id ≠ 0 then decimalInt id.toInt else ascii "null" := by
    split
    · exact content_decimalInt id.toInt
    · decide
  rw [errorBody, hfmt, format_text _ _ (by decide), format_int, format_text _ _ (by decide),
    format_str, format_text _ _ (by decide), format_str, format_text _ _ (by decide), hid]
  rfl

/-- Length of the head, apart from its `Content-Length`. -/
theorem httpHead_length (code : JsonRPCErrorCodes) (json_len : Int) :
    (httpHead code json_len).length =
      91 + (decimalInt (errCodeToHTTPCode code)).length + (content (errCodeToStr code)).length +
        (decimalInt json_len).length := by
  rw [httpHead_eq]
  simp only [List.length_append]
  have h₁ : (ascii "HTTP/1.1 ").length = 9 := by decide
  have h₂ : (ascii "\r\nContent-Type: application/json-rpc 2.0\r\nContent-Length: ").length = 58 := by
    decide
  have h₃ : (ascii "\r\nConnection: close\r\n\r\n").length = 23 := by decide
  have h₄ : (ascii " ").length = 1 := by decide
  omega

theorem validBody_length (id : Int32) (result_b : Bytes) :
    (validBody id result_b).length =
      42 + (strnlen result_b + (decimalInt id.toInt).length) := by
  rw [validBody_eq]
  simp only [List.length_append, strnlen]
  have h₁ : (ascii "\x7b\"jsonrpc\": \"2.0\", \"result\": \"").length = 30 := by decide
  have h₂ : (ascii "\", \"id\": \"").length = 10 := by decide
  have h₃ : (ascii "\"\x7d").length = 2 := by decide
  omega

/-! ### What is sent -/

/-- The head for a body that has an `int` length is short. -/
theorem httpHead_length_le (code : JsonRPCErrorCodes) (json_len : Nat) (h : json_len < 2 ^ 31) :
    (httpHead code json_len).length ≤ 130 := by
  have hcode : (decimalInt (errCodeToHTTPCode code)).length +
      (content (errCodeToStr code)).length ≤ 19 := by
    cases code <;> decide
  have hlen : (decimalInt (json_len : Int)).length ≤ 11 :=
    decimalInt_length_le (by omega) (by omega)
  rw [httpHead_length]
  omega

theorem httpHead_length_pos (code : JsonRPCErrorCodes) (json_len : Int) :
    0 < (httpHead code json_len).length := by
  rw [httpHead_length]
  omega

section sendResponse

variable {SEND_BUF_SIZE : Nat} {code : JsonRPCErrorCodes} {body : Bytes}

/-- A body whose length is no `int`, or that fills the buffer, is not sent. -/
theorem sendResponse_silent (code : JsonRPCErrorCodes)
    (h : body.length = SEND_BUF_SIZE ∨ 2 ^ 31 ≤ body.length) :
    sendResponse SEND_BUF_SIZE code body = .silent := by
  by_cases hint : 2 ^ 31 ≤ body.length
  · have hret : returned body = -1 := by rw [returned, if_neg (by omega)]
    simp [sendResponse, hret]
  · have hret : returned body = body.length := by rw [returned, if_pos (by omega)]
    have hfull := h.resolve_right hint
    simp [sendResponse, hret, hfull]

variable (hint : body.length < 2 ^ 31) (hfull : body.length ≠ SEND_BUF_SIZE)

include hint hfull

/-- The two stores of a body that is not refused at once. -/
theorem sendResponse_eq (code : JsonRPCErrorCodes) :
    sendResponse SEND_BUF_SIZE code body =
      match snprintf (List.replicate SEND_BUF_SIZE 0) 0
          (toSize (SEND_BUF_SIZE - body.length)) (httpHead code body.length) with
      | none => .fault
      | some send_buffer =>
          if (httpHead code body.length).length + body.length = SEND_BUF_SIZE then .silent
          else
            match snprintf send_buffer (httpHead code body.length).length SEND_BUF_SIZE body with
            | none => .fault
            | some send_buffer =>
                if (httpHead code body.length).length + body.length ≤ SEND_BUF_SIZE then
                  .message (send_buffer.take ((httpHead code body.length).length + body.length))
                else .fault := by
  have hhead := httpHead_length_le code _ hint
  have hret : returned body = body.length := by rw [returned, if_pos hint]
  have hrethead : returned (httpHead code body.length) = (httpHead code body.length).length := by
    rw [returned, if_pos (by omega)]
  have hsum : ((body.length : Int) + (httpHead code body.length).length).toNat =
      (httpHead code body.length).length + body.length := by omega
  have hopen : ¬ ((body.length : Int) < 0 ∨ (body.length : Int) = SEND_BUF_SIZE) := by omega
  have hsilent : (((httpHead code body.length).length : Int) < 0 ∨
      ((httpHead code body.length).length : Int) = SEND_BUF_SIZE - body.length) ↔
        (httpHead code body.length).length + body.length = SEND_BUF_SIZE := by omega
  have hread : ((body.length : Int) + (httpHead code body.length).length ≤ SEND_BUF_SIZE) ↔
      (httpHead code body.length).length + body.length ≤ SEND_BUF_SIZE := by omega
  simp only [sendResponse, hret, hrethead, if_neg hopen, hsilent, hread, hsum, Int.toNat_natCast]

/-- Head and body that fit with a NUL are handed out. -/
theorem sendResponse_message (hbuf : SEND_BUF_SIZE < 2 ^ 31)
    (h : (httpHead code body.length).length + body.length < SEND_BUF_SIZE) :
    sendResponse SEND_BUF_SIZE code body = .message (httpHead code body.length ++ body) := by
  have hsize : toSize (SEND_BUF_SIZE - body.length) = SEND_BUF_SIZE - body.length := by
    rw [toSize_of_nonneg (by omega) (by omega)]
    omega
  have hzero : (List.replicate SEND_BUF_SIZE (0 : UInt8)).length = SEND_BUF_SIZE :=
    List.length_replicate
  rw [sendResponse_eq hint hfull, snprintf_of_lt (by omega) (by rw [hzero]; omega)]
  dsimp only
  have hlen : (overwrite (List.replicate SEND_BUF_SIZE 0) 0
      (httpHead code body.length ++ [0])).length = SEND_BUF_SIZE := by
    rw [overwrite_length, hzero]
    rw [List.length_append, hzero]
    simpa using by omega
  rw [if_neg (by omega), snprintf_of_lt (by omega) (by rw [hlen]; omega)]
  dsimp only
  rw [if_pos (by omega), take_overwrite_overwrite]

/-- Head and body that fill the buffer are not sent. -/
theorem sendResponse_exact (hbuf : SEND_BUF_SIZE < 2 ^ 31)
    (h : (httpHead code body.length).length + body.length = SEND_BUF_SIZE) :
    sendResponse SEND_BUF_SIZE code body = .silent := by
  have hhead := httpHead_length_pos code body.length
  have hsize : toSize (SEND_BUF_SIZE - body.length) = (httpHead code body.length).length := by
    rw [toSize_of_nonneg (by omega) (by omega)]
    omega
  rw [sendResponse_eq hint hfull, hsize, snprintf, if_neg (by omega),
    if_pos (by rw [List.length_replicate]; omega)]
  dsimp only
  rw [if_pos h]

/-- Head and body that do not fit leave the buffer. -/
theorem sendResponse_fault (hpos : 0 < SEND_BUF_SIZE)
    (h : SEND_BUF_SIZE < (httpHead code body.length).length + body.length) :
    sendResponse SEND_BUF_SIZE code body = .fault := by
  have hhead := httpHead_length_pos code body.length
  rw [sendResponse_eq hint hfull]
  cases hfirst : snprintf (List.replicate SEND_BUF_SIZE 0) 0
      (toSize (SEND_BUF_SIZE - body.length)) (httpHead code body.length) with
  | none => rfl
  | some send_buffer =>
    have hlen := length_of_snprintf hfirst
    rw [List.length_replicate] at hlen
    dsimp only
    rw [if_neg (by omega), snprintf_overflow (by omega) hpos]

end sendResponse

/-- **What the senders hand out**: the head and the body, or nothing, exactly
    when both fit the buffer together, or the body alone fills it, or the
    body has no `int` length. Everything else leaves the buffer. -/
theorem sendResponse_intact_iff {SEND_BUF_SIZE : Nat} (hpos : 0 < SEND_BUF_SIZE)
    (hbuf : SEND_BUF_SIZE < 2 ^ 31) (code : JsonRPCErrorCodes) (body : Bytes) :
    Intact SEND_BUF_SIZE code body (sendResponse SEND_BUF_SIZE code body) ↔
      (httpHead code body.length).length + body.length ≤ SEND_BUF_SIZE ∨
        body.length = SEND_BUF_SIZE ∨ 2 ^ 31 ≤ body.length := by
  by_cases hsilent : body.length = SEND_BUF_SIZE ∨ 2 ^ 31 ≤ body.length
  · rw [sendResponse_silent code hsilent]
    exact iff_of_true trivial (Or.inr hsilent)
  rw [not_or] at hsilent
  obtain ⟨hfull, hint⟩ := hsilent
  rcases Nat.lt_trichotomy ((httpHead code body.length).length + body.length) SEND_BUF_SIZE with
    h | h | h
  · rw [sendResponse_message (by omega) hfull hbuf h]
    exact iff_of_true ⟨rfl, by omega⟩ (Or.inl (by omega))
  · rw [sendResponse_exact (by omega) hfull hbuf h]
    exact iff_of_true trivial (Or.inl (by omega))
  · rw [sendResponse_fault (by omega) hfull hpos h]
    exact iff_of_false (fun hf => hf) (by omega)

/-! ### The two senders -/

/-- Near the limit a `Content-Length` has four digits, and more digits would
    be beyond the limit anyway. -/
theorem add_decimal_le_iff (J : Nat) :
    (96 + (decimalInt (J : Int)).length) + J ≤ 4096 ↔ J ≤ 3996 := by
  by_cases hJ : J < 10 ^ 4
  · have hdigits : (decimalInt (J : Int)).length ≤ 4 :=
      (decimal_length_le_iff (by decide)).mpr hJ
    by_cases hbig : J < 10 ^ 3
    · omega
    · have hmore : ¬ (decimalInt (J : Int)).length ≤ 3 := fun h =>
        hbig ((decimal_length_le_iff (by decide)).mp h)
      omega
  · omega

theorem add_decimal_lt_iff (J : Nat) :
    (96 + (decimalInt (J : Int)).length) + J < 4096 ↔ J ≤ 3995 := by
  have hle := add_decimal_le_iff J
  constructor
  · intro h
    have hne : J ≠ 3996 := by
      intro heq
      have hdigits : (decimalInt ((3996 : Nat) : Int)).length = 4 := by decide
      rw [heq, hdigits] at h
      omega
    omega
  · intro h
    have hdigits : (decimalInt (J : Int)).length ≤ 4 :=
      (decimal_length_le_iff (by decide)).mpr (by omega)
    omega

/-- What `sendJsonResponseValid` may be called with: the texts fit together,
    or the body is exactly as long as the buffer, or it has no `int` length. -/
def ValidFits (id : Int32) (result_b : Bytes) : Prop :=
  strnlen result_b + (decimalInt id.toInt).length ≤ 3954 ∨
    strnlen result_b + (decimalInt id.toInt).length = 4054 ∨
    2 ^ 31 ≤ 42 + (strnlen result_b + (decimalInt id.toInt).length)

/-- Length of the head of a result. -/
theorem httpHead_length_valid (json_len : Int) :
    (httpHead NoError json_len).length = 96 + (decimalInt json_len).length := by
  have hcode : (decimalInt (errCodeToHTTPCode NoError)).length = 3 := by decide
  have htext : (content (errCodeToStr NoError)).length = 2 := by decide
  rw [httpHead_length, hcode, htext]

theorem sendJsonResponseValid_intact_iff {id : Int32} (hid : id ≠ 0) (result_b : Bytes) :
    Intact 4096 NoError (validBody id result_b) (sendJsonResponseValid id result_b) ↔
      ValidFits id result_b := by
  rw [sendJsonResponseValid, if_neg hid, sendResponse_intact_iff (by decide) (by decide),
    httpHead_length_valid, add_decimal_le_iff, validBody_length, ValidFits]
  omega

/-- A result is sent exactly when it leaves room for its NUL. -/
theorem sendJsonResponseValid_message_iff {id : Int32} (hid : id ≠ 0) (result_b m : Bytes) :
    sendJsonResponseValid id result_b = .message m ↔
      strnlen result_b + (decimalInt id.toInt).length ≤ 3953 ∧
        m = httpHead NoError (validBody id result_b).length ++ validBody id result_b := by
  rw [sendJsonResponseValid, if_neg hid]
  have hlength := validBody_length id result_b
  have hhead := httpHead_length_valid (validBody id result_b).length
  have hle := add_decimal_le_iff (validBody id result_b).length
  have hlt := add_decimal_lt_iff (validBody id result_b).length
  by_cases hsilent : (validBody id result_b).length = 4096 ∨ 2 ^ 31 ≤ (validBody id result_b).length
  · rw [sendResponse_silent NoError hsilent]
    exact iff_of_false nofun fun h => by omega
  rw [not_or] at hsilent
  obtain ⟨hfull, hint⟩ := hsilent
  rcases Nat.lt_trichotomy ((httpHead NoError (validBody id result_b).length).length +
    (validBody id result_b).length) 4096 with h | h | h
  · rw [sendResponse_message (by omega) hfull (by decide) h, Sending.message.injEq]
    constructor
    · exact fun heq => ⟨by omega, heq.symm⟩
    · exact fun heq => heq.2.symm
  · rw [sendResponse_exact (by omega) hfull (by decide) h]
    exact iff_of_false nofun fun h => by omega
  · rw [sendResponse_fault (by omega) hfull (by decide) h]
    exact iff_of_false nofun fun h => by omega

theorem errorBody_length_le (id : Int32) (code : JsonRPCErrorCodes) :
    (errorBody id code).length ≤ 200 := by
  have hcode : (decimalInt code.value).length + (content (errCodeToStr code)).length ≤ 32 := by
    cases code <;> decide
  have hid : (if id ≠ 0 then decimalInt id.toInt else ascii "null").length ≤ 11 := by
    split
    · exact decimalInt_length_le id.le_toInt id.toInt_lt
    · decide
  rw [errorBody_eq]
  simp only [List.length_append]
  have h₁ : (ascii "\x7b\"jsonrpc\": \"2.0\", \"error\": \x7b\"code\": ").length ≤ 50 := by decide
  have h₂ : (ascii ", \"message\": \"").length ≤ 20 := by decide
  have h₃ : (ascii "\"\x7d, \"id\": \"").length ≤ 20 := by decide
  have h₄ : (ascii "\"\x7d").length = 2 := by decide
  omega

/-- An error response has room for its NUL. -/
theorem errorMessage_length_lt (id : Int32) (code : JsonRPCErrorCodes) :
    (httpHead code (errorBody id code).length).length + (errorBody id code).length < 2048 := by
  have hbody := errorBody_length_le id code
  have hhead := httpHead_length_le code (errorBody id code).length (by omega)
  omega

/-- An error response is always sent. -/
theorem sendJsonResponseError_message (id : Int32) (code : JsonRPCErrorCodes) :
    sendJsonResponseError id code =
      .message (httpHead code (errorBody id code).length ++ errorBody id code) := by
  have hfits := errorMessage_length_lt id code
  exact sendResponse_message (by omega) (by omega) (by decide) hfits

/-- An error response always fits its buffer. -/
theorem sendJsonResponseError_intact (id : Int32) (code : JsonRPCErrorCodes) :
    Intact 2048 code (errorBody id code) (sendJsonResponseError id code) := by
  have hfits := errorMessage_length_lt id code
  exact (sendResponse_intact_iff (by decide) (by decide) code _).mpr (Or.inl (Nat.le_of_lt hfits))

/-- **Both senders**: an error response is always sent intact, a result
    exactly when it is short enough, or refused. -/
theorem responses_intact_iff (id : Int32) (result_b : Bytes) (hid : id ≠ 0)
    (errorId : Int32) (code : JsonRPCErrorCodes) :
    (Intact 4096 NoError (validBody id result_b) (sendJsonResponseValid id result_b) ↔
      ValidFits id result_b) ∧
    Intact 2048 code (errorBody errorId code) (sendJsonResponseError errorId code) :=
  ⟨sendJsonResponseValid_intact_iff hid result_b, sendJsonResponseError_intact errorId code⟩

theorem responses_intact_seven :
    (Intact 4096 NoError (validBody 7 (ascii "done")) (sendJsonResponseValid 7 (ascii "done")) ↔
      ValidFits 7 (ascii "done")) ∧
    Intact 2048 MethodNotFound (errorBody 0 MethodNotFound)
      (sendJsonResponseError 0 MethodNotFound) :=
  responses_intact_iff 7 (ascii "done") (by decide) 0 MethodNotFound

/-- A result of 4000 bytes leaves the buffer. -/
theorem sendJsonResponseValid_overflow : ¬ ∀ (id : Int32) (result_b : Bytes), id ≠ 0 →
    Intact 4096 NoError (validBody id result_b) (sendJsonResponseValid id result_b) := by
  intro hall
  have hfits : ∀ k, ValidFits 1 (List.replicate k 97) := fun k =>
    (sendJsonResponseValid_intact_iff (by decide) _).mp (hall 1 (List.replicate k 97) (by decide))
  have hlen : ∀ k, strnlen (List.replicate k 97) = k := by
    intro k
    rw [strnlen, content_of_zero_not_mem, List.length_replicate]
    exact fun h => absurd (List.eq_of_mem_replicate h) (by decide)
  have hid : (decimalInt (1 : Int32).toInt).length = 1 := by decide
  have hlong := hfits 4000
  rw [ValidFits, hlen, hid] at hlong
  omega

end JsonRPCServer
