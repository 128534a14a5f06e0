import JsonRpcServer.Framework.HttpMessage
import JsonRpcServer.Http.FileHandles
import JsonRpcServer.Rpc.Respond

/-! # Responses as a Client Reads Them

  A client knows nothing of the buffers and loops of the servers. It reads
  HTTP messages from the bytes that arrive, and takes the end of a body from
  `Content-Length`.

  Each sender formats a head, measures the body and hands both to its loops.
  The client reads the response that was meant when the head says how long
  the body is, and notices when a loop has been left in the middle.

  `sendResponse<BAD_REQUEST>` and `sendResponse<NOT_FOUND>` send no
  `Content-Length`. What follows them on a connection would belong to their
  body; an exception follows them.

  * `responses_read`: whatever part of a response the send loops have brought
    to the client, the client reads the response when it has all of it, and
    nothing before that.
-/

namespace HttpFraming

open Bytes CString Printf HttpMessage System FileHandles HtmlServer
open JsonRPCServer (JsonRPCErrorCodes Sending errCodeToHTTPCode errCodeToStr httpHead validBody
  errorBody sendJsonResponseValid sendJsonResponseError sendJsonResponseValid_message_iff
  sendJsonResponseError_message sendJsonResponseValidLoop sendJsonResponseErrorLoop
  httpHead_eq processRequestGETHead processRequestGETForm)

/-! ### The messages that are meant -/

def statusLine (code : Int) (reason : Bytes) : Bytes :=
  ascii "HTTP/1.1 " ++ (decimalInt code ++ (ascii " " ++ reason))

/-- A response of the JSON-RPC server. -/
def rpcMessage (code : JsonRPCErrorCodes) (body : Bytes) : Message where
  startLine := statusLine (errCodeToHTTPCode code) (errCodeToStr code)
  fields := [⟨ascii "Content-Type", ascii "application/json-rpc 2.0"⟩,
    ⟨ascii "Content-Length", decimalInt body.length⟩, ⟨ascii "Connection", ascii "close"⟩]
  body

/-- A response with a file. -/
def fileMessage (code : StatusCodes) (close : Bool) (f : Bytes) : Message where
  startLine := statusLine code.value (getReasonPhrase code)
  fields := [⟨ascii "Version", ascii "HTTP/1.1"⟩,
    ⟨ascii "Content-Type", ascii "text/html; charset=utf-8"⟩,
    ⟨ascii "Content-Length", decimalInt f.length⟩,
    ⟨ascii "Connection", getConnectionText close⟩]
  body := f

/-- A response without a file. -/
def errorMessage (code : StatusCodes) (close : Bool) : Message where
  startLine := statusLine code.value (getReasonPhrase code)
  fields := [⟨ascii "Version", ascii "HTTP/1.1"⟩, ⟨ascii "Connection", getConnectionText close⟩]
  body := []

/-- `char buf[512]` behind `snprintf`, up to `http_len`; `none` if the bytes
    that are sent are not all in it. -/
def sendBuf (head : Bytes) : Option Bytes :=
  (snprintf (List.replicate 512 0) 0 512 head).bind fun buf =>
    if returned head ≤ 512 then some (buf.take (returned head).toNat) else none

/-! ### Fields of the heads -/

theorem wellFormed_field {f : Field} (hname : (58 : UInt8) ∉ f.name ∧ (13 : UInt8) ∉ f.name)
    (hvalue : (13 : UInt8) ∉ f.value ∧ trim f.value = f.value) : f.WellFormed :=
  ⟨hname.1, hname.2, hvalue.1, hvalue.2⟩

/-- Values without blanks have none around them. -/
theorem trim_eq {value : Bytes} (h : ∀ b ∈ value, blank b = false) : trim value = value := by
  have hdrop : value.dropWhile blank = value := by
    rw [List.dropWhile_eq_self_iff]
    intro hpos
    rw [h _ (List.getElem_mem hpos)]
    exact Bool.false_ne_true
  rw [trim, hdrop, List.rdropWhile_eq_self_iff]
  intro hne
  rw [h _ (List.getLast_mem hne)]
  exact Bool.false_ne_true

theorem wellFormed_length (n : Nat) :
    Field.WellFormed ⟨ascii "Content-Length", decimalInt (n : Int)⟩ := by
  have hname : (58 : UInt8) ∉ ascii "Content-Length" ∧ (13 : UInt8) ∉ ascii "Content-Length" := by
    decide
  have hcr : (13 : UInt8) ∉ decimalInt (n : Int) := not_mem_decimalInt (by decide) _
  refine wellFormed_field hname ⟨hcr, trim_eq fun b hb => ?_⟩
  have hblank : ∀ b : UInt8, blank b = true → b = 32 ∨ b = 9 := by
    intro b hb
    simpa [blank] using hb
  rw [Bool.eq_false_iff]
  intro hb'
  have hspace : (32 : UInt8) ∉ decimalInt (n : Int) := not_mem_decimalInt (by decide) _
  have htab : (9 : UInt8) ∉ decimalInt (n : Int) := not_mem_decimalInt (by decide) _
  rcases hblank b hb' with rfl | rfl
  · exact hspace hb
  · exact htab hb

theorem wellFormed_connection (close : Bool) :
    Field.WellFormed ⟨ascii "Connection", getConnectionText close⟩ := by
  cases close with
  | true => exact wellFormed_field (by decide) (by decide)
  | false => exact wellFormed_field (by decide) (by decide)

/-- The length in front of a body is read as its length. -/
theorem framing_length (before after : List Field) {n : Nat}
    (h : ∀ f ∈ before, lower f.name ≠ ascii "content-length") :
    framing (before ++ ⟨ascii "Content-Length", decimalInt (n : Int)⟩ :: after) = .length n := by
  have hname : lower (ascii "Content-Length") = ascii "content-length" := by decide
  have hfind : (before ++ ⟨ascii "Content-Length", decimalInt (n : Int)⟩ :: after).find?
      (fun f => lower f.name = ascii "content-length") =
      some ⟨ascii "Content-Length", decimalInt (n : Int)⟩ := by
    rw [List.find?_append, List.find?_eq_none.mpr fun f hf => by simpa using h f hf, Option.none_or]
    exact List.find?_cons_of_pos (by simp [hname])
  have hvalue : decimalInt (n : Int) = decimal n := rfl
  rw [framing, hfind]
  dsimp only
  rw [hvalue, if_pos (digits_decimal n), digitsValue_decimal]

/-! ### The messages are well formed -/

theorem statusLine_ok (code : Int) {reason : Bytes} (h : (13 : UInt8) ∉ reason) :
    statusLine code reason ≠ [] ∧ (13 : UInt8) ∉ statusLine code reason := by
  have hcode : (13 : UInt8) ∉ decimalInt code := not_mem_decimalInt (by decide) code
  have hhttp : (13 : UInt8) ∉ ascii "HTTP/1.1 " ∧ (13 : UInt8) ∉ ascii " " := by decide
  constructor
  · simp [statusLine, ascii]
  · simp [statusLine, hcode, hhttp, h]

theorem framed_rpcMessage (code : JsonRPCErrorCodes) (body : Bytes) :
    (rpcMessage code body).Framed := by
  have hreason : (13 : UInt8) ∉ errCodeToStr code := by cases code <;> decide
  obtain ⟨hne, hcr⟩ := statusLine_ok (errCodeToHTTPCode code) hreason
  refine ⟨⟨hne, hcr, fun f hf => ?_⟩, ?_⟩
  · simp only [rpcMessage, List.mem_cons, List.not_mem_nil, or_false] at hf
    rcases hf with rfl | rfl | rfl
    · exact wellFormed_field (by decide) (by decide)
    · exact wellFormed_length body.length
    · exact wellFormed_connection true
  · exact framing_length [_] _ (by decide)

theorem reason_cr (code : StatusCodes) : (13 : UInt8) ∉ getReasonPhrase code := by
  cases code <;> decide

theorem framed_fileMessage (code : StatusCodes) (close : Bool) (f : Bytes) :
    (fileMessage code close f).Framed := by
  obtain ⟨hne, hcr⟩ := statusLine_ok code.value (reason_cr code)
  refine ⟨⟨hne, hcr, fun f hf => ?_⟩, ?_⟩
  · simp only [fileMessage, List.mem_cons, List.not_mem_nil, or_false] at hf
    rcases hf with rfl | rfl | rfl | rfl
    · exact wellFormed_field (by decide) (by decide)
    · exact wellFormed_field (by decide) (by decide)
    · exact wellFormed_length _
    · exact wellFormed_connection close
  · exact framing_length [_, _] _ (by decide)

/-- Nothing in an error response says where it ends. -/
theorem unframed_errorMessage (code : StatusCodes) (close : Bool) :
    (errorMessage code close).Unframed := by
  obtain ⟨hne, hcr⟩ := statusLine_ok code.value (reason_cr code)
  refine ⟨⟨hne, hcr, fun f hf => ?_⟩, ?_⟩
  · simp only [errorMessage, List.mem_cons, List.not_mem_nil, or_false] at hf
    rcases hf with rfl | rfl
    · exact wellFormed_field (by decide) (by decide)
    · exact wellFormed_connection close
  · show framing [⟨ascii "Version", ascii "HTTP/1.1"⟩,
      ⟨ascii "Connection", getConnectionText close⟩] = .toEnd
    cases close <;> decide

/-! ### The heads are those of the messages -/

theorem content_reason (code : StatusCodes) :
    content (getReasonPhrase code) = getReasonPhrase code := by
  cases code <;> decide

theorem content_connection (close : Bool) :
    content (getConnectionText close) = getConnectionText close := by
  cases close <;> decide

theorem rpcMessage_bytes (code : JsonRPCErrorCodes) (body : Bytes) :
    httpHead code body.length ++ body = (rpcMessage code body).bytes := by
  have hreason : content (errCodeToStr code) = errCodeToStr code := by cases code <;> decide
  rw [httpHead_eq, hreason]
  simp [Message.bytes, lineBytes, Field.line, rpcMessage, statusLine, crlf, ascii]

theorem fileHead_eq (code : StatusCodes) (content_len : Nat) (close : Bool) :
    fileHead code content_len close =
      ascii "HTTP/1.1 " ++ (decimalInt code.value ++ (ascii " " ++ (getReasonPhrase code ++
        (ascii "\r\nVersion: HTTP/1.1\r\nContent-Type: text/html; charset=utf-8\r\nContent-Length: " ++
          (decimalInt content_len ++ (ascii "\r\nConnection: " ++
            (getConnectionText close ++ ascii "\r\n\r\n"))))))) := by
  have hfmt : html_get_response_fmt = ascii "HTTP/1.1 " ++ (ascii "%d" ++ (ascii " " ++
      (ascii "%s" ++ (ascii
          "\r\nVersion: HTTP/1.1\r\nContent-Type: text/html; charset=utf-8\r\nContent-Length: " ++
        (ascii "%lu" ++ (ascii "\r\nConnection: " ++ (ascii "%s" ++
          (ascii "\r\n\r\n" ++ [])))))))) := by
    decide +kernel
  have hlong : ∀ (f : Bytes) (as : List Arg) (i : Int),
      format (ascii "%lu" ++ f) (.int i :: as) = decimalInt i ++ format f as := fun _ _ _ => rfl
  rw [fileHead, hfmt, format_text _ _ (by decide), format_int, format_text _ _ (by decide),
    format_str, format_text _ _ (by decide), hlong, format_text _ _ (by decide), format_str,
    format_text _ _ (by decide), content_reason, content_connection]
  simp [format]

theorem errorHead_eq (code : StatusCodes) (close : Bool) :
    errorHead code close =
      ascii "HTTP/1.1 " ++ (decimalInt code.value ++ (ascii " " ++ (getReasonPhrase code ++
        (ascii "\r\nVersion: HTTP/1.1\r\nConnection: " ++
          (getConnectionText close ++ ascii "\r\n\r\n"))))) := by
  have hfmt : html_error_response_fmt = ascii "HTTP/1.1 " ++ (ascii "%d" ++ (ascii " " ++
      (ascii "%s" ++ (ascii "\r\nVersion: HTTP/1.1\r\nConnection: " ++ (ascii "%s" ++
        (ascii "\r\n\r\n" ++ [])))))) := by
    decide
  rw [errorHead, hfmt, format_text _ _ (by decide), format_int, format_text _ _ (by decide),
    format_str, format_text _ _ (by decide), format_str, format_text _ _ (by decide),
    content_reason, content_connection]
  simp [format]

theorem fileMessage_bytes (code : StatusCodes) (close : Bool) (f : Bytes) :
    fileHead code f.length close ++ f = (fileMessage code close f).bytes := by
  rw [fileHead_eq]
  simp [Message.bytes, lineBytes, Field.line, fileMessage, statusLine, crlf, ascii]

theorem errorMessage_bytes (code : StatusCodes) (close : Bool) :
    errorHead code close = (errorMessage code close).bytes := by
  rw [errorHead_eq]
  simp [Message.bytes, lineBytes, Field.line, errorMessage, statusLine, crlf, ascii]

/-! ### Formatting into the buffer -/

theorem sendBuf_eq {head : Bytes} (h : head.length < 512) : sendBuf head = some head := by
  have hret : returned head = head.length := by rw [returned, if_pos (by omega)]
  rw [sendBuf, snprintf_of_lt h (by rw [List.length_replicate]; omega), Option.bind_some, hret,
    if_pos (by omega), Int.toNat_natCast, overwrite, List.take_zero, List.nil_append,
    List.append_assoc, List.take_left]

/-- The buffer holds every error response. -/
theorem sendBuf_errorHead (code : StatusCodes) (close : Bool) :
    sendBuf (errorHead code close) = some (errorMessage code close).bytes := by
  rw [errorMessage_bytes]
  refine sendBuf_eq ?_
  cases code <;> cases close <;> decide +kernel

/-- The buffer holds the head of every file whose length is a `size_t`. -/
theorem sendBuf_fileHead (code : StatusCodes) {content_len : Nat} (close : Bool)
    (hlen : content_len < 2 ^ 64) :
    sendBuf (fileHead code content_len close) = some (fileHead code content_len close) := by
  have hcode : (decimalInt code.value).length + (getReasonPhrase code).length ≤ 30 := by
    cases code <;> decide
  have hdigits : (decimalInt (content_len : Int)).length ≤ 20 := by
    have hpow : content_len < 10 ^ 20 := by omega
    exact (decimal_length_le_iff (by decide)).mpr hpow
  have hclose : (getConnectionText close).length ≤ 5 := by cases close <;> decide
  have h₁ : (ascii "HTTP/1.1 ").length = 9 := by decide
  have h₂ : (ascii "\r\nVersion: HTTP/1.1\r\nContent-Type: text/html; charset=utf-8\r\nContent-Length: ").length
      ≤ 100 := by decide +kernel
  have h₃ : (ascii "\r\nConnection: ").length = 14 := by decide
  have h₄ : (ascii "\r\n\r\n").length = 4 := by decide
  have h₅ : (ascii " ").length = 1 := by decide
  refine sendBuf_eq ?_
  rw [fileHead_eq]
  simp only [List.length_append]
  omega

/-! ### One response -/

/-- What a client makes of the bytes it has received of this message: it has
    the message when it has all of them, and nothing before that. -/
def ReadAs (m : Message) (received : Bytes) : Prop :=
  readMessage received = if received = m.bytes then some (m, []) else none

/-- The message says where it ends, in one way or the other. -/
def Closed (m : Message) : Prop := m.Framed ∨ m.Unframed ∧ m.body = []

theorem readAs_of_part {m : Message} (h : Closed m) {received : Bytes}
    (hpre : received <+: m.bytes) : ReadAs m received := by
  unfold ReadAs
  split
  · next hall =>
    rw [hall]
    rcases h with h | ⟨h, _⟩
    · have hread := readMessage_bytes h []
      rw [List.append_nil] at hread
      exact hread
    · exact readMessage_unframed h
  · next hne => exact readMessage_prefix h hpre hne

/-- A send loop, with the bytes that have been sent before it. A client that
    has them and what the loop has sent reads the message `m` or nothing;
    a loop without a report has brought it all of `all`. -/
def Reads (m : Message) (all before : Bytes) : SendLoop → Prop
  | .looping s => ReadAs m (before ++ s.accepted)
  | .left report accepted =>
      ReadAs m (before ++ accepted) ∧ (report = none → before ++ accepted = all)
  | .fault => False

/-- The loop in all its runs, as long as no call answers `EAGAIN`. -/
def Transfers (c : SendCode) (m : Message) (all before : Bytes) : Prop :=
  ∀ (ls : List SendTurn) (st : SendLoop), Guarded c.step NoAgain c.start ls →
    run c.step c.start ls = some st → Reads m all before st

/-- A loop over a head and, once it has ended without a report, a loop over
    a file. -/
def TransfersBoth (c c' : SendCode) (m : Message) (head : Bytes) : Prop :=
  Transfers c m head [] ∧ Transfers c' m m.bytes head

/-- A loop whose message is a part of `m`, behind what has been sent. -/
theorem transfers_of_sends {c : SendCode} {call : Progress → SendEvent → Sent} {message : Bytes}
    {total : Nat} (hc : c.Sends call message total) {m : Message} (hm : Closed m) {before : Bytes}
    (hpart : before ++ message <+: m.bytes) : Transfers c m (before ++ message) before := by
  intro ls st hguarded hrun
  have hsound : st.Sound message total :=
    (SendCode.sound_iff hc ls).mpr hguarded ls st (List.prefix_refl ls) hrun
  have hread : ∀ accepted, accepted <+: message → ReadAs m (before ++ accepted) :=
    fun accepted haccepted =>
      readAs_of_part hm ((List.prefix_append_right_inj before).mpr haccepted |>.trans hpart)
  cases st with
  | looping s => exact hread s.accepted hsound.isPrefix
  | left report accepted =>
    obtain ⟨hpre, hall⟩ := hsound
    exact ⟨hread accepted hpre, fun hnone => by rw [(hall hnone).1]⟩
  | fault => exact hsound

/-- The loop over a buffer that holds the beginning of a message. -/
theorem transfers_buffer {m : Message} (hm : Closed m) {buf : Bytes} (hbuf : buf <+: m.bytes) :
    Transfers (SendCode.buffer buf) m buf [] :=
  transfers_of_sends (SendCode.buffer_sends buf) hm hbuf

/-- A head and a file of the length the head gives. -/
theorem transfersBoth_file (code : StatusCodes) (close : Bool) (f : Bytes) {c : SendCode}
    {call : Progress → SendEvent → Sent} (hc : c.Sends call f f.length) :
    TransfersBoth (SendCode.buffer (fileHead code f.length close)) c (fileMessage code close f)
      (fileHead code f.length close) := by
  have hm : Closed (fileMessage code close f) := Or.inl (framed_fileMessage code close f)
  have hbytes := fileMessage_bytes code close f
  constructor
  · refine transfers_buffer hm ?_
    rw [← hbytes]
    exact List.prefix_append _ f
  · rw [← hbytes]
    exact transfers_of_sends hc hm (by rw [hbytes])

/-- **Responses**: a client reads the response of each sender when it has all
    of it, and nothing before that, wherever its loops are cut into partial
    sends and wherever they are left; and a sender whose loops end without a
    report has brought it all. -/
theorem responses_read (id errorId : Int32) (result_b send_buffer : Bytes)
    (code : JsonRPCErrorCodes) (form page : Bytes) (status : StatusCodes) (close : Bool)
    (hsent : sendJsonResponseValid id result_b = .message send_buffer)
    (hform : form.length < 2 ^ 64) (hpage : page.length < 2 ^ 64) :
    Transfers (sendJsonResponseValidLoop send_buffer) (rpcMessage .NoError (validBody id result_b))
        send_buffer [] ∧
      (∃ error_buffer, sendJsonResponseError errorId code = .message error_buffer ∧
        Transfers (sendJsonResponseErrorLoop error_buffer)
          (rpcMessage code (errorBody errorId code)) error_buffer []) ∧
      (∃ buf, sendBuf (fileHead .OK form.length true) = some buf ∧
        TransfersBoth (processRequestGETHead buf) (processRequestGETForm form form.length)
          (fileMessage .OK true form) buf) ∧
      (∃ buf, sendBuf (fileHead .OK page.length close) = some buf ∧
        TransfersBoth (sendResponseHead buf) (sendResponseFile page page.length)
          (fileMessage .OK close page) buf) ∧
      ∃ buf, sendBuf (errorHead status close) = some buf ∧
        Transfers (sendResponseHead buf) (errorMessage status close) buf [] := by
  have hvalid : send_buffer = (rpcMessage .NoError (validBody id result_b)).bytes := by
    have hid : id ≠ 0 := by
      intro hid
      rw [sendJsonResponseValid, if_pos hid] at hsent
      exact Sending.noConfusion hsent
    rw [((sendJsonResponseValid_message_iff hid result_b send_buffer).mp hsent).2]
    exact rpcMessage_bytes _ _
  have hformFile : (processRequestGETForm form form.length).Sends
      (fun s => sendfile form s.accepted.length (toSize (form.length - s.sent))) form
      form.length := by
    have hsends := SendCode.form_sends form form.length
    rw [List.take_length] at hsends
    exact hsends
  have hpageFile : (sendResponseFile page page.length).Sends
      (fun s => sendfile page s.accepted.length (toSize (page.length - s.sent))) page
      page.length := by
    have hsends := SendCode.file_sends page page.length
    rw [List.take_length] at hsends
    exact hsends
  refine ⟨?_, ⟨_, sendJsonResponseError_message errorId code, ?_⟩,
    ⟨_, sendBuf_fileHead .OK true hform, transfersBoth_file .OK true form hformFile⟩,
    ⟨_, sendBuf_fileHead .OK close hpage, transfersBoth_file .OK close page hpageFile⟩,
    ⟨_, sendBuf_errorHead status close, ?_⟩⟩
  · rw [hvalid]
    exact transfers_buffer (Or.inl (framed_rpcMessage _ _)) (List.prefix_refl _)
  · rw [rpcMessage_bytes]
    exact transfers_buffer (Or.inl (framed_rpcMessage _ _)) (List.prefix_refl _)
  · exact transfers_buffer (Or.inr ⟨unframed_errorMessage status close, rfl⟩) (List.prefix_refl _)

theorem responses_read_done :
    Transfers (sendJsonResponseValidLoop (rpcMessage .NoError (validBody 7 (ascii "done"))).bytes)
        (rpcMessage .NoError (validBody 7 (ascii "done")))
        (rpcMessage .NoError (validBody 7 (ascii "done"))).bytes [] ∧
      (∃ error_buffer, sendJsonResponseError 0 .ParseError = .message error_buffer ∧
        Transfers (sendJsonResponseErrorLoop error_buffer)
          (rpcMessage .ParseError (errorBody 0 .ParseError)) error_buffer []) ∧
      (∃ buf, sendBuf (fileHead .OK (ascii "form").length true) = some buf ∧
        TransfersBoth (processRequestGETHead buf)
          (processRequestGETForm (ascii "form") (ascii "form").length)
          (fileMessage .OK true (ascii "form")) buf) ∧
      (∃ buf, sendBuf (fileHead .OK (ascii "page").length false) = some buf ∧
        TransfersBoth (sendResponseHead buf)
          (sendResponseFile (ascii "page") (ascii "page").length)
          (fileMessage .OK false (ascii "page")) buf) ∧
      ∃ buf, sendBuf (errorHead .NOT_FOUND false) = some buf ∧
        Transfers (sendResponseHead buf) (errorMessage .NOT_FOUND false) buf [] := by
  refine responses_read 7 0 (ascii "done") _ .ParseError (ascii "form") (ascii "page") .NOT_FOUND
    false ?_ (by decide) (by decide)
  rw [← rpcMessage_bytes]
  exact (sendJsonResponseValid_message_iff (by decide) _ _).mpr ⟨by decide, rfl⟩

end HttpFraming
