import JsonRpcServer.Framework.Printf

/-! # The User Types and Their Renderers

  `HyperLink`, `Text` and `Header` are rendered by seven functions. The
  operators `<<` and `const char *` format C strings into a buffer, `toHtml`
  of the first two concatenates whole byte arrays, and `toHtml` of `Header`
  writes its parts to a `QDataStream` one by one.

  ## Main results

  * `stream_eq`: the operators `<<` write the formatted text, and nothing
    when its length is no `int`.
  * `hyperLink_toStream_iff`: where `toHtml` of a link is what is written.
  * `renderers_agree_iff`: all renderers of a value agree for a `Text`
    without a NUL only.
-/

namespace UserMetaTypes

open Bytes CString Printf

structure HyperLink where
  url_ : Bytes
  text_ : Bytes
  deriving DecidableEq, Repr

structure Text where
  text_ : Bytes
  deriving DecidableEq, Repr

structure Header where
  text_ : Bytes
  level_ : Int
  deriving DecidableEq, Repr

/-- A value of a user type. -/
inductive UserValue where
  | hyperLink (link : HyperLink)
  | text (text_field : Text)
  | header (header_field : Header)
  deriving DecidableEq, Repr

/-! ### Into a buffer -/

/-- The memory `new char[n]` gives. All that is read of it has been stored
    before. -/
def newChars (n : Nat) : Bytes := List.replicate n 0

/-- `writeRawData(buf, len)`: a negative length writes nothing; `none` if it
    reads outside the buffer. -/
def writeRawData (buf : Bytes) (len : Int) : Option Bytes :=
  if len < 0 then some []
  else if len.toNat ≤ buf.length then some (buf.take len.toNat)
  else none

/-- The operators `<<`, for the text their format produces. -/
def stream (text : Bytes) : Option Bytes :=
  let len := returned text
  -- `snprintf(nullptr, 0, ...)` has measured the text
  let buf := newChars (toSize (len + 1))
  (snprintf buf 0 (toSize (len + 1)) text).bind fun buf => writeRawData buf (returned text)

/-- What a pointer to the buffer gives as a C string. -/
def cString (buf : Bytes) : Option Bytes := (strlen buf).map fun n => buf.take n

/-- `operator const char *`, for the text its format produces. The buffer has
    no room for the NUL. -/
def constChar (text : Bytes) : Option Bytes :=
  let size := returned text
  -- `new char[size]` throws for a negative size
  if size < 0 then none
  else (snprintf (newChars size.toNat) 0 (toSize size) text).bind cString

/-! ### The renderers -/

/-- The format of `HyperLink`, filled in. -/
def HyperLink.formatted (link : HyperLink) : Bytes :=
  format (ascii "<a href=\"%s\">%s</a>") [.str link.url_, .str link.text_]

/-- The format of `Text`, filled in. -/
def Text.formatted (text_field : Text) : Bytes :=
  format (ascii "<p>%s</p>") [.str text_field.text_]

/-- The format of `Header`, filled in. -/
def Header.formatted (header_field : Header) : Bytes :=
  format (ascii "<h%d>%s</h%d>")
    [.int header_field.level_, .str header_field.text_, .int header_field.level_]

def HyperLink.toStream (link : HyperLink) : Option Bytes := stream link.formatted

def HyperLink.toConstChar (link : HyperLink) : Option Bytes := constChar link.formatted

def HyperLink.toHtml (link : HyperLink) : Bytes :=
  ascii "<a href=\"" ++ link.url_ ++ ascii "\">" ++ link.text_ ++ ascii "</a>"

def Text.toStream (text_field : Text) : Option Bytes := stream text_field.formatted

def Text.toHtml (text_field : Text) : Bytes := ascii "<p>" ++ text_field.text_ ++ ascii "</p>"

def Header.toStream (header_field : Header) : Option Bytes := stream header_field.formatted

/-- The operators `<<` of a `QDataStream` that `Header::toHtml` uses: what
    each of them writes. -/
structure StreamApi where
  cString : Bytes → Bytes
  int : Int → Bytes
  char : UInt8 → Bytes
  byteArray : Bytes → Bytes

def Header.toHtml (api : StreamApi) (header_field : Header) : Bytes :=
  api.cString (ascii "<h") ++ api.int header_field.level_ ++ api.char 62 ++
    api.byteArray header_field.text_ ++ api.cString (ascii "</h") ++
    api.int header_field.level_ ++ api.char 62

/-- All renderers of the value give the same bytes. -/
def UserValue.RenderersAgree (api : StreamApi) : UserValue → Prop
  | .hyperLink link =>
      link.toStream = some link.toHtml ∧ link.toConstChar = some link.toHtml
  | .text text_field => text_field.toStream = some text_field.toHtml
  | .header header_field => header_field.toStream = some (header_field.toHtml api)

/-! ### What is formatted -/

theorem HyperLink.formatted_eq (link : HyperLink) :
    link.formatted = ascii "<a href=\"" ++ (content link.url_ ++
      (ascii "\">" ++ (content link.text_ ++ ascii "</a>"))) := by
  have hfmt : ascii "<a href=\"%s\">%s</a>" = ascii "<a href=\"" ++ (ascii "%s" ++
      (ascii "\">" ++ (ascii "%s" ++ (ascii "</a>" ++ [])))) := by decide
  rw [HyperLink.formatted, hfmt, format_text _ _ (by decide), format_str,
    format_text _ _ (by decide), format_str, format_text _ _ (by decide)]
  simp [format]

theorem Text.formatted_eq (text_field : Text) :
    text_field.formatted = ascii "<p>" ++ (content text_field.text_ ++ ascii "</p>") := by
  have hfmt : ascii "<p>%s</p>" = ascii "<p>" ++ (ascii "%s" ++ (ascii "</p>" ++ [])) := by decide
  rw [Text.formatted, hfmt, format_text _ _ (by decide), format_str, format_text _ _ (by decide)]
  simp [format]

theorem Header.formatted_eq (header_field : Header) :
    header_field.formatted = ascii "<h" ++ (decimalInt header_field.level_ ++ (ascii ">" ++
      (content header_field.text_ ++ (ascii "</h" ++
        (decimalInt header_field.level_ ++ ascii ">"))))) := by
  have hfmt : ascii "<h%d>%s</h%d>" = ascii "<h" ++ (ascii "%d" ++ (ascii ">" ++ (ascii "%s" ++
      (ascii "</h" ++ (ascii "%d" ++ (ascii ">" ++ [])))))) := by decide
  rw [Header.formatted, hfmt, format_text _ _ (by decide), format_int,
    format_text _ _ (by decide), format_str, format_text _ _ (by decide), format_int,
    format_text _ _ (by decide)]
  simp [format]

/-! ### What is written -/

/-- A text that has a length is written as it is. -/
theorem stream_of_lt {text : Bytes} (h : text.length < 2 ^ 31) : stream text = some text := by
  have hreturned : returned text = text.length := if_pos h
  have hsize : toSize ((text.length : Int) + 1) = text.length + 1 := by
    rw [toSize_of_nonneg (by omega) (by omega)]
    omega
  have hbuf : (newChars (text.length + 1)).length = text.length + 1 := List.length_replicate
  have hstored : overwrite (newChars (text.length + 1)) 0 (text ++ [0]) = text ++ [0] := by
    unfold overwrite
    rw [List.take_zero, List.nil_append, List.drop_eq_nil_of_le, List.append_nil]
    rw [hbuf, List.length_append, List.length_singleton]
    omega
  unfold stream
  rw [hreturned]
  dsimp only
  rw [hsize, snprintf_of_lt (by omega) (by omega), hstored]
  show writeRawData (text ++ [0]) text.length = some text
  rw [writeRawData, if_neg (by omega), if_pos (by simp), Int.toNat_natCast, List.take_left]

/-- A text whose length is no `int` is not written at all. -/
theorem stream_of_le {text : Bytes} (h : 2 ^ 31 ≤ text.length) : stream text = some [] := by
  have hreturned : returned text = -1 := if_neg (by omega)
  unfold stream
  rw [hreturned]
  rfl

theorem stream_eq (text : Bytes) :
    stream text = some (if text.length < 2 ^ 31 then text else []) := by
  by_cases h : text.length < 2 ^ 31
  · rw [if_pos h, stream_of_lt h]
  · rw [if_neg h, stream_of_le (Nat.le_of_not_lt h)]

/-- What is written is a given text when the formatted text is that one and
    has a length. -/
theorem stream_eq_some_iff {text html : Bytes} (hne : html ≠ []) :
    stream text = some html ↔ text = html ∧ html.length < 2 ^ 31 := by
  rw [stream_eq, Option.some.injEq]
  constructor
  · intro h
    split at h
    · next hlen => exact ⟨h, h ▸ hlen⟩
    · exact absurd h.symm hne
  · intro h
    rw [h.1, if_pos h.2]

/-- A C string of `operator const char *` has lost the end of the text. -/
theorem constChar_length_lt {text s : Bytes} (hne : text ≠ []) (h : constChar text = some s) :
    s.length < text.length := by
  have hpos : 0 < text.length := List.length_pos_iff.mpr hne
  have hlen : text.length < 2 ^ 31 := by
    by_contra hlen
    have hreturned : returned text = -1 := if_neg hlen
    unfold constChar at h
    rw [hreturned] at h
    cases h
  have hreturned : returned text = text.length := if_pos hlen
  have hsize : toSize (text.length : Int) = text.length := by
    rw [toSize_of_nonneg (by omega) (by omega), Int.toNat_natCast]
  unfold constChar at h
  rw [hreturned] at h
  dsimp only at h
  rw [if_neg (by omega), hsize, Int.toNat_natCast, Option.bind_eq_some_iff] at h
  obtain ⟨buf, hbuf, hs⟩ := h
  -- the buffer has a NUL, so the string is shorter than the buffer
  have hlength : buf.length = text.length := by
    rw [length_of_snprintf hbuf]
    exact List.length_replicate
  unfold cString at hs
  rw [Option.map_eq_some_iff] at hs
  obtain ⟨n, hn, rfl⟩ := hs
  unfold strlen at hn
  rw [Option.ite_none_right_eq_some] at hn
  have hcount := List.count_pos_iff.mpr hn.1
  have hle := strnlen_add_count_le buf
  have hn' := Option.some.inj hn.2
  rw [List.length_take]
  omega

/-! ### Where they agree -/

theorem hyperLink_formatted_iff (link : HyperLink) :
    link.formatted = link.toHtml ↔ 0 ∉ link.url_ ∧ 0 ∉ link.text_ := by
  rw [← content_eq_iff, ← content_eq_iff, HyperLink.formatted_eq, HyperLink.toHtml]
  constructor
  · intro h
    have hlength := congrArg List.length h
    simp only [List.length_append] at hlength
    have hurl := content_length_le link.url_
    have htext := content_length_le link.text_
    exact ⟨content_eq_of_length (by omega), content_eq_of_length (by omega)⟩
  · intro h
    rw [h.1, h.2]
    simp only [List.append_assoc]

/-- **Links**: what is written is what `toHtml` gives when no attribute has a
    NUL and the length is an `int`. -/
theorem hyperLink_toStream_iff (link : HyperLink) :
    link.toStream = some link.toHtml ↔
      0 ∉ link.url_ ∧ 0 ∉ link.text_ ∧ link.toHtml.length < 2 ^ 31 := by
  have hne : link.toHtml ≠ [] := by
    unfold HyperLink.toHtml
    simp [ascii]
  unfold HyperLink.toStream
  rw [stream_eq_some_iff hne, hyperLink_formatted_iff, and_assoc]

theorem text_formatted_iff (text_field : Text) :
    text_field.formatted = text_field.toHtml ↔ 0 ∉ text_field.text_ := by
  rw [← content_eq_iff, Text.formatted_eq, Text.toHtml]
  constructor
  · intro h
    have hlength := congrArg List.length h
    simp only [List.length_append] at hlength
    exact content_eq_of_length (by omega)
  · intro h
    rw [h, List.append_assoc]

/-- The same for texts. -/
theorem text_toStream_iff (text_field : Text) :
    text_field.toStream = some text_field.toHtml ↔
      0 ∉ text_field.text_ ∧ text_field.toHtml.length < 2 ^ 31 := by
  have hne : text_field.toHtml ≠ [] := by
    unfold Text.toHtml
    simp [ascii]
  unfold Text.toStream
  rw [stream_eq_some_iff hne, text_formatted_iff]

/-- `operator const char *` of a link never gives what is written. -/
theorem hyperLink_toConstChar_ne (link : HyperLink) :
    ¬ (link.toStream = some link.toHtml ∧ link.toConstChar = some link.toHtml) := by
  intro h
  have hne : link.formatted ≠ [] := by
    rw [HyperLink.formatted_eq]
    simp [ascii]
  obtain ⟨hurl, htext, _⟩ := (hyperLink_toStream_iff link).mp h.1
  have hlt := constChar_length_lt hne h.2
  rw [(hyperLink_formatted_iff link).mpr ⟨hurl, htext⟩] at hlt
  exact Nat.lt_irrefl _ hlt

/-- The big-endian bytes of a `quint32`. -/
def quint32 (n : Nat) : Bytes :=
  [UInt8.ofNat (n / 2 ^ 24), UInt8.ofNat (n / 2 ^ 16), UInt8.ofNat (n / 2 ^ 8), UInt8.ofNat n]

/-- A C string is written to a stream behind its length, with its NUL. -/
def StreamApi.Framed (api : StreamApi) : Prop :=
  ∀ w, api.cString w = quint32 (w.length + 1) ++ w ++ [0]

/-- `toHtml` of a header writes a length first, and `<<` writes a tag. -/
theorem header_toStream_ne {api : StreamApi} (hapi : api.Framed) (header_field : Header) :
    header_field.toStream ≠ some (header_field.toHtml api) := by
  intro h
  have hframe : api.cString (ascii "<h") = [0, 0, 0, 3, 60, 104, 0] := by
    rw [hapi]
    decide
  have hne : header_field.toHtml api ≠ [] := by
    unfold Header.toHtml
    rw [hframe]
    simp
  obtain ⟨heq, _⟩ := (stream_eq_some_iff hne).mp h
  rw [Header.formatted_eq] at heq
  unfold Header.toHtml at heq
  rw [hframe] at heq
  exact absurd (List.cons.inj heq).1 (by decide)

/-- **Renderers**: all renderers of a value give the same bytes exactly when
    it is a `Text` without a NUL whose element has a length. -/
theorem renderers_agree_iff (api : StreamApi) (hapi : api.Framed) (v : UserValue) :
    v.RenderersAgree api ↔
      ∃ text_, v = .text ⟨text_⟩ ∧ 0 ∉ text_ ∧ text_.length + 7 < 2 ^ 31 := by
  cases v with
  | hyperLink link =>
    refine iff_of_false (hyperLink_toConstChar_ne link) ?_
    intro h
    obtain ⟨text_, hv, _⟩ := h
    cases hv
  | text text_field =>
    have hlength : text_field.toHtml.length = text_field.text_.length + 7 := by
      unfold Text.toHtml
      simp [ascii]
    show text_field.toStream = some text_field.toHtml ↔ _
    rw [text_toStream_iff, hlength]
    constructor
    · intro h
      exact ⟨text_field.text_, rfl, h⟩
    · intro h
      obtain ⟨text_, hv, h⟩ := h
      cases hv
      exact h
  | header header_field =>
    refine iff_of_false (header_toStream_ne hapi header_field) ?_
    intro h
    obtain ⟨text_, hv, _⟩ := h
    cases hv

/-! ### Two values -/

/-- The operators with the default byte order. -/
def defaultStream : StreamApi where
  cString w := quint32 (w.length + 1) ++ w ++ [0]
  int i := quint32 (i % 2 ^ 32).toNat
  char c := quint32 c.toNat
  byteArray b := quint32 b.length ++ b

theorem renderers_agree_text :
    (UserValue.text ⟨ascii "Test"⟩).RenderersAgree defaultStream :=
  (renderers_agree_iff defaultStream (fun _ => rfl) (.text ⟨ascii "Test"⟩)).mpr
    ⟨ascii "Test", rfl, by decide, by decide⟩

/-- `operator const char *` loses the last byte of the end tag. -/
theorem renderers_disagree_hyperLink :
    ¬ (UserValue.hyperLink ⟨ascii "u", ascii "t"⟩).RenderersAgree defaultStream := by
  intro h
  have hshort : HyperLink.toConstChar ⟨ascii "u", ascii "t"⟩ =
      some (ascii "<a href=\"u\">t</a") := by decide +kernel
  have hlast : ascii "<a href=\"u\">t</a" ≠ HyperLink.toHtml ⟨ascii "u", ascii "t"⟩ := by
    decide
  exact hlast (Option.some.inj (hshort.symm.trans h.2))

end UserMetaTypes
