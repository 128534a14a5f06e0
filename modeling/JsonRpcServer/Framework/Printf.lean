import JsonRpcServer.Framework.CString

/-! # Formatted Output into a Buffer

  `snprintf` with its C semantics: at most `size - 1` bytes and a NUL are
  stored, `size` is unsigned, and the result is the length of the
  untruncated text as an `int`.

  A store outside the buffer is reported and not given a meaning.
-/

namespace Printf

open Bytes CString

/-- An argument of a conversion. -/
inductive Arg where
  /-- For `%d`, `%lld` and `%lu`. -/
  | int (i : Int)
  /-- For `%s`: the memory the pointer refers to, up to its NUL. -/
  | str (s : Bytes)

/-- The text a format produces. -/
def format : Bytes → List Arg → Bytes
  | 37 :: 115 :: f, .str s :: as => content s ++ format f as
  | 37 :: 100 :: f, .int i :: as => decimalInt i ++ format f as
  | 37 :: 108 :: 108 :: 100 :: f, .int i :: as => decimalInt i ++ format f as
  | 37 :: 108 :: 117 :: f, .int i :: as => decimalInt i ++ format f as
  | c :: f, as => c :: format f as
  | [], _ => []

section format

variable (f : Bytes) (as : List Arg)

theorem format_str (s : Bytes) :
    format (ascii "%s" ++ f) (.str s :: as) = content s ++ format f as := by
  rfl

theorem format_int (i : Int) :
    format (ascii "%d" ++ f) (.int i :: as) = decimalInt i ++ format f as := by
  rfl

theorem format_long (i : Int) :
    format (ascii "%lld" ++ f) (.int i :: as) = decimalInt i ++ format f as := by
  rfl

/-- Text without a percent sign is copied. -/
theorem format_text {w : Bytes} (hw : (37 : UInt8) ∉ w) :
    format (w ++ f) as = w ++ format f as := by
  induction w with
  | nil => rfl
  | cons c w ih =>
    rw [List.mem_cons, not_or] at hw
    have hc : ∀ g bs, format (c :: g) bs = c :: format g bs := by
      intro g bs
      rw [format.eq_def]
      split <;> simp_all
    rw [List.cons_append, hc, ih hw.2, List.cons_append]

end format

/-- What `snprintf` returns for this text: -1 if its length is no `int`. -/
def returned (text : Bytes) : Int := if text.length < 2 ^ 31 then text.length else -1

/-- The memory after `snprintf(mem + off, size, ...)` with this text; `none`
    if it stores outside the memory. -/
def snprintf (mem : Bytes) (off size : Nat) (text : Bytes) : Option Bytes :=
  if size = 0 then some mem
  else if off + (min (size - 1) text.length + 1) ≤ mem.length then
    some (overwrite mem off (text.take (size - 1) ++ [0]))
  else none

/-- Conversion to `size_t`. -/
def toSize (i : Int) : Nat := (i % 2 ^ 64).toNat

theorem toSize_of_nonneg {i : Int} (h0 : 0 ≤ i) (h : i < 2 ^ 64) : toSize i = i.toNat := by
  rw [toSize, Int.emod_eq_of_lt h0 h]

/-- A text that fits its size is stored with its NUL. -/
theorem snprintf_of_lt {mem text : Bytes} {off size : Nat} (hsize : text.length < size)
    (hfit : off + text.length < mem.length) :
    snprintf mem off size text = some (overwrite mem off (text ++ [0])) := by
  rw [snprintf, if_neg (by omega), if_pos (by omega), List.take_of_length_le (by omega)]

theorem length_of_snprintf {mem mem' text : Bytes} {off size : Nat}
    (h : snprintf mem off size text = some mem') : mem'.length = mem.length := by
  rw [snprintf] at h
  split at h
  · cases h
    rfl
  · split at h
    · cases h
      rw [overwrite_length]
      rw [List.length_append, List.length_take]
      simpa using by omega
    · cases h

/-- Storing the untruncated text outside the memory is a fault. -/
theorem snprintf_overflow {mem text : Bytes} {off size : Nat}
    (h : mem.length < off + (min (size - 1) text.length + 1)) (hsize : 0 < size) :
    snprintf mem off size text = none := by
  rw [snprintf, if_neg (by omega), if_neg (by omega)]

/-- Texts stored one behind the other; the second overwrites the NUL of the
    first. -/
theorem take_overwrite_overwrite (mem a b : Bytes) :
    (overwrite (overwrite mem 0 (a ++ [0])) a.length (b ++ [0])).take (a.length + b.length) =
      a ++ b := by
  have hfirst : overwrite mem 0 (a ++ [0]) = a ++ ([0] ++ mem.drop (a.length + 1)) := by
    simp [overwrite]
  rw [hfirst, overwrite, List.take_left, List.append_assoc, List.take_length_add_append,
    List.append_assoc, List.take_left]

theorem content_decimalInt (i : Int) : content (decimalInt i) = decimalInt i :=
  content_of_zero_not_mem (not_mem_decimalInt (by decide) i)

end Printf
