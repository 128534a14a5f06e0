import JsonRpcServer.Framework.CString

/-! # The Receive Buffer

  `httpRecvBufferSingle`: one block of the buffer pool. Its text ends at the
  first NUL or at the end of the block, and new data is always stored behind
  that text.

  An access that would leave the block is a `Fault`; the model stops there
  and gives no meaning to what the program would do next.
-/

open Bytes CString

/-- An access outside the block. -/
inductive Fault where
  /-- A `recv` into `[off, off + len)`. -/
  | window (off : Nat) (len : Int)
  /-- A scan for a NUL that the block does not hold. -/
  | scan
  /-- A body at `[off, off + len)`. -/
  | body (off len : Nat)
  deriving DecidableEq, Repr

/-- A block of `buf_size` bytes. -/
structure HttpRecvBufferSingle (buf_size : Nat) where
  mem : Bytes
  size_eq : mem.length = buf_size

namespace HttpRecvBufferSingle

variable {n : Nat}

/-- The block `getBuffer` hands out: all bytes are zero. -/
def zeroed (n : Nat) : HttpRecvBufferSingle n :=
  ⟨List.replicate n 0, List.length_replicate⟩

/-- The text of the buffer: `operator QString`. -/
def toQString (b : HttpRecvBufferSingle n) : Bytes := content b.mem

/-- Where `operator char *` and `operator void *` point. -/
def appendOffset (b : HttpRecvBufferSingle n) : Nat := strnlen b.mem

/-- Number of NUL bytes in the block. -/
def nulCount (b : HttpRecvBufferSingle n) : Nat := b.mem.count 0

/-- Length of what follows the first blank line, -1 if there is none. -/
def receivedContentLength (b : HttpRecvBufferSingle n) : Except Fault Int :=
  match strstr crlf2 b.mem with
  | .found i =>
      match strlen (b.mem.drop (i + 4)) with
      | some len => .ok len
      | none => .error .scan
  | .absent => .ok (-1)
  | .overrun => .error .scan

/-- The `length` bytes behind the first blank line, without copying. -/
def requestBody (b : HttpRecvBufferSingle n) (length : Nat) : Except Fault Bytes :=
  match strstr crlf2 b.mem with
  | .found i =>
      if i + 4 + length ≤ n then .ok ((b.mem.drop (i + 4)).take length)
      else .error (.body (i + 4) length)
  | .absent => .ok []
  | .overrun => .error .scan

/-- Offset of what follows the last blank line of a block, for the rest `mem`
    of the block at offset `off`. -/
def leftover : Nat → Bytes → Nat → Except Fault Nat
  | 0, _, off => .ok off
  | fuel + 1, mem, off =>
      match strstr crlf2 mem with
      | .found i => leftover fuel (mem.drop (i + 4)) (off + i + 4)
      | .absent => .ok off
      | .overrun => .error .scan

/-- Drop everything up to the last blank line; the result is the amount of
    memory said to be cleaned. What follows is copied to the front, and the
    bytes behind the copy stay as they are. Both copies of the source have
    this effect, as the regions of its `memcpy` do not overlap. -/
def cleanBuffer (b : HttpRecvBufferSingle n) : Except Fault (Nat × HttpRecvBufferSingle n) :=
  match leftover (n + 1) b.mem 0 with
  | .error f => .error f
  | .ok off =>
      .ok (off, ⟨b.mem.drop off ++ b.mem.drop (n - off), by
        rw [List.length_append, List.length_drop, List.length_drop, b.size_eq]; omega⟩)

/-- The buffer after `recv` has stored `data` behind the text. A `recv` is
    only made into a window inside the block, so `data` always fits. -/
def append (b : HttpRecvBufferSingle n) (data : Bytes) : HttpRecvBufferSingle n :=
  if h : b.appendOffset + data.length ≤ n then
    ⟨overwrite b.mem b.appendOffset data, by rw [overwrite_length (by rw [b.size_eq]; exact h),
      b.size_eq]⟩
  else b

/-! ### Offsets and free space -/

theorem appendOffset_add_nulCount_le (b : HttpRecvBufferSingle n) :
    b.appendOffset + b.nulCount ≤ n := by
  have h := strnlen_add_count_le b.mem
  rwa [b.size_eq] at h

/-- Without a NUL the text fills the block. -/
theorem appendOffset_of_nulCount_zero {b : HttpRecvBufferSingle n} (h : b.nulCount = 0) :
    b.appendOffset = n := by
  rcases eq_content_append b.mem with ⟨_, hmem⟩ | ⟨rest, hmem⟩
  · rw [appendOffset, strnlen, ← hmem, b.size_eq]
  · rw [nulCount, List.count_eq_zero] at h
    exact absurd (by rw [hmem]; simp) h

theorem toQString_length (b : HttpRecvBufferSingle n) :
    b.toQString.length = b.appendOffset := rfl

theorem zero_mem_iff (b : HttpRecvBufferSingle n) : 0 ∈ b.mem ↔ 0 < b.nulCount :=
  List.count_pos_iff.symm

/-! ### Storing -/

/-- The block after a store: text, new data, and what lay behind them. -/
theorem append_mem (b : HttpRecvBufferSingle n) (data : Bytes)
    (h : b.appendOffset + data.length ≤ n) :
    (b.append data).mem =
      b.toQString ++ (data ++ b.mem.drop (b.appendOffset + data.length)) := by
  have hmem : (b.append data).mem = overwrite b.mem b.appendOffset data := by
    rw [append, dif_pos h]
  rw [hmem, overwrite, appendOffset, take_strnlen, List.append_assoc]
  rfl

theorem append_toQString {b : HttpRecvBufferSingle n} {data : Bytes}
    (h : b.appendOffset + data.length ≤ n) :
    (b.append data).toQString =
      b.toQString ++ content (data ++ b.mem.drop (b.appendOffset + data.length)) := by
  rw [toQString, append_mem b data h, content_append]
  exact zero_not_mem_content b.mem

/-- Bytes stored in front of the zeros leave zeros behind them. -/
theorem zero_append {b : HttpRecvBufferSingle n} {d : Bytes} {k : Nat}
    (hoff : b.appendOffset ≤ k) (hfit : b.appendOffset + d.length ≤ n)
    (h : ∀ x ∈ b.mem.drop k, x = 0) : ∀ x ∈ (b.append d).mem.drop (k + d.length), x = 0 := by
  have htext : (b.toQString ++ d).length = b.appendOffset + d.length := by
    rw [List.length_append, toQString_length]
  have hdrop : (b.append d).mem.drop (k + d.length) = (b.mem.drop k).drop d.length := by
    rw [append_mem b d hfit, ← List.append_assoc, List.drop_append, List.drop_eq_nil_of_le,
      List.nil_append, List.drop_drop, List.drop_drop, htext]
    · congr 1
      omega
    · omega
  rw [hdrop]
  exact fun x hx => h x (List.mem_of_mem_drop hx)

/-- A store uses up at most one NUL per byte. -/
theorem nulCount_le_append {b : HttpRecvBufferSingle n} {data : Bytes}
    (h : b.appendOffset + data.length ≤ n) :
    b.nulCount ≤ (b.append data).nulCount + data.length := by
  -- the store covers the content, which has no NUL, and `data.length` bytes
  have hold : b.nulCount = (b.mem.take (b.appendOffset + data.length)).count 0 +
      (b.mem.drop (b.appendOffset + data.length)).count 0 := by
    rw [← List.count_append, List.take_append_drop]
    rfl
  have htake : (b.mem.take (b.appendOffset + data.length)).count 0 ≤ data.length := by
    rw [List.take_add, List.count_append, appendOffset, take_strnlen,
      List.count_eq_zero.mpr (zero_not_mem_content b.mem), Nat.zero_add]
    exact Nat.le_trans List.count_le_length (List.length_take_le _ _)
  have hnew : (b.mem.drop (b.appendOffset + data.length)).count 0 ≤
      (b.append data).nulCount := by
    rw [nulCount, append_mem b data h, List.count_append, List.count_append]
    omega
  omega

/-- A store of NUL-free data uses up exactly the NULs it covers; one byte
    covers the one that ends the text. -/
theorem nulCount_append_one {b : HttpRecvBufferSingle n} {x : UInt8} (hx : x ≠ 0)
    (h : b.appendOffset + 1 ≤ n) (hpos : 0 < b.nulCount) :
    (b.append [x]).nulCount + 1 = b.nulCount := by
  -- the byte covers the NUL at the end of the text
  obtain ⟨rest, hrest⟩ : ∃ rest, b.mem = content b.mem ++ 0 :: rest := by
    rcases eq_content_append b.mem with ⟨h0, _⟩ | hrest
    · exact absurd ((zero_mem_iff b).mpr hpos) h0
    · exact hrest
  have h0 : (b.toQString).count 0 = 0 := List.count_eq_zero.mpr (zero_not_mem_content b.mem)
  have hdrop : b.mem.drop (b.appendOffset + 1) = rest := by
    have h' : b.mem.drop (b.appendOffset + 1) =
        (content b.mem ++ 0 :: rest).drop ((content b.mem).length + 1) := by
      rw [← hrest]
      rfl
    rw [h', List.drop_length_add_append]
    rfl
  have hold : b.nulCount = rest.count 0 + 1 := by
    rw [nulCount, hrest, List.count_append, List.count_cons_self,
      List.count_eq_zero.mpr (zero_not_mem_content b.mem), Nat.zero_add]
  rw [hold, nulCount, append_mem b [x] h, List.count_append, h0]
  simp [hdrop, hx]

/-! ### The body behind the first blank line -/

/-- Index of the first byte behind the first blank line of a text. -/
def bodyStart (u : Bytes) : Nat :=
  match strstr crlf2 u with
  | .found i => i + 4
  | _ => u.length

/-- Blank lines stay where they are when text is added. -/
theorem bodyStart_append {u : Bytes} (h0 : (0 : UInt8) ∉ u) (hb : crlf2 <:+: u) (v : Bytes) :
    bodyStart (u ++ v) = bodyStart u ∧ bodyStart u ≤ u.length := by
  obtain ⟨j, h₁, h₂, hlen, _⟩ := strstrFrom_append (w := crlf2) (by decide) v 0 h0 hb
  have hlen' : j + 4 ≤ u.length := hlen
  rw [bodyStart, bodyStart, strstr, strstr, h₁, h₂, Nat.zero_add]
  exact ⟨rfl, hlen'⟩

theorem strstr_mem {b : HttpRecvBufferSingle n} (hb : crlf2 <:+: b.toQString) :
    ∃ j, strstr crlf2 b.mem = .found j ∧ j + 4 = bodyStart b.toQString ∧
      bodyStart b.toQString ≤ b.appendOffset := by
  have h0 := zero_not_mem_content b.mem
  obtain ⟨j, h₁, h₂, _⟩ := strstrFrom_append (w := crlf2) (by decide)
    (b.mem.drop (strnlen b.mem)) 0 h0 hb
  rw [← take_strnlen, List.take_append_drop, Nat.zero_add] at h₁
  refine ⟨j, h₁, ?_, (bodyStart_append h0 hb []).2⟩
  rw [bodyStart, strstr, toQString, h₂, Nat.zero_add]

/-- With a blank line in the text the scans end properly if the block holds
    any NUL, and then count the text behind the blank line. -/
theorem receivedContentLength_eq {b : HttpRecvBufferSingle n}
    (hb : crlf2 <:+: b.toQString) :
    b.receivedContentLength =
      if 0 < b.nulCount then .ok ((b.appendOffset - bodyStart b.toQString : Nat) : Int)
      else .error .scan := by
  obtain ⟨j, hj, hbs, hle⟩ := strstr_mem hb
  have hlen : strlen (b.mem.drop (j + 4)) =
      if 0 < b.nulCount then some (b.appendOffset - bodyStart b.toQString) else none := by
    rw [strlen_drop (by rw [hbs]; exact hle), hbs]
    simp only [zero_mem_iff, appendOffset]
  rw [receivedContentLength, hj]
  dsimp only
  rw [hlen]
  by_cases hpos : 0 < b.nulCount
  · rw [if_pos hpos, if_pos hpos]
  · rw [if_neg hpos, if_neg hpos]

theorem requestBody_eq {b : HttpRecvBufferSingle n} (hb : crlf2 <:+: b.toQString)
    {length : Nat} (h : bodyStart b.toQString + length ≤ n) :
    b.requestBody length = .ok ((b.mem.drop (bodyStart b.toQString)).take length) := by
  obtain ⟨j, hj, hbs, _⟩ := strstr_mem hb
  simp only [requestBody, hj, hbs, if_pos h]

/-! ### Blocks without stray bytes -/

/-- The block holds `u` and zeros behind it: the state of a block that has
    only received NUL-free data since it was handed out. -/
def Holds (b : HttpRecvBufferSingle n) (u : Bytes) : Prop :=
  b.mem = u ++ List.replicate (n - u.length) 0 ∧ u.length ≤ n

theorem holds_zeroed (n : Nat) : (zeroed n).Holds [] := ⟨rfl, Nat.zero_le n⟩

section Holds

variable {b : HttpRecvBufferSingle n} {u : Bytes}

theorem toQString_of_holds (h : b.Holds u) (h0 : (0 : UInt8) ∉ u) : b.toQString = u := by
  rw [toQString, h.1, content_append h0]
  cases n - u.length with
  | zero => simp [content]
  | succ k => simp [content, List.replicate_succ]

theorem appendOffset_of_holds (h : b.Holds u) (h0 : (0 : UInt8) ∉ u) :
    b.appendOffset = u.length := by
  rw [← toQString_length, toQString_of_holds h h0]

theorem nulCount_of_holds (h : b.Holds u) (h0 : (0 : UInt8) ∉ u) :
    b.nulCount = n - u.length := by
  rw [nulCount, h.1, List.count_append, List.count_eq_zero.mpr h0, List.count_replicate_self,
    Nat.zero_add]

theorem holds_append (h : b.Holds u) (h0 : (0 : UInt8) ∉ u) {d : Bytes}
    (hd : (u ++ d).length ≤ n) : (b.append d).Holds (u ++ d) := by
  have hlen : u.length + d.length ≤ n := by simpa using hd
  have hoff := appendOffset_of_holds h h0
  refine ⟨?_, hd⟩
  rw [append_mem b d (by rw [hoff]; exact hlen), toQString_of_holds h h0, hoff, h.1,
    List.drop_length_add_append, List.drop_replicate, List.append_assoc, List.length_append,
    Nat.sub_sub]

end Holds

end HttpRecvBufferSingle
