import JsonRpcServer.Http.RecvBuffer

/-! # Cleaning the Receive Buffer

  `cleanBuffer` scans for the last blank line, copies what follows it to the
  front of the block, and returns how far that was.

  ## Main results

  * `cleanBuffer_of_nul`: what it does to a block that holds a NUL.
  * `cleanBuffer_overrun`: on a full block its scan leaves the block.
  * `cleanBuffer_cleans_iff`: it does what its callers take it to do only
    where it has nothing to do.

  ## Proof idea

  A block with a NUL keeps at least as much free space as it had. So the
  returned number, which counts the bytes in front of the copy, is less than
  the space that is free behind it.
-/

open Bytes CString

namespace HttpRecvBufferSingle

variable {n : Nat}

/-- The branch of the copy that calls `memcpy`; `off` is where the copied
    bytes begin. -/
def UsesMemcpy (n off : Nat) : Prop := n - off < n / 2

/-- The bytes `[off, n)` do not overlap the bytes they are copied to. -/
def Apart (n off : Nat) : Prop := n - off ≤ off

/-- The text that follows the last blank line. -/
def FollowsLast (text rest : Bytes) : Prop :=
  ∃ u, text = u ++ (crlf2 ++ rest) ∧ ¬ crlf2 <:+: crlf2.tail ++ rest

/-- What `cleanBuffer` is to do. It returns only when no scan has left the
    block. -/
def Cleans (b : HttpRecvBufferSingle n) : Prop :=
  (crlf2 <:+: b.toQString → ∃ cleaned b', b.cleanBuffer = .ok (cleaned, b') ∧
      FollowsLast b.toQString b'.toQString ∧ cleaned = n - b'.appendOffset ∧
      (UsesMemcpy n cleaned → Apart n cleaned)) ∧
    (¬ crlf2 <:+: b.toQString → ∃ b', b.cleanBuffer = .ok (0, b') ∧ b'.toQString = b.toQString)

/-! ### The scan -/

/-- In a block with a NUL the scan ends at the last blank line of the text. -/
theorem leftover_of_nul {fuel : Nat} {mem : Bytes} (h0 : 0 ∈ mem) (hfuel : mem.length ≤ fuel)
    (off : Nat) : ∃ k, leftover fuel mem off = .ok (off + k) ∧ k ≤ strnlen mem ∧
      (crlf2 <:+: content mem ↔ 0 < k) ∧ ¬ crlf2 <:+: (content mem).drop k := by
  induction fuel generalizing mem off with
  | zero =>
    have hpos := List.length_pos_of_mem h0
    omega
  | succ fuel ih =>
    unfold leftover
    by_cases hin : crlf2 <:+: content mem
    · obtain ⟨j, hfound, _, hlen, _⟩ := strstrFrom_append (w := crlf2) (by decide)
        (mem.drop (strnlen mem)) 0 (zero_not_mem_content mem) hin
      rw [← take_strnlen, List.take_append_drop, Nat.zero_add] at hfound
      have hle : j + 4 ≤ strnlen mem := hlen
      -- the rest of the block has the rest of the text
      have hrest : (mem.drop (j + 4)).length ≤ fuel := by
        rw [List.length_drop]
        omega
      obtain ⟨k, hk, hklen, _, hlast⟩ := ih ((zero_mem_drop_iff hle).mpr h0) hrest (off + j + 4)
      rw [strnlen, content_drop hle, List.length_drop] at hklen
      rw [content_drop hle, List.drop_drop] at hlast
      have hstrnlen : (content mem).length = strnlen mem := rfl
      refine ⟨j + 4 + k, ?_, by omega, iff_of_true hin (by omega), hlast⟩
      rw [strstr, hfound]
      dsimp only
      rw [hk]
      congr 1
      omega
    · have habsent : strstr crlf2 mem = .absent := by
        rcases eq_content_append mem with ⟨hno, _⟩ | ⟨rest, hrest⟩
        · exact absurd h0 hno
        · rw [strstr, hrest]
          exact strstrFrom_absent (by decide) (by decide) rest 0 (zero_not_mem_content mem) hin
      rw [habsent]
      exact ⟨0, rfl, Nat.zero_le _, iff_of_false hin (Nat.lt_irrefl 0), hin⟩

/-- In a full block it leaves the block. -/
theorem leftover_overrun {fuel : Nat} {mem : Bytes} (h0 : 0 ∉ mem) (hfuel : mem.length < fuel)
    (off : Nat) : leftover fuel mem off = .error .scan := by
  induction fuel generalizing mem off with
  | zero => omega
  | succ fuel ih =>
    unfold leftover
    by_cases hin : crlf2 <:+: mem
    · obtain ⟨j, hfound, _, hlen, _⟩ := strstrFrom_append (w := crlf2) (by decide) [] 0 h0 hin
      rw [List.append_nil, Nat.zero_add] at hfound
      have hle : j + 4 ≤ mem.length := hlen
      rw [strstr, hfound]
      apply ih
      · exact fun h => h0 (List.mem_of_mem_drop h)
      · rw [List.length_drop]
        omega
    · rw [strstr, strstrFrom_overrun 0 h0 hin]

/-! ### The copy -/

/-- **With a NUL** the text behind the last blank line stays, and the block
    has more free space than the result says. -/
theorem cleanBuffer_of_nul {b : HttpRecvBufferSingle n} (h0 : 0 ∈ b.mem) :
    ∃ off b', b.cleanBuffer = .ok (off, b') ∧ off ≤ b.appendOffset ∧
      b'.toQString = b.toQString.drop off ∧ (crlf2 <:+: b.toQString ↔ 0 < off) ∧
      ¬ crlf2 <:+: b'.toQString := by
  have hsize := b.size_eq
  obtain ⟨off, hleft, hoff, hpos, hlast⟩ := leftover_of_nul h0 (Nat.le_succ_of_le hsize.le) 0
  rw [Nat.zero_add] at hleft
  have hle : off ≤ strnlen b.mem := hoff
  -- the NUL is copied as well, so the text of the copy ends where it did
  have htext : content (b.mem.drop off ++ b.mem.drop (n - off)) = (content b.mem).drop off := by
    obtain ⟨rest, hrest⟩ : ∃ rest, b.mem.drop off = (content b.mem).drop off ++ 0 :: rest := by
      rcases eq_content_append (b.mem.drop off) with ⟨hno, _⟩ | ⟨rest, hrest⟩
      · exact absurd ((zero_mem_drop_iff hle).mpr h0) hno
      · rw [content_drop hle] at hrest
        exact ⟨rest, hrest⟩
    have hno : (0 : UInt8) ∉ (content b.mem).drop off := fun h =>
      zero_not_mem_content b.mem (List.mem_of_mem_drop h)
    rw [hrest, List.append_assoc, content_append hno]
    exact List.append_nil _
  unfold cleanBuffer
  rw [hleft]
  refine ⟨off, _, rfl, hle, htext, hpos, ?_⟩
  show ¬ crlf2 <:+: content (b.mem.drop off ++ b.mem.drop (n - off))
  rw [htext]
  exact hlast

/-- Without a blank line nothing is dropped. -/
theorem cleanBuffer_of_not_blank {b : HttpRecvBufferSingle n} (h0 : 0 ∈ b.mem)
    (hblank : ¬ crlf2 <:+: b.toQString) :
    ∃ b', b.cleanBuffer = .ok (0, b') ∧ b'.toQString = b.toQString := by
  obtain ⟨off, b', hclean, _, htext, hpos, _⟩ := cleanBuffer_of_nul h0
  obtain rfl : off = 0 := by
    by_contra hne
    exact hblank (hpos.mpr (Nat.pos_of_ne_zero hne))
  exact ⟨b', hclean, htext⟩

theorem cleanBuffer_overrun {b : HttpRecvBufferSingle n} (h0 : 0 ∉ b.mem) :
    b.cleanBuffer = .error .scan := by
  have hsize := b.size_eq
  unfold cleanBuffer
  rw [leftover_overrun h0 (by omega)]

/-- `memcpy` is called for regions that do not overlap. -/
theorem apart_of_usesMemcpy {off : Nat} (h : UsesMemcpy n off) : Apart n off := by
  unfold UsesMemcpy at h
  unfold Apart
  omega

/-- **Cleaning**: the text behind the last blank line is left, the result is
    the space behind it and no scan leaves the block exactly when there is a
    NUL and no blank line in front of it, so that nothing is to be done. -/
theorem cleanBuffer_cleans_iff (b : HttpRecvBufferSingle n) :
    b.Cleans ↔ 0 ∈ b.mem ∧ ¬ crlf2 <:+: b.toQString := by
  by_cases h0 : 0 ∈ b.mem
  · constructor
    · intro h
      refine ⟨h0, fun hblank => ?_⟩
      obtain ⟨off, b', hclean, hoff, htext, _⟩ := cleanBuffer_of_nul h0
      obtain ⟨cleaned, b'', hclean', _, hfree, _⟩ := h.1 hblank
      rw [hclean, Except.ok.injEq, Prod.mk.injEq] at hclean'
      obtain ⟨rfl, rfl⟩ := hclean'
      -- the NUL keeps a byte of the block free
      have hlength : b'.appendOffset = b.appendOffset - off := by
        rw [← toQString_length, htext, List.length_drop]
        rfl
      have hnul := appendOffset_add_nulCount_le b
      have hcount := (zero_mem_iff b).mp h0
      omega
    · intro h
      exact ⟨fun hblank => absurd hblank h.2, cleanBuffer_of_not_blank h0⟩
  · have herror := cleanBuffer_overrun h0
    refine iff_of_false ?_ fun h => h0 h.1
    intro h
    by_cases hblank : crlf2 <:+: b.toQString
    · obtain ⟨_, _, hclean, _⟩ := h.1 hblank
      rw [herror] at hclean
      cases hclean
    · obtain ⟨_, hclean, _⟩ := h.2 hblank
      rw [herror] at hclean
      cases hclean

/-- A block full of text with a blank line in it. -/
def fullBlock : HttpRecvBufferSingle 2048 :=
  ⟨ascii "ab\r\n\r\n" ++ List.replicate 2042 99, by
    rw [List.length_append, List.length_replicate]
    decide⟩

theorem not_cleans_fullBlock : ¬ fullBlock.Cleans := by
  intro h
  have hblank : crlf2 <:+: fullBlock.toQString := by decide +kernel
  have hclean : fullBlock.cleanBuffer.toOption = none := by decide +kernel
  obtain ⟨cleaned, b', hok, _⟩ := h.1 hblank
  rw [hok] at hclean
  cases hclean

end HttpRecvBufferSingle
