import JsonRpcServer.Framework.Bytes

/-! # C Strings in a Byte Array

  The functions of `<string.h>` on a block of memory given as the list of
  its bytes. A scan for a terminating NUL that leaves the block is reported
  as such and not given a value.

  `content` is the logical text of a block: the bytes before its first NUL.
-/

namespace CString

/-- The bytes before the first NUL, or all of them. -/
def content (mem : Bytes) : Bytes := mem.takeWhile (· != 0)

/-- `strnlen(mem, size)` for a block of that size. -/
def strnlen (mem : Bytes) : Nat := (content mem).length

/-- `strlen(mem)`; `none` if no NUL lies inside the block. -/
def strlen (mem : Bytes) : Option Nat :=
  if 0 ∈ mem then some (strnlen mem) else none

/-- Result of a search for a fixed text. -/
inductive Scan where
  /-- Found, at this index. -/
  | found (i : Nat)
  /-- The terminating NUL was reached first. -/
  | absent
  /-- The end of the block was reached first. -/
  | overrun
  deriving DecidableEq, Repr

/-- `strstr(mem, w)` for a text `w` without NUL, from index `i` of a block. -/
def strstrFrom (w : Bytes) : Bytes → Nat → Scan
  | [], _ => .overrun
  | x :: xs, i =>
      if w <+: x :: xs then .found i
      else if x = 0 then .absent
      else strstrFrom w xs (i + 1)

/-- `strstr(mem, w)`. -/
def strstr (w mem : Bytes) : Scan := strstrFrom w mem 0

/-- Store `data` at offset `off`. -/
def overwrite (mem : Bytes) (off : Nat) (data : Bytes) : Bytes :=
  mem.take off ++ data ++ mem.drop (off + data.length)

/-! ### Content -/

theorem zero_not_mem_content (mem : Bytes) : (0 : UInt8) ∉ content mem := by
  intro h
  have := List.mem_takeWhile_imp h
  simp at this

theorem content_append {a : Bytes} (ha : (0 : UInt8) ∉ a) (b : Bytes) :
    content (a ++ b) = a ++ content b := by
  rw [content, List.takeWhile_append_of_pos]
  · rfl
  · intro x hx
    simp only [bne_iff_ne, ne_eq]
    rintro rfl
    exact ha hx

theorem content_of_zero_not_mem {a : Bytes} (ha : (0 : UInt8) ∉ a) : content a = a := by
  have h := content_append ha []
  simpa [content] using h

/-- A block without a NUL is all content. -/
theorem content_eq_iff {a : Bytes} : content a = a ↔ 0 ∉ a :=
  ⟨fun h => h ▸ zero_not_mem_content a, content_of_zero_not_mem⟩

theorem content_length_le (a : Bytes) : (content a).length ≤ a.length :=
  (List.takeWhile_prefix _).length_le

/-- So is one whose content is as long as itself. -/
theorem content_eq_of_length {a : Bytes} (h : (content a).length = a.length) : content a = a :=
  (List.takeWhile_prefix _).eq_of_length h

/-- A block is its content followed by nothing or by a NUL. -/
theorem eq_content_append (mem : Bytes) :
    (0 ∉ mem ∧ mem = content mem) ∨ ∃ b, mem = content mem ++ 0 :: b := by
  have h := List.takeWhile_append_dropWhile (p := (· != 0)) (l := mem)
  cases hd : mem.dropWhile (· != 0) with
  | nil =>
    rw [hd, List.append_nil] at h
    exact Or.inl ⟨h ▸ zero_not_mem_content mem, h.symm⟩
  | cons x xs =>
    have hx := List.head?_dropWhile_not (· != (0 : UInt8)) mem
    rw [hd] at h hx
    obtain rfl : x = 0 := by simpa using hx
    exact Or.inr ⟨xs, h.symm⟩

/-- Free space: every NUL lies at or behind the end of the content. -/
theorem strnlen_add_count_le (mem : Bytes) : strnlen mem + mem.count 0 ≤ mem.length := by
  have h := List.takeWhile_append_dropWhile (p := (· != 0)) (l := mem)
  have hcount : (content mem).count 0 = 0 :=
    List.count_eq_zero.mpr (zero_not_mem_content mem)
  calc strnlen mem + mem.count 0
      = strnlen mem + ((content mem) ++ mem.dropWhile (· != 0)).count 0 := by rw [content, h]
    _ = strnlen mem + (mem.dropWhile (· != 0)).count 0 := by
        rw [List.count_append, hcount, Nat.zero_add]
    _ ≤ strnlen mem + (mem.dropWhile (· != 0)).length := Nat.add_le_add_left List.count_le_length _
    _ = mem.length := by rw [strnlen, ← List.length_append, content, h]

theorem take_strnlen (mem : Bytes) : mem.take (strnlen mem) = content mem :=
  (List.prefix_iff_eq_take.mp (List.takeWhile_prefix _)).symm

theorem drop_eq_content_append {mem : Bytes} {i : Nat} (h : i ≤ strnlen mem) :
    mem.drop i = (content mem).drop i ++ mem.drop (strnlen mem) := by
  have hsplit : mem = content mem ++ mem.drop (strnlen mem) := by
    rw [← take_strnlen, List.take_append_drop]
  conv_lhs => rw [hsplit, List.drop_append_of_le_length h]

/-- What follows the content starts with a NUL, if anything follows. -/
theorem content_drop_strnlen (mem : Bytes) : content (mem.drop (strnlen mem)) = [] := by
  rcases eq_content_append mem with ⟨_, h⟩ | ⟨b, h⟩
  · rw [strnlen, ← h, List.drop_length]
    rfl
  · have hdrop : mem.drop (strnlen mem) =
        (content mem ++ 0 :: b).drop (content mem).length := by
      rw [← h]
      rfl
    rw [hdrop, List.drop_left]
    rfl

/-- What is left of the content from inside it. -/
theorem content_drop {mem : Bytes} {i : Nat} (h : i ≤ strnlen mem) :
    content (mem.drop i) = (content mem).drop i := by
  have h0 : (0 : UInt8) ∉ (content mem).drop i := fun hm =>
    zero_not_mem_content mem (List.mem_of_mem_drop hm)
  rw [drop_eq_content_append h, content_append h0, content_drop_strnlen, List.append_nil]

/-- The text ends where the block becomes zero. -/
theorem strnlen_le_of_zero {mem : Bytes} {k : Nat} (h : ∀ x ∈ mem.drop k, x = 0) :
    strnlen mem ≤ k := by
  by_contra hlt
  have hne : content (mem.drop k) ≠ [] := by
    rw [content_drop (by omega)]
    intro hnil
    exact hlt (List.drop_eq_nil_iff.mp hnil)
  obtain ⟨x, hx⟩ := List.exists_mem_of_ne_nil _ hne
  have hzero : x = 0 := h x ((List.takeWhile_subset _) hx)
  exact zero_not_mem_content _ (hzero ▸ hx)

/-- The NULs of a block lie behind its content. -/
theorem zero_mem_drop_iff {mem : Bytes} {i : Nat} (h : i ≤ strnlen mem) :
    0 ∈ mem.drop i ↔ 0 ∈ mem := by
  refine ⟨List.mem_of_mem_drop, fun hm => ?_⟩
  rw [drop_eq_content_append h, List.mem_append]
  rw [← List.take_append_drop (strnlen mem) mem, List.mem_append] at hm
  refine Or.inr (hm.resolve_left fun hm => ?_)
  rw [take_strnlen] at hm
  exact zero_not_mem_content mem hm

/-- `strlen` from inside the content counts the rest of the content. -/
theorem strlen_drop {mem : Bytes} {i : Nat} (h : i ≤ strnlen mem) :
    strlen (mem.drop i) = if 0 ∈ mem then some (strnlen mem - i) else none := by
  have hlen : strnlen (mem.drop i) = strnlen mem - i := by
    rw [strnlen, content_drop h, List.length_drop]
    rfl
  simp only [strlen, zero_mem_drop_iff h, hlen]

/-! ### Searching -/

/-- The first occurrence is found, whatever follows it in the block. -/
theorem strstrFrom_append {w : Bytes} (hw : w ≠ []) : ∀ {a : Bytes} (b : Bytes) (i : Nat),
    (0 : UInt8) ∉ a → w <:+: a → ∃ j, strstrFrom w (a ++ b) i = .found (i + j) ∧
      strstrFrom w a i = .found (i + j) ∧ j + w.length ≤ a.length ∧ w <+: a.drop j
  | [], b, i, _, h => absurd (List.infix_nil.mp h) hw
  | x :: xs, b, i, h0, h => by
    by_cases hp : w <+: x :: xs
    · have hp' : w <+: x :: (xs ++ b) := hp.trans (List.prefix_append (x :: xs) b)
      exact ⟨0, by simp [strstrFrom, hp'], by simp [strstrFrom, hp],
        by simpa using hp.length_le, hp⟩
    · have hin : w <:+: xs := (List.infix_cons_iff.mp h).resolve_left hp
      obtain ⟨j, h₁, h₂, hlen, hd⟩ := strstrFrom_append hw b (i + 1)
        (fun h => h0 (List.mem_cons_of_mem _ h)) hin
      have hx : x ≠ 0 := fun hx => h0 (hx ▸ List.mem_cons_self)
      -- what follows cannot complete an occurrence at this place: `w` would
      -- have to end inside `a`
      have hp' : ¬ w <+: x :: (xs ++ b) := by
        intro hp'
        have hlen' : w.length ≤ (x :: xs).length := by
          rw [List.length_cons]
          omega
        exact hp (List.prefix_of_prefix_length_le hp' (List.prefix_append (x :: xs) b) hlen')
      refine ⟨j + 1, ?_, ?_, ?_, by simpa using hd⟩
      · simp only [List.cons_append, strstrFrom, if_neg hp', if_neg hx, h₁, Scan.found.injEq]
        omega
      · simp only [strstrFrom, if_neg hp, if_neg hx, h₂, Scan.found.injEq]
        omega
      · rw [List.length_cons]
        omega

/-- Without a NUL and without an occurrence the scan leaves the block. -/
theorem strstrFrom_overrun {w : Bytes} : ∀ {a : Bytes} (i : Nat),
    (0 : UInt8) ∉ a → ¬ w <:+: a → strstrFrom w a i = .overrun
  | [], _, _, _ => rfl
  | x :: xs, i, h0, h => by
    rw [List.infix_cons_iff, not_or] at h
    have hx : x ≠ 0 := fun hx => h0 (hx ▸ List.mem_cons_self)
    rw [strstrFrom, if_neg h.1, if_neg hx]
    exact strstrFrom_overrun (i + 1) (fun h' => h0 (List.mem_cons_of_mem _ h')) h.2

/-- Without an occurrence the scan stops at the NUL. -/
theorem strstrFrom_absent {w : Bytes} (hw : w ≠ []) (h0w : (0 : UInt8) ∉ w) :
    ∀ {a : Bytes} (b : Bytes) (i : Nat), (0 : UInt8) ∉ a → ¬ w <:+: a →
      strstrFrom w (a ++ 0 :: b) i = .absent
  | [], b, i, _, _ => by
    have hp : ¬ w <+: 0 :: b := by
      intro hp
      cases w with
      | nil => exact hw rfl
      | cons x w =>
        obtain ⟨rfl, _⟩ := List.cons_prefix_cons.mp hp
        exact h0w List.mem_cons_self
    rw [List.nil_append, strstrFrom, if_neg hp, if_pos rfl]
  | x :: xs, b, i, h0, h => by
    rw [List.infix_cons_iff, not_or] at h
    have hx : x ≠ 0 := fun hx => h0 (hx ▸ List.mem_cons_self)
    have hp : ¬ w <+: x :: (xs ++ 0 :: b) := by
      intro hp
      rcases Nat.lt_or_ge (x :: xs).length w.length with hlen | hlen
      · -- an occurrence that goes on behind `a` has the NUL in it
        have hsplit : (x :: xs ++ [0]) <+: x :: (xs ++ 0 :: b) := ⟨b, by simp⟩
        have hlen' : (x :: xs ++ [0]).length ≤ w.length := by
          rw [List.length_append]
          exact hlen
        have hin := List.prefix_of_prefix_length_le hsplit hp hlen'
        exact h0w (hin.subset (by simp))
      · exact h.1 (List.prefix_of_prefix_length_le hp ⟨0 :: b, rfl⟩ hlen)
    rw [List.cons_append, strstrFrom, if_neg hp, if_neg hx]
    exact strstrFrom_absent hw h0w b (i + 1) (fun h' => h0 (List.mem_cons_of_mem _ h')) h.2

/-! ### Storing -/

theorem overwrite_length {mem : Bytes} {off : Nat} {data : Bytes}
    (h : off + data.length ≤ mem.length) : (overwrite mem off data).length = mem.length := by
  simp only [overwrite, List.length_append, List.length_take, List.length_drop]
  omega

end CString
