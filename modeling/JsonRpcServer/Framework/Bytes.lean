import Mathlib.Algebra.Group.Int.Defs
import Mathlib.Algebra.Group.Nat.Defs
import Mathlib.Data.List.Infix
import Mathlib.Data.List.TakeWhile
import Mathlib.Tactic.Common

/-! # Byte Strings

  Byte strings as lists, with the few notions the models share: ASCII
  literals, decimal numerals in both directions, and the position of a
  fixed text inside another one.
-/

/-- Byte strings. -/
abbrev Bytes := List UInt8

namespace Bytes

/-- The bytes of an ASCII literal. -/
def ascii (s : String) : Bytes := s.toList.map fun c => UInt8.ofNat c.toNat

/-- The line end `\r\n`. -/
def crlf : Bytes := ascii "\r\n"

/-- Two line ends in a row: the end of an HTTP header section. -/
def crlf2 : Bytes := ascii "\r\n\r\n"

/-- An ASCII digit. -/
def isDigit (b : UInt8) : Bool := 48 ≤ b && b ≤ 57

/-- Statements about all bytes of a text are decided along the text, not over
    all 256 values. -/
instance (priority := 2000) decidableBAllBytes {p : UInt8 → Prop} [DecidablePred p]
    (l : Bytes) : Decidable (∀ b ∈ l, p b) :=
  List.decidableBAll p l

/-- A non-empty run of digits. -/
def Digits (ds : Bytes) : Prop := ds ≠ [] ∧ ∀ d ∈ ds, isDigit d

instance (ds : Bytes) : Decidable (Digits ds) := inferInstanceAs (Decidable (_ ∧ _))

/-- What `\s` matches: space, and tab to carriage return. -/
def isSpace (b : UInt8) : Bool := b == 32 || (9 ≤ b && b ≤ 13)

/-- Decimal numeral of a natural number. -/
def decimal (n : Nat) : Bytes := (Nat.toDigits 10 n).map fun c => UInt8.ofNat c.toNat

/-- Decimal numeral of an integer, with a sign when it is negative. -/
def decimalInt : Int → Bytes
  | .ofNat n => decimal n
  | .negSucc n => ascii "-" ++ decimal (n + 1)

/-- Value of a digit string. -/
def digitsValue (ds : Bytes) : Nat :=
  ds.foldl (fun v d => 10 * v + (d.toNat - 48)) 0

/-! ### Numerals -/

theorem decimal_length_le_iff {n k : Nat} (hk : 0 < k) :
    (decimal n).length ≤ k ↔ n < 10 ^ k := by
  rw [decimal, List.length_map]
  exact Nat.length_toDigits_le_iff (by omega) hk

/-- Eleven characters hold every 32-bit integer. -/
theorem decimalInt_length_le {i : Int} (hlo : -2 ^ 31 ≤ i) (hhi : i < 2 ^ 31) :
    (decimalInt i).length ≤ 11 := by
  -- ten digits are enough for every magnitude up to `2 ^ 31`
  have hdec : ∀ n : Nat, n < 10 ^ 10 → (decimal n).length ≤ 10 := fun n hn =>
    (decimal_length_le_iff (by omega)).mpr hn
  cases i with
  | ofNat n =>
    have h : n < 2 ^ 31 := by
      simp only [Int.ofNat_eq_natCast] at hhi
      omega
    exact Nat.le_trans (hdec n (by omega)) (by omega)
  | negSucc n =>
    have h : n + 1 ≤ 2 ^ 31 := by omega
    have hdigits := hdec (n + 1) (by omega)
    have hsign : (ascii "-").length = 1 := by decide
    rw [decimalInt, List.length_append, hsign]
    omega

theorem isDigit_of_mem_decimal {n : Nat} {b : UInt8} (h : b ∈ decimal n) : isDigit b := by
  obtain ⟨c, hc, rfl⟩ := List.mem_map.mp h
  have hd : c.isDigit := Nat.isDigit_of_mem_toDigits (by omega) (by omega) hc
  rw [Char.isDigit_iff_toNat] at hd
  obtain ⟨h0, h9⟩ := hd
  simp only [isDigit, Bool.and_eq_true, decide_eq_true_eq, UInt8.le_iff_toNat_le,
    UInt8.toNat_ofNat']
  have h0' : (48 : UInt8).toNat = 48 := rfl
  have h9' : (57 : UInt8).toNat = 57 := rfl
  have hc0 : '0'.toNat = 48 := rfl
  have hc9 : '9'.toNat = 57 := rfl
  omega

/-- Numerals of integers consist of digits and a sign. -/
theorem mem_decimalInt {i : Int} {b : UInt8} (h : b ∈ decimalInt i) : b = 45 ∨ isDigit b := by
  cases i with
  | ofNat n => exact Or.inr (isDigit_of_mem_decimal h)
  | negSucc n =>
    rcases List.mem_append.mp h with h | h
    · exact Or.inl (by simpa [ascii] using h)
    · exact Or.inr (isDigit_of_mem_decimal h)

theorem not_mem_decimalInt {b : UInt8} (hb : b ≠ 45 ∧ isDigit b = false) (i : Int) :
    b ∉ decimalInt i := by
  intro h
  rcases mem_decimalInt h with h | h
  · exact hb.1 h
  · rw [hb.2] at h
    cases h

/-- A numeral is read back as its number. -/
theorem digitsValue_decimal (n : Nat) : digitsValue (decimal n) = n := by
  -- on digits the codes of characters and bytes agree
  have hfold : ∀ (cs : List Char) (v : Nat), (∀ c ∈ cs, c.isDigit) →
      (cs.map fun c => UInt8.ofNat c.toNat).foldl (fun v d => 10 * v + (d.toNat - 48)) v =
        Nat.ofDigitChars 10 cs v := by
    intro cs
    induction cs with
    | nil => exact fun v _ => rfl
    | cons c cs ih =>
      intro v hcs
      obtain ⟨_, h9⟩ := Char.isDigit_iff_toNat.mp (hcs c List.mem_cons_self)
      have hc9 : '9'.toNat = 57 := rfl
      have hc : (UInt8.ofNat c.toNat).toNat = c.toNat := by
        rw [UInt8.toNat_ofNat']
        omega
      rw [List.map_cons, List.foldl_cons, hc, ih _ fun d hd => hcs d (List.mem_cons_of_mem c hd)]
      rfl
  rw [digitsValue, decimal, hfold _ _ fun c hc => Nat.isDigit_of_mem_toDigits (by omega)
    (by omega) hc]
  exact Nat.ofDigitChars_toDigits (by omega) (by omega)

theorem digits_decimal (n : Nat) : Digits (decimal n) :=
  ⟨fun hnil => Nat.toDigits_ne_nil (List.map_eq_nil_iff.mp hnil), fun _ => isDigit_of_mem_decimal⟩

theorem digitsValue_lt {ds : Bytes} (h : ∀ d ∈ ds, isDigit d) :
    digitsValue ds < 10 ^ ds.length := by
  induction ds using List.reverseRecOn with
  | nil => exact Nat.one_pos
  | append_singleton ds d ih =>
    have hds := ih fun d' hd' => h d' (List.mem_append_left _ hd')
    have hd : d.toNat - 48 ≤ 9 := by
      have hdigit := h d (List.mem_append_right _ List.mem_cons_self)
      simp only [isDigit, Bool.and_eq_true, decide_eq_true_eq, UInt8.le_iff_toNat_le] at hdigit
      have h9 : (57 : UInt8).toNat = 57 := rfl
      omega
    have hvalue : digitsValue (ds ++ [d]) = 10 * digitsValue ds + (d.toNat - 48) := by
      simp [digitsValue]
    rw [hvalue, List.length_append, List.length_singleton, Nat.pow_succ]
    omega

/-- Only zero has a numeral that begins with a zero. -/
theorem decimal_of_head {n : Nat} {ds : Bytes} (h : decimal n = 48 :: ds) : ds = [] := by
  by_contra hne
  have hpos := List.length_pos_iff.mpr hne
  have hdigits : ∀ d ∈ ds, isDigit d := fun d hd =>
    isDigit_of_mem_decimal (n := n) (h ▸ List.mem_cons_of_mem 48 hd)
  -- the zero adds nothing to the value, so a shorter numeral would do
  have hvalue : n = digitsValue ds := by
    rw [← digitsValue_decimal n, h]
    simp [digitsValue]
  have hlength := (decimal_length_le_iff hpos).mpr (hvalue ▸ digitsValue_lt hdigits)
  rw [h, List.length_cons] at hlength
  omega

/-- Different integers have different numerals. -/
theorem decimalInt_injective : Function.Injective decimalInt := by
  have hdecimal : ∀ m n, decimal m = decimal n → m = n := fun m n h => by
    rw [← digitsValue_decimal m, h, digitsValue_decimal]
  -- a sign tells a negative number from the others
  have hsign : ∀ m n, decimal m ≠ ascii "-" ++ decimal n := fun m n h => by
    have hminus : (45 : UInt8) ∈ decimal m := by
      rw [h]
      exact List.mem_cons_self
    exact absurd (isDigit_of_mem_decimal hminus) (by decide)
  intro i j h
  cases i with
  | ofNat m =>
    cases j with
    | ofNat n => exact congrArg Int.ofNat (hdecimal m n h)
    | negSucc n => exact absurd h (hsign m (n + 1))
  | negSucc m =>
    cases j with
    | ofNat n => exact absurd h.symm (hsign n (m + 1))
    | negSucc n =>
      have := hdecimal (m + 1) (n + 1) (List.append_cancel_left h)
      rw [Nat.add_right_cancel this]

/-! ### A fixed text inside another -/

/-- Two texts that differ within their common length never head the same
    text. -/
theorem not_prefix_append {α : Type*} {a b : List α} (hab : ¬ a <+: b) (hba : ¬ b <+: a)
    (w : List α) : ¬ a <+: b ++ w := by
  intro h
  rcases List.prefix_or_prefix_of_prefix h (List.prefix_append b w) with h | h
  · exact hab h
  · exact hba h

/-- The text after the last symbol `c` of `a ++ c :: b`, when `a` has none,
    contains what follows any other occurrence of `c`. -/
theorem suffix_of_append_cons {α : Type*} {c : α} : ∀ {a b x y : List α},
    c ∉ a → a ++ c :: b = x ++ c :: y → y <:+ b
  | [], b, [], y, _, h => by
    simp only [List.nil_append, List.cons.injEq, true_and] at h
    exact h ▸ List.suffix_refl b
  | [], b, x :: xs, y, _, h => by
    simp only [List.nil_append, List.cons_append, List.cons.injEq] at h
    exact ⟨xs ++ [c], by rw [h.2]; simp⟩
  | a :: as, b, [], y, ha, h => by
    simp only [List.cons_append, List.nil_append, List.cons.injEq] at h
    exact absurd (h.1 ▸ List.mem_cons_self) ha
  | a :: as, b, x :: xs, y, ha, h => by
    simp only [List.cons_append, List.cons.injEq] at h
    exact suffix_of_append_cons (fun hc => ha (List.mem_cons_of_mem _ hc)) h.2

/-- A text is cut in one way only at the last `c`. -/
theorem append_cons_inj {α : Type*} {c : α} {a b x y : List α} (hb : c ∉ b) (hy : c ∉ y)
    (h : a ++ c :: b = x ++ c :: y) : a = x ∧ b = y := by
  rcases List.append_eq_append_iff.mp h with ⟨z, rfl, hz⟩ | ⟨z, rfl, hz⟩
  · cases z with
    | nil => exact ⟨(List.append_nil a).symm, (List.cons.inj hz).2⟩
    | cons d z =>
      have : b = z ++ c :: y := (List.cons.inj hz).2
      exact absurd (by simp [this]) hb
  · cases z with
    | nil => exact ⟨List.append_nil x, (List.cons.inj hz).2.symm⟩
    | cons d z =>
      have : y = z ++ c :: b := (List.cons.inj hz).2
      exact absurd (by simp [this]) hy

end Bytes
