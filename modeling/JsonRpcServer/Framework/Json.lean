import JsonRpcServer.Framework.Bytes
import Mathlib.Algebra.Order.Field.Rat
import Mathlib.Data.List.Chain

/-! # JSON Texts

  The grammar of JSON as a relation between texts and values. Strings are
  byte strings in UTF-8; a byte that is not part of an escape stands for
  itself.

  An object is the list of its members in the order of the text.
  `Value.get?` reads it the way decoders do: the last member of a name
  counts.
-/

namespace Json

open Bytes

/-! ### Values -/

inductive Value where
  | null
  | bool (b : Bool)
  | num (q : ℚ)
  | str (s : Bytes)
  | arr (vs : List Value)
  | obj (ms : List (Bytes × Value))

/-- The member of this name: the last one. -/
def Value.get? (key : Bytes) : Value → Option Value
  | .obj ms => ms.reverse.lookup key
  | _ => none

/-! ### Grammar -/

/-- White space. -/
def Ws (w : Bytes) : Prop := ∀ b ∈ w, b = 32 ∨ b = 9 ∨ b = 10 ∨ b = 13

/-- What a one-letter escape stands for. -/
def escaped : UInt8 → Option UInt8
  | 34 => some 34
  | 92 => some 92
  | 47 => some 47
  | 98 => some 8
  | 102 => some 12
  | 110 => some 10
  | 114 => some 13
  | 116 => some 9
  | _ => none

/-- Value of a hexadecimal digit. -/
def hexDigit (b : UInt8) : Option Nat :=
  if 48 ≤ b ∧ b ≤ 57 then some (b.toNat - 48)
  else if 65 ≤ b ∧ b ≤ 70 then some (b.toNat - 55)
  else if 97 ≤ b ∧ b ≤ 102 then some (b.toNat - 87)
  else none

/-- Four hexadecimal digits and their value. -/
structure Hex (h : Bytes) (v : Nat) : Prop where
  four : h.length = 4
  digits : ∀ b ∈ h, (hexDigit b).isSome
  value : v = h.foldl (fun v b => 16 * v + (hexDigit b).getD 0) 0

/-- The code point of a surrogate pair. -/
def surrogates (hi lo : Nat) : Nat := 0x10000 + (hi - 0xD800) * 0x400 + (lo - 0xDC00)

/-- A code point in UTF-8. -/
def utf8 (c : Nat) : Bytes := (String.singleton (Char.ofNat c)).toUTF8.toList

/-- A surrogate that belongs to no pair, in the form of UTF-8. -/
def loneSurrogate (v : Nat) : Bytes :=
  [UInt8.ofNat (0xE0 + v / 0x1000), UInt8.ofNat (0x80 + v / 0x40 % 0x40),
    UInt8.ofNat (0x80 + v % 0x40)]

/-- The escape of a low surrogate comes first. -/
def LowAhead (t : Bytes) : Prop :=
  ∃ l w u, t = 92 :: 117 :: (l ++ u) ∧ Hex l w ∧ 0xDC00 ≤ w ∧ w ≤ 0xDFFF

/-- The inside of a string, with the string it stands for. -/
inductive Chars : Bytes → Bytes → Prop where
  | nil : Chars [] []
  | plain {b : UInt8} {t s : Bytes} (hb : 32 ≤ b ∧ b ≠ 34 ∧ b ≠ 92) (h : Chars t s) :
      Chars (b :: t) (b :: s)
  | escape {c d : UInt8} {t s : Bytes} (hc : escaped c = some d) (h : Chars t s) :
      Chars (92 :: c :: t) (d :: s)
  | unicode {h t s : Bytes} {v : Nat} (hv : Hex h v)
      (hr : v < 0xD800 ∨ 0xDFFF < v) (ht : Chars t s) :
      Chars (92 :: 117 :: (h ++ t)) (utf8 v ++ s)
  | pair {h l t s : Bytes} {v w : Nat} (hv : Hex h v) (hw : Hex l w)
      (hhi : 0xD800 ≤ v ∧ v ≤ 0xDBFF) (hlo : 0xDC00 ≤ w ∧ w ≤ 0xDFFF) (ht : Chars t s) :
      Chars (92 :: 117 :: (h ++ 92 :: 117 :: (l ++ t))) (utf8 (surrogates v w) ++ s)
  | lone {h t s : Bytes} {v : Nat} (hv : Hex h v) (hr : 0xD800 ≤ v ∧ v ≤ 0xDFFF)
      (hlow : v ≤ 0xDBFF → ¬ LowAhead t) (ht : Chars t s) :
      Chars (92 :: 117 :: (h ++ t)) (loneSurrogate v ++ s)

/-- A string with its quotes. -/
def quoted (t : Bytes) : Bytes := 34 :: (t ++ [34])

/-- The part of a number in front of the point. -/
def IntPart (ds : Bytes) : Prop := Digits ds ∧ (ds.head? = some 48 → ds = [48])

/-- The fraction of a number: its text and its digits. -/
inductive Fraction : Bytes → Bytes → Prop where
  | none : Fraction [] []
  | some {ds : Bytes} (h : Digits ds) : Fraction (46 :: ds) ds

/-- The exponent of a number. -/
inductive Exponent : Bytes → Int → Prop where
  | none : Exponent [] 0
  | plain {e : UInt8} {ds : Bytes} (he : e = 101 ∨ e = 69) (h : Digits ds) :
      Exponent (e :: ds) (digitsValue ds)
  | plus {e : UInt8} {ds : Bytes} (he : e = 101 ∨ e = 69) (h : Digits ds) :
      Exponent (e :: 43 :: ds) (digitsValue ds)
  | minus {e : UInt8} {ds : Bytes} (he : e = 101 ∨ e = 69) (h : Digits ds) :
      Exponent (e :: 45 :: ds) (-digitsValue ds)

/-- A number without its sign. -/
inductive Magnitude : Bytes → ℚ → Prop where
  | mk {ip f fp x : Bytes} {e : Int} (hi : IntPart ip) (hf : Fraction f fp) (hx : Exponent x e) :
      Magnitude (ip ++ f ++ x) (digitsValue (ip ++ fp) * (10 : ℚ) ^ (e - fp.length))

/-- A number. -/
inductive Number : Bytes → ℚ → Prop where
  | pos {t : Bytes} {q : ℚ} (h : Magnitude t q) : Number t q
  | neg {t : Bytes} {q : ℚ} (h : Magnitude t q) : Number (45 :: t) (-q)

/-- A value with the white space around it. -/
structure Part where
  before : Bytes
  text : Bytes
  value : Value
  after : Bytes

def Part.bytes (p : Part) : Bytes := p.before ++ (p.text ++ p.after)

/-- A member of an object. -/
structure Field where
  before : Bytes
  rawKey : Bytes
  key : Bytes
  afterKey : Bytes
  part : Part

def Field.bytes (f : Field) : Bytes :=
  f.before ++ (quoted f.rawKey ++ (f.afterKey ++ 58 :: f.part.bytes))

/-- Texts separated by commas. -/
def commas : List Bytes → Bytes
  | [] => []
  | [t] => t
  | t :: u :: us => t ++ 44 :: commas (u :: us)

/-- The text of a value. -/
inductive Text : Bytes → Value → Prop where
  | null : Text (ascii "null") .null
  | bool (b : Bool) : Text (ascii (if b then "true" else "false")) (.bool b)
  | num {t : Bytes} {q : ℚ} (h : Number t q) : Text t (.num q)
  | str {t s : Bytes} (h : Chars t s) : Text (quoted t) (.str s)
  | emptyArr {w : Bytes} (hw : Ws w) : Text (91 :: (w ++ [93])) (.arr [])
  | arr {ps : List Part} (hw : ∀ p ∈ ps, Ws p.before ∧ Ws p.after)
      (h : ∀ p ∈ ps, Text p.text p.value) :
      Text (91 :: (commas (ps.map Part.bytes) ++ [93])) (.arr (ps.map Part.value))
  | emptyObj {w : Bytes} (hw : Ws w) : Text (123 :: (w ++ [125])) (.obj [])
  | obj {fs : List Field}
      (hw : ∀ f ∈ fs, Ws f.before ∧ Ws f.afterKey ∧ Ws f.part.before ∧ Ws f.part.after)
      (hk : ∀ f ∈ fs, Chars f.rawKey f.key) (h : ∀ f ∈ fs, Text f.part.text f.part.value) :
      Text (123 :: (commas (fs.map Field.bytes) ++ [125]))
        (.obj (fs.map fun f => (f.key, f.part.value)))

/-- A JSON document: a value with white space around it. -/
def Document (t : Bytes) (v : Value) : Prop :=
  ∃ w u w', Ws w ∧ Ws w' ∧ t = w ++ (u ++ w') ∧ Text u v

/-! ### Strings -/

/-- A quote inside a string follows a backslash. -/
def EscapedQuotes (t : Bytes) : Prop :=
  t.IsChain (fun x y => y = 34 → x = 92) ∧ t.head? ≠ some 34

theorem EscapedQuotes.cons {t : Bytes} (h : EscapedQuotes t) {b : UInt8} (hb : b ≠ 34) :
    EscapedQuotes (b :: t) := by
  refine ⟨List.isChain_cons.mpr ⟨?_, h.1⟩, by simpa using hb⟩
  rintro y hy rfl
  exact absurd hy h.2

theorem EscapedQuotes.append {t : Bytes} (h : EscapedQuotes t) {w : Bytes}
    (hw : ∀ b ∈ w, b ≠ 34) : EscapedQuotes (w ++ t) := by
  induction w with
  | nil => exact h
  | cons b w ih => exact (ih fun c hc => hw c (by simp [hc])).cons (hw b (by simp))

theorem Hex.ne_quote {h : Bytes} {v : Nat} (hv : Hex h v) : ∀ b ∈ h, b ≠ 34 := by
  rintro b hb rfl
  exact absurd (hv.digits 34 hb) (by decide)

theorem Chars.escapedQuotes {t s : Bytes} (h : Chars t s) : EscapedQuotes t := by
  induction h with
  | nil => exact ⟨.nil, by simp⟩
  | plain hb _ ih => exact ih.cons hb.2.1
  | @escape c _ t _ _ _ ih =>
    refine ⟨List.isChain_cons.mpr ⟨fun _ _ _ => rfl, List.isChain_cons.mpr ⟨?_, ih.1⟩⟩, by simp⟩
    rintro y hy rfl
    exact absurd hy ih.2
  | unicode hv _ _ ih | lone hv _ _ _ ih =>
    exact ((ih.append hv.ne_quote).cons (by decide)).cons (by decide)
  | pair hv hw _ _ _ ih =>
    have hlow := ((ih.append hw.ne_quote).cons (b := 117) (by decide)).cons (b := 92) (by decide)
    exact ((hlow.append hv.ne_quote).cons (by decide)).cons (by decide)

/-- Without a backslash a string stands for itself. -/
theorem Chars.eq_of_plain {t s : Bytes} (h : Chars t s) (ht : (92 : UInt8) ∉ t) : s = t := by
  induction h with
  | nil => rfl
  | plain _ _ ih => rw [ih fun h => ht (by simp [h])]
  | escape => simp at ht
  | unicode => simp at ht
  | pair => simp at ht
  | lone => simp at ht

/-- Text without quotes, backslashes and control characters stands for
    itself. -/
theorem chars_self {t : Bytes} (ht : ∀ b ∈ t, 32 ≤ b ∧ b ≠ 34 ∧ b ≠ 92) : Chars t t := by
  induction t with
  | nil => exact .nil
  | cons b t ih => exact .plain (ht b (by simp)) (ih fun c hc => ht c (by simp [hc]))

/-- A quote behind a space opens a string, so a string that ends where a
    plain one ends begins where it begins. -/
theorem quoted_inj {A P r s D : Bytes} (hr : Chars r s) (hD : (34 : UInt8) ∉ D)
    (h : A ++ 34 :: r = (P ++ [32]) ++ 34 :: D) : A = P ++ [32] ∧ r = D := by
  rcases List.append_eq_append_iff.mp h with ⟨z, hz, hr'⟩ | ⟨z, rfl, hD'⟩
  · cases z with
    | nil => exact ⟨by simpa using hz.symm, (List.cons.inj hr').2⟩
    | cons c z =>
      -- the quote would lie inside `r`, behind a space
      exfalso
      have hc : 34 = c := (List.cons.inj hr').1
      have hr₁ : r = z ++ 34 :: D := (List.cons.inj hr').2
      cases z using List.reverseRecOn with
      | nil =>
        have hlast : (32 : UInt8) = c := (List.cons.inj (List.append_inj' hz rfl).2).1
        exact absurd (hlast.trans hc.symm) (by decide)
      | append_singleton z x =>
        have hx : 32 = x := by
          have hz' : P ++ [32] = (A ++ c :: z) ++ [x] := by simpa using hz
          exact (List.cons.inj (List.append_inj' hz' rfl).2).1
        subst hx
        have hchain := hr.escapedQuotes.1
        rw [hr₁, List.append_assoc, List.singleton_append] at hchain
        have htail := (List.isChain_append.mp hchain).2.1
        exact absurd ((List.isChain_cons.mp htail).1 34 rfl rfl) (by decide)
  · cases z with
    | nil => exact ⟨List.append_nil _, (List.cons.inj hD').2.symm⟩
    | cons c z =>
      have : D = z ++ 34 :: r := (List.cons.inj hD').2
      exact absurd (by simp [this]) hD

/-! ### Numbers -/

theorem magnitude_decimal (n : Nat) : Magnitude (decimal n) n := by
  have hint : IntPart (decimal n) := by
    refine ⟨digits_decimal n, fun hhead => ?_⟩
    cases hdecimal : decimal n with
    | nil => exact absurd hdecimal (digits_decimal n).1
    | cons d ds =>
      rw [hdecimal, List.head?_cons, Option.some.injEq] at hhead
      rw [hhead] at hdecimal
      rw [hhead, decimal_of_head hdecimal]
  have hmk := Magnitude.mk hint .none .none
  simpa [digitsValue_decimal] using hmk

/-- Numerals are numbers. -/
theorem number_decimalInt (i : Int) : Number (decimalInt i) i := by
  cases i with
  | ofNat n => exact .pos (magnitude_decimal n)
  | negSucc n =>
    have hcast : ((Int.negSucc n : Int) : ℚ) = -((n + 1 : Nat) : ℚ) := by
      rw [Int.cast_negSucc]
    rw [hcast]
    exact .neg (magnitude_decimal (n + 1))

/-! ### The last member of an object -/

theorem ws_eq_nil_of_concat {A w P : Bytes} {b : UInt8} (hw : Ws w)
    (hb : b ≠ 32 ∧ b ≠ 9 ∧ b ≠ 10 ∧ b ≠ 13) (h : A ++ w = P ++ [b]) : w = [] := by
  cases w using List.reverseRecOn with
  | nil => rfl
  | append_singleton w x =>
    rw [← List.append_assoc] at h
    obtain rfl : x = b := (List.cons.inj (List.append_inj' h rfl).2).1
    have := hw x (by simp)
    simp_all

/-- The last symbol is a digit. -/
def EndsInDigit (t : Bytes) : Prop := ∃ a d, t = a ++ [d] ∧ isDigit d

theorem EndsInDigit.append {t : Bytes} (h : EndsInDigit t) (w : Bytes) : EndsInDigit (w ++ t) := by
  obtain ⟨a, d, rfl, hd⟩ := h
  exact ⟨w ++ a, d, by rw [List.append_assoc], hd⟩

theorem endsInDigit_of_digits {ds : Bytes} (h : Digits ds) : EndsInDigit ds := by
  cases ds using List.reverseRecOn with
  | nil => exact absurd rfl h.1
  | append_singleton a d => exact ⟨a, d, rfl, h.2 d (by simp)⟩

theorem Number.endsInDigit {t : Bytes} {q : ℚ} (h : Number t q) : EndsInDigit t := by
  have hmagnitude : ∀ {t q}, Magnitude t q → EndsInDigit t := by
    rintro _ _ ⟨hi, hf, hx⟩
    cases hx with
    | none =>
      rw [List.append_nil]
      cases hf with
      | none =>
        rw [List.append_nil]
        exact endsInDigit_of_digits hi.1
      | some hds => exact ((endsInDigit_of_digits hds).append [46]).append _
    | plain _ hds => exact ((endsInDigit_of_digits hds).append [_]).append _
    | plus _ hds | minus _ hds => exact ((endsInDigit_of_digits hds).append [_, _]).append _
  cases h with
  | pos h => exact hmagnitude h
  | neg h => exact (hmagnitude h).append [45]

/-- Only strings end in a quote. -/
theorem Text.str_of_quote {t P : Bytes} {v : Value} (h : Text t v) (ht : t = P ++ [34]) :
    ∃ r s, t = quoted r ∧ Chars r s ∧ v = .str s := by
  have hlast : t.getLast? = some 34 := by rw [ht, List.getLast?_concat]
  cases h with
  | null => exact absurd hlast (by decide)
  | bool b => cases b <;> exact absurd hlast (by decide)
  | num h =>
    obtain ⟨a, d, rfl, hd⟩ := h.endsInDigit
    rw [List.getLast?_concat, Option.some.injEq] at hlast
    rw [hlast] at hd
    exact absurd hd (by decide)
  | str h => exact ⟨_, _, rfl, h, rfl⟩
  | emptyArr | arr | emptyObj | obj =>
    rw [← List.cons_append, List.getLast?_concat] at hlast
    exact absurd hlast (by decide)

theorem Text.ne_nil {t : Bytes} {v : Value} (h : Text t v) : t ≠ [] := by
  cases h with
  | null => decide
  | bool b => cases b <;> decide
  | num h =>
    obtain ⟨a, d, rfl, _⟩ := h.endsInDigit
    simp
  | str | emptyArr | arr | emptyObj | obj => simp [quoted]

theorem commas_concat (t : Bytes) : ∀ ts : List Bytes, ∃ pre, commas (ts ++ [t]) = pre ++ t
  | [] => ⟨[], rfl⟩
  | [u] => ⟨u ++ [44], by simp [commas]⟩
  | u :: u' :: us => by
    obtain ⟨pre, h⟩ := commas_concat t (u' :: us)
    exact ⟨u ++ 44 :: pre, by simpa [commas] using h⟩

/-- What stands before the last comma-free part of an object text. -/
theorem Text.last_field {X : Bytes} {ms : List (Bytes × Value)}
    (h : Text (123 :: (X ++ [125])) (.obj ms)) (hX : ¬ Ws X) :
    ∃ (init : List (Bytes × Value)) (pre : Bytes) (f : Field),
      ms = init ++ [(f.key, f.part.value)] ∧ X = pre ++ f.bytes ∧ Ws f.afterKey ∧
      Ws f.part.before ∧ Ws f.part.after ∧ Chars f.rawKey f.key ∧
        Text f.part.text f.part.value := by
  generalize ht : 123 :: (X ++ [125]) = t at h
  generalize hv : Value.obj ms = v at h
  cases h with
  | emptyObj hw =>
    have := (List.append_inj' (List.cons.inj ht).2 rfl).1
    exact absurd (this ▸ hw) hX
  | @obj fs hw hk hf =>
    obtain rfl := (List.append_inj' (List.cons.inj ht).2 rfl).1
    obtain rfl := Value.obj.inj hv
    -- the last field is the one behind all commas between fields
    cases fs using List.reverseRecOn with
    | nil => exact absurd (fun b hb => by cases hb) hX
    | append_singleton fs f =>
      obtain ⟨pre, hpre⟩ := commas_concat f.bytes (fs.map Field.bytes)
      obtain ⟨_, hw₁, hw₂, hw₃⟩ := hw f (by simp)
      exact ⟨_, pre, f, by rw [List.map_append]; rfl, by simpa using hpre, hw₁, hw₂, hw₃,
        hk f (by simp), hf f (by simp)⟩
  | _ => simp at hv

theorem Text.eq_of_obj {t : Bytes} {ms : List (Bytes × Value)} (h : Text t (.obj ms)) :
    ∃ X, t = 123 :: (X ++ [125]) := by
  generalize hv : Value.obj ms = v at h
  cases h with
  | emptyObj | obj => exact ⟨_, rfl⟩
  | _ => cases hv

/-- A member with plain texts at the end of a field: its key and its value
    are what they look like. -/
theorem Field.eq_of_plain {A P key D : Bytes} {f : Field} (hw₁ : Ws f.afterKey)
    (hw₂ : Ws f.part.before) (hw₃ : Ws f.part.after) (hk : Chars f.rawKey f.key)
    (ht : Text f.part.text f.part.value) (hkey : (34 : UInt8) ∉ key ∧ (92 : UInt8) ∉ key)
    (hD : (34 : UInt8) ∉ D ∧ (92 : UInt8) ∉ D)
    (h : A ++ f.bytes = P ++ (32 :: (quoted key ++ (58 :: 32 :: quoted D)))) :
    f.key = key ∧ f.part.value = .str D := by
  have hcolon : ∀ {w : Bytes}, Ws w → (58 : UInt8) ∉ w := by
    intro w hw hmem
    rcases hw 58 hmem with h | h | h | h <;> exact absurd h (by decide)
  -- the value ends in a quote, so it is a string, and white space follows nowhere
  have hafter : f.part.after = [] := by
    refine ws_eq_nil_of_concat (A := A ++ f.before ++ quoted f.rawKey ++ f.afterKey ++
      58 :: f.part.before ++ f.part.text) (P := P ++ (32 :: (quoted key ++ (58 :: 32 :: 34 :: D))))
      (b := 34) hw₃ (by decide) ?_
    simpa [Field.bytes, Part.bytes, quoted] using h
  rw [Field.bytes, Part.bytes, hafter, List.append_nil] at h
  have hquote : ∃ a, f.part.text = a ++ [34] := by
    cases htext : f.part.text using List.reverseRecOn with
    | nil => exact absurd htext ht.ne_nil
    | append_singleton a x =>
      refine ⟨a, ?_⟩
      have hcut : (A ++ f.before ++ quoted f.rawKey ++ f.afterKey ++ 58 :: f.part.before ++ a) ++
          [x] = (P ++ (32 :: (quoted key ++ (58 :: 32 :: 34 :: D)))) ++ [34] := by
        simpa [quoted, htext] using h
      rw [(List.cons.inj (List.append_inj' hcut rfl).2).1]
  obtain ⟨a, ha⟩ := hquote
  obtain ⟨r, s, htext, hr, hvalue⟩ := ht.str_of_quote ha
  rw [htext] at h
  -- the value starts at the quote in front of `D`
  have hinner : (A ++ f.before ++ quoted f.rawKey ++ f.afterKey ++ 58 :: f.part.before) ++
      34 :: r = ((P ++ (32 :: (quoted key ++ [58]))) ++ [32]) ++ 34 :: D := by
    refine (List.append_left_inj [34]).mp ?_
    simpa [quoted] using h
  obtain ⟨hfront, rfl⟩ := quoted_inj hr hD.1 hinner
  have hs := hr.eq_of_plain hD.2
  -- the colon, and the key in front of it
  have hcut : (A ++ f.before ++ quoted f.rawKey ++ f.afterKey) ++ 58 :: f.part.before =
      (P ++ (32 :: quoted key)) ++ 58 :: [32] := by
    simpa using hfront
  obtain ⟨hname, _⟩ := append_cons_inj (hcolon hw₂) (by decide) hcut
  have hafterKey : f.afterKey = [] := by
    refine ws_eq_nil_of_concat (A := A ++ f.before ++ quoted f.rawKey)
      (P := P ++ (32 :: 34 :: key)) (b := 34) hw₁ (by decide) ?_
    simpa [quoted] using hname
  have hkeyInner : (A ++ f.before) ++ 34 :: f.rawKey = (P ++ [32]) ++ 34 :: key := by
    rw [hafterKey, List.append_nil] at hname
    refine (List.append_left_inj [34]).mp ?_
    simpa [quoted] using hname
  obtain ⟨_, hraw⟩ := quoted_inj hk hkey.1 hkeyInner
  rw [hraw] at hk
  exact ⟨hk.eq_of_plain hkey.2, by rw [hvalue, hs]⟩

/-- **The last member counts**: an object text that ends in a member with a
    plain string decodes to an object with that string under that name. -/
theorem Document.get?_last {P key D : Bytes} {ms : List (Bytes × Value)}
    (hkey : (34 : UInt8) ∉ key ∧ (92 : UInt8) ∉ key) (hD : (34 : UInt8) ∉ D ∧ (92 : UInt8) ∉ D)
    (h : Document (P ++ (32 :: (quoted key ++ (58 :: 32 :: quoted D))) ++ [125]) (.obj ms)) :
    (Value.obj ms).get? key = some (.str D) := by
  obtain ⟨w, u, w', _, hw', hdoc, hu⟩ := h
  obtain ⟨X, rfl⟩ := hu.eq_of_obj
  rw [← List.append_assoc] at hdoc
  obtain rfl := ws_eq_nil_of_concat hw' (by decide) hdoc.symm
  have hX : (w ++ [123]) ++ X = P ++ (32 :: (quoted key ++ (58 :: 32 :: quoted D))) := by
    refine (List.append_left_inj [125]).mp ?_
    simpa using hdoc.symm
  have hlast : P ++ (32 :: (quoted key ++ (58 :: 32 :: quoted D))) =
      (P ++ (32 :: (quoted key ++ (58 :: 32 :: 34 :: D)))) ++ [34] := by
    simp [quoted]
  -- the text ends in a quotation mark, so the object has a member
  have hnot : ¬ Ws X := by
    intro hws
    rw [hlast] at hX
    obtain rfl := ws_eq_nil_of_concat hws (by decide) hX
    rw [List.append_nil] at hX
    exact absurd (List.cons.inj (List.append_inj' hX rfl).2).1 (by decide)
  obtain ⟨init, pre, f, rfl, rfl, hw₁, hw₂, hw₃, hk, ht⟩ := hu.last_field hnot
  rw [← List.append_assoc] at hX
  obtain ⟨hkey', hvalue⟩ := Field.eq_of_plain hw₁ hw₂ hw₃ hk ht hkey hD hX
  simp [Value.get?, hkey', hvalue]

end Json
