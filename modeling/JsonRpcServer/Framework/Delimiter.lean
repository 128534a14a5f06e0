import Mathlib.Data.List.Basic
import Mathlib.Data.List.Infix
import Mathlib.Tactic.Common

/-! # Delimited Texts

  Texts that are written one behind the other are told apart when each of
  them shows where it ends: by a delimiter that does not occur in it, or
  because an element can be cancelled from the front of what follows.
-/

namespace Delimiter

variable {α β : Type*}

/-- The first symbol of the text occurs once in it. -/
def Delimits : List α → Prop
  | [] => False
  | c :: d => c ∉ d

instance [DecidableEq α] : ∀ d : List α, Decidable (Delimits d)
  | [] => inferInstanceAs (Decidable False)
  | c :: d => inferInstanceAs (Decidable (c ∉ d))

/-- A delimiter does not begin inside the text in front of another one. -/
theorem Delimits.eq_nil {d x y z : List α} (hd : Delimits d) (hz : ¬ d <+: z)
    (h : d ++ x = z ++ (d ++ y)) : z = [] := by
  cases d with
  | nil => exact absurd hd id
  | cons c d =>
    cases z with
    | nil => rfl
    | cons c₁ z =>
      rw [List.cons_append, List.cons_append, List.cons.injEq] at h
      obtain ⟨rfl, h⟩ := h
      rcases List.append_eq_append_iff.mp h with ⟨w, rfl, _⟩ | ⟨w, rfl, hw⟩
      · -- the first delimiter ends inside the text
        exact absurd (List.cons_prefix_cons.mpr ⟨rfl, List.prefix_append d w⟩) hz
      · cases w with
        | nil => exact absurd (by simp) hz
        | cons c₂ w =>
          -- the second one begins inside the first one
          obtain ⟨rfl, _⟩ := List.cons.inj hw
          exact absurd (List.mem_append_right z List.mem_cons_self) hd

/-- A text ends at the first delimiter behind it. -/
theorem Delimits.append_inj {d a b x y : List α} (hd : Delimits d) (ha : ¬ d <:+: a)
    (hb : ¬ d <:+: b) (h : a ++ (d ++ x) = b ++ (d ++ y)) : a = b ∧ x = y := by
  rcases List.append_eq_append_iff.mp h with ⟨z, rfl, hz⟩ | ⟨z, rfl, hz⟩
  · have hprefix : ¬ d <+: z := fun hp =>
      hb (hp.isInfix.trans (List.suffix_append a z).isInfix)
    obtain rfl := hd.eq_nil hprefix hz
    exact ⟨(List.append_nil a).symm, List.append_cancel_left hz⟩
  · have hprefix : ¬ d <+: z := fun hp =>
      ha (hp.isInfix.trans (List.suffix_append b z).isInfix)
    obtain rfl := hd.eq_nil hprefix hz
    exact ⟨List.append_nil b, (List.append_cancel_left hz).symm⟩

/-- Elements that can be cancelled from the front, up to a text that none of
    them begins, are determined by the text of all of them. -/
theorem flatten_map_inj {f : α → List β} {P : α → Prop} {t : List β}
    (hcancel : ∀ a b x y, P a → P b → f a ++ x = f b ++ y → a = b ∧ x = y)
    (hend : ∀ a x, P a → f a ++ x ≠ t) : ∀ {l l' : List α}, (∀ a ∈ l, P a) → (∀ a ∈ l', P a) →
      (l.map f).flatten ++ t = (l'.map f).flatten ++ t → l = l' := by
  intro l
  induction l with
  | nil =>
    intro l' _ hl' h
    cases l' with
    | nil => rfl
    | cons b l' =>
      rw [List.map_cons, List.flatten_cons, List.append_assoc] at h
      exact absurd h.symm (hend b _ (hl' b List.mem_cons_self))
  | cons a l ih =>
    intro l' hl hl' h
    have ha := hl a List.mem_cons_self
    rw [List.map_cons, List.flatten_cons, List.append_assoc] at h
    cases l' with
    | nil => exact absurd h (hend a _ ha)
    | cons b l' =>
      rw [List.map_cons, List.flatten_cons, List.append_assoc] at h
      obtain ⟨rfl, hrest⟩ := hcancel a b _ _ ha (hl' b List.mem_cons_self) h
      rw [ih (fun a ha => hl a (List.mem_cons_of_mem _ ha))
        (fun b hb => hl' b (List.mem_cons_of_mem _ hb)) hrest]

/-- Texts joined by a symbol that occurs in none of them are determined by
    the joined text. -/
theorem intercalate_inj [DecidableEq α] {c : α} {l l' : List (List α)} (hne : l ≠ [])
    (hne' : l' ≠ []) (hl : ∀ a ∈ l, c ∉ a) (hl' : ∀ a ∈ l', c ∉ a)
    (h : [c].intercalate l = [c].intercalate l') : l = l' := by
  rw [← List.splitOn_intercalate c hl hne, h, List.splitOn_intercalate c hl' hne']

end Delimiter
