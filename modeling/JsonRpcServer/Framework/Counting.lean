import Mathlib.Tactic.Common
import Mathlib.Algebra.GroupWithZero.Nat
import Mathlib.Data.List.Basic

/-! # Counting in Lists

  Parties and resources are kept in lists, and an invariant counts those of
  a kind. A change of one entry adds to the count what the new entry is
  worth and takes away what the old one was worth.
-/

namespace Counting

open List

variable {α : Type}

/-- What an entry adds to a count. -/
def worth (p : α → Bool) (x : α) : Nat := if p x then 1 else 0

theorem worth_decide (P : α → Prop) [DecidablePred P] (x : α) :
    worth (fun x => P x) x = if P x then 1 else 0 := by
  unfold worth
  simp only [decide_eq_true_eq]

theorem worth_le_countP {p : α → Bool} {l : List α} {x : α} (h : x ∈ l) :
    worth p x ≤ l.countP p := by
  unfold worth
  split
  · next hx => exact countP_pos_iff.mpr ⟨x, h, hx⟩
  · exact Nat.zero_le _

/-- Changing one entry. -/
theorem countP_set_add {l : List α} {i : Nat} {x : α} (h : l[i]? = some x) (y : α)
    (p : α → Bool) : (l.set i y).countP p + worth p x = l.countP p + worth p y := by
  obtain ⟨hlt, hget⟩ := List.getElem?_eq_some_iff.mp h
  -- the old entry was counted if it was worth something
  have hle := worth_le_countP (p := p) (mem_of_getElem? h)
  rw [countP_set hlt, hget]
  unfold worth at hle ⊢
  omega

/-- Adding one entry. -/
theorem countP_snoc (l : List α) (x : α) (p : α → Bool) :
    (l ++ [x]).countP p = l.countP p + worth p x := by
  rw [countP_append, countP_singleton]
  rfl

/-- Changing one entry of a list that is summed up. -/
theorem sum_set_add {l : List α} {i : Nat} {x : α} (h : l[i]? = some x) (y : α) (f : α → Nat) :
    ((l.set i y).map f).sum + f x = (l.map f).sum + f y := by
  induction l generalizing i with
  | nil => cases h
  | cons z l ih =>
    cases i with
    | zero =>
      have hz : z = x := by simpa using h
      rw [set_cons_zero, map_cons, map_cons, sum_cons, sum_cons, hz]
      omega
    | succ i =>
      have hrest := ih (i := i) (by simpa using h)
      rw [set_cons_succ, map_cons, map_cons, sum_cons, sum_cons]
      omega

/-- Two entries that are counted, in two places. -/
theorem two_le_countP {l : List α} {i j : Nat} {x y : α} {p : α → Bool} (hij : i ≠ j)
    (hi : l[i]? = some x) (hj : l[j]? = some y) (hx : p x) (hy : p y) : 2 ≤ l.countP p := by
  induction l generalizing i j with
  | nil => simp at hi
  | cons z l ih =>
    cases i with
    | zero =>
      cases j with
      | zero => exact absurd rfl hij
      | succ j =>
        have hz : z = x := by simpa using hi
        have hpos : 0 < l.countP p :=
          countP_pos_iff.mpr ⟨y, mem_of_getElem? (by simpa using hj), hy⟩
        rw [hz, countP_cons_of_pos hx]
        omega
    | succ i =>
      cases j with
      | zero =>
        have hz : z = y := by simpa using hj
        have hpos : 0 < l.countP p :=
          countP_pos_iff.mpr ⟨x, mem_of_getElem? (by simpa using hi), hx⟩
        rw [hz, countP_cons_of_pos hy]
        omega
      | succ j =>
        have hi' : l[i]? = some x := by simpa using hi
        have hj' : l[j]? = some y := by simpa using hj
        have := ih (fun h => hij (congrArg Nat.succ h)) hi' hj'
        rw [countP_cons]
        omega

end Counting
